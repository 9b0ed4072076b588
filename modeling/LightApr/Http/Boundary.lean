import LightApr.Http.Serving

/-! The request boundary against the length that the header block says. -/
namespace LightApr.Http
open LightApr.Core Lib

/-! The Content-Length lines of a header block. -/

/-- The name of a header line. -/
def lineName? (line : Bytes) : Option Bytes := (findByte colon line).map fun pos => line.take pos

/-- What stands behind the colon and the blanks. -/
def lineValue (line : Bytes) : Bytes :=
  match findByte colon line with
  | none => []
  | some pos => (line.drop (pos + 1)).dropWhile (· = space)

/-- The number a value begins with. -/
def valueLength (val : Bytes) : Nat := digitsValue (val.takeWhile isDigit)

/-- The line names Content-Length, in any case. -/
def namesLength (line : Bytes) : Bool := (lineName? line).any fun name => iequalsAscii name (ascii "Content-Length")

/-- The number that a Content-Length line gives. -/
def lengthLine? (line : Bytes) : Option Nat :=
  if namesLength line then some (valueLength (lineValue line)) else none

/-- The number that counts: the last one. -/
def announcedLength (lines : List Bytes) : Nat := (lines.filterMap lengthLine?).getLast?.getD 0

/-- The lines of the header block that ends at `headerEnd`. -/
def blockLines (buffered : Bytes) (headerEnd : Nat) : List Bytes :=
  ((buffered.take headerEnd).splitOn lf).map stripCr

/-- Digit by digit modulo 2^64 is the number modulo 2^64. -/
theorem parseLength_eq (val : Bytes) : parseLength val = valueLength val % sizeMax := by
  have hfold (ds : Bytes) (n : Nat) : ds.foldl (fun n d => (n * 10 + (d.toNat - 48)) % sizeMax) (n % sizeMax) =
      ds.foldl (fun n d => n * 10 + (d.toNat - 48)) n % sizeMax := by
    induction ds generalizing n with
    | nil => rfl
    | cons d ds ih =>
      rw [List.foldl_cons, List.foldl_cons, ← ih]
      congr 1
      rw [Nat.add_mod, Nat.mul_mod, Nat.mod_mod, ← Nat.mul_mod, ← Nat.add_mod]
  exact hfold (val.takeWhile isDigit) 0

theorem readContentLength_eq (n : Nat) (line : Bytes) :
    readContentLength n line = ((lengthLine? line).map (· % sizeMax)).getD n := by
  unfold readContentLength lengthLine? namesLength lineName? lineValue
  cases findByte colon line with
  | none => rfl
  | some pos =>
    simp only [Option.map_some, Option.any_some]
    split
    · rw [Option.map_some, Option.getD_some, parseLength_eq]
    · rfl

theorem foldl_readContentLength (lines : List Bytes) (n : Nat) :
    lines.foldl readContentLength (n % sizeMax) = (lines.filterMap lengthLine?).getLast?.getD n % sizeMax := by
  induction lines generalizing n with
  | nil => rfl
  | cons line lines ih =>
    rw [List.foldl_cons, readContentLength_eq]
    cases hl : lengthLine? line with
    | none => rw [List.filterMap_cons_none hl, ← ih n, Option.map_none, Option.getD_none]
    | some m =>
      rw [List.filterMap_cons_some hl, List.getLast?_cons, Option.getD_some, ← ih m, Option.map_some,
        Option.getD_some]

/-- The boundary is the length of header block and body, modulo 2^64. -/
theorem findRequestBoundary_eq {buffered : Bytes} {headerEnd : Nat} (h : find crlfcrlf buffered = some headerEnd) :
    findRequestBoundary buffered =
      if buffered.length < (headerEnd + 4 + announcedLength (blockLines buffered headerEnd)) % sizeMax then none
      else some ((headerEnd + 4 + announcedLength (blockLines buffered headerEnd)) % sizeMax) := by
  have hfold : (blockLines buffered headerEnd).foldl readContentLength 0 =
      announcedLength (blockLines buffered headerEnd) % sizeMax := foldl_readContentLength _ 0
  rw [findRequestBoundary, h]
  dsimp only
  rw [show ((buffered.take headerEnd).splitOn lf).map stripCr = blockLines buffered headerEnd from rfl, hfold,
    Nat.add_mod_mod]

theorem findRequestBoundary_eq_some {buffered : Bytes} {n : Nat} : findRequestBoundary buffered = some n ↔
    ∃ headerEnd, find crlfcrlf buffered = some headerEnd ∧
      (headerEnd + 4 + announcedLength (blockLines buffered headerEnd)) % sizeMax = n ∧ n ≤ buffered.length := by
  constructor
  · intro h
    cases hf : find crlfcrlf buffered with
    | none =>
      rw [findRequestBoundary, hf] at h
      cases h
    | some headerEnd =>
      rw [findRequestBoundary_eq hf] at h
      obtain ⟨hle, hn⟩ := Option.ite_none_left_eq_some.mp h
      obtain rfl := Option.some.inj hn
      exact ⟨headerEnd, rfl, rfl, Nat.le_of_not_lt hle⟩
  · rintro ⟨headerEnd, hf, rfl, hle⟩
    rw [findRequestBoundary_eq hf, if_neg (Nat.not_lt.mpr hle)]

/-- A boundary that is found lies between the end of the header block and the end of the buffer, and is
the sum of the header block and the number that the Content-Length digits are. -/
def BoundaryExact (buffered : Bytes) : Prop :=
  ∀ n, findRequestBoundary buffered = some n → ∃ headerEnd, find crlfcrlf buffered = some headerEnd ∧
    headerEnd + 4 ≤ n ∧ n ≤ buffered.length ∧ n = headerEnd + 4 + announcedLength (blockLines buffered headerEnd)

/-- The sum does not wrap where what is left of it fits in the buffer. -/
def Unwrapped (buffered : Bytes) : Prop :=
  ∀ headerEnd ∈ find crlfcrlf buffered,
    (headerEnd + 4 + announcedLength (blockLines buffered headerEnd)) % sizeMax ≤ buffered.length →
      headerEnd + 4 + announcedLength (blockLines buffered headerEnd) < sizeMax

instance (buffered : Bytes) : Decidable (Unwrapped buffered) := by
  unfold Unwrapped
  infer_instance

theorem boundaryExact_iff (buffered : Bytes) : BoundaryExact buffered ↔ Unwrapped buffered := by
  constructor
  · intro h headerEnd hf hle
    obtain ⟨e, he, -, -, hn⟩ := h _ (findRequestBoundary_eq_some.mpr ⟨headerEnd, hf, rfl, hle⟩)
    obtain rfl := Option.some.inj (hf.symm.trans he)
    rw [← hn]
    exact Nat.mod_lt _ (by decide)
  · intro h n hb
    obtain ⟨headerEnd, hf, hn, hle⟩ := findRequestBoundary_eq_some.mp hb
    have hsum := Nat.mod_eq_of_lt (h headerEnd hf (hn.trans_le hle))
    rw [hsum] at hn
    subst hn
    exact ⟨headerEnd, hf, Nat.le_add_right _ _, hle, rfl⟩

/-! What a connection takes from its input. -/

namespace HttpSession
variable {cfg : HttpConfig} {limits : HttpLimits}

/-- The bytes from which a completion may take a request. -/
def bufferAt (st : HttpSession × Shared) : Step → Bytes
  | .own (.read _ data) => st.1.requestAcc.data ++ data
  | _ => st.1.requestAcc.data

/-- Every request has been cut from the input, with its terminator at least, and no response
is without a request. -/
structure Consuming (s : HttpSession) : Prop where
  inRange : s.requestAcc.InRange
  taken : s.received = s.requests.flatten ++ s.requestAcc.data
  size : ∀ raw ∈ s.requests, 4 ≤ raw.length
  answers : s.responses.length ≤ s.requests.length

theorem Consuming.bound {s : HttpSession} (h : Consuming s) : 4 * s.responses.length ≤ s.received.length := by
  have hflat (requests : List Bytes) (hsize : ∀ raw ∈ requests, 4 ≤ raw.length) :
      4 * requests.length ≤ requests.flatten.length := by
    induction requests with
    | nil => exact Nat.le_refl 0
    | cons raw requests ih =>
      have hraw := hsize raw List.mem_cons_self
      have hrest := ih fun r hr => hsize r (List.mem_cons_of_mem raw hr)
      rw [List.length_cons, List.flatten_cons, List.length_append]
      omega
  have hall := hflat s.requests h.size
  have hanswers := h.answers
  rw [h.taken, List.length_append]
  omega

theorem consuming_start (ip : Bytes) (remote : Option Bytes) : Consuming (start (.new ip remote)) :=
  ⟨StreamAccumulator.inRange_empty, rfl, by simp [start, new], Nat.le_refl 0⟩

variable {s s' : HttpSession} {sh sh' : Shared} {env : Readings} {flow : Flow}

/-- Taking the next request from a buffer whose boundary is exact. -/
theorem Consuming.tryProcessNextRequest (h : Consuming s) (hu : Unwrapped s.requestAcc.data)
    (ht : s.tryProcessNextRequest cfg limits env sh = (s', sh', flow)) : Consuming s' := by
  unfold HttpSession.tryProcessNextRequest at ht
  cases hb : findRequestBoundary s.requestAcc.data with
  | none =>
    rw [hb] at ht
    obtain ⟨rfl, -⟩ := Prod.mk.inj ht
    exact ⟨h.inRange, h.taken, h.size, h.answers⟩
  | some boundary =>
    obtain ⟨headerEnd, -, hmin, hmax, -⟩ := (boundaryExact_iff _).mpr hu boundary hb
    have hrange := (h.inRange.consume hmax).compactIfNeeded 4096
    have htaken : s.received = (s.requests ++ [s.requestAcc.data.take boundary]).flatten ++
        ((s.requestAcc.consume boundary).compactIfNeeded 4096).data := by
      rw [StreamAccumulator.data_compactIfNeeded, StreamAccumulator.data_consume, List.flatten_concat,
        List.append_assoc, List.take_append_drop, h.taken]
    have hsize : ∀ raw ∈ s.requests ++ [s.requestAcc.data.take boundary], 4 ≤ raw.length := by
      intro raw hraw
      obtain hraw | hraw := List.mem_append.mp hraw
      · exact h.size raw hraw
      · rw [List.mem_singleton.mp hraw, List.length_take]
        omega
    rw [hb] at ht
    dsimp only at ht
    split at ht
    · obtain ⟨rfl, -⟩ := Prod.mk.inj ht
      exact ⟨hrange, htaken, hsize, Nat.le_trans h.answers (by simp)⟩
    · obtain ⟨rfl, -⟩ := Prod.mk.inj ht
      refine ⟨hrange, htaken, hsize, ?_⟩
      simp only [List.length_append, List.length_singleton]
      exact Nat.succ_le_succ h.answers

theorem Consuming.close (h : Consuming s) (hc : s.close sh = (s', sh', flow)) : Consuming s' := by
  obtain ⟨released, rfl⟩ := close_fst hc
  exact ⟨h.inRange, h.taken, h.size, h.answers⟩

/-- Other pending operations and timers change nothing here. -/
theorem Consuming.pending (h : Consuming s) (tcp : TcpSession) (writes : List Bool) :
    Consuming { s with tcp, writes } := ⟨h.inRange, h.taken, h.size, h.answers⟩

theorem Consuming.append (h : Consuming s) (data : Bytes) :
    Consuming { s with requestAcc := s.requestAcc.append data, received := s.received ++ data } := by
  refine ⟨h.inRange.append data, ?_, h.size, h.answers⟩
  dsimp only
  rw [StreamAccumulator.data_append h.inRange, h.taken, List.append_assoc]

theorem Consuming.handle {e : Event} (h : Consuming s) (hu : Unwrapped (bufferAt (s, sh) (.own e)))
    (hs : s.handle cfg limits sh e = some (s', sh', flow)) : Consuming s' := by
  cases e with
  | read env data =>
    simp only [HttpSession.handle] at hs
    split at hs
    · replace hs := Option.some.inj hs
      unfold HttpSession.onBytesRead at hs
      dsimp only at hs
      have happ := (h.pending { s.tcp with reads := s.tcp.reads.erase true } s.writes).append data
      split at hs
      · exact happ.close hs
      · refine happ.tryProcessNextRequest ?_ hs
        dsimp only
        rw [StreamAccumulator.data_append h.inRange]
        exact hu
    · cases hs
  | readFailed =>
    simp only [HttpSession.handle] at hs
    split at hs
    · cases hs
    · exact (h.pending _ s.writes).close (Option.some.inj hs)
  | idleExpired =>
    simp only [HttpSession.handle] at hs
    split at hs
    · cases hs
    · exact (h.pending _ s.writes).close (Option.some.inj hs)
  | waitCanceled =>
    simp only [HttpSession.handle] at hs
    split at hs
    · cases hs
    · obtain ⟨rfl, -⟩ := Prod.mk.inj (Option.some.inj hs)
      exact h.pending _ s.writes
  | written env ok =>
    simp only [HttpSession.handle] at hs
    split at hs
    · cases hs
    · rename_i keepAlive writes hw
      replace hs := Option.some.inj hs
      unfold HttpSession.onWritten at hs
      split at hs
      · exact (h.pending s.tcp writes).close hs
      · exact (h.pending s.tcp writes).tryProcessNextRequest hu hs

theorem consuming_run {st st' : HttpSession × Shared} {es : List Step}
    (h : (machine cfg limits).Run (fun st e => Unwrapped (bufferAt st e)) st es st') (h0 : Consuming st.1) :
    Consuming st'.1 := by
  refine h.invariant (fun st => Consuming st.1) h0 ?_
  rintro ⟨s, sh⟩ e st'' hI hu hs
  cases e with
  | own e =>
    obtain ⟨⟨s', sh', flow⟩, hh, rfl⟩ := Option.map_eq_some_iff.mp hs
    exact hI.handle hu hh
  | elsewhere sh =>
    obtain rfl := Option.some.inj hs
    exact hI

/-- A boundary is right where the sum of header block and Content-Length does not wrap into the buffer, and
nowhere else. A connection that meets only such buffers takes four bytes for each of its answers at least. -/
theorem boundary_exact_iff (cfg : HttpConfig) (limits : HttpLimits) (ip : Bytes) (remote : Option Bytes) (sh : Shared) :
    (∀ buffered, BoundaryExact buffered ↔ Unwrapped buffered) ∧
      ∀ (es : List Step) (st : HttpSession × Shared),
        (machine cfg limits).Run (fun st e => Unwrapped (bufferAt st e)) (start (.new ip remote), sh) es st →
          (∀ raw ∈ st.1.requests, 4 ≤ raw.length) ∧ 4 * st.1.responses.length ≤ st.1.received.length := by
  refine ⟨boundaryExact_iff, fun es st h => ?_⟩
  have hst := consuming_run h (consuming_start ip remote)
  exact ⟨hst.size, hst.bound⟩

private def oneRead : List Step := [.own (.read .zero (ascii "GET /x HTTP/1.1\r\n\r\n"))]

private def afterOneRead : HttpSession × Shared :=
  ((machine (.ofDocuments []) ⟨4096, 0⟩).execIf (fun st e => Unwrapped (bufferAt st e))
    (start (.new [] none), ⟨.empty, .empty⟩)
    oneRead).getD (start (.new [] none), ⟨.empty, .empty⟩)

theorem one_read_consumes : (BoundaryExact (ascii "GET /x HTTP/1.1\r\n\r\n") ↔
      Unwrapped (ascii "GET /x HTTP/1.1\r\n\r\n")) ∧
    (∀ raw ∈ afterOneRead.1.requests, 4 ≤ raw.length) ∧
    4 * afterOneRead.1.responses.length ≤ afterOneRead.1.received.length :=
  ⟨(boundary_exact_iff (.ofDocuments []) ⟨4096, 0⟩ [] none ⟨.empty, .empty⟩).1 _,
    (boundary_exact_iff (.ofDocuments []) ⟨4096, 0⟩ [] none ⟨.empty, .empty⟩).2 oneRead afterOneRead
      (Machine.run_execIf _ _ (by decide +kernel))⟩

/-- The header block has 56 bytes, and 56 + 18446744073709551560 is 2^64. -/
private def wrapping : Bytes := ascii "GET / HTTP/1.1\r\nContent-Length: 18446744073709551560\r\n\r\n"

theorem boundary_wraps_to_zero : findRequestBoundary wrapping = some 0 ∧ find crlfcrlf wrapping = some 52 ∧
    ¬ BoundaryExact wrapping := by
  have hzero : findRequestBoundary wrapping = some 0 := by decide +kernel
  refine ⟨hzero, by decide +kernel, fun h => ?_⟩
  obtain ⟨headerEnd, -, hle, -⟩ := h 0 hzero
  omega

/-- A boundary of 0 takes nothing: the next request is taken from the same bytes. -/
theorem data_of_zero_boundary (h : findRequestBoundary s.requestAcc.data = some 0)
    (ht : s.tryProcessNextRequest cfg limits env sh = (s', sh', flow)) :
    s'.requestAcc.data = s.requestAcc.data ∧ s'.requests = s.requests ++ [[]] := by
  unfold HttpSession.tryProcessNextRequest at ht
  rw [h] at ht
  dsimp only at ht
  split at ht
  · obtain ⟨rfl, -⟩ := Prod.mk.inj ht
    simp
  · obtain ⟨rfl, -⟩ := Prod.mk.inj ht
    simp

end HttpSession
end LightApr.Http
