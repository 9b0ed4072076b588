import LightApr.Http.Boundary

/-! The framer and the parser of an HTTP request: where each ends the header block, and which
Content-Length each goes by. -/
namespace LightApr.Http
open LightApr.Core

/-- `next_line`: the line, and what is left behind it. -/
def nextLine (raw : Bytes) : Bytes × Bytes :=
  match findByte lf raw with
  | none => (stripCr raw, [])
  | some nl => (stripCr (raw.take nl), raw.drop (nl + 1))

/-- The header loop of `parse_raw_http`: the headers, and what is left behind them. -/
def headerLoop : Nat → Bytes → Table Bytes → Table Bytes × Bytes
  | 0, left, headers => (headers, left)
  | fuel + 1, left, headers =>
    if left = [] then (headers, left)
    else
      let (line, left) := nextLine left
      if line = [] then (headers, left) else headerLoop fuel left (addHeader headers line)

/-- Request line and headers: what is recorded, and the position at which the parser stops. -/
def readHeaders (raw : Bytes) : Table Bytes × Nat :=
  let left := if raw = [] then raw else (nextLine raw).2
  let (headers, left) := headerLoop raw.length left ∅
  (headers, raw.length - left.length)

theorem nextLine_of_not_mem {s : Bytes} (h : lf ∉ s) : nextLine s = (stripCr s, []) := by
  rw [nextLine, findByte_of_not_mem h]

theorem nextLine_append {a : Bytes} (b : Bytes) (h : lf ∉ a) : nextLine (a ++ lf :: b) = (stripCr a, b) := by
  rw [nextLine, findByte_append_cons b h]
  dsimp only
  rw [List.take_left, ← List.drop_drop, List.drop_left]
  rfl

theorem headerLoop_nil (fuel : Nat) (headers : Table Bytes) : headerLoop fuel [] headers = (headers, []) := by
  cases fuel with
  | zero => rfl
  | succ fuel => exact if_pos rfl

/-- The loop records the lines up to the first empty one. -/
theorem headerLoop_headers {fuel : Nat} {left : Bytes} (h : left.length ≤ fuel) (headers : Table Bytes) :
    (headerLoop fuel left headers).1 =
      (((left.splitOn lf).map stripCr).takeWhile (· ≠ [])).foldl addHeader headers := by
  have hnil (headers : Table Bytes) :
      (((([] : Bytes).splitOn lf).map stripCr).takeWhile (· ≠ [])).foldl addHeader headers = headers := by
    simp [stripCr]
  induction fuel generalizing left headers with
  | zero =>
    obtain rfl := List.eq_nil_of_length_eq_zero (Nat.le_zero.mp h)
    rw [headerLoop_nil, hnil]
  | succ fuel ih =>
    by_cases hleft : left = []
    · rw [hleft, headerLoop_nil, hnil]
    · rw [headerLoop, if_neg hleft]
      by_cases hmem : lf ∈ left
      · obtain ⟨a, b, rfl, ha⟩ := List.eq_append_cons_of_mem hmem
        rw [nextLine_append b ha, List.splitOn_append_cons_self_of_not_mem ha, List.map_cons]
        dsimp only
        by_cases hempty : stripCr a = []
        · simp [hempty]
        · rw [if_neg hempty, ih (by simp at h; omega), List.takeWhile_cons_of_pos (by simpa using hempty),
            List.foldl_cons]
      · rw [nextLine_of_not_mem hmem, List.splitOn_eq_singleton hmem]
        dsimp only
        by_cases hempty : stripCr left = []
        · simp [hempty]
        · rw [if_neg hempty, headerLoop_nil]
          simp [hempty]

/-- The parser of the sessions records these headers. -/
theorem parseRawHttp_headers (order : MapOrder) (raw : Bytes) :
    (parseRawHttp order raw).headers = (readHeaders raw).1 := by
  have hparse : (parseRawHttp order raw).headers =
      ((((raw.splitOn lf).map stripCr).tail.takeWhile (· ≠ [])).foldl addHeader ∅) := rfl
  rw [hparse, readHeaders]
  dsimp only
  by_cases hraw : raw = []
  · rw [if_pos hraw, hraw, headerLoop_nil]
    rfl
  · rw [if_neg hraw]
    by_cases hmem : lf ∈ raw
    · obtain ⟨a, b, rfl, ha⟩ := List.eq_append_cons_of_mem hmem
      rw [nextLine_append b ha, headerLoop_headers (by simp; omega), List.splitOn_append_cons_self_of_not_mem ha]
      rfl
    · rw [nextLine_of_not_mem hmem, headerLoop_nil, List.splitOn_eq_singleton hmem]
      rfl

/-! Where the parser stops. -/

theorem flatMap_splitOn (s : Bytes) : (s.splitOn lf).flatMap (· ++ [lf]) = s ++ [lf] := by
  induction s with
  | nil => rfl
  | cons b s ih =>
    rw [List.splitOn_cons_eq_if_modifyHead]
    split
    · rename_i hb
      rw [List.flatMap_cons, ih, beq_iff_eq.mp hb]
      rfl
    · obtain ⟨seg, segs, hseg⟩ := List.exists_cons_of_ne_nil (List.splitOn_ne_nil lf s)
      rw [hseg, List.flatMap_cons] at ih
      rw [hseg, List.modifyHead_cons, List.flatMap_cons, List.cons_append, List.cons_append, ih, List.cons_append]

theorem not_mem_splitOn {s seg : Bytes} (h : seg ∈ s.splitOn lf) : lf ∉ seg := by
  induction s generalizing seg with
  | nil =>
    obtain rfl : seg = [] := by simpa using h
    exact List.not_mem_nil
  | cons b s ih =>
    rw [List.splitOn_cons_eq_if_modifyHead] at h
    split at h
    · obtain rfl | h := List.mem_cons.mp h
      · exact List.not_mem_nil
      · exact ih h
    · rename_i hb
      obtain ⟨seg', segs, hseg⟩ := List.exists_cons_of_ne_nil (List.splitOn_ne_nil lf s)
      rw [hseg, List.modifyHead_cons] at h
      obtain rfl | h := List.mem_cons.mp h
      · have hs : lf ∉ seg' := ih (by rw [hseg]; exact List.mem_cons_self)
        rw [List.mem_cons, not_or]
        exact ⟨fun he => hb (beq_iff_eq.mpr he.symm), hs⟩
      · exact ih (by rw [hseg]; exact List.mem_cons_of_mem _ h)

theorem splitOn_flatMap {segs : List Bytes} (h : ∀ seg ∈ segs, lf ∉ seg) (rest : Bytes) :
    (segs.flatMap (· ++ [lf]) ++ rest).splitOn lf = segs ++ rest.splitOn lf := by
  induction segs with
  | nil => rfl
  | cons seg segs ih =>
    rw [List.flatMap_cons, List.append_assoc, List.append_assoc, List.singleton_append,
      List.splitOn_append_cons_self_of_not_mem (h seg List.mem_cons_self),
      ih fun s hs => h s (List.mem_cons_of_mem seg hs), List.cons_append]

/-- On lines with an empty line behind them the loop stops at that line unless one of them is empty. -/
theorem headerLoop_left {segs : List Bytes} (hsegs : ∀ seg ∈ segs, lf ∉ seg) {fuel : Nat}
    (hfuel : segs.length < fuel) (body : Bytes) (headers : Table Bytes) :
    let left := (headerLoop fuel (segs.flatMap (· ++ [lf]) ++ cr :: lf :: body) headers).2
    body.length ≤ left.length ∧ (left.length = body.length ↔ ∀ seg ∈ segs, stripCr seg ≠ []) := by
  induction segs generalizing fuel headers with
  | nil =>
    obtain ⟨fuel, rfl⟩ : ∃ fuel', fuel = fuel' + 1 := Nat.exists_eq_succ_of_ne_zero (by omega)
    have hline : nextLine (cr :: lf :: body) = ([], body) :=
      nextLine_append body (show lf ∉ [cr] by decide)
    rw [List.flatMap_nil, List.nil_append, headerLoop, if_neg (List.cons_ne_nil _ _), hline]
    simp
  | cons seg segs ih =>
    obtain ⟨fuel, rfl⟩ : ∃ fuel', fuel = fuel' + 1 := Nat.exists_eq_succ_of_ne_zero (by omega)
    have hshape : (seg :: segs).flatMap (· ++ [lf]) ++ cr :: lf :: body =
        seg ++ lf :: (segs.flatMap (· ++ [lf]) ++ cr :: lf :: body) := by simp
    have hne : seg ++ lf :: (segs.flatMap (· ++ [lf]) ++ cr :: lf :: body) ≠ [] := by simp
    rw [hshape, headerLoop, if_neg hne, nextLine_append _ (hsegs seg List.mem_cons_self)]
    dsimp only
    by_cases hempty : stripCr seg = []
    · rw [if_pos hempty]
      dsimp only
      have hlong : body.length < (segs.flatMap (· ++ [lf]) ++ cr :: lf :: body).length := by
        rw [List.length_append, List.length_cons, List.length_cons]
        omega
      refine ⟨by omega, iff_of_false (by omega) fun hall => ?_⟩
      exact hall seg List.mem_cons_self hempty
    · rw [if_neg hempty]
      obtain ⟨hle, hiff⟩ := ih (fun s hs => hsegs s (List.mem_cons_of_mem seg hs)) (Nat.lt_of_succ_lt_succ hfuel)
        (addHeader headers (stripCr seg))
      refine ⟨hle, hiff.trans ?_⟩
      rw [List.forall_mem_cons, and_iff_right hempty]

/-- The header lines of the block that ends at `headerEnd`, as the parser cuts them: the first line of
the block is the request line, and the '\r' of its end belongs to the last. -/
def headerLines (buffered : Bytes) (headerEnd : Nat) : List Bytes :=
  (((buffered.take (headerEnd + 1)).splitOn lf).map stripCr).tail

/-- The request as the framer cuts it: the block, its end and the body. -/
theorem take_boundary {buffered : Bytes} {headerEnd n : Nat} (h : find crlfcrlf buffered = some headerEnd)
    (hn : headerEnd + 4 ≤ n) :
    buffered.take n = buffered.take (headerEnd + 1) ++ lf :: cr :: lf :: (buffered.take n).drop (headerEnd + 4) := by
  obtain ⟨⟨t, ht⟩, -⟩ := find_spec h
  have hsplit : buffered = buffered.take headerEnd ++ (crlfcrlf ++ t) := by rw [ht, List.take_append_drop]
  have hlen : (buffered.take headerEnd).length = headerEnd := by
    have hle := (find_spec h).2
    rw [List.length_take]
    omega
  generalize buffered.take headerEnd = front at hsplit hlen
  obtain ⟨m, rfl⟩ : ∃ m, n = headerEnd + 4 + m := ⟨n - (headerEnd + 4), by omega⟩
  subst hsplit
  subst hlen
  have hone : (front ++ (crlfcrlf ++ t)).take (front.length + 1) = front ++ [cr] := by
    rw [List.take_length_add_append]
    rfl
  have hall : (front ++ (crlfcrlf ++ t)).take (front.length + 4 + m) = front ++ (crlfcrlf ++ t.take m) := by
    rw [Nat.add_assoc, List.take_length_add_append, Nat.add_comm 4 m]
    rfl
  have hbody : (front ++ (crlfcrlf ++ t.take m)).drop (front.length + 4) = t.take m := by
    rw [← List.drop_drop, List.drop_left]
    rfl
  rw [hone, hall, hbody, List.append_assoc]
  rfl

/-- The request as lines: the request line, the header lines of the block, an empty line, and the body. -/
theorem take_boundary_lines {buffered : Bytes} {headerEnd n : Nat} (h : find crlfcrlf buffered = some headerEnd)
    (hn : headerEnd + 4 ≤ n) :
    ∃ seg segs, (∀ s ∈ seg :: segs, lf ∉ s) ∧ headerLines buffered headerEnd = segs.map stripCr ∧
      buffered.take n =
        seg ++ lf :: (segs.flatMap (· ++ [lf]) ++ cr :: lf :: (buffered.take n).drop (headerEnd + 4)) := by
  have hshape := take_boundary h hn
  generalize (buffered.take n).drop (headerEnd + 4) = body at hshape
  obtain ⟨seg, segs, hsegs⟩ := List.exists_cons_of_ne_nil
    (List.splitOn_ne_nil lf (buffered.take (headerEnd + 1)))
  refine ⟨seg, segs, fun s hs => not_mem_splitOn (hsegs ▸ hs), by rw [headerLines, hsegs]; rfl, ?_⟩
  have hjoin := flatMap_splitOn (buffered.take (headerEnd + 1))
  rw [hsegs, List.flatMap_cons] at hjoin
  rw [hshape, ← List.singleton_append, ← List.append_assoc, ← hjoin]
  simp

theorem readHeaders_line {seg : Bytes} (hseg : lf ∉ seg) (left : Bytes) :
    readHeaders (seg ++ lf :: left) =
      ((headerLoop (seg ++ lf :: left).length left ∅).1,
        (seg ++ lf :: left).length - (headerLoop (seg ++ lf :: left).length left ∅).2.length) := by
  have hne : seg ++ lf :: left ≠ [] := List.append_ne_nil_of_right_ne_nil _ (List.cons_ne_nil _ _)
  rw [readHeaders]
  dsimp only
  rw [if_neg hne, nextLine_append left hseg]

private theorem length_le_flatMap (segs : List Bytes) : segs.length ≤ (segs.flatMap (· ++ [lf])).length := by
  induction segs with
  | nil => exact Nat.le_refl 0
  | cons seg segs ih =>
    rw [List.flatMap_cons, List.length_append, List.length_append, List.length_cons, List.length_singleton]
    omega

/-- Where the parser stops, and what it has recorded then. -/
theorem readHeaders_boundary {buffered : Bytes} {headerEnd n : Nat} (h : find crlfcrlf buffered = some headerEnd)
    (hn : headerEnd + 4 ≤ n) (hlen : n ≤ buffered.length) :
    ((readHeaders (buffered.take n)).2 = headerEnd + 4 ↔ ∀ line ∈ headerLines buffered headerEnd, line ≠ []) ∧
      ((∀ line ∈ headerLines buffered headerEnd, line ≠ []) →
        (readHeaders (buffered.take n)).1 = (headerLines buffered headerEnd).foldl addHeader ∅) := by
  obtain ⟨seg, segs, hfree, hlines, hraw⟩ := take_boundary_lines h hn
  have htake : (buffered.take n).length = n := by rw [List.length_take, Nat.min_eq_left hlen]
  have hsize : ((buffered.take n).drop (headerEnd + 4)).length = n - (headerEnd + 4) := by
    rw [List.length_drop, htake]
  generalize (buffered.take n).drop (headerEnd + 4) = body at hraw hsize
  have hsegs : ∀ s ∈ segs, lf ∉ s := fun s hs => hfree s (List.mem_cons_of_mem seg hs)
  have hread := readHeaders_line (hfree seg List.mem_cons_self) (segs.flatMap (· ++ [lf]) ++ cr :: lf :: body)
  have hfuel : (segs.flatMap (· ++ [lf]) ++ cr :: lf :: body).length < n := by
    have hlong := congrArg List.length hraw
    rw [htake, List.length_append, List.length_cons] at hlong
    omega
  rw [← hraw, htake] at hread
  have hmany : segs.length < n := by
    have hcount := length_le_flatMap segs
    rw [List.length_append] at hfuel
    omega
  obtain ⟨hle, hiff⟩ := headerLoop_left hsegs hmany body ∅
  have hall : (∀ s ∈ segs, stripCr s ≠ []) ↔ ∀ line ∈ headerLines buffered headerEnd, line ≠ [] := by
    rw [hlines, List.forall_mem_map]
  rw [hread]
  refine ⟨?_, fun hne => ?_⟩
  · have hstop (l b : Nat) (hb : b = n - (headerEnd + 4)) (hbl : b ≤ l) :
        n - l = headerEnd + 4 ↔ l = b := by omega
    rw [← hall, ← hiff]
    exact hstop _ _ hsize hle
  · have hblank : (cr :: lf :: body).splitOn lf = [cr] :: body.splitOn lf :=
      List.splitOn_append_cons_self_of_not_mem (show lf ∉ [cr] by decide) body
    rw [hlines] at hne ⊢
    dsimp only
    rw [headerLoop_headers (Nat.le_of_lt hfuel), splitOn_flatMap hsegs, hblank, List.map_append, List.map_cons,
      List.takeWhile_append_of_pos (by simpa using hne)]
    simp [stripCr]

/-! What the parser records: for each name, in its exact spelling, the last line. -/

def lastNamed (name : Bytes) (lines : List Bytes) : Option Bytes :=
  (lines.filter fun line => lineName? line = some name).getLast?

theorem addHeader_eq (headers : Table Bytes) (line : Bytes) :
    addHeader headers line = ((lineName? line).map fun name => headers.insert name (lineValue line)).getD headers := by
  unfold addHeader lineName? lineValue
  cases findByte colon line <;> rfl

theorem lookup_foldl_addHeader (lines : List Bytes) (headers : Table Bytes) (name : Bytes) :
    (lines.foldl addHeader headers).lookup name =
      ((lastNamed name lines).map lineValue).or (headers.lookup name) := by
  induction lines generalizing headers with
  | nil => rfl
  | cons line lines ih =>
    rw [List.foldl_cons, ih, addHeader_eq, lastNamed, lastNamed]
    cases hname : lineName? line with
    | none =>
      rw [List.filter_cons_of_neg (by simp [hname])]
      rfl
    | some k =>
      rw [Option.map_some, Option.getD_some]
      by_cases hk : k = name
      · rw [List.filter_cons_of_pos (by simp [hname, hk]), hk, AList.lookup_insert, List.getLast?_cons]
        cases (lines.filter fun line => lineName? line = some name).getLast? <;> rfl
      · rw [List.filter_cons_of_neg (by simp [hname, hk]), AList.lookup_insert_ne (Ne.symm hk)]

theorem lastNamed_eq_none {name : Bytes} {lines : List Bytes} :
    lastNamed name lines = none ↔ ∀ line ∈ lines, lineName? line ≠ some name := by
  rw [lastNamed, List.getLast?_eq_none_iff, List.filter_eq_nil_iff]
  simp

/-- No line names Content-Length where no spelling of it is recorded. -/
theorem lastNamed_length_none {lines : List Bytes} :
    (∀ name, iequalsAscii name (ascii "Content-Length") = true → lastNamed name lines = none) ↔
      ∀ line ∈ lines, namesLength line = false := by
  constructor
  · intro h line hline
    cases hname : lineName? line with
    | none => rw [namesLength, hname, Option.any_none]
    | some name =>
      rw [namesLength, hname, Option.any_some]
      by_contra hne
      exact lastNamed_eq_none.mp (h name (by simpa using hne)) line hline hname
  · intro h name hlength
    rw [lastNamed_eq_none]
    intro line hline hname
    have hnot := h line hline
    rw [namesLength, hname, Option.any_some, hlength] at hnot
    cases hnot

/-- For every request that the framer delimits, the parser stops at the end of its header block, every
Content-Length that the parser has recorded is the length of its body, and there is no body where none
is recorded. -/
def Agrees (order : MapOrder) (buffered : Bytes) : Prop :=
  ∀ n, findRequestBoundary buffered = some n → ∃ headerEnd, find crlfcrlf buffered = some headerEnd ∧
    (readHeaders (buffered.take n)).2 = headerEnd + 4 ∧
    (∀ name value, iequalsAscii name (ascii "Content-Length") = true →
      (parseRawHttp order (buffered.take n)).headers.lookup name = some value →
        valueLength value = n - (headerEnd + 4)) ∧
    ((∀ name, iequalsAscii name (ascii "Content-Length") = true →
      (parseRawHttp order (buffered.take n)).headers.lookup name = none) → n - (headerEnd + 4) = 0)

/-- Where the framer finds a request: the sum does not wrap, no header line of the block is empty, and of each
spelling of Content-Length the last header line has the number the framer goes by; without such a line it is 0. -/
def Coherent (buffered : Bytes) : Prop :=
  ∀ headerEnd, find crlfcrlf buffered = some headerEnd →
    let length := announcedLength (blockLines buffered headerEnd) % sizeMax
    let lines := headerLines buffered headerEnd
    (headerEnd + 4 + length) % sizeMax ≤ buffered.length →
      headerEnd + 4 + length < sizeMax ∧ (∀ line ∈ lines, line ≠ []) ∧
      (∀ name line, iequalsAscii name (ascii "Content-Length") = true → lastNamed name lines = some line →
        valueLength (lineValue line) = length) ∧
      ((∀ line ∈ lines, namesLength line = false) → length = 0)

/-- What is recorded and what the lines say is the same, once the parser stops where the framer does. -/
private theorem recorded_iff {lines : List Bytes} {headers : Table Bytes} (length : Nat)
    (h : headers = lines.foldl addHeader ∅) :
    ((∀ name value, iequalsAscii name (ascii "Content-Length") = true → headers.lookup name = some value →
        valueLength value = length) ↔
      ∀ name line, iequalsAscii name (ascii "Content-Length") = true → lastNamed name lines = some line →
        valueLength (lineValue line) = length) ∧
    ((∀ name, iequalsAscii name (ascii "Content-Length") = true → headers.lookup name = none) ↔
      ∀ line ∈ lines, namesLength line = false) := by
  have hlookup (name : Bytes) : headers.lookup name = (lastNamed name lines).map lineValue := by
    rw [h, lookup_foldl_addHeader, AList.lookup_empty, Option.or_none]
  simp only [hlookup]
  constructor
  · constructor
    · intro hall name line hname hline
      exact hall name _ hname (by rw [hline, Option.map_some])
    · intro hall name value hname hvalue
      obtain ⟨line, hline, rfl⟩ := Option.map_eq_some_iff.mp hvalue
      exact hall name line hname hline
  · simp only [Option.map_eq_none_iff]
    exact lastNamed_length_none

theorem readHeaders_le (raw : Bytes) : (readHeaders raw).2 ≤ raw.length := Nat.sub_le _ _

private theorem sum_unwrapped {h l : Nat} (hl : l < sizeMax) (hle : h ≤ (h + l) % sizeMax) : h + l < sizeMax := by
  have hl : l < 2 ^ 64 := hl
  have hle : h ≤ (h + l) % 2 ^ 64 := hle
  show h + l < 2 ^ 64
  omega

/-- Framer and parser agree on a request exactly where the header block is coherent. -/
theorem agrees_iff (order : MapOrder) (buffered : Bytes) : Agrees order buffered ↔ Coherent buffered := by
  constructor
  · intro h headerEnd hf
    dsimp only
    intro hle
    rw [Nat.add_mod_mod] at hle
    obtain ⟨e, he, hstop, hvalues, hnone⟩ := h _ (findRequestBoundary_eq_some.mpr ⟨headerEnd, hf, rfl, hle⟩)
    obtain rfl := Option.some.inj (hf.symm.trans he)
    rw [← Nat.add_mod_mod] at hle hstop hvalues hnone
    have hlt : announcedLength (blockLines buffered headerEnd) % sizeMax < sizeMax := Nat.mod_lt _ (by decide)
    generalize announcedLength (blockLines buffered headerEnd) % sizeMax = length at *
    -- the parser reads no more than the request, so the request holds the header block
    have hmin : headerEnd + 4 ≤ (headerEnd + 4 + length) % sizeMax := by
      have hread := readHeaders_le (buffered.take ((headerEnd + 4 + length) % sizeMax))
      rw [hstop, List.length_take] at hread
      exact Nat.le_trans hread (Nat.min_le_left _ _)
    have hsum := sum_unwrapped hlt hmin
    rw [Nat.mod_eq_of_lt hsum] at hmin hle hstop hvalues hnone
    obtain ⟨hlines, hheaders⟩ := readHeaders_boundary hf hmin hle
    have hne := hlines.mp hstop
    obtain ⟨hrec, hno⟩ := recorded_iff length
      ((parseRawHttp_headers order (buffered.take (headerEnd + 4 + length))).trans (hheaders hne))
    rw [Nat.add_sub_cancel_left] at hvalues hnone
    exact ⟨hsum, hne, hrec.mp hvalues, fun hall => hnone (hno.mpr hall)⟩
  · intro h n hb
    obtain ⟨headerEnd, hf, hn, hle⟩ := findRequestBoundary_eq_some.mp hb
    have hcoherent := h headerEnd hf
    rw [← Nat.add_mod_mod] at hn
    dsimp only at hcoherent
    generalize announcedLength (blockLines buffered headerEnd) % sizeMax = length at hn hcoherent
    obtain ⟨hsum, hne, hvalues, hnone⟩ := hcoherent (hn.trans_le hle)
    rw [Nat.mod_eq_of_lt hsum] at hn
    subst hn
    obtain ⟨hlines, hheaders⟩ := readHeaders_boundary hf (Nat.le_add_right _ length) hle
    obtain ⟨hrec, hno⟩ := recorded_iff length
      ((parseRawHttp_headers order (buffered.take (headerEnd + 4 + length))).trans (hheaders hne))
    refine ⟨headerEnd, hf, hlines.mpr hne, ?_, ?_⟩
    · rw [Nat.add_sub_cancel_left]
      exact hrec.mpr hvalues
    · rw [Nat.add_sub_cancel_left]
      exact fun hall => hnone (hno.mp hall)

/-- The parser stops at the bare empty line, and the framer reads on. -/
private def hidden : Bytes := ascii "GET / HTTP/1.1\n\nContent-Length: 1\r\n\r\nx"

/-- Two spellings: the framer goes by the last line, the parser records both. -/
private def respelled : Bytes := ascii "POST / HTTP/1.1\r\nContent-Length: 0\r\ncontent-length: 1\r\n\r\nx"

/-- A request in which each of the two has a different Content-Length, and one in which the parser has none. -/
theorem framer_parser_disagree :
    (findRequestBoundary hidden = some 38 ∧ (readHeaders hidden).2 = 16 ∧ ¬ Agrees .written hidden) ∧
      (findRequestBoundary respelled = some 58 ∧
        (parseRawHttp .written respelled).headers.lookup (ascii "Content-Length") = some (ascii "0") ∧
        ¬ Agrees .written respelled) := by
  have hfacts : (findRequestBoundary hidden = some 38 ∧ find crlfcrlf hidden = some 33 ∧ hidden.take 38 = hidden ∧
      (readHeaders hidden).2 = 16) ∧
      (findRequestBoundary respelled = some 58 ∧ find crlfcrlf respelled = some 53 ∧ respelled.take 58 = respelled) ∧
      iequalsAscii (ascii "Content-Length") (ascii "Content-Length") = true ∧ valueLength (ascii "0") = 0 := by
    decide +kernel
  have hrecorded : (parseRawHttp .written respelled).headers.lookup (ascii "Content-Length") = some (ascii "0") := by
    rw [parseRawHttp_headers]
    decide +kernel
  obtain ⟨⟨hb, hf, htake, hread⟩, ⟨hb', hf', htake'⟩, hname, hzero⟩ := hfacts
  refine ⟨⟨hb, hread, fun hagrees => ?_⟩, hb', hrecorded, fun hagrees => ?_⟩
  · obtain ⟨headerEnd, he, hstop, -⟩ := hagrees 38 hb
    obtain rfl := Option.some.inj (hf.symm.trans he)
    rw [htake, hread] at hstop
    omega
  · obtain ⟨headerEnd, he, -, hvalues, -⟩ := hagrees 58 hb'
    obtain rfl := Option.some.inj (hf'.symm.trans he)
    have hvalue := hvalues _ (ascii "0") hname (by rw [htake', hrecorded])
    rw [hzero] at hvalue
    omega

end LightApr.Http
