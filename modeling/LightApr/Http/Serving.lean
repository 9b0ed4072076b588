import LightApr.Http.Session

/-! What one HTTP connection does to a byte stream: however the stream is divided into
reads, the requests served are its successive framing. -/
namespace LightApr.Http
open LightApr.Core Lib Framing

namespace HttpSession
variable (cfg : HttpConfig) (limits : HttpLimits)

/-! The connection among the others: between its own completions the shared state
changes in any way. -/

inductive Step where
  | own (e : Event)
  | elsewhere (sh : Shared)

def machine : Machine (HttpSession × Shared) Step where
  step st e :=
    match e with
    | .own e => (st.1.handle cfg limits st.2 e).map fun x => (x.1, x.2.1)
    | .elsewhere sh => some (st.1, sh)

/-- The step stays under the buffer cap, and the request it routes is answered. -/
def Clean (st : HttpSession × Shared) : Step → Prop
  | .own e => (∀ env data, e = .read env data → st.1.requestAcc.totalCapacity + data.length ≤ limits.maxBufferBytes) ∧
      ∀ x, st.1.handle cfg limits st.2 e = some x → x.2.2 = .done
  | .elsewhere _ => True

/-- Each request leaves the connection open after its response. -/
def AllStay (requests : List Bytes) : Prop :=
  ∀ i raw, requests[i]? = some raw → staysOpen limits (parseRawHttp cfg.registry.order raw) (i + 1) = true

/-- Each request is routed once, and its response is the one written in its turn. -/
def Answered (requests responses : List Bytes) : Prop :=
  responses.length = requests.length ∧
    ∀ i raw, requests[i]? = some raw → ∃ env registry res registry',
      routeRequest cfg env (parseRawHttp cfg.registry.order raw) registry = (some res, registry') ∧
        responses[i]? = some
          (renderResponse res (staysOpen limits (parseRawHttp cfg.registry.order raw) (i + 1)))

/-- What holds of a connection whatever it has received and however. -/
structure Conforms (s : HttpSession) : Prop where
  /-- the requests are the successive framing of the stream -/
  framed : requestFramer.Peels s.received s.requests s.requestAcc.data
  answered : Answered cfg limits s.requests s.responses
  /-- one write at most, and never together with a read -/
  exclusive : s.tcp.reads.length + s.writes.length ≤ 1
  /-- nothing is served after a request that ends the connection -/
  last : AllStay cfg limits s.requests.dropLast
  /-- an open connection with no response in flight has served every complete request -/
  caughtUp : s.tcp.closed = false → s.writes = [] → requestFramer.Stuck s.requestAcc.data

/-- The last request ended the connection. -/
def Ended (s : HttpSession) : Prop :=
  ∃ raw, s.requests.getLast? = some raw ∧
    staysOpen limits (parseRawHttp cfg.registry.order raw) s.requests.length = false

/-- The connection is done with the stream: it has taken all of it and no complete
request is left, or the last request ended it. -/
def DoneWith (stream : Bytes) (s : HttpSession) : Prop :=
  (s.received = stream ∧ requestFramer.Stuck s.requestAcc.data) ∨
    (s.received <+: stream ∧ Ended cfg limits s)

/-- The invariant behind `Conforms`. -/
structure Serving (s : HttpSession) : Prop where
  inRange : s.requestAcc.InRange
  framed : requestFramer.Peels s.received s.requests s.requestAcc.data
  count : s.requestCount = s.requests.length
  answered : Answered cfg limits s.requests s.responses
  last : AllStay cfg limits s.requests.dropLast
  exclusive : s.tcp.reads.length + s.writes.length ≤ 1
  stuck : s.tcp.reads ≠ [] → requestFramer.Stuck s.requestAcc.data
  stay : s.tcp.reads ≠ [] ∨ true ∈ s.writes → AllStay cfg limits s.requests
  alive : s.tcp.closed = false → s.tcp.reads ≠ [] ∨ s.writes ≠ []

variable {cfg limits}

theorem Serving.conforms {s : HttpSession} (h : Serving cfg limits s) : Conforms cfg limits s :=
  ⟨h.framed, h.answered, h.exclusive, h.last, fun hc hw => h.stuck ((h.alive hc).resolve_right fun hn => hn hw)⟩

private theorem AllStay.append {requests : List Bytes} {raw : Bytes} (h : AllStay cfg limits requests)
    (hr : staysOpen limits (parseRawHttp cfg.registry.order raw) (requests.length + 1) = true) :
    AllStay cfg limits (requests ++ [raw]) := by
  intro i r hi
  rcases getElem?_snoc hi with hi | ⟨rfl, rfl⟩
  · exact h i r hi
  · exact hr

private theorem Answered.append {requests responses : List Bytes} {raw : Bytes} {env : Readings}
    {registry registry' : Registry} {res : HttpResponse} (h : Answered cfg limits requests responses)
    (hr : routeRequest cfg env (parseRawHttp cfg.registry.order raw) registry = (some res, registry')) :
    Answered cfg limits (requests ++ [raw]) (responses ++ [renderResponse res
      (staysOpen limits (parseRawHttp cfg.registry.order raw) (requests.length + 1))]) := by
  obtain ⟨hl, ha⟩ := h
  refine ⟨by simp [hl], fun i r hi => ?_⟩
  rcases getElem?_snoc hi with hi | ⟨rfl, rfl⟩
  · have hlt := (List.getElem?_eq_some_iff.mp hi).1
    rw [List.getElem?_append_left (by omega)]
    exact ha i r hi
  · refine ⟨env, registry, res, registry', hr, ?_⟩
    rw [← hl, List.getElem?_concat_length]

/-- Between two operations: nothing is pending and the connection stays open. -/
structure Ready (cfg : HttpConfig) (limits : HttpLimits) (s : HttpSession) : Prop where
  inRange : s.requestAcc.InRange
  framed : requestFramer.Peels s.received s.requests s.requestAcc.data
  count : s.requestCount = s.requests.length
  answered : Answered cfg limits s.requests s.responses
  all : AllStay cfg limits s.requests
  reads : s.tcp.reads = []
  writes : s.writes = []

private theorem AllStay.dropLast {requests : List Bytes} (h : AllStay cfg limits requests) :
    AllStay cfg limits requests.dropLast := by
  intro i raw hi
  rw [List.getElem?_dropLast] at hi
  split at hi
  · exact h i raw hi
  · exact nomatch hi

variable {s s' : HttpSession} {sh sh' : Shared} {env : Readings}

/-- Taking the next request, or waiting for more bytes. -/
theorem Ready.tryProcessNextRequest (h : Ready cfg limits s)
    (ht : s.tryProcessNextRequest cfg limits env sh = (s', sh', .done)) : Serving cfg limits s' := by
  unfold HttpSession.tryProcessNextRequest at ht
  cases hb : findRequestBoundary s.requestAcc.data with
  | none =>
    rw [hb] at ht
    obtain ⟨rfl, -⟩ := Prod.mk.inj ht
    refine ⟨h.inRange, h.framed, h.count, h.answered, h.all.dropLast, ?_, fun _ => hb, fun _ => h.all, fun _ => .inl ?_⟩
    · simp [TcpSession.startReadLoop, h.reads, h.writes]
    · simp [TcpSession.startReadLoop]
  | some boundary =>
    rw [hb] at ht
    dsimp only at ht
    have hcut : requestFramer.cut s.requestAcc.data = some boundary := hb
    cases hroute : routeRequest cfg { env with connections := sh.guard.total }
        (parseRawHttp cfg.registry.order (s.requestAcc.data.take boundary)) sh.registry with
    | mk res registry =>
      rw [hroute] at ht
      cases res with
      | none => exact nomatch (Prod.mk.inj (Prod.mk.inj ht).2).2
      | some res =>
        obtain ⟨rfl, -⟩ := Prod.mk.inj ht
        have hstay : AllStay cfg limits (s.requests ++ [s.requestAcc.data.take boundary]).dropLast := by
          rw [List.dropLast_concat]
          exact h.all
        refine ⟨?_, ?_, ?_, ?_, hstay, ?_, ?_, ?_, ?_⟩
        · exact (h.inRange.consume (findRequestBoundary_within hb)).compactIfNeeded _
        · simp only [StreamAccumulator.data_compactIfNeeded, StreamAccumulator.data_consume]
          exact h.framed.trans (.next hcut (.done _))
        · simp [h.count]
        · rw [h.count]
          exact h.answered.append hroute
        · simp [h.reads, h.writes]
        · exact fun hr => absurd h.reads hr
        · intro hor
          have hk := hor.resolve_left fun hr => hr h.reads
          rw [h.writes, List.nil_append, List.mem_singleton, h.count] at hk
          exact h.all.append hk.symm
        · exact fun _ => .inr (by simp)

theorem closeSession_fst (s : HttpSession) (sh : Shared) :
    ∃ released, (s.closeSession sh).1 = { s with tcp := { s.tcp with closed := true, released } } := by
  unfold HttpSession.closeSession
  split
  · rename_i hclosed
    exact ⟨s.tcp.released, by rw [← hclosed]⟩
  · exact ⟨_, rfl⟩

theorem close_fst {flow : Flow} (hc : s.close sh = (s', sh', flow)) :
    ∃ released, s' = { s with tcp := { s.tcp with closed := true, released } } := by
  obtain rfl : (s.closeSession sh).1 = s' := congrArg Prod.fst hc
  exact closeSession_fst s sh

theorem Ready.onBytesRead {data : Bytes} (h : Ready cfg limits s)
    (hcap : s.requestAcc.totalCapacity + data.length ≤ limits.maxBufferBytes)
    (ht : s.onBytesRead cfg limits env data sh = (s', sh', .done)) : Serving cfg limits s' := by
  have hle : ¬ (s.requestAcc.append data).totalCapacity > limits.maxBufferBytes := by
    simp only [StreamAccumulator.totalCapacity, StreamAccumulator.append, List.length_append] at hcap ⊢
    omega
  rw [HttpSession.onBytesRead, if_neg hle] at ht
  refine Ready.tryProcessNextRequest ?_ ht
  refine ⟨h.inRange.append data, ?_, h.count, h.answered, h.all, h.reads, h.writes⟩
  dsimp only
  rw [StreamAccumulator.data_append h.inRange]
  exact h.framed.extend data

/-- The completion of the one pending operation leaves the session ready. -/
theorem Serving.ready (h : Serving cfg limits s) {reads writes : List Bool} (hr : reads = []) (hw : writes = [])
    (hopen : s.tcp.reads ≠ [] ∨ true ∈ s.writes) :
    Ready cfg limits { s with tcp := { s.tcp with reads }, writes } :=
  ⟨h.inRange, h.framed, h.count, h.answered, h.stay hopen, hr, hw⟩

/-- A closed session with at most the operations it had keeps the invariant. -/
theorem Serving.shut (h : Serving cfg limits s) {reads writes : List Bool} (waits : Nat)
    (released : List Bytes)
    (hr : reads.Sublist s.tcp.reads) (hw : writes.Sublist s.writes) :
    Serving cfg limits { s with tcp := { s.tcp with reads, waits, closed := true, released }, writes } := by
  refine ⟨h.inRange, h.framed, h.count, h.answered, h.last, ?_, fun hn => h.stuck ?_, fun ho => h.stay ?_, nofun⟩
  · have := h.exclusive
    have := hr.length_le
    have := hw.length_le
    dsimp only
    omega
  · rintro hnil
    rw [hnil, List.sublist_nil] at hr
    exact hn hr
  · rcases ho with hn | hm
    · refine .inl fun hnil => ?_
      rw [hnil, List.sublist_nil] at hr
      exact hn hr
    · exact .inr (hw.subset hm)

/-- A clean completion keeps the invariant. -/
theorem Serving.handle {e : Event} (h : Serving cfg limits s)
    (hcap : ∀ env data, e = .read env data → s.requestAcc.totalCapacity + data.length ≤ limits.maxBufferBytes)
    (ht : s.handle cfg limits sh e = some (s', sh', .done)) : Serving cfg limits s' := by
  have hex := h.exclusive
  cases e with
  | read env data =>
    simp only [HttpSession.handle] at ht
    split at ht
    · rename_i hg
      have hne : s.tcp.reads ≠ [] := List.ne_nil_of_mem hg.1
      have hlen : 0 < s.tcp.reads.length := List.length_pos_of_ne_nil hne
      have hr : s.tcp.reads.erase true = [] := List.eq_nil_of_length_eq_zero (by
        rw [List.length_erase_of_mem hg.1]
        omega)
      have hw : s.writes = [] := List.eq_nil_of_length_eq_zero (by omega)
      exact (h.ready hr hw (.inl hne)).onBytesRead (hcap env data rfl) (Option.some.inj ht)
    · exact nomatch ht
  | readFailed =>
    simp only [HttpSession.handle] at ht
    split at ht
    · exact nomatch ht
    · rename_i b reads hreads
      obtain ⟨_, rfl⟩ := close_fst (Option.some.inj ht)
      exact h.shut _ _ (hreads ▸ List.sublist_cons_self b reads) (.refl _)
  | idleExpired =>
    simp only [HttpSession.handle] at ht
    split at ht
    · exact nomatch ht
    · obtain ⟨_, rfl⟩ := close_fst (Option.some.inj ht)
      exact h.shut _ _ (.refl _) (.refl _)
  | waitCanceled =>
    simp only [HttpSession.handle] at ht
    split at ht
    · exact nomatch ht
    · obtain ⟨rfl, -⟩ := Prod.mk.inj (Option.some.inj ht)
      exact ⟨h.1, h.2, h.3, h.4, h.5, h.6, h.7, h.8, h.9⟩
  | written env ok =>
    simp only [HttpSession.handle] at ht
    split at ht
    · exact nomatch ht
    · rename_i keepAlive writes hwrites
      rw [hwrites, List.length_cons] at hex
      have hr : s.tcp.reads = [] := List.eq_nil_of_length_eq_zero (by omega)
      have hw : writes = [] := List.eq_nil_of_length_eq_zero (by omega)
      have ht := Option.some.inj ht
      unfold HttpSession.onWritten at ht
      split at ht
      · obtain ⟨_, rfl⟩ := close_fst ht
        exact h.shut _ _ (.refl _) (hwrites ▸ List.sublist_cons_self keepAlive writes)
      · rename_i hk
        have hk : keepAlive = true := by
          cases ok <;> cases keepAlive <;> simp at hk ⊢
        exact (h.ready hr hw (.inr (by rw [hwrites, hk]; simp))).tryProcessNextRequest ht

theorem serving_start (ip : Bytes) (remote : Option Bytes) : Serving cfg limits (start (.new ip remote)) where
  inRange := StreamAccumulator.inRange_empty
  framed := .done _
  count := rfl
  answered := ⟨rfl, nofun⟩
  last := nofun
  exclusive := Nat.le_refl 1
  stuck _ := rfl
  stay _ := nofun
  alive _ := .inl (List.cons_ne_nil _ _)

theorem serving_run {st st' : HttpSession × Shared} {es : List Step}
    (hrun : (machine cfg limits).Run (Clean cfg limits) st es st') (h : Serving cfg limits st.1) :
    Serving cfg limits st'.1 := by
  refine hrun.invariant (fun st => Serving cfg limits st.1) h fun m e n hm hp hs => ?_
  cases e with
  | elsewhere sh =>
    obtain rfl := Option.some.inj hs
    exact hm
  | own e =>
    obtain ⟨⟨s', sh', flow⟩, ht, rfl⟩ := Option.map_eq_some_iff.mp hs
    obtain ⟨hcap, hdone⟩ := hp
    obtain rfl := hdone _ ht
    exact hm.handle hcap ht

private theorem Conforms.peels_stream {stream : Bytes} (h : Conforms cfg limits s)
    (d : DoneWith cfg limits stream s) : ∃ rest, requestFramer.Peels stream s.requests rest := by
  rcases d with ⟨rfl, -⟩ | ⟨⟨t, rfl⟩, -⟩
  · exact ⟨_, h.framed⟩
  · exact ⟨_, h.framed.extend t⟩

/-- Of two framings of one stream the one that is done is the longer. -/
private theorem requests_le {stream : Bytes} {s₁ s₂ : HttpSession} (h₁ : Conforms cfg limits s₁)
    (h₂ : Conforms cfg limits s₂) (d₁ : DoneWith cfg limits stream s₁) (d₂ : DoneWith cfg limits stream s₂) :
    s₂.requests.length ≤ s₁.requests.length := by
  by_contra hlt
  have hlt : s₁.requests.length < s₂.requests.length := Nat.lt_of_not_le hlt
  obtain ⟨r₁, p₁⟩ := h₁.peels_stream d₁
  obtain ⟨r₂, p₂⟩ := h₂.peels_stream d₂
  rcases d₁ with ⟨rfl, hstuck⟩ | ⟨-, raw, hraw, hend⟩
  · have := (p₂.le_stuck h₁.framed hstuck).length_le
    omega
  · -- the request that ended the first connection is not the last of the second
    have hpre := p₁.comparable p₂ hlt.le
    have hpos : 0 < s₁.requests.length := by
      rw [List.length_pos_iff]
      rintro hnil
      simp [hnil] at hraw
    have hget : s₁.requests[s₁.requests.length - 1]? = some raw := by
      rw [← List.getLast?_eq_getElem?]
      exact hraw
    have hget₂ : s₂.requests.dropLast[s₁.requests.length - 1]? = some raw := by
      rw [List.getElem?_dropLast, if_pos (by omega)]
      exact (List.prefix_iff_getElem?.mp hpre _ (by omega)).trans (by
        rw [← hget, List.getElem?_eq_getElem])
    have hstay := h₂.last _ _ hget₂
    rw [show s₁.requests.length - 1 + 1 = s₁.requests.length by omega] at hstay
    exact nomatch hend.symm.trans hstay

/-- Two connections that are done with one stream have served the same requests. -/
theorem requests_unique {stream : Bytes} {s₁ s₂ : HttpSession} (h₁ : Conforms cfg limits s₁)
    (h₂ : Conforms cfg limits s₂) (d₁ : DoneWith cfg limits stream s₁) (d₂ : DoneWith cfg limits stream s₂) :
    s₁.requests = s₂.requests := by
  have hlen : s₁.requests.length = s₂.requests.length :=
    Nat.le_antisymm (requests_le h₂ h₁ d₂ d₁) (requests_le h₁ h₂ d₁ d₂)
  obtain ⟨r₁, p₁⟩ := h₁.peels_stream d₁
  obtain ⟨r₂, p₂⟩ := h₂.peels_stream d₂
  exact (p₁.comparable p₂ hlen.le).eq_of_length hlen

/-- One more completion, evaluated. -/
theorem run_own {st : HttpSession × Shared} {es : List Step} {e : Event} {x : HttpSession × Shared × Flow}
    (h : (machine cfg limits).Run (Clean cfg limits) st es (s, sh))
    (hcap : ∀ env data, e = .read env data → s.requestAcc.totalCapacity + data.length ≤ limits.maxBufferBytes)
    (hx : s.handle cfg limits sh e = some x) (hdone : x.2.2 = .done) :
    (machine cfg limits).Run (Clean cfg limits) st (es ++ [.own e]) (x.1, x.2.1) := by
  refine h.snoc ⟨hcap, fun y hy => ?_⟩ ?_
  · obtain rfl := Option.some.inj (hx.symm.trans hy)
    exact hdone
  · exact congrArg (Option.map fun x => (x.1, x.2.1)) hx

/-- The state after one more read. -/
private def afterRead (st : HttpSession × Shared × Flow) (data : Bytes) : HttpSession × Shared × Flow :=
  ((st.1.handle (.ofDocuments []) ⟨4096, 0⟩ st.2.1 (.read .zero data)).getD st)

private def atStart : HttpSession × Shared × Flow := (start (.new [] none), ⟨.empty, .empty⟩, .done)

private theorem run_afterRead (st : HttpSession × Shared × Flow) {es : List Step} (data : Bytes)
    (h : (machine (.ofDocuments []) ⟨4096, 0⟩).Run (Clean (.ofDocuments []) ⟨4096, 0⟩)
      (start (.new [] none), ⟨.empty, .empty⟩) es (st.1, st.2.1))
    (hcap : st.1.requestAcc.totalCapacity + data.length ≤ 4096)
    (hs : (st.1.handle (.ofDocuments []) ⟨4096, 0⟩ st.2.1 (.read .zero data)).isSome = true)
    (hdone : (afterRead st data).2.2 = .done) :
    (machine (.ofDocuments []) ⟨4096, 0⟩).Run (Clean (.ofDocuments []) ⟨4096, 0⟩)
    (start (.new [] none), ⟨.empty, .empty⟩)
      (es ++ [.own (.read .zero data)]) ((afterRead st data).1, (afterRead st data).2.1) := by
  obtain ⟨x, hx⟩ := Option.isSome_iff_exists.mp hs
  have hd : afterRead st data = x := by rw [afterRead, hx, Option.getD_some]
  rw [hd] at hdone ⊢
  refine run_own h (fun env d he => ?_) hx hdone
  obtain ⟨-, rfl⟩ := Event.read.inj he
  exact hcap

end HttpSession
end LightApr.Http
