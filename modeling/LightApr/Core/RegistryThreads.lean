import LightApr.Core.RegistryRuns
import LightApr.Lib.Machine
import LightApr.Lib.Outbox

/-! Threads on one registry. A call commits its change and copies the callbacks under the
lock; the copies are invoked after the lock is released, one step each, between the steps
of other calls. -/
namespace LightApr.Core.Registry
open Lib Lib.Outbox

/-- A call past its commit: the record it announces, and the callbacks (token and
observer) it has yet to invoke. -/
structure Call where
  node : NodeInfo
  rest : List (Nat × Nat)

def Call.tokens (call : Call) : List Nat := call.rest.map Prod.fst

structure Threads where
  registry : Registry
  calls : List Call
  /-- history: the events in the order of their commits, and the invocations of callbacks
  with their tokens -/
  committed : List NodeInfo
  invoked : List (Nat × NodeInfo)

namespace Threads

inductive Event where
  | commit (op : Operation)
  /-- call `k` invokes its next callback, which returns or throws -/
  | invoke (k : Nat) (returns : Bool)

def step (cfg : RegistryConfig) (s : Threads) : Event → Option Threads
  | .commit op =>
    match op.run cfg s.registry with
    | (r, .event node) =>
      some { s with registry := r, calls := s.calls ++ [⟨node, r.eventCbs⟩], committed := s.committed ++ [node] }
    | (r, _) => some { s with registry := r }
  | .invoke k returns =>
    match s.calls[k]? with
    | some ⟨node, (token, _) :: rest⟩ =>
      some { s with
        calls := s.calls.set k ⟨node, if returns then rest else []⟩
        invoked := s.invoked ++ [(token, node)] }
    | _ => none

def machine (cfg : RegistryConfig) : Machine Threads Event := ⟨step cfg⟩

/-- No node yet, and one callback for each of the observers, with the tokens 1, 2, …. -/
def start (observers : List Nat) : Threads :=
  ⟨observers.foldl (fun r observer => r.addEventCallback observer) empty, [], [], []⟩

/-- Every call has returned. -/
def Quiescent (s : Threads) : Prop := ∀ call ∈ s.calls, call.rest = []

/-- The events the callback with this token has been invoked with. -/
def received (token : Nat) (s : Threads) : List NodeInfo :=
  (s.invoked.filter fun x => x.1 = token).map Prod.snd

/-- The events on their way to the callback with this token. -/
def pending (token : Nat) (s : Threads) : List NodeInfo :=
  (s.calls.filter fun call => token ∈ call.tokens).map Call.node

/-- OK and GRACE store the node, ERASED deletes it. -/
def change (node : NodeInfo) : Replay.Change NodeInfo :=
  if node.status = .erased then .delete else .put node

/-- What an observer holds that follows these events. -/
def followed (events : List NodeInfo) : Bytes → Option NodeInfo :=
  Replay.replay id (events.map fun node => (node.id, change node)) fun _ => none

/-! One step. -/

inductive Stepped (cfg : RegistryConfig) (s t : Threads) : Event → Prop
  | announced {op : Operation} {r : Registry} {node : NodeInfo} : op.run cfg s.registry = (r, .event node) →
      t = { s with registry := r, calls := s.calls ++ [⟨node, r.eventCbs⟩], committed := s.committed ++ [node] } →
      Stepped cfg s t (.commit op)
  | silent {op : Operation} {r : Registry} {out : Outcome} : op.run cfg s.registry = (r, out) →
      (∀ node, out ≠ .event node) → t = { s with registry := r } → Stepped cfg s t (.commit op)
  | invoked {k token observer : Nat} {returns : Bool} {node : NodeInfo} {rest : List (Nat × Nat)} :
      s.calls[k]? = some ⟨node, (token, observer) :: rest⟩ →
      t = { s with
        calls := s.calls.set k ⟨node, if returns then rest else []⟩
        invoked := s.invoked ++ [(token, node)] } →
      Stepped cfg s t (.invoke k returns)

variable {cfg : RegistryConfig} {s t : Threads} {token : Nat}

theorem step_cases {e : Event} (h : step cfg s e = some t) : Stepped cfg s t e := by
  cases e with
  | commit op =>
    simp only [step] at h
    split at h
    · rename_i hrun
      exact .announced hrun (Option.some.inj h).symm
    · rename_i out hno hrun
      exact .silent hrun hno (Option.some.inj h).symm
  | invoke k returns =>
    simp only [step] at h
    split at h
    · rename_i hk
      exact .invoked hk (Option.some.inj h).symm
    · cases h

theorem received_invoke (token : Nat) (node : NodeInfo) (calls : List Call) (s : Threads) (token' : Nat) :
    received token { s with calls, invoked := s.invoked ++ [(token', node)] } =
      received token s ++ if token' = token then [node] else [] := by
  rw [received, List.filter_append, List.map_append, received]
  split
  · rename_i h
    simp [h]
  · rename_i h
    simp [h]

/-- The callbacks have different tokens, all of them handed out. -/
structure Numbered (s : Threads) : Prop where
  callbacks : (s.registry.eventCbs.map Prod.fst).Nodup
  handedOut : ∀ token ∈ s.registry.eventCbs.map Prod.fst, token < s.registry.eventCbIdCounter
  calls : ∀ call ∈ s.calls, call.tokens.Nodup

theorem numbered_registry {op : Operation} {r r' : Registry} {out : Outcome} (h : op.run cfg r = (r', out))
    (hn : (r.eventCbs.map Prod.fst).Nodup) (hlt : ∀ token ∈ r.eventCbs.map Prod.fst, token < r.eventCbIdCounter) :
    (r'.eventCbs.map Prod.fst).Nodup ∧ ∀ token ∈ r'.eventCbs.map Prod.fst, token < r'.eventCbIdCounter := by
  rcases run_callbacks h with ⟨observer, -, rfl, -⟩ | ⟨token, -, rfl, -⟩ | ⟨hc, hi⟩
  · simp only [addEventCallback, List.map_append, List.map_singleton, List.mem_append, List.mem_singleton]
    refine ⟨List.nodup_append.mpr ⟨hn, by simp, fun a ha b hb hab => ?_⟩, fun token ht => ?_⟩
    · obtain rfl := List.mem_singleton.mp hb
      exact absurd (hlt a ha) (by omega)
    · rcases ht with ht | rfl
      · exact Nat.lt_succ_of_lt (hlt token ht)
      · exact Nat.lt_succ_self _
  · have hsub : ((r.removeEventCallback token).eventCbs.map Prod.fst).Sublist (r.eventCbs.map Prod.fst) :=
      List.filter_sublist.map _
    exact ⟨hn.sublist hsub, fun t ht => hlt t (hsub.subset ht)⟩
  · rw [hc, hi]
    exact ⟨hn, hlt⟩

theorem numbered_step {e : Event} (hs : Numbered s) (h : step cfg s e = some t) : Numbered t := by
  cases step_cases h with
  | announced hrun he =>
    subst he
    obtain ⟨hn, hlt⟩ := numbered_registry hrun hs.callbacks hs.handedOut
    refine ⟨hn, hlt, fun call hc => ?_⟩
    rcases List.mem_append.mp hc with hc | hc
    · exact hs.calls call hc
    · obtain rfl := List.mem_singleton.mp hc
      exact hn
  | silent hrun _ he =>
    subst he
    obtain ⟨hn, hlt⟩ := numbered_registry hrun hs.callbacks hs.handedOut
    exact ⟨hn, hlt, hs.calls⟩
  | invoked hk he =>
    subst he
    refine ⟨hs.callbacks, hs.handedOut, fun call hc => ?_⟩
    rcases List.mem_or_eq_of_mem_set hc with hc | rfl
    · exact hs.calls call hc
    · have hnodup := hs.calls _ (List.mem_of_getElem? hk)
      split
      · exact hnodup.of_cons
      · exact List.nodup_nil

theorem numbered_start (observers : List Nat) : Numbered (start observers) ∧
    (start observers).registry.nodes = ∅ ∧ (start observers).registry.eventCbIdCounter = observers.length + 1 ∧
    (start observers).registry.eventCbs.map Prod.fst = List.range' 1 observers.length := by
  suffices h : (start observers).registry.nodes = ∅ ∧
      (start observers).registry.eventCbIdCounter = observers.length + 1 ∧
      (start observers).registry.eventCbs.map Prod.fst = List.range' 1 observers.length by
    obtain ⟨hn, hi, hc⟩ := h
    refine ⟨⟨hc ▸ List.nodup_range', fun token ht => ?_, nofun⟩, hn, hi, hc⟩
    rw [hc, List.mem_range'_1] at ht
    omega
  unfold start
  dsimp only
  induction observers using List.reverseRecOn with
  | nil => exact ⟨rfl, rfl, rfl⟩
  | append_singleton observers observer ih =>
    obtain ⟨hn, hi, hc⟩ := ih
    rw [List.foldl_append]
    generalize observers.foldl (fun r observer => r.addEventCallback observer) empty = r at hn hi hc ⊢
    refine ⟨hn, ?_, ?_⟩
    · simp [addEventCallback, hi]
    · simp [addEventCallback, hi, hc, List.range'_concat, Nat.add_comm]

/-! An observer that keeps up. -/

/-- The changes and what one observer has been told of them. -/
def outbox (token : Nat) (s : Threads) : Outbox.State NodeInfo := ⟨s.committed, pending token s, received token s⟩

/-- The step is a commit that completes, removes no callback of this observer and is about no
node of which the observer has yet to hear; or an invocation that returns, or that cannot cost
the observer an event. -/
def Orderly (cfg : RegistryConfig) (token : Nat) (s : Threads) : Event → Prop
  | .commit op => op.Completes cfg s.registry ∧ op ≠ .removeEventCallback token ∧
      ∀ id ∈ op.about? s.registry, ∀ node ∈ pending token s, node.id ≠ id
  | .invoke k returns => returns = true ∨ ∀ call ∈ s.calls[k]?, token ∉ call.tokens.tail

structure Following (cfg : RegistryConfig) (token : Nat) (s : Threads) : Prop where
  wellFormed : Stored (WellFormed cfg) s.registry
  numbered : Numbered s
  listening : token ∈ s.registry.eventCbs.map Prod.fst
  stored : ∀ id, followed s.committed id = s.registry.nodes.lookup id
  inOrder : InOrder NodeInfo.id (outbox token s)

theorem followed_snoc (events : List NodeInfo) (node : NodeInfo) (id : Bytes) :
    followed (events ++ [node]) id =
      if id = node.id then (if node.status = .erased then none else some node) else followed events id := by
  rw [followed, List.map_append, Replay.replay_append, ← followed]
  by_cases hid : id = node.id
  · subst hid
    rw [if_pos rfl]
    simp only [List.map_cons, List.map_nil, Replay.replay, List.foldl_cons, List.foldl_nil, Replay.applyAt,
      Function.update_self, change]
    split <;> rfl
  · rw [if_neg hid]
    exact Function.update_of_ne hid ..

theorem followed_announced {op : Operation} {r : Registry} {out : Outcome} {node : NodeInfo} {events : List NodeInfo}
    (h : Announces op s.registry r out node) (hs : ∀ id, followed events id = s.registry.nodes.lookup id)
    (id : Bytes) : followed (events ++ [node]) id = r.nodes.lookup id := by
  rw [followed_snoc, h.nodes]
  by_cases hid : id = node.id
  · subst hid
    rw [if_pos rfl]
    split
    · rw [AList.lookup_erase]
    · rw [AList.lookup_insert]
  · rw [if_neg hid, hs]
    split
    · rw [AList.lookup_erase_ne hid]
    · rw [AList.lookup_insert_ne hid]

theorem following_announced {op : Operation} {r : Registry} {node : NodeInfo} (hs : Following cfg token s)
    (ho : Orderly cfg token s (.commit op)) (hrun : op.run cfg s.registry = (r, .event node))
    (hstep : step cfg s (.commit op) = some t)
    (ht : t = { s with registry := r, calls := s.calls ++ [⟨node, r.eventCbs⟩], committed := s.committed ++ [node] }) :
    Following cfg token t := by
  obtain ⟨hprint, hremove, hfree⟩ := ho
  have hann : Announces op s.registry r (.event node) node := by
    rcases run_announces hs.wellFormed hprint hrun with ⟨node', h⟩ | ⟨h, -⟩
    · obtain rfl := Outcome.event.inj h.out
      exact h
    · exact absurd rfl (h node)
  have hcbs : r.eventCbs = s.registry.eventCbs := by
    rcases run_callbacks hrun with ⟨_, _, _, h⟩ | ⟨_, _, _, h⟩ | ⟨h, -⟩
    · cases h
    · cases h
    · exact h
  have hlisten : token ∈ r.eventCbs.map Prod.fst := hcbs ▸ hs.listening
  have hpending : pending token t = pending token s ++ [node] := by
    subst ht
    rw [pending, List.filter_append, List.map_append, ← pending]
    congr 1
    rw [List.filter_cons_of_pos (by exact decide_eq_true hlisten), List.filter_nil]
    rfl
  have hout : outbox token t = (outbox token s).commit node := by
    rw [outbox, hpending, ht]
    rfl
  refine ⟨?_, numbered_step hs.numbered hstep, ?_, ?_, ?_⟩
  · rw [ht]
    exact wellFormed_run hs.wellFormed hrun
  · rw [ht]
    exact hlisten
  · rw [ht]
    exact followed_announced hann hs.stored
  · rw [hout]
    refine hs.inOrder.commit fun hm => ?_
    obtain ⟨node', hm, hid⟩ := List.mem_map.mp hm
    exact hfree node.id hann.about node' hm hid

theorem following_silent {op : Operation} {r : Registry} {out : Outcome} (hs : Following cfg token s)
    (ho : Orderly cfg token s (.commit op)) (hrun : op.run cfg s.registry = (r, out)) (hno : ∀ node, out ≠ .event node)
    (hstep : step cfg s (.commit op) = some t) (ht : t = { s with registry := r }) : Following cfg token t := by
  obtain ⟨hprint, hremove, -⟩ := ho
  have hnodes : r.nodes = s.registry.nodes := by
    rcases run_announces hs.wellFormed hprint hrun with ⟨node, h⟩ | ⟨-, h⟩
    · exact absurd h.out (hno node)
    · exact h
  have hlisten : token ∈ r.eventCbs.map Prod.fst := by
    rcases run_callbacks hrun with ⟨observer, -, rfl, -⟩ | ⟨token', rfl, rfl, -⟩ | ⟨h, -⟩
    · rw [addEventCallback, List.map_append]
      exact List.mem_append_left _ hs.listening
    · obtain ⟨cb, hcb, he⟩ := List.mem_map.mp hs.listening
      have hne : token' ≠ token := fun h => hremove (h ▸ rfl)
      refine List.mem_map.mpr ⟨cb, List.mem_filter.mpr ⟨hcb, ?_⟩, he⟩
      simpa [he] using hne.symm
    · exact h ▸ hs.listening
  have hnum := numbered_step hs.numbered hstep
  subst ht
  exact ⟨wellFormed_run hs.wellFormed hrun, hnum, hlisten, fun id => by rw [hs.stored, hnodes], hs.inOrder⟩

/-- A callback is invoked: an event arrives, or nothing changes for the observer. -/
theorem following_invoked {k token' observer : Nat} {returns : Bool} {node : NodeInfo} {rest : List (Nat × Nat)}
    (hs : Following cfg token s) (ho : Orderly cfg token s (.invoke k returns))
    (hk : s.calls[k]? = some ⟨node, (token', observer) :: rest⟩) (hstep : step cfg s (.invoke k returns) = some t)
    (ht : t = { s with
      calls := s.calls.set k ⟨node, if returns then rest else []⟩
      invoked := s.invoked ++ [(token', node)] }) :
    Following cfg token t := by
  obtain ⟨hlt, hcall⟩ := List.getElem?_eq_some_iff.mp hk
  obtain ⟨before, after, hcalls, -, hset⟩ : ∃ before after, s.calls = before ++ s.calls[k] :: after ∧
      before.length = k ∧ s.calls.set k ⟨node, if returns then rest else []⟩ =
        before ++ ⟨node, if returns then rest else []⟩ :: after := List.exists_of_set hlt
  rw [hcall] at hcalls
  have hnodup : token' ∉ rest.map Prod.fst :=
    (List.nodup_cons.mp (hs.numbered.calls _ (List.mem_of_getElem? hk))).1
  have hin : InOrder NodeInfo.id (outbox token t) := by
    subst ht
    rw [outbox, received_invoke, pending, hset, List.filter_append, List.map_append]
    by_cases heq : token' = token
    · subst heq
      have hdone : token' ∉ Call.tokens ⟨node, if returns then rest else []⟩ := by
        cases returns with
        | true => exact hnodup
        | false => exact List.not_mem_nil
      rw [List.filter_cons_of_neg (by simpa using hdone), if_pos rfl]
      apply hs.inOrder.deliver
      simp [outbox, pending, hcalls, Call.tokens]
    · have hsame : token ∈ Call.tokens ⟨node, if returns then rest else []⟩ ↔
          token ∈ Call.tokens ⟨node, (token', observer) :: rest⟩ := by
        have hne : token ≠ token' := fun h => heq h.symm
        cases returns with
        | true => simp [Call.tokens, hne]
        | false =>
          have hlost := (ho.resolve_left nofun) _ hk
          simpa [Call.tokens, hne] using hlost
      have hpending : pending token s = (before.filter fun call => token ∈ call.tokens).map Call.node ++
          ((⟨node, if returns then rest else []⟩ :: after).filter fun call => token ∈ call.tokens).map Call.node := by
        rw [pending, hcalls, List.filter_append, List.map_append, List.filter_cons, List.filter_cons]
        simp only [hsame]
        congr 1
        split <;> rfl
      rw [← hpending, if_neg heq, List.append_nil]
      exact hs.inOrder
  have hnum := numbered_step hs.numbered hstep
  subst ht
  exact ⟨hs.wellFormed, hnum, hs.listening, hs.stored, hin⟩

theorem following_step {e : Event} (hs : Following cfg token s) (ho : Orderly cfg token s e)
    (h : step cfg s e = some t) :
    Following cfg token t := by
  cases step_cases h with
  | announced hrun ht => exact following_announced hs ho hrun h ht
  | silent hrun hno ht => exact following_silent hs ho hrun hno h ht
  | invoked hk ht => exact following_invoked hs ho hk h ht

theorem following_start {observers : List Nat} (h1 : 1 ≤ token) (h2 : token ≤ observers.length) :
    Following cfg token (start observers) := by
  obtain ⟨hnum, hnodes, -, htokens⟩ := numbered_start observers
  refine ⟨fun k node hk => ?_, hnum, ?_, fun id => ?_, ⟨List.nodup_nil, fun _ => rfl⟩⟩
  · rw [hnodes] at hk
    simp at hk
  · rw [htokens, List.mem_range'_1]
    omega
  · rw [hnodes, AList.lookup_empty]
    rfl

theorem pending_of_quiescent (h : Quiescent s) (token : Nat) : pending token s = [] := by
  rw [pending, List.map_eq_nil_iff, List.filter_eq_nil_iff]
  intro call hc
  simp [Call.tokens, h call hc]

/-- **In a run of orderly steps, an observer that was there from the start is told of the
changes to each node in their order; and when all calls have returned, the events it was
told of, followed one after the other, give the nodes of the registry.** -/
theorem observer_follows (cfg : RegistryConfig) (observers : List Nat) {token : Nat} (h1 : 1 ≤ token)
    (h2 : token ≤ observers.length) {es : List Event} {s : Threads}
    (hrun : (machine cfg).Run (Orderly cfg token) (start observers) es s) :
    (∀ id, (received token s).filter (fun node => node.id = id) <+: s.committed.filter fun node => node.id = id) ∧
      (Quiescent s → ∀ id, followed (received token s) id = s.registry.nodes.lookup id) := by
  have hs : Following cfg token s :=
    hrun.invariant (Following cfg token) (following_start h1 h2) fun _ _ _ hm ho hstep => following_step hm ho hstep
  refine ⟨hs.inOrder.isPrefix, fun hq k => ?_⟩
  rw [← hs.stored]
  exact congrFun (hs.inOrder.settled (pending_of_quiescent hq token) id fun _ => none) k

/-- One thread registers a node, and the observer hears of it. -/
private def registers : Event :=
  .commit (.registerOrUpdateNode 5 (ascii "web") [] none [] [] (.obj []))

private def registered : Threads := ((machine (.ofDocuments [])).step (start [7]) registers).getD (start [7])

private def told : Threads := ((machine (.ofDocuments [])).step registered (.invoke 0 true)).getD registered

private theorem told_run :
    (machine (.ofDocuments [])).Run (Orderly (.ofDocuments []) 1) (start [7]) [registers, .invoke 0 true] told := by
  have hfirst : Orderly (.ofDocuments []) 1 (start [7]) registers := by
    refine ⟨⟨.inl rfl, ?_⟩, nofun, ?_⟩
    · intro f hf
      cases hf
    · intro id _ node hnode
      cases hnode
  have hrun := Machine.Run.next (M := machine (.ofDocuments [])) .start hfirst (by decide +kernel)
  exact hrun.next (e := Event.invoke 0 true) (.inl rfl) (by decide +kernel)

theorem registration_followed : followed (received 1 told) (generateNodeId 5 1) =
    told.registry.nodes.lookup (generateNodeId 5 1) := by
  refine (observer_follows (.ofDocuments []) [7] (by decide) (by decide) told_run).2 ?_ _
  unfold Quiescent
  decide +kernel

/-- The call that ends the session is told of before the call that registered the node. -/
private def overtaken : List Event :=
  [registers, .commit (.markNodeGrace 6 (generateNodeId 5 1)), .invoke 1 true, .invoke 0 true]

theorem grace_overtaken : ¬ ∀ (cfg : RegistryConfig) (observers : List Nat) (token : Nat), 1 ≤ token →
    token ≤ observers.length → ∀ (es : List Event) (s : Threads), (machine cfg).Reaches (start observers) es s →
      Quiescent s → ∀ id, followed (received token s) id = s.registry.nodes.lookup id := by
  intro h
  have hlast := h (.ofDocuments []) [7] 1 (by decide) (by decide) overtaken _
    ((machine (.ofDocuments [])).reaches_exec (by decide +kernel)) (by unfold Quiescent; decide +kernel)
    (generateNodeId 5 1)
  have hstatus := congrArg (Option.map NodeInfo.status) hlast
  exact absurd hstatus (by decide +kernel)

/-! A removed callback. -/

/-- The token has been handed out, and nothing that could invoke its callback is left. -/
structure Silenced (token : Nat) (s : Threads) : Prop where
  handedOut : token < s.registry.eventCbIdCounter
  removed : token ∉ s.registry.eventCbs.map Prod.fst
  calls : ∀ call ∈ s.calls, token ∉ call.tokens

theorem silenced_registry {op : Operation} {r r' : Registry} {out : Outcome} (h : op.run cfg r = (r', out))
    (hlt : token < r.eventCbIdCounter) (hno : token ∉ r.eventCbs.map Prod.fst) :
    token < r'.eventCbIdCounter ∧ token ∉ r'.eventCbs.map Prod.fst := by
  rcases run_callbacks h with ⟨observer, -, rfl, -⟩ | ⟨token', -, rfl, -⟩ | ⟨hc, hi⟩
  · refine ⟨Nat.lt_succ_of_lt hlt, ?_⟩
    simp only [addEventCallback, List.map_append, List.map_singleton, List.mem_append, List.mem_singleton]
    rintro (h | h)
    · exact hno h
    · exact absurd hlt (by omega)
  · have hsub : ((r.removeEventCallback token').eventCbs.map Prod.fst).Sublist (r.eventCbs.map Prod.fst) :=
      List.filter_sublist.map _
    exact ⟨hlt, fun h => hno (hsub.subset h)⟩
  · rw [hc, hi]
    exact ⟨hlt, hno⟩

theorem silenced_step {e : Event} (hs : Silenced token s) (h : step cfg s e = some t) :
    Silenced token t ∧ received token t = received token s := by
  cases step_cases h with
  | announced hrun he =>
    subst he
    obtain ⟨hlt, hno⟩ := silenced_registry hrun hs.handedOut hs.removed
    refine ⟨⟨hlt, hno, fun call hc => ?_⟩, rfl⟩
    rcases List.mem_append.mp hc with hc | hc
    · exact hs.calls call hc
    · obtain rfl := List.mem_singleton.mp hc
      exact hno
  | silent hrun _ he =>
    subst he
    obtain ⟨hlt, hno⟩ := silenced_registry hrun hs.handedOut hs.removed
    exact ⟨⟨hlt, hno, hs.calls⟩, rfl⟩
  | invoked hk he =>
    subst he
    have hno := hs.calls _ (List.mem_of_getElem? hk)
    have hne := List.ne_of_not_mem_cons hno
    have hrest := List.not_mem_of_not_mem_cons hno
    refine ⟨⟨hs.handedOut, hs.removed, fun call hc => ?_⟩, ?_⟩
    · rcases List.mem_or_eq_of_mem_set hc with hc | rfl
      · exact hs.calls call hc
      · split
        · exact hrest
        · exact List.not_mem_nil
    · rw [received_invoke, if_neg fun h => hne h.symm, List.append_nil]

/-- A call that holds the callback can go on to invoke it. -/
theorem invoked_later (cfg : RegistryConfig) {k : Nat} {node : NodeInfo} {rest : List (Nat × Nat)}
    (hk : s.calls[k]? = some ⟨node, rest⟩) (hm : token ∈ rest.map Prod.fst) :
    ∃ es t, (machine cfg).Reaches s es t ∧ received token t ≠ received token s := by
  induction rest generalizing s with
  | nil => cases hm
  | cons cb rest ih =>
    obtain ⟨token', observer⟩ := cb
    obtain ⟨s', hs'⟩ : ∃ s', s' = { s with
      calls := s.calls.set k ⟨node, rest⟩, invoked := s.invoked ++ [(token', node)] } := ⟨_, rfl⟩
    have hstep : step cfg s (.invoke k true) = some s' := by
      rw [step, hk, hs']
      rfl
    have hrun : (machine cfg).Reaches s ([] ++ [.invoke k true]) s' := .snoc .start trivial hstep
    have hrec := received_invoke token node (s.calls.set k ⟨node, rest⟩) s token'
    rw [← hs'] at hrec
    by_cases heq : token' = token
    · refine ⟨_, s', hrun, fun h => ?_⟩
      rw [if_pos heq, h] at hrec
      exact absurd hrec (by simp)
    · have hlt : k < s.calls.length := (List.getElem?_eq_some_iff.mp hk).1
      have hk' : s'.calls[k]? = some ⟨node, rest⟩ := by
        rw [hs']
        exact List.getElem?_set_self hlt
      have hm' : token ∈ rest.map Prod.fst := (List.mem_cons.mp hm).resolve_left fun h => heq h.symm
      obtain ⟨es, t, ht, hne⟩ := ih hk' hm'
      rw [if_neg heq, List.append_nil] at hrec
      exact ⟨_, t, hrun.trans ht, hrec ▸ hne⟩

private def deregistered : Threads := { told with registry := told.registry.removeEventCallback 1 }

end Threads
end LightApr.Core.Registry
