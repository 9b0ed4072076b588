import LightApr.Core.RegistryRuns
import LightApr.Lib.Machine

/-! Sweeps beside the calls of other threads. A sweep reads the clock, collects ids under
the shared lock and removes them one at a time under the exclusive one; anything can come
in between. Callbacks leave the registry alone, so all that matters of them is that an
exception ends the sweep. -/
namespace LightApr.Core.Registry
open Lib

/-- The node whose grace period an operation begins or ends, and when the period it
begins does. -/
def Operation.renewal? (r : Registry) : Operation → Option (Bytes × Option Int)
  | registerOrUpdateNode now _ _ _ _ existingId _ => some (targetId now existingId r, none)
  | restoreNodeActive _ nodeId => some (nodeId, none)
  | markNodeGrace now nodeId => some (nodeId, some now)
  | _ => none

namespace Sweeping

/-- A sweep past its collecting phase: what it has yet to remove and, as history, the
nodes that other calls have renewed since. -/
structure Sweep where
  rest : List Bytes
  renewed : List Bytes

/-- A record that a sweep removed, when its grace period had begun, and when that was. -/
structure Swept where
  node : NodeInfo
  graceSince : Option Int
  time : Int

/-- The registry, the last time read off the clock, and the sweeps in flight; as history,
when each node was last put in its grace period, and what was swept. -/
structure State where
  registry : Registry
  clock : Int
  sweeps : List Sweep
  graceSince : Bytes → Option Int
  swept : List Swept

inductive Event where
  | commit (op : Operation)
  /-- a sweep that read `now`, perhaps some time ago, collects -/
  | collect (now : Int)
  /-- sweep `k` removes its next node, at the time `now`; its callbacks return or throw -/
  | remove (k : Nat) (now : Int) (returns : Bool)

def Sweep.renew (renewal : Option (Bytes × Option Int)) (sweep : Sweep) : Sweep :=
  { sweep with renewed := sweep.renewed ++ (renewal.map Prod.fst).toList }

def step (cfg : RegistryConfig) (s : State) : Event → Option State
  | .commit op =>
    let renewal := op.renewal? s.registry
    some { s with
      registry := (op.run cfg s.registry).1
      clock := op.time?.getD s.clock
      sweeps := s.sweeps.map (Sweep.renew renewal)
      graceSince := renewal.elim s.graceSince fun x => Function.update s.graceSince x.1 x.2 }
  | .collect now =>
    some { s with
      clock := max s.clock now
      sweeps := s.sweeps ++ [⟨expiredNodes cfg.order now s.registry, []⟩] }
  | .remove k now returns =>
    match s.sweeps[k]? with
    | some ⟨id :: rest, renewed⟩ =>
      some { s with
        registry := (s.registry.removeNodePermanently cfg id).1
        clock := now
        sweeps := s.sweeps.set k ⟨if returns then rest else [], renewed⟩
        swept := s.swept ++ (s.registry.nodes.lookup id).toList.map fun node => ⟨node, s.graceSince id, now⟩ }
    | _ => none

def machine (cfg : RegistryConfig) : Machine State Event := ⟨step cfg⟩

def start (clock : Int) : State := ⟨empty, clock, [], fun _ => none, []⟩

/-- The clock does not run backwards, and what a sweep removes has not been registered,
restored or marked since it was collected. -/
def Orderly (s : State) : Event → Prop
  | .commit op => ∀ now ∈ op.time?, s.clock ≤ now
  | .collect _ => True
  | .remove k now _ => s.clock ≤ now ∧ ∀ sweep ∈ s.sweeps[k]?, ∀ id ∈ sweep.rest.head?, id ∉ sweep.renewed

instance (s : State) (e : Event) : Decidable (Orderly s e) :=
  match e with
  | .commit op => inferInstanceAs (Decidable (∀ now ∈ op.time?, s.clock ≤ now))
  | .collect _ => inferInstanceAs (Decidable True)
  | .remove k now _ => inferInstanceAs
      (Decidable (s.clock ≤ now ∧ ∀ sweep ∈ s.sweeps[k]?, ∀ id ∈ sweep.rest.head?, id ∉ sweep.renewed))

/-- The node was in its grace period, and had been for 180 seconds. -/
def Swept.Expired (x : Swept) : Prop :=
    x.node.status = .grace ∧ ∃ since, x.graceSince = some since ∧ 180 ≤ x.time - since

/-! One step. -/

/-- What an operation does to the records, as far as grace periods go. -/
inductive Renewed (op : Operation) (r r' : Registry) : Prop
  | same : (∀ x ∈ op.renewal? r, r.nodes.lookup x.1 = none) → r'.nodes = r.nodes → Renewed op r r'
  | erased {k : Bytes} : op.renewal? r = none → r'.nodes = r.nodes.erase k → Renewed op r r'
  | renewed {k : Bytes} {since : Option Int} {node : NodeInfo} : op.renewal? r = some (k, since) →
      r'.nodes = r.nodes.insert k node →
      (node.status = .grace → since = some node.activeAt ∧ op.time? = some node.activeAt) → Renewed op r r'
  | touched {k : Bytes} {old node : NodeInfo} : op.renewal? r = none → r.nodes.lookup k = some old →
      r'.nodes = r.nodes.insert k node → node.status = old.status → op.time? = some node.activeAt → Renewed op r r'

variable {cfg : RegistryConfig} {r r' : Registry} {out : Outcome} {s t : State}

theorem run_renewed {op : Operation} (h : op.run cfg r = (r', out)) : Renewed op r r' := by
  cases op with
  | addEventCallback | removeEventCallback =>
    obtain ⟨rfl, -⟩ := Prod.mk.inj h
    exact .same nofun rfl
  | resolveNode role worker =>
    obtain ⟨rfl, -⟩ := Prod.mk.inj h
    exact .same nofun (nodes_resolveNode _ _ _ _)
  | registerOrUpdateNode now role workers ep peerIp existingId extra =>
    obtain ⟨node, hn, -, hreg, -⟩ := registerOrUpdateNode_effect h
    refine .renewed rfl hn fun hgrace => ?_
    rw [hreg.status] at hgrace
    cases hgrace
  | markNodeGrace now nodeId =>
    rcases modifyNode_effect h with ⟨hnone, rfl, -⟩ | ⟨old, -, hn, -, -⟩
    · refine .same (fun x hx => ?_) rfl
      obtain rfl := Option.some.inj hx
      exact hnone
    · exact .renewed rfl hn fun _ => ⟨rfl, rfl⟩
  | restoreNodeActive now nodeId =>
    rcases modifyNode_effect h with ⟨hnone, rfl, -⟩ | ⟨old, -, hn, -, -⟩
    · refine .same (fun x hx => ?_) rfl
      obtain rfl := Option.some.inj hx
      exact hnone
    · exact .renewed rfl hn nofun
  | updateNodeExtra now nodeId worker extra =>
    rcases updateNodeExtra_effect h with ⟨rfl, -⟩ | ⟨old, delta, hold, -, hn, -, -⟩
    · exact .same nofun rfl
    · exact .touched rfl hold hn rfl rfl
  | removeNodePermanently nodeId =>
    rcases removeNodePermanently_effect h with ⟨-, rfl, -⟩ | ⟨old, -, hn, -⟩
    · exact .same nofun rfl
    · exact .erased rfl hn

theorem mem_expiredNodes {now : Int} {id : Bytes} : id ∈ expiredNodes cfg.order now r ↔
    ∃ node, r.nodes.lookup id = some node ∧ node.status = .grace ∧ 180 ≤ now - node.activeAt := by
  rw [expiredNodes, List.mem_map]
  constructor
  · rintro ⟨⟨k, node⟩, hm, rfl⟩
    obtain ⟨hm, hexp⟩ := List.mem_filter.mp hm
    rw [Bool.and_eq_true, decide_eq_true_eq, decide_eq_true_eq] at hexp
    exact ⟨node, Table.mem_iterate.mp hm, hexp⟩
  · rintro ⟨node, hk, hgrace, hage⟩
    refine ⟨(id, node), List.mem_filter.mpr ⟨Table.mem_iterate.mpr hk, ?_⟩, rfl⟩
    rw [Bool.and_eq_true, decide_eq_true_eq, decide_eq_true_eq]
    exact ⟨hgrace, hage⟩

/-! The invariant. -/

/-- The grace period of the node began at `since`, and the clock has shown that time. -/
structure InGrace (s : State) (id : Bytes) (node : NodeInfo) (since : Int) : Prop where
  status : node.status = .grace
  began : s.graceSince id = some since
  active : since ≤ node.activeAt
  clock : since ≤ s.clock

/-- Nodes in their grace period have been active in it; and what a sweep holds and nobody
has renewed is expired. -/
structure Timely (s : State) : Prop where
  graced : ∀ id node, s.registry.nodes.lookup id = some node → node.status = .grace →
    ∃ since, InGrace s id node since
  held : ∀ sweep ∈ s.sweeps, ∀ id ∈ sweep.rest, id ∉ sweep.renewed →
    ∀ node, s.registry.nodes.lookup id = some node → ∃ since, InGrace s id node since ∧ since + 180 ≤ s.clock
  swept : ∀ x ∈ s.swept, x.Expired

/-- A record that is only passed on stays in its grace period. -/
theorem InGrace.later {id : Bytes} {node : NodeInfo} {since : Int} (h : InGrace s id node since)
    (hsince : t.graceSince id = s.graceSince id) (hclock : s.clock ≤ t.clock) : InGrace t id node since :=
  ⟨h.status, hsince.trans h.began, h.active, Int.le_trans h.clock hclock⟩

theorem timely_start (clock : Int) : Timely (start clock) := by
  refine ⟨fun id node h => ?_, fun sweep h => ?_, fun x h => ?_⟩
  · exact absurd h (by simp [start, empty])
  · cases h
  · cases h

/-- The record under `id` after an operation that does not renew it: the one before, as
long as it stays in its grace period or out of it. -/
structure Kept (op : Operation) (r : Registry) (id : Bytes) (node : NodeInfo) : Prop where
  other : ∀ x ∈ op.renewal? r, id ≠ x.1
  before : ∃ old, r.nodes.lookup id = some old ∧ node.status = old.status ∧
    (node.activeAt = old.activeAt ∨ op.time? = some node.activeAt)

theorem Renewed.found {op : Operation} (h : Renewed op r r') {id : Bytes} {node : NodeInfo}
    (hk : r'.nodes.lookup id = some node) :
    Kept op r id node ∨ ∃ since, op.renewal? r = some (id, since) ∧
      (node.status = .grace → since = some node.activeAt ∧ op.time? = some node.activeAt) := by
  cases h with
  | same hno hn =>
    rw [hn] at hk
    refine .inl ⟨fun x hx he => ?_, node, hk, rfl, .inl rfl⟩
    rw [he, hno x hx] at hk
    cases hk
  | @erased k hren hn =>
    rw [hn, Table.lookup_erase_eq_some] at hk
    exact .inl ⟨by simp [hren], node, hk.2, rfl, .inl rfl⟩
  | @renewed k since new hren hn hgrace =>
    rw [hn, Table.lookup_insert_eq_some] at hk
    rcases hk with ⟨rfl, rfl⟩ | ⟨he, hk⟩
    · exact .inr ⟨since, hren, hgrace⟩
    · exact .inl ⟨by simpa [hren] using he, node, hk, rfl, .inl rfl⟩
  | @touched k old new hren hold hn hstatus htime =>
    rw [hn, Table.lookup_insert_eq_some] at hk
    rcases hk with ⟨rfl, rfl⟩ | ⟨-, hk⟩
    · exact .inl ⟨by simp [hren], old, hold, hstatus, .inr htime⟩
    · exact .inl ⟨by simp [hren], node, hk, rfl, .inl rfl⟩

/-- A node that is kept stays in the grace period that it was in. -/
theorem Kept.inGrace {op : Operation} {id : Bytes} {node old : NodeInfo} {since : Int}
    (h : Kept op s.registry id node) (ho : Orderly s (.commit op)) (hstep : step cfg s (.commit op) = some t)
    (hold : s.registry.nodes.lookup id = some old) (hg : InGrace s id old since) : InGrace t id node since := by
  obtain ⟨hother, old', hold', hstatus, hactive⟩ := h
  obtain rfl := Option.some.inj (hold.symm.trans hold')
  obtain rfl := Option.some.inj hstep
  refine ⟨hstatus.trans hg.status, ?_, ?_, ?_⟩
  · rw [← hg.began]
    cases hx : op.renewal? s.registry with
    | none => rfl
    | some x => exact Function.update_of_ne (hother x hx) ..
  · rcases hactive with he | htime
    · exact he ▸ hg.active
    · exact Int.le_trans hg.clock (ho _ htime)
  · cases ht : op.time? with
    | none => exact hg.clock
    | some now => exact Int.le_trans hg.clock (ho now ht)

theorem timely_commit {op : Operation} (hs : Timely s) (ho : Orderly s (.commit op))
    (h : step cfg s (.commit op) = some t) : Timely t := by
  have hrun : Renewed op s.registry (op.run cfg s.registry).1 := run_renewed rfl
  have hstep := h
  obtain rfl := Option.some.inj h
  have hclock : s.clock ≤ op.time?.getD s.clock := by
    cases ht : op.time? with
    | none => exact Int.le_refl _
    | some now => exact ho now ht
  refine ⟨fun id node hk hgrace => ?_, fun sweep hm id hid hfresh node hk => ?_, hs.swept⟩
  · rcases hrun.found hk with hkept | ⟨since, hren, hnew⟩
    · obtain ⟨old, hold, hstatus, -⟩ := hkept.before
      obtain ⟨since, hg⟩ := hs.graced id old hold (hstatus.symm.trans hgrace)
      exact ⟨since, hkept.inGrace ho hstep hold hg⟩
    · obtain ⟨rfl, htime⟩ := hnew hgrace
      refine ⟨node.activeAt, hgrace, ?_, Int.le_refl _, ?_⟩
      · simp [hren]
      · simp [htime]
  · obtain ⟨before, hb, rfl⟩ := List.mem_map.mp hm
    rw [Sweep.renew, List.mem_append, not_or] at hfresh
    rcases hrun.found hk with hkept | ⟨since, hren, -⟩
    · obtain ⟨old, hold, -, -⟩ := hkept.before
      obtain ⟨since, hg, hage⟩ := hs.held before hb id hid hfresh.1 old hold
      exact ⟨since, hkept.inGrace ho hstep hold hg, Int.le_trans hage hclock⟩
    · exact absurd (by simp [hren]) hfresh.2

/-- What a sweep collects is expired. -/
theorem timely_collect {now : Int} (hs : Timely s) (h : step cfg s (.collect now) = some t) : Timely t := by
  obtain rfl := Option.some.inj h
  have hclock : s.clock ≤ max s.clock now := Int.le_max_left ..
  refine ⟨fun id node hk hgrace => ?_, fun sweep hm id hid hfresh node hk => ?_, hs.swept⟩
  · obtain ⟨since, hg⟩ := hs.graced id node hk hgrace
    exact ⟨since, hg.later rfl hclock⟩
  · rcases List.mem_append.mp hm with hm | hm
    · obtain ⟨since, hg, hage⟩ := hs.held sweep hm id hid hfresh node hk
      exact ⟨since, hg.later rfl hclock, Int.le_trans hage hclock⟩
    · obtain rfl := List.mem_singleton.mp hm
      obtain ⟨found, hfound, hgrace, hage⟩ := mem_expiredNodes.mp hid
      obtain rfl := Option.some.inj (hk.symm.trans hfound)
      obtain ⟨since, hg⟩ := hs.graced id node hk hgrace
      have hactive := hg.active
      have hnow : now ≤ max s.clock now := Int.le_max_right ..
      exact ⟨since, hg.later rfl hclock, by dsimp only; omega⟩

/-- What a sweep removes has been held since it was collected. -/
theorem timely_remove {k : Nat} {now : Int} {returns : Bool} (hs : Timely s)
    (ho : Orderly s (.remove k now returns)) (h : step cfg s (.remove k now returns) = some t) : Timely t := by
  obtain ⟨hclock, hfresh⟩ := ho
  simp only [step] at h
  split at h
  · rename_i id rest renewed hsweep
    obtain rfl := Option.some.inj h
    have hfresh : id ∉ renewed := hfresh _ hsweep id rfl
    have hmem := List.mem_of_getElem? hsweep
    refine ⟨fun k node hk hgrace => ?_, fun sweep hm k hid hnot node hk => ?_, fun x hx => ?_⟩
    · obtain ⟨since, hg⟩ := hs.graced k node (lookup_removed hk) hgrace
      exact ⟨since, hg.later rfl hclock⟩
    · obtain ⟨before, hb, hsub, heq⟩ : ∃ before ∈ s.sweeps,
          sweep.rest ⊆ before.rest ∧ sweep.renewed = before.renewed := by
        rcases List.mem_or_eq_of_mem_set hm with hm | rfl
        · exact ⟨sweep, hm, List.Subset.refl _, rfl⟩
        · refine ⟨_, hmem, ?_, rfl⟩
          split
          · exact List.subset_cons_self _ _
          · exact List.nil_subset _
      obtain ⟨since, hg, hage⟩ := hs.held before hb k (hsub hid) (heq ▸ hnot) node (lookup_removed hk)
      exact ⟨since, hg.later rfl hclock, Int.le_trans hage hclock⟩
    · rcases List.mem_append.mp hx with hx | hx
      · exact hs.swept x hx
      · obtain ⟨node, hnode, rfl⟩ := List.mem_map.mp hx
        have hstored : s.registry.nodes.lookup id = some node := Option.mem_toList.mp hnode
        obtain ⟨since, hg, hage⟩ := hs.held _ hmem id List.mem_cons_self hfresh node hstored
        exact ⟨hg.status, since, hg.began, by dsimp only; omega⟩
  · cases h

/-- **As long as the clock does not run backwards and no sweep removes what has been
registered, restored or marked since it was collected, every node that a sweep removes was
in its grace period, and had been for 180 seconds.** -/
theorem swept_nodes_expired (cfg : RegistryConfig) (clock : Int) {es : List Event} {s : State}
    (hrun : (machine cfg).Run Orderly (start clock) es s) : ∀ x ∈ s.swept, x.Expired := by
  have hs : Timely s := by
    refine hrun.invariant Timely (timely_start clock) fun m e n hm ho hstep => ?_
    cases e with
    | commit op => exact timely_commit hm ho hstep
    | collect now => exact timely_collect hm hstep
    | remove k now returns => exact timely_remove hm ho hstep
  exact hs.swept

private def caller : Bytes := generateNodeId 0 1

/-- A node registers, loses its session, and is swept some time after. -/
private def leaving : List Event :=
  [.commit (.registerOrUpdateNode 0 (ascii "gate") [] none (ascii "127.0.0.1") [] .null),
    .commit (.markNodeGrace 5 caller), .collect 190, .remove 0 191 true]

private def left : State := ((machine (.ofDocuments [])).execIf Orderly (start 0) leaving).getD (start 0)

private theorem left_swept :
    ((machine (.ofDocuments [])).execIf Orderly (start 0) leaving).isSome = true ∧ left.swept.length = 1 := by
  decide +kernel

theorem left_expired : left.swept.length = 1 ∧ ∀ x ∈ left.swept, x.Expired :=
  ⟨left_swept.2, swept_nodes_expired (.ofDocuments []) 0 ((machine (.ofDocuments [])).run_execIf Orderly left_swept.1)⟩

/-- The node comes back between the collecting phase and its removal. -/
private def returning : List Event :=
  [.commit (.registerOrUpdateNode 0 (ascii "gate") [] none (ascii "127.0.0.1") [] .null),
    .commit (.markNodeGrace 5 caller), .collect 190, .commit (.restoreNodeActive 191 caller), .remove 0 192 true]

private theorem returning_swept :
    ((machine (.ofDocuments [])).exec (start 0) returning).isSome = true ∧
      (((machine (.ofDocuments [])).exec (start 0) returning).getD (start 0)).swept.map (fun x => x.node.status) =
        [.ok] := by
  decide +kernel

/-- The sweep removes a node that is OK. -/
theorem live_node_swept : ¬ ∀ (cfg : RegistryConfig) (clock : Int) (es : List Event) (s : State),
    (machine cfg).Reaches (start clock) es s → ∀ x ∈ s.swept, x.Expired := by
  intro h
  obtain ⟨hrun, hswept⟩ := returning_swept
  have hx := h (.ofDocuments []) 0 returning _ ((machine (.ofDocuments [])).reaches_exec hrun)
  obtain ⟨x, hm, hok⟩ := List.mem_map.mp (hswept ▸ List.mem_singleton_self NodeStatus.ok)
  have hgrace := (hx x hm).1
  rw [hok] at hgrace
  cases hgrace

end Sweeping
end LightApr.Core.Registry
