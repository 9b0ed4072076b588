import LightApr.Core.RegistryExtra
import LightApr.Core.RegistryIds
import LightApr.Core.RegistryPages
import LightApr.Core.RegistryStats
import LightApr.Core.RegistrySweeps

/-! The end of a grace period: as the read paths show it, and as the sweeps keep it. -/
namespace LightApr.Core.Registry
open Lib

/-! A sweep without calls of other threads. -/

/-- What a removal announces. -/
def erasedRecord (node : NodeInfo) : NodeInfo := { node with status := .erased, expiresIn := some 0 }

section
variable (cfg : RegistryConfig) (fails : NodeInfo → Bool)

/-- The removals of a sweep. An exception ends them: one of the removal itself, or of a callback, which
throws at the records in `fails`. -/
def removeExpired : List Bytes → Registry → Registry
  | [], r => r
  | id :: rest, r =>
    match r.removeNodePermanently cfg id with
    | (r, .refused) => removeExpired rest r
    | (r, .threw) => r
    | (r, .event node) => if fails node then r else removeExpired rest r

def sweepExpiredNodes (now : Int) (r : Registry) : Registry :=
  removeExpired cfg fails (expiredNodes cfg.order now r) r

end

section
variable {cfg : RegistryConfig} {fails : NodeInfo → Bool} {r : Registry} {k : Bytes} {node : NodeInfo} {now : Int}

/-- No callback throws at a record that the sweep removes. -/
def Unhindered (cfg : RegistryConfig) (fails : NodeInfo → Bool) (now : Int) (r : Registry) : Prop :=
  ∀ id ∈ expiredNodes cfg.order now r, ∀ node ∈ r.nodes.lookup id, fails (erasedRecord node) = false

instance : Decidable (Unhindered cfg fails now r) := inferInstanceAs (Decidable (∀ id ∈ _, _))

/-- Without exceptions a sweep removes what it has collected, and nothing else. -/
theorem removeExpired_removes {ids : List Bytes} (hr : Stored (WellFormed cfg) r)
    (hf : ∀ id ∈ ids, ∀ node ∈ r.nodes.lookup id, fails (erasedRecord node) = false) :
    Stored (WellFormed cfg) (removeExpired cfg fails ids r) ∧
      (removeExpired cfg fails ids r).nodes.lookup k = if k ∈ ids then none else r.nodes.lookup k := by
  induction ids generalizing r with
  | nil => exact ⟨hr, rfl⟩
  | cons id rest ih =>
    obtain ⟨⟨r', out⟩, hrun⟩ : ∃ x, r.removeNodePermanently cfg id = x := ⟨_, rfl⟩
    have hr' : Stored (WellFormed cfg) r' :=
      wellFormed_run hr (show (Operation.removeNodePermanently id).run cfg r = _ from hrun)
    have hlookup (k : Bytes) : r'.nodes.lookup k = if k = id then none else r.nodes.lookup k := by
      rcases removeNodePermanently_effect hrun with ⟨hnone, rfl, -⟩ | ⟨old, -, hn, -⟩
      · split
        · rename_i he
          rw [he, hnone]
        · rfl
      · rw [hn]
        split
        · rename_i he
          rw [he, AList.lookup_erase]
        · rename_i he
          rw [AList.lookup_erase_ne he]
    have hstep : removeExpired cfg fails (id :: rest) r = removeExpired cfg fails rest r' := by
      rw [removeExpired, hrun]
      rcases removeNodePermanently_effect hrun with ⟨-, -, rfl⟩ | ⟨old, hold, -, -, -, hevent⟩
      · rfl
      · obtain rfl := hevent (hr id old hold).extraFits.printable
        dsimp only
        rw [if_neg]
        exact Bool.eq_false_iff.mp (hf id List.mem_cons_self old hold)
    have hrest := ih hr' fun id' hid node hnode => by
      rw [hlookup] at hnode
      split at hnode
      · cases hnode
      · exact hf id' (List.mem_cons_of_mem _ hid) node hnode
    rw [hstep]
    refine ⟨hrest.1, hrest.2.trans ?_⟩
    rw [hlookup]
    by_cases hid : k = id
    · simp [hid]
    · simp [hid]

/-! The countdown. -/

/-- The record with what is left of its grace period. -/
def counting (now : Int) (node : NodeInfo) : NodeInfo :=
  { node with expiresIn := if node.status = .grace then some (graceRemaining now node) else none }

theorem getNode_eq (hr : Stored (WellFormed cfg) r) (k : Bytes) :
    r.getNode now k = (r.nodes.lookup k).map (counting now) := by
  unfold getNode
  cases hk : r.nodes.lookup k with
  | none => rfl
  | some node =>
    have hexpires := (hr k node hk).expires
    rw [Option.map_some, Option.map_some, counting]
    by_cases hg : node.status = .grace
    · rw [if_pos ⟨hg, hexpires.mpr hg⟩, if_pos hg]
    · rw [if_neg fun h => hg h.1, if_neg hg]
      have hnone : node.expiresIn = none := Option.not_isSome_iff_eq_none.mp fun h => hg (hexpires.mp h)
      rw [← hnone]

theorem matched_eq (hr : Stored (WellFormed cfg) r) (order : MapOrder) :
    matched order now [] [] r = (enumerated order r).map (counting now) := by
  have hall : (enumerated order r).filter (matchesFilter [] []) = enumerated order r := by
    refine List.filter_eq_self.mpr fun node hn => ?_
    obtain ⟨k, hk⟩ := mem_enumerated.mp hn
    simp [matchesFilter, (hr k node hk).status]
  rw [matched, ← enumerated, hall]
  refine List.map_congr_left fun node hn => ?_
  obtain ⟨k, hk⟩ := mem_enumerated.mp hn
  have hexpires := (hr k node hk).expires
  rw [counting]
  split
  · rfl
  · rename_i hg
    have hnone : node.expiresIn = none := Option.not_isSome_iff_eq_none.mp fun h => hg (hexpires.mp h)
    rw [← hnone]

/-- A first page with room for every node lists them all. -/
theorem queryRegistry_covering (order : MapOrder) {page count : Nat} (hpage : page ≤ 1)
    (hcount : r.nodes.entries.length ≤ count) (h64 : count < sizeMax) (role worker : Bytes) :
    queryRegistry order now page count role worker r =
      some ((matched order now role worker r).length, matched order now role worker r) := by
  have hle := (matched_length_le order now role worker r).trans hcount
  have hstart : (if page < 1 then 1 else page) - 1 = 0 := by
    split <;> omega
  unfold queryRegistry pageRange
  generalize matched order now role worker r = nodes at hle
  dsimp only
  rw [hstart, Nat.zero_mul, Nat.zero_mod, Nat.zero_add, Nat.mod_eq_of_lt h64, Nat.min_eq_right hle]
  split
  · rename_i hrange
    split at hrange
    · rename_i hempty
      rw [List.eq_nil_of_length_eq_zero (Nat.le_zero.mp hempty)]
    · cases hrange
  · rename_i hrange
    split at hrange
    · cases hrange
    · obtain ⟨rfl, rfl⟩ := Prod.mk.inj (Option.some.inj hrange)
      rw [if_neg (Nat.not_lt_zero _), List.take_length, List.drop_zero]

/-- The countdown has run out exactly if a sweep collects the node. -/
theorem counting_zero_iff (hk : r.nodes.lookup k = some node) :
    (counting now node).expiresIn = some 0 ↔ k ∈ expiredNodes cfg.order now r := by
  rw [Sweeping.mem_expiredNodes]
  have hzero : graceRemaining now node = 0 ↔ 180 ≤ now - node.activeAt := by
    unfold graceRemaining
    dsimp only
    split <;> omega
  constructor
  · intro h
    by_cases hg : node.status = .grace
    · rw [counting, if_pos hg] at h
      exact ⟨node, hk, hg, hzero.mp (Option.some.inj h)⟩
    · rw [counting, if_neg hg] at h
      cases h
  · rintro ⟨found, hfound, hg, hage⟩
    obtain rfl := Option.some.inj (hk.symm.trans hfound)
    rw [counting, if_pos hg, hzero.mpr hage]

/-- The countdown that the read paths give for a record under `k`, against its status and the sweeps. -/
structure Counted (cfg : RegistryConfig) (now : Int) (r : Registry) (k : Bytes) (record : NodeInfo) : Prop where
  absent : record.expiresIn = none ↔ record.status = .ok
  range : record.status = .grace → ∃ left, record.expiresIn = some left ∧ 0 ≤ left ∧ left ≤ 180
  zero : ∀ fails, Unhindered cfg fails now r →
    (record.expiresIn = some 0 ↔ (sweepExpiredNodes cfg fails now r).nodes.lookup k = none)

theorem counted_counting (hr : Stored (WellFormed cfg) r) (hk : r.nodes.lookup k = some node)
    (hnow : node.activeAt ≤ now) : Counted cfg now r k (counting now node) where
  absent := by
    have hstatus := (hr k node hk).status
    cases hs : node.status with
    | ok => simp [counting, hs]
    | grace => simp [counting, hs]
    | erased => exact absurd hs hstatus
  range hg := by
    have hg : node.status = .grace := hg
    refine ⟨graceRemaining now node, by rw [counting, if_pos hg], ?_⟩
    unfold graceRemaining
    dsimp only
    split <;> omega
  zero fails hf := by
    obtain ⟨-, hlookup⟩ := removeExpired_removes (k := k) hr hf
    rw [counting_zero_iff hk, sweepExpiredNodes, hlookup, hk]
    split
    · rename_i hmem
      exact iff_of_true hmem rfl
    · rename_i hmem
      exact iff_of_false hmem (by simp)

end

/-- **In every registry that a run leaves, at a time that no record is ahead of: a first page with room for
all nodes lists what `get_node` returns for each of them, and its countdown is absent for the nodes that are
OK, between 0 and 180 for those in their grace period, and 0 for those that a sweep removes.** -/
theorem deadlines_agree (cfg : RegistryConfig) (ops : List Operation) {now : Int}
    (hnow : Stored (fun _ node => node.addedAt ≤ now ∧ node.activeAt ≤ now) (after cfg empty ops)) :
    (∀ page count, page ≤ 1 → (after cfg empty ops).nodes.entries.length ≤ count → count < sizeMax →
      queryRegistry cfg.order now page count [] [] (after cfg empty ops) =
        some ((after cfg empty ops).nodes.entries.length,
          ((after cfg empty ops).nodes.iterate cfg.order).filterMap fun e => (after cfg empty ops).getNode now e.1)) ∧
    ∀ k node, (after cfg empty ops).nodes.lookup k = some node →
      ∃ record, (after cfg empty ops).getNode now k = some record ∧ record = { node with expiresIn := record.expiresIn } ∧
        Counted cfg now (after cfg empty ops) k record := by
  have hr : Stored (WellFormed cfg) (after cfg empty ops) := wellFormed_after (stored_empty _) ops
  generalize after cfg empty ops = r at hnow hr ⊢
  refine ⟨fun page count hpage hcount h64 => ?_, fun k node hk => ?_⟩
  · have hlist : (r.nodes.iterate cfg.order).filterMap (fun e => r.getNode now e.1) =
        (enumerated cfg.order r).map (counting now) := by
      rw [enumerated, List.map_map, ← List.filterMap_eq_map]
      refine List.filterMap_congr fun e he => ?_
      rw [getNode_eq hr, Table.mem_iterate.mp he]
      rfl
    rw [queryRegistry_covering cfg.order hpage hcount h64, matched_eq hr, hlist, List.length_map, length_enumerated]
  · refine ⟨counting now node, ?_, rfl, counted_counting hr hk (hnow k node hk).2⟩
    rw [getNode_eq hr, hk]
    rfl

private def guest : Bytes := generateNodeId 0 1

/-- A node registers and loses its session. -/
private def waiting : List Operation :=
  [.registerOrUpdateNode 0 (ascii "gate") [ascii "job"] none (ascii "127.0.0.1") [] .null, .markNodeGrace 5 guest]

private theorem waiting_run : ClockUntil 65 waiting ∧
    ((after (.ofDocuments []) empty waiting).nodes.lookup guest).isSome = true ∧
    (after (.ofDocuments []) empty waiting).nodes.entries.length ≤ 10 := by
  decide +kernel

theorem waiting_counted :
    (∃ listed, queryRegistry .written 65 1 10 [] [] (after (.ofDocuments []) empty waiting) = some listed) ∧
      ∃ record, (after (.ofDocuments []) empty waiting).getNode 65 guest = some record ∧
        Counted (.ofDocuments []) 65 (after (.ofDocuments []) empty waiting) guest record := by
  obtain ⟨hclock, hsome, hlen⟩ := waiting_run
  have htimed : Stored (Timed 65) (after (.ofDocuments []) empty waiting) := timed_after hclock
  have hnow : Stored (fun _ node => node.addedAt ≤ 65 ∧ node.activeAt ≤ 65) (after (.ofDocuments []) empty waiting) :=
    fun k node hk => ⟨Int.le_trans (htimed k node hk).1 (htimed k node hk).2, (htimed k node hk).2⟩
  obtain ⟨hpage, hrecord⟩ := deadlines_agree (.ofDocuments []) waiting hnow
  obtain ⟨node, hk⟩ := Option.isSome_iff_exists.mp hsome
  obtain ⟨record, hget, -, hcounted⟩ := hrecord guest node hk
  exact ⟨⟨_, hpage 1 10 (by decide) hlen (by decide)⟩, record, hget, hcounted⟩

/-! Runs of operations and sweeps, one after the other. -/
namespace Deadline

/-- A record that a sweep removed: when its grace period had begun, and when that was. -/
structure Removal where
  id : Bytes
  graceSince : Option Int
  time : Int
  deriving DecidableEq, Repr

/-- The registry and the last time read off the clock; as history, when each node was last put in its grace
period, the times of the sweeps, and what they removed. -/
structure State where
  registry : Registry
  clock : Int
  graceSince : Bytes → Option Int
  sweeps : List Int
  removed : List Removal

inductive Event where
  | call (op : Operation)
  | sweep (now : Int)

def Event.time? : Event → Option Int
  | call op => op.time?
  | sweep now => some now

section
variable (cfg : RegistryConfig) (fails : NodeInfo → Bool)

def step (s : State) : Event → Option State
  | .call op =>
    some { s with
      registry := (op.run cfg s.registry).1
      clock := op.time?.getD s.clock
      graceSince := (op.renewal? s.registry).elim s.graceSince fun x => Function.update s.graceSince x.1 x.2 }
  | .sweep now =>
    let registry := sweepExpiredNodes cfg fails now s.registry
    let gone := (expiredNodes cfg.order now s.registry).filter fun id => (registry.nodes.lookup id).isNone
    some { s with
      registry
      clock := now
      sweeps := s.sweeps ++ [now]
      removed := s.removed ++ gone.map fun id => ⟨id, s.graceSince id, now⟩ }

def machine : Machine State Event := ⟨step cfg fails⟩

end

def start (clock : Int) : State := ⟨empty, clock, fun _ => none, [], []⟩

/-- The clock does not run backwards. -/
def Onward (s : State) (e : Event) : Prop := ∀ now ∈ e.time?, s.clock ≤ now

/-- No data is accepted for a node in its grace period, but in the second in which the period began, and no
callback throws at a record that a sweep removes. -/
def Undisturbed (cfg : RegistryConfig) (fails : NodeInfo → Bool) (s : State) : Event → Prop
  | .call (.updateNodeExtra now nodeId worker extra) => ∀ node ∈ s.registry.nodes.lookup nodeId,
    node.status = .grace → accepts cfg node worker extra = true → s.graceSince nodeId = some now
  | .call _ => True
  | .sweep now => Unhindered cfg fails now s.registry

instance (s : State) (e : Event) : Decidable (Onward s e) :=
  inferInstanceAs (Decidable (∀ now ∈ e.time?, s.clock ≤ now))

instance (cfg : RegistryConfig) (fails : NodeInfo → Bool) (s : State) (e : Event) :
    Decidable (Undisturbed cfg fails s e) :=
  match e with
  | .call (.updateNodeExtra now nodeId worker extra) => inferInstanceAs (Decidable (∀ node ∈
      s.registry.nodes.lookup nodeId, node.status = .grace → accepts cfg node worker extra = true →
        s.graceSince nodeId = some now))
  | .call (.addEventCallback _) | .call (.removeEventCallback _) | .call (.registerOrUpdateNode ..)
  | .call (.markNodeGrace ..) | .call (.restoreNodeActive ..) | .call (.removeNodePermanently _)
  | .call (.resolveNode ..) => inferInstanceAs (Decidable True)
  | .sweep now => inferInstanceAs (Decidable (Unhindered cfg fails now s.registry))

/-- Whatever a sweep removed had been in its grace period for 180 seconds, and what is still in its grace
period had not been in it for 180 seconds at any sweep. -/
structure Kept (s : State) : Prop where
  notEarlier : ∀ x ∈ s.removed, ∃ since, x.graceSince = some since ∧ since + 180 ≤ x.time
  notLater : ∀ id node, s.registry.nodes.lookup id = some node → node.status = .grace →
    ∃ since, s.graceSince id = some since ∧ ∀ now ∈ s.sweeps, now < since + 180

variable {cfg : RegistryConfig} {fails : NodeInfo → Bool} {s t : State} {op : Operation} {id : Bytes} {node : NodeInfo}

theorem about_renewal {r : Registry} {x : Bytes × Option Int} (h : x ∈ op.renewal? r) : op.about? r = some x.1 := by
  cases op with
  | registerOrUpdateNode | restoreNodeActive | markNodeGrace =>
    obtain rfl := Option.some.inj h
    rfl
  | addEventCallback | removeEventCallback | updateNodeExtra | removeNodePermanently | resolveNode => cases h

/-- The invariant: the times of the grace periods are those the records carry, and no sweep has been later
than the clock. -/
structure Deadlines (cfg : RegistryConfig) (s : State) : Prop where
  stored : Stored (WellFormed cfg) s.registry
  graced : ∀ id node, s.registry.nodes.lookup id = some node → node.status = .grace →
    s.graceSince id = some node.activeAt
  past : ∀ now ∈ s.sweeps, now ≤ s.clock
  kept : Kept s

/-- A record in its grace period after an operation: one that the operation has just put there, or one whose
period goes on as it was. -/
theorem graced_call (hs : Deadlines cfg s) (hu : Undisturbed cfg fails s (.call op))
    (h : step cfg fails s (.call op) = some t) (hk : t.registry.nodes.lookup id = some node)
    (hg : node.status = .grace) : t.graceSince id = some node.activeAt ∧
      (op.time? = some node.activeAt ∨ s.graceSince id = some node.activeAt ∧
        ∃ old, s.registry.nodes.lookup id = some old ∧ old.status = .grace) := by
  obtain rfl := Option.some.inj h
  obtain ⟨⟨r, out⟩, hrun⟩ : ∃ x, op.run cfg s.registry = x := ⟨_, rfl⟩
  dsimp only at hk ⊢
  rw [hrun] at hk
  -- the history is only written for the node that the operation is about
  have hsince (hno : ∀ x ∈ op.renewal? s.registry, x.1 ≠ id) : ((op.renewal? s.registry).elim s.graceSince fun x =>
      Function.update s.graceSince x.1 x.2) id = s.graceSince id := by
    cases hx : op.renewal? s.registry with
    | none => rfl
    | some x => exact Function.update_of_ne (Ne.symm (hno x hx)) ..
  have keep {old : NodeInfo} (hno : ∀ x ∈ op.renewal? s.registry, x.1 ≠ id)
      (hold : s.registry.nodes.lookup id = some old) (hgrace : old.status = .grace)
      (hactive : s.graceSince id = some node.activeAt) :
      ((op.renewal? s.registry).elim s.graceSince fun x => Function.update s.graceSince x.1 x.2) id =
        some node.activeAt ∧ (op.time? = some node.activeAt ∨ s.graceSince id = some node.activeAt ∧
          ∃ old, s.registry.nodes.lookup id = some old ∧ old.status = .grace) :=
    ⟨(hsince hno).trans hactive, .inr ⟨hactive, old, hold, hgrace⟩⟩
  by_cases habout : op.about? s.registry = some id
  · cases op with
    | addEventCallback | removeEventCallback | resolveNode => cases habout
    | registerOrUpdateNode now role workers ep peerIp existingId extra =>
      obtain ⟨new, hn, -, hreg, -⟩ := registerOrUpdateNode_effect hrun
      obtain rfl := Option.some.inj habout
      rw [hn, AList.lookup_insert] at hk
      obtain rfl := Option.some.inj hk
      cases hreg.status.symm.trans hg
    | restoreNodeActive now nodeId =>
      obtain rfl := Option.some.inj habout
      rcases modifyNode_effect hrun with ⟨hnone, rfl, -⟩ | ⟨old, -, hn, -⟩
      · cases hnone.symm.trans hk
      · rw [hn, AList.lookup_insert] at hk
        obtain rfl := Option.some.inj hk
        cases hg
    | markNodeGrace now nodeId =>
      obtain rfl := Option.some.inj habout
      rcases modifyNode_effect hrun with ⟨hnone, rfl, -⟩ | ⟨old, -, hn, -⟩
      · cases hnone.symm.trans hk
      · rw [hn, AList.lookup_insert] at hk
        obtain rfl := Option.some.inj hk
        exact ⟨Function.update_self .., .inl rfl⟩
    | updateNodeExtra now nodeId worker extra =>
      obtain rfl := Option.some.inj habout
      rcases updateNodeExtra_effect hrun with ⟨rfl, -⟩ | ⟨old, delta, hold, htry, hn, -⟩
      · exact keep nofun hk hg (hs.graced nodeId node hk hg)
      · rw [hn, AList.lookup_insert] at hk
        obtain rfl := Option.some.inj hk
        exact keep nofun hold hg (hu old hold hg (accepts_of_stored htry))
    | removeNodePermanently nodeId =>
      obtain rfl := Option.some.inj habout
      rcases removeNodePermanently_effect hrun with ⟨hnone, rfl, -⟩ | ⟨old, -, hn, -⟩
      · cases hnone.symm.trans hk
      · rw [hn, AList.lookup_erase] at hk
        cases hk
  · rw [lookup_run hrun habout] at hk
    refine keep (fun x hx he => ?_) hk hg (hs.graced id node hk hg)
    exact habout (he ▸ about_renewal hx)

theorem deadlines_call (hs : Deadlines cfg s) (ho : Onward s (.call op)) (hu : Undisturbed cfg fails s (.call op))
    (h : step cfg fails s (.call op) = some t) : Deadlines cfg t := by
  have hgraced {id : Bytes} {node : NodeInfo} (hk : t.registry.nodes.lookup id = some node)
      (hg : node.status = .grace) := graced_call hs hu h hk hg
  obtain rfl := Option.some.inj h
  refine ⟨wellFormed_run hs.stored rfl, fun id node hk hg => (hgraced hk hg).1, fun now hn => ?_,
    hs.kept.notEarlier, fun id node hk hg => ?_⟩
  · refine Int.le_trans (hs.past now hn) ?_
    show s.clock ≤ op.time?.getD s.clock
    cases ht : op.time? with
    | none => exact Int.le_refl _
    | some now => exact ho now ht
  · obtain ⟨hsince, hfrom⟩ := hgraced hk hg
    refine ⟨node.activeAt, hsince, fun now hn => ?_⟩
    rcases hfrom with htime | ⟨hsince', old, hold, hgrace⟩
    · have hpast := hs.past now hn
      have hclock := ho _ htime
      omega
    · obtain ⟨since, hbegan, hbefore⟩ := hs.kept.notLater id old hold hgrace
      obtain rfl := Option.some.inj (hsince'.symm.trans hbegan)
      exact hbefore now hn

theorem deadlines_sweep {now : Int} (hs : Deadlines cfg s) (ho : Onward s (.sweep now))
    (hu : Undisturbed cfg fails s (.sweep now)) (h : step cfg fails s (.sweep now) = some t) : Deadlines cfg t := by
  obtain rfl := Option.some.inj h
  have hclock : s.clock ≤ now := ho now rfl
  have hremoves (id : Bytes) : Stored (WellFormed cfg) (sweepExpiredNodes cfg fails now s.registry) ∧
      (sweepExpiredNodes cfg fails now s.registry).nodes.lookup id =
        if id ∈ expiredNodes cfg.order now s.registry then none else s.registry.nodes.lookup id :=
    removeExpired_removes hs.stored hu
  -- what is left was there before, and is not expired
  have hleft {id : Bytes} {node : NodeInfo}
      (hk : (sweepExpiredNodes cfg fails now s.registry).nodes.lookup id = some node) :
      s.registry.nodes.lookup id = some node ∧ id ∉ expiredNodes cfg.order now s.registry := by
    rw [(hremoves id).2] at hk
    split at hk
    · cases hk
    · rename_i hno
      exact ⟨hk, hno⟩
  refine ⟨(hremoves []).1, fun id node hk hg => hs.graced id node (hleft hk).1 hg, fun n hn => ?_, fun x hx => ?_,
    fun id node hk hg => ?_⟩
  · rcases List.mem_append.mp hn with hn | hn
    · exact Int.le_trans (hs.past n hn) hclock
    · exact Int.le_of_eq (List.mem_singleton.mp hn)
  · rcases List.mem_append.mp hx with hx | hx
    · exact hs.kept.notEarlier x hx
    · obtain ⟨id, hid, rfl⟩ := List.mem_map.mp hx
      obtain ⟨node, hk, hg, hage⟩ := Sweeping.mem_expiredNodes.mp (List.mem_filter.mp hid).1
      exact ⟨node.activeAt, hs.graced id node hk hg, by dsimp only; omega⟩
  · obtain ⟨hold, hno⟩ := hleft hk
    obtain ⟨since, hsince, hbefore⟩ := hs.kept.notLater id node hold hg
    refine ⟨since, hsince, fun n hn => ?_⟩
    rcases List.mem_append.mp hn with hn | hn
    · exact hbefore n hn
    · obtain rfl := List.mem_singleton.mp hn
      obtain rfl := Option.some.inj (hsince.symm.trans (hs.graced id node hold hg))
      by_contra hage
      exact hno (Sweeping.mem_expiredNodes.mpr ⟨node, hold, hg, by omega⟩)

/-- **In every run on a clock that does not run backwards, in which no data is accepted for a node in its
grace period, every node is removed by the first sweep 180 seconds or more after its grace period began, and
by none before.** -/
theorem grace_deadline_kept (cfg : RegistryConfig) (fails : NodeInfo → Bool) (clock : Int) {es : List Event}
    (hrun : (machine cfg fails).Run (fun s e => Onward s e ∧ Undisturbed cfg fails s e) (start clock) es s) :
    Kept s := by
  have hs : Deadlines cfg s := by
    refine hrun.invariant (Deadlines cfg) ?_ fun m e n hm hc hstep => ?_
    · refine ⟨stored_empty _, fun id node hk => ?_, nofun, nofun, fun id node hk => ?_⟩
      · exact absurd hk (by simp [start, empty])
      · exact absurd hk (by simp [start, empty])
    · cases e with
      | call op => exact deadlines_call hm hc.1 hc.2 hstep
      | sweep now => exact deadlines_sweep hm hc.1 hc.2 hstep
  exact hs.kept

/-- A node registers with data, loses its session at 5, and the sweeps go on. -/
private def leaving (more : List Event) : List Event :=
  [.call (.registerOrUpdateNode 0 (ascii "gate") [ascii "job"] none (ascii "127.0.0.1") [] .null),
    .call (.updateNodeExtra 3 guest (ascii "job") (.obj [])), .call (.markNodeGrace 5 guest), .sweep 184] ++ more

private abbrev Good (s : State) (e : Event) : Prop := Onward s e ∧ Undisturbed (.ofDocuments []) (fun _ => false) s e

private def system : Machine State Event := machine (.ofDocuments []) fun _ => false

private def left : State := (system.execIf Good (start 0) (leaving [.sweep 185])).getD (start 0)

private theorem left_removed : (system.execIf Good (start 0) (leaving [.sweep 185])).isSome = true ∧
    left.removed = [⟨guest, some 5, 185⟩] := by
  decide +kernel

theorem guest_removed_in_time : left.removed = [⟨guest, some 5, 185⟩] ∧ Kept left :=
  ⟨left_removed.2, grace_deadline_kept (.ofDocuments []) (fun _ => false) 0 (system.run_execIf Good left_removed.1)⟩

/-- Data arrives for the node before its grace period is over. -/
private def postponing : List Event := leaving [.call (.updateNodeExtra 184 guest (ascii "job") (.obj [])), .sweep 185]

private def postponed : State := (system.execIf Onward (start 0) postponing).getD (start 0)

private theorem postponed_stored : (system.execIf Onward (start 0) postponing).isSome = true ∧
    (postponed.registry.nodes.lookup guest).map NodeInfo.status = some .grace ∧
    postponed.graceSince guest = some 5 ∧ 185 ∈ postponed.sweeps := by
  decide +kernel

/-- 180 seconds after the session ended the sweep leaves the node where it is. -/
private theorem kept_after_data : ¬ ∀ (cfg : RegistryConfig) (clock : Int) (es : List Event) (s : State),
    (machine cfg fun _ => false).Run Onward (start clock) es s → Kept s := by
  intro h
  obtain ⟨hrun, hgrace, hsince, hsweep⟩ := postponed_stored
  have hkept := h (.ofDocuments []) 0 postponing _ (system.run_execIf Onward hrun)
  obtain ⟨node, hk, hg⟩ := Option.map_eq_some_iff.mp hgrace
  obtain ⟨since, hbegan, hbefore⟩ := hkept.notLater guest node hk hg
  obtain rfl := Option.some.inj (hsince.symm.trans hbegan)
  exact absurd (hbefore 185 hsweep) (by decide)

/-- A callback that serialises the record, which fails if its role is no text. -/
private def broadcasts : Machine State Event := machine (.ofDocuments []) fun node => !node.toJson.utf8

/-- Two sessions end; the role of one node is no text, and no data is ever announced. -/
private def shared : List Event :=
  [.call (.registerOrUpdateNode 0 (ascii "gate") [] none (ascii "127.0.0.1") [] .null),
    .call (.registerOrUpdateNode 0 [0xFF] [] none (ascii "127.0.0.1") [] .null),
    .call (.markNodeGrace 5 guest), .call (.markNodeGrace 5 (generateNodeId 0 2)), .sweep 185]

private def spoilt : State := (broadcasts.execIf Onward (start 0) shared).getD (start 0)

private theorem spoilt_stored : (broadcasts.execIf Onward (start 0) shared).isSome = true ∧
    (spoilt.registry.nodes.lookup guest).map NodeInfo.status = some .grace ∧
    spoilt.graceSince guest = some 5 ∧ 185 ∈ spoilt.sweeps := by
  decide +kernel

/-- And a callback that throws at the record of another node makes the sweep leave this one. -/
private theorem kept_after_throw : ¬ ∀ (cfg : RegistryConfig) (fails : NodeInfo → Bool) (clock : Int)
    (es : List Event) (s : State), (∀ now nodeId worker extra, .call (.updateNodeExtra now nodeId worker extra) ∉ es) →
      (machine cfg fails).Run Onward (start clock) es s → Kept s := by
  intro h
  obtain ⟨hrun, hgrace, hsince, hsweep⟩ := spoilt_stored
  have hkept := h (.ofDocuments []) _ 0 shared _ (by simp [shared]) (broadcasts.run_execIf Onward hrun)
  obtain ⟨node, hk, hg⟩ := Option.map_eq_some_iff.mp hgrace
  obtain ⟨since, hbegan, hbefore⟩ := hkept.notLater guest node hk hg
  obtain rfl := Option.some.inj (hsince.symm.trans hbegan)
  exact absurd (hbefore 185 hsweep) (by decide)

/-- A node outlives its grace period where data is accepted for it and no callback throws, and also where
no data is ever announced and a callback throws. -/
theorem guest_kept_too_long :
    (¬ ∀ (cfg : RegistryConfig) (clock : Int) (es : List Event) (s : State),
      (machine cfg fun _ => false).Run Onward (start clock) es s → Kept s) ∧
    ¬ ∀ (cfg : RegistryConfig) (fails : NodeInfo → Bool) (clock : Int) (es : List Event) (s : State),
      (∀ now nodeId worker extra, .call (.updateNodeExtra now nodeId worker extra) ∉ es) →
        (machine cfg fails).Run Onward (start clock) es s → Kept s :=
  ⟨kept_after_data, kept_after_throw⟩

end Deadline

end LightApr.Core.Registry
