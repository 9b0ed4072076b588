import LightApr.Core.RegistryRuns
import Mathlib.Algebra.GroupWithZero.Nat

/-! The statistics of the registry, against the totals its queries report. -/
namespace LightApr.Core.Registry

/-- A counter that was never incremented stands at zero. -/
def counted (key : Bytes) (counts : Table Nat) : Nat := (counts.lookup key).getD 0

theorem counted_increment (key k : Bytes) (counts : Table Nat) :
    counted key (increment k counts) = counted key counts + if k = key then 1 else 0 := by
  rw [counted, increment, Table.getD_lookup_insert]
  by_cases hk : k = key
  · subst hk
    rw [if_pos rfl, if_pos rfl]
    rfl
  · rw [if_neg (Ne.symm hk), if_neg hk, Nat.add_zero]
    rfl

theorem counted_foldl (key : Bytes) (keys : List Bytes) (counts : Table Nat) :
    counted key (keys.foldl (fun counts k => increment k counts) counts) = counted key counts + keys.count key := by
  induction keys generalizing counts with
  | nil => rfl
  | cons k keys ih =>
    rw [List.foldl_cons, ih, counted_increment, List.count_cons, Nat.add_assoc, Nat.add_comm (keys.count key)]
    simp

/-- What counting `nodes` adds to the statistics. -/
structure Tallied (nodes : List NodeInfo) (before after : RegistryStats) : Prop where
  totalNodes : after.totalNodes = before.totalNodes
  aliveNodes : after.aliveNodes = before.aliveNodes + nodes.countP fun node => node.status = .ok
  graceNodes : after.graceNodes = before.graceNodes + nodes.countP fun node => node.status = .grace
  roles : ∀ role, counted role after.roles = counted role before.roles + nodes.countP fun node => node.role = role
  workers : ∀ worker, counted worker after.workers =
    counted worker before.workers + (nodes.map fun node => node.workers.count worker).sum

theorem tallied_foldl (nodes : List NodeInfo) (stats : RegistryStats) :
    Tallied nodes stats (nodes.foldl countNode stats) := by
  induction nodes generalizing stats with
  | nil => exact ⟨rfl, rfl, rfl, fun _ => rfl, fun _ => rfl⟩
  | cons node nodes ih =>
    obtain ⟨htotal, halive, hgrace, hroles, hworkers⟩ := ih (countNode stats node)
    rw [List.foldl_cons]
    refine ⟨htotal, ?_, ?_, fun role => ?_, fun worker => ?_⟩
    · rw [halive, countNode, List.countP_cons, Nat.add_assoc, Nat.add_comm (nodes.countP _)]
      simp
    · rw [hgrace, countNode, List.countP_cons, Nat.add_assoc, Nat.add_comm (nodes.countP _)]
      simp
    · rw [hroles, countNode, counted_increment, List.countP_cons, Nat.add_assoc, Nat.add_comm (nodes.countP _)]
      simp
    · rw [hworkers, countNode, counted_foldl, List.map_cons, List.sum_cons, Nat.add_assoc]

/-- The nodes as a read path visits them. -/
def enumerated (order : MapOrder) (r : Registry) : List NodeInfo := (r.nodes.iterate order).map Prod.snd

section
variable {order : MapOrder} {r : Registry} {cfg : RegistryConfig} {role worker : Bytes}

theorem getStats_tallied (order : MapOrder) (r : Registry) :
    Tallied (enumerated order r) ⟨r.nodes.entries.length, 0, 0, ∅, ∅⟩ (getStats order r) := by
  have h := tallied_foldl (enumerated order r) ⟨r.nodes.entries.length, 0, 0, ∅, ∅⟩
  rwa [enumerated, List.foldl_map] at h

theorem length_enumerated (order : MapOrder) (r : Registry) :
    (enumerated order r).length = r.nodes.entries.length := by
  rw [enumerated, List.length_map, Table.length_iterate]

theorem mem_enumerated {node : NodeInfo} : node ∈ enumerated order r ↔ ∃ k, r.nodes.lookup k = some node := by
  rw [enumerated, List.mem_map]
  constructor
  · rintro ⟨⟨k, n⟩, hm, rfl⟩
    exact ⟨k, Table.mem_iterate.mp hm⟩
  · rintro ⟨k, hk⟩
    exact ⟨(k, node), Table.mem_iterate.mpr hk, rfl⟩

/-- Whatever the page, the reported total is the number of nodes that match. -/
theorem queryRegistry_total {now : Int} {page count total : Nat} {listed : List NodeInfo}
    (h : queryRegistry order now page count role worker r = some (total, listed)) :
    total = (enumerated order r).countP (matchesFilter role worker) := by
  have hlength : (matched order now role worker r).length =
      (enumerated order r).countP (matchesFilter role worker) := by
    rw [matched, List.length_map, List.countP_eq_length_filter, enumerated]
  rw [← hlength]
  unfold queryRegistry at h
  dsimp only at h
  split at h
  · exact (Prod.mk.inj (Option.some.inj h)).1.symm
  · split at h
    · cases h
    · exact (Prod.mk.inj (Option.some.inj h)).1.symm

/-- There is a page on which a query reports its total. -/
theorem queryRegistry_reports (order : MapOrder) (now : Int) (role worker : Bytes) (r : Registry) :
    ∃ total listed, queryRegistry order now 1 0 role worker r = some (total, listed) := by
  unfold queryRegistry pageRange
  dsimp only
  rw [if_neg (Nat.lt_irrefl 1), Nat.mul_zero, Nat.zero_mod]
  split
  · exact ⟨_, _, rfl⟩
  · rename_i hrange
    split at hrange
    · cases hrange
    · obtain ⟨rfl, -⟩ := Prod.mk.inj (Option.some.inj hrange)
      rw [if_neg (Nat.not_lt_zero _)]
      exact ⟨_, _, rfl⟩

/-- The statistics and the queries agree. -/
structure ReadPathsAgree (order : MapOrder) (r : Registry) : Prop where
  nodes : (getStats order r).totalNodes = (getStats order r).aliveNodes + (getStats order r).graceNodes
  roles : ∀ role, role ≠ [] → ∀ now page count total listed,
    queryRegistry order now page count role [] r = some (total, listed) →
      counted role (getStats order r).roles = total
  workers : ∀ worker, worker ≠ [] → ∀ now page count total listed,
    queryRegistry order now page count [] worker r = some (total, listed) →
      counted worker (getStats order r).workers = total

/-- Every stored node is alive or in its grace period. -/
theorem nodes_agree (hw : Stored (WellFormed cfg) r) :
    (getStats order r).totalNodes = (getStats order r).aliveNodes + (getStats order r).graceNodes := by
  obtain ⟨htotal, halive, hgrace, -, -⟩ := getStats_tallied order r
  rw [htotal, halive, hgrace, Nat.zero_add, Nat.zero_add, ← length_enumerated order,
    List.length_eq_countP_add_countP fun node => decide (node.status = .ok)]
  refine congrArg ((enumerated order r).countP (fun node => node.status = .ok) + ·) ?_
  apply List.countP_congr
  intro node hm
  obtain ⟨k, hk⟩ := mem_enumerated.mp hm
  have herased := (hw k node hk).status
  cases hs : node.status with
  | erased => exact absurd hs herased
  | _ => simp

theorem roles_agree (hw : Stored (WellFormed cfg) r) (hrole : role ≠ []) {now : Int} {page count total : Nat}
    {listed : List NodeInfo} (h : queryRegistry order now page count role [] r = some (total, listed)) :
    counted role (getStats order r).roles = total := by
  rw [(getStats_tallied order r).roles, queryRegistry_total h]
  refine (Nat.zero_add _).trans (List.countP_congr fun node hm => ?_)
  obtain ⟨k, hk⟩ := mem_enumerated.mp hm
  have herased := (hw k node hk).status
  simp [matchesFilter, herased, hrole]

/-- A query for a worker counts the nodes that list it, once each. -/
theorem countP_worker (hw : Stored (WellFormed cfg) r) (hworker : worker ≠ []) :
    (enumerated order r).countP (matchesFilter [] worker) =
      (enumerated order r).countP fun node => worker ∈ node.workers := by
  apply List.countP_congr
  intro node hm
  obtain ⟨k, hk⟩ := mem_enumerated.mp hm
  have herased := (hw k node hk).status
  simp [matchesFilter, herased, hworker]

private theorem countP_le_sum_count (nodes : List NodeInfo) (worker : Bytes) :
    nodes.countP (fun node => worker ∈ node.workers) ≤ (nodes.map fun node => node.workers.count worker).sum := by
  induction nodes with
  | nil => exact Nat.le_refl 0
  | cons node nodes ih =>
    rw [List.countP_cons, List.map_cons, List.sum_cons, Nat.add_comm]
    apply Nat.add_le_add _ ih
    split
    · rename_i hm
      exact List.count_pos_iff.mpr (of_decide_eq_true hm)
    · exact Nat.zero_le _

/-- The occurrences of a worker are as many as the lists that it occurs in if and only if
it occurs in none of them twice. -/
theorem sum_count_eq_countP_iff (nodes : List NodeInfo) (worker : Bytes) :
    (nodes.map fun node => node.workers.count worker).sum = nodes.countP (fun node => worker ∈ node.workers) ↔
      ∀ node ∈ nodes, node.workers.count worker ≤ 1 := by
  induction nodes with
  | nil => simp
  | cons node nodes ih =>
    have hrest := countP_le_sum_count nodes worker
    rw [List.forall_mem_cons, List.countP_cons, List.map_cons, List.sum_cons, ← ih]
    by_cases hm : worker ∈ node.workers
    · have hpos := List.count_pos_iff.mpr hm
      rw [if_pos (decide_eq_true hm)]
      omega
    · rw [if_neg (by simpa using hm), List.count_eq_zero.mpr hm]
      omega

theorem workers_agree_iff (hw : Stored (WellFormed cfg) r) (hworker : worker ≠ []) :
    (∀ now page count total listed, queryRegistry order now page count [] worker r = some (total, listed) →
        counted worker (getStats order r).workers = total) ↔
      ∀ k node, r.nodes.lookup k = some node → node.workers.count worker ≤ 1 := by
  have hstats : counted worker (getStats order r).workers =
      ((enumerated order r).map fun node => node.workers.count worker).sum :=
    ((getStats_tallied order r).workers worker).trans (Nat.zero_add _)
  have hsum := sum_count_eq_countP_iff (enumerated order r) worker
  rw [← hstats, ← countP_worker hw hworker] at hsum
  have hstored : (∀ node ∈ enumerated order r, node.workers.count worker ≤ 1) ↔
      ∀ k node, r.nodes.lookup k = some node → node.workers.count worker ≤ 1 := by
    constructor
    · exact fun h k node hk => h node (mem_enumerated.mpr ⟨k, hk⟩)
    · intro h node hm
      obtain ⟨k, hk⟩ := mem_enumerated.mp hm
      exact h k node hk
  rw [← hstored, ← hsum]
  constructor
  · intro h
    obtain ⟨total, listed, hq⟩ := queryRegistry_reports order 0 [] worker r
    rw [h 0 1 0 total listed hq, queryRegistry_total hq]
  · intro h now page count total listed hq
    rw [h, queryRegistry_total hq]

/-- **In every reachable state the statistics agree with the totals of the queries if and
only if no stored node lists one of its workers twice.** -/
theorem read_paths_agree_iff (cfg : RegistryConfig) (order : MapOrder) (ops : List Operation) :
    ReadPathsAgree order (after cfg empty ops) ↔
      ∀ k node, (after cfg empty ops).nodes.lookup k = some node →
        ∀ worker, worker ≠ [] → node.workers.count worker ≤ 1 := by
  have hw : Stored (WellFormed cfg) (after cfg empty ops) := wellFormed_after (stored_empty _) ops
  constructor
  · intro h k node hk worker hworker
    exact (workers_agree_iff hw hworker).mp (h.workers worker hworker) k node hk
  · intro h
    refine ⟨nodes_agree hw, fun role hrole _ _ _ _ _ hq => roles_agree hw hrole hq, fun worker hworker => ?_⟩
    exact (workers_agree_iff hw hworker).mpr fun k node hk => h k node hk worker hworker

end

/-- One node that lists its worker twice. -/
private def twice : List Operation :=
  [.registerOrUpdateNode 5 (ascii "gate") [ascii "job", ascii "job"] none (ascii "127.0.0.1") [] .null]

private theorem twice_counted :
    counted (ascii "job") (getStats .written (after (.ofDocuments []) empty twice)).workers = 2 ∧
      (queryRegistry .written 6 1 10 [] (ascii "job") (after (.ofDocuments []) empty twice)).map Prod.fst = some 1 := by
  decide +kernel

/-- The statistics count two nodes for the worker, the query finds one. -/
theorem read_paths_disagree :
    ¬ ∀ (cfg : RegistryConfig) (order : MapOrder) (ops : List Operation), ReadPathsAgree order
      (after cfg empty ops) := by
  intro h
  obtain ⟨hstats, hquery⟩ := twice_counted
  obtain ⟨⟨total, listed⟩, hq, rfl⟩ := Option.map_eq_some_iff.mp hquery
  have hagree := (h (.ofDocuments []) .written twice).workers (ascii "job") (by decide) 6 1 10 1 listed hq
  rw [hstats] at hagree
  cases hagree

end LightApr.Core.Registry
