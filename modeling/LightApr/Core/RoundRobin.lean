import LightApr.Core.RegistryRuns
import Mathlib.Data.List.Rotate

/-! `resolve_node` called again and again on an unchanged registry: when each filter goes round its own nodes. -/
namespace LightApr.Core.Registry

/-- What `resolve_node` is asked for. An empty worker means any. -/
structure Filter where
  role : Bytes
  worker : Bytes
  deriving DecidableEq, Repr

/-- The entry of `rr_indices_` that the filter moves on. -/
def Filter.key (F : Filter) : Bytes := F.role ++ ascii ":" ++ F.worker

def Filter.Eligible (F : Filter) (node : NodeInfo) : Prop :=
  node.status = .ok ∧ node.role = F.role ∧ (F.worker = [] ∨ F.worker ∈ node.workers)

/-- The eligible nodes in the order of the map. -/
def eligible (order : MapOrder) (r : Registry) (F : Filter) : List NodeInfo := candidates order F.role F.worker r

/-- The registry after one more call. -/
def resolved (order : MapOrder) (r : Registry) (F : Filter) : Registry := (r.resolveNode order F.role F.worker).2

/-- The calls in turn, each with its answer. -/
def resolveEach (order : MapOrder) (r : Registry) : List Filter → List (Filter × Option NodeInfo)
  | [] => []
  | G :: calls => (G, (r.resolveNode order G.role G.worker).1) :: resolveEach order (resolved order r G) calls

/-- What the calls with this filter return. -/
def answers (order : MapOrder) (r : Registry) (calls : List Filter) (F : Filter) : List (Option NodeInfo) :=
  ((resolveEach order r calls).filter fun c => c.1 = F).map Prod.snd

/-- These answers are the eligible nodes, each of them once. -/
def EachOnce (r : Registry) (F : Filter) (window : List (Option NodeInfo)) : Prop :=
  window.Nodup ∧ ∀ a, a ∈ window ↔ ∃ node, a = some node ∧ (∃ id, r.nodes.lookup id = some node) ∧ F.Eligible node

/-- However the calls with this filter are interleaved with others, any `n` consecutive ones of them return
each of the `n` eligible nodes once. -/
def Fair (order : MapOrder) (r : Registry) (F : Filter) : Prop :=
  ∀ (calls : List Filter) (i : Nat),
    let window := ((answers order r calls F).drop i).take (eligible order r F).length
    window.length = (eligible order r F).length → EachOnce r F window

/-- Where the filter's next call starts from. -/
def cursor (r : Registry) (F : Filter) : Nat := (r.rrIndices.lookup F.key).getD 0

section
variable {order : MapOrder} {r : Registry} {F G : Filter}

theorem mem_eligible {node : NodeInfo} :
    node ∈ eligible order r F ↔ (∃ id, r.nodes.lookup id = some node) ∧ F.Eligible node := by
  rw [eligible, candidates, List.mem_filter, List.mem_map]
  refine and_congr ⟨?_, ?_⟩ ?_
  · rintro ⟨⟨id, node⟩, hmem, rfl⟩
    exact ⟨id, Table.mem_iterate.mp hmem⟩
  · rintro ⟨id, h⟩
    exact ⟨(id, node), Table.mem_iterate.mpr h, rfl⟩
  · rw [Bool.and_eq_true, Bool.and_eq_true, Bool.or_eq_true, decide_eq_true_eq, decide_eq_true_eq, decide_eq_true_eq,
      List.any_eq_true, and_assoc, Filter.Eligible]
    simp only [decide_eq_true_eq, exists_eq_right]

/-- Records stored under their own ids are told apart. -/
theorem eligible_nodup (hid : Stored (fun k node => node.id = k) r) : (eligible order r F).Nodup := by
  apply List.Nodup.filter
  apply List.Nodup.map_on _ (Table.iterate_keys_nodup order r.nodes).of_map
  rintro ⟨k, node⟩ h ⟨k', node'⟩ h' (rfl : node = node')
  rw [← hid k node (Table.mem_iterate.mp h), ← hid k' node (Table.mem_iterate.mp h')]

theorem eachOnce_of_perm (order : MapOrder) (hid : Stored (fun k node => node.id = k) r)
    {window : List (Option NodeInfo)}
    (h : window.Perm ((eligible order r F).map some)) : EachOnce r F window := by
  refine ⟨h.nodup_iff.mpr ((eligible_nodup hid).map (Option.some_injective _)), fun a => ?_⟩
  rw [h.mem_iff, List.mem_map]
  constructor
  · rintro ⟨node, hmem, rfl⟩
    exact ⟨node, rfl, mem_eligible.mp hmem⟩
  · rintro ⟨node, rfl, hnode⟩
    exact ⟨node, mem_eligible.mpr hnode, rfl⟩

theorem eligible_resolved : eligible order (resolved order r G) F = eligible order r F := by
  rw [eligible, candidates, resolved, nodes_resolveNode]
  rfl

/-! One call. -/

theorem resolveNode_answer :
    (r.resolveNode order F.role F.worker).1 =
      (eligible order r F)[cursor r F % (eligible order r F).length]? := by
  unfold resolveNode
  dsimp only
  split
  · rename_i h
    rw [eligible, h]
    rfl
  · rfl

theorem resolved_eq_self (h : eligible order r G = []) : resolved order r G = r := congrArg Prod.snd (if_pos h)

theorem rrIndices_resolved (h : eligible order r G ≠ []) :
    (resolved order r G).rrIndices =
      r.rrIndices.insert G.key ((cursor r G % (eligible order r G).length + 1) % (eligible order r G).length) :=
  congrArg (fun res : Option NodeInfo × Registry => res.2.rrIndices) (if_neg h)

theorem cursor_resolved_same (hkey : G.key = F.key) (h : eligible order r G ≠ []) :
    cursor (resolved order r G) F =
      (cursor r F % (eligible order r G).length + 1) % (eligible order r G).length := by
  rw [cursor, rrIndices_resolved h, ← hkey, AList.lookup_insert, Option.getD_some, cursor, cursor, hkey]

theorem cursor_resolved_other (h : G.key ≠ F.key ∨ eligible order r G = []) :
    cursor (resolved order r G) F = cursor r F := by
  by_cases he : eligible order r G = []
  · rw [resolved_eq_self he]
  · have hkey := h.resolve_right he
    rw [cursor, rrIndices_resolved he, AList.lookup_insert_ne (Ne.symm hkey), cursor]

/-! A sequence of calls. -/

theorem answers_cons_same (calls : List Filter) :
    answers order r (F :: calls) F =
      (eligible order r F)[cursor r F % (eligible order r F).length]? ::
        answers order (resolved order r F) calls F := by
  rw [answers, resolveEach, List.filter_cons_of_pos (by simp), List.map_cons, resolveNode_answer]
  rfl

theorem answers_cons_other (h : G ≠ F) (calls : List Filter) :
    answers order r (G :: calls) F = answers order (resolved order r G) calls F := by
  rw [answers, resolveEach, List.filter_cons_of_neg (by simpa using h)]
  rfl

/-- The next answers to a filter whose cursor is at `c`: round and round. -/
def turns (nodes : List NodeInfo) (c m : Nat) : List (Option NodeInfo) :=
  (List.range m).map fun k => nodes[(c + k) % nodes.length]?

theorem turns_succ (nodes : List NodeInfo) (c m : Nat) :
    turns nodes c (m + 1) = nodes[c % nodes.length]? :: turns nodes ((c % nodes.length + 1) % nodes.length) m := by
  rw [turns, List.range_succ_eq_map, List.map_cons, List.map_map]
  refine congrArg₂ List.cons rfl (List.map_congr_left fun k _ => ?_)
  have hstep : (c + (k + 1)) % nodes.length = ((c % nodes.length + 1) % nodes.length + k) % nodes.length := by
    rw [Nat.mod_add_mod, Nat.add_assoc (c % nodes.length), Nat.mod_add_mod, Nat.add_comm 1 k]
  exact congrArg (nodes[·]?) hstep

/-- As many consecutive turns as there are nodes are the nodes, begun somewhere. -/
theorem turns_window (nodes : List NodeInfo) {c m i : Nat} (h : i + nodes.length ≤ m) :
    ((turns nodes c m).drop i).take nodes.length = (nodes.rotate (c + i)).map some := by
  apply List.ext_getElem
  · simp [turns]
    omega
  · intro k hk hk'
    rw [List.length_map, List.length_rotate] at hk'
    have hlt : (k + (c + i)) % nodes.length < nodes.length := Nat.mod_lt _ (by omega)
    have hsum : c + (i + k) = k + (c + i) := by omega
    rw [List.getElem_take, List.getElem_drop, List.getElem_map, List.getElem_rotate]
    simp only [turns, List.getElem_map, List.getElem_range]
    rw [hsum, List.getElem?_eq_getElem hlt]

/-- Where no other filter moves it, every call with the filter takes the next turn. -/
theorem answers_eq_turns (hother : ∀ G, G ≠ F → G.key = F.key → eligible order r G = []) (calls : List Filter) :
    ∃ m, answers order r calls F = turns (eligible order r F) (cursor r F) m := by
  induction calls generalizing r with
  | nil => exact ⟨0, rfl⟩
  | cons G calls ih =>
    have hother' : ∀ G', G' ≠ F → G'.key = F.key → eligible order (resolved order r G) G' = [] := by
      intro G' hne hkey
      rw [eligible_resolved]
      exact hother G' hne hkey
    obtain ⟨m, hm⟩ := ih hother'
    rw [eligible_resolved] at hm
    by_cases hG : G = F
    · subst hG
      rw [answers_cons_same, hm]
      by_cases hempty : eligible order r G = []
      · refine ⟨m + 1, ?_⟩
        rw [hempty, turns_succ, cursor_resolved_other (.inr hempty)]
        simp [turns]
      · exact ⟨m + 1, by rw [turns_succ, cursor_resolved_same rfl hempty]⟩
    · have hkeep : cursor (resolved order r G) F = cursor r F := by
        apply cursor_resolved_other
        by_cases hkey : G.key = F.key
        · exact .inr (hother G hG hkey)
        · exact .inl hkey
      exact ⟨m, by rw [answers_cons_other hG, hm, hkeep]⟩

/-- A single node is returned every time, whoever moves the cursor. -/
theorem answers_single {node : NodeInfo} (h : eligible order r F = [node]) (calls : List Filter) :
    ∀ a ∈ answers order r calls F, a = some node := by
  induction calls generalizing r with
  | nil => exact fun a ha => absurd ha List.not_mem_nil
  | cons G calls ih =>
    have hnext := ih (r := resolved order r G) (by rw [eligible_resolved, h])
    by_cases hG : G = F
    · subst hG
      rw [answers_cons_same, h, List.forall_mem_cons]
      refine ⟨?_, hnext⟩
      rw [List.length_singleton, Nat.mod_one]
      rfl
    · rw [answers_cons_other hG]
      exact hnext

/-! Another filter with the same key. -/

/-- The other filter's calls take the cursor back to the first node. -/
theorem rewind (hne : G ≠ F) (hkey : G.key = F.key) (hG : eligible order r G ≠ []) :
    ∃ j r', r'.nodes = r.nodes ∧ cursor r' F = 0 ∧
      ∀ calls, answers order r (List.replicate j G ++ calls) F = answers order r' calls F := by
  have hn : 0 < (eligible order r G).length := List.length_pos_iff.mpr hG
  -- `j` calls after the next one, the cursor is `j` places on
  have hwalk (j : Nat) : ∃ r', r'.nodes = r.nodes ∧
      cursor r' F = (cursor r F + (j + 1)) % (eligible order r G).length ∧
      ∀ calls, answers order r (List.replicate (j + 1) G ++ calls) F = answers order r' calls F := by
    induction j generalizing r with
    | zero =>
      refine ⟨resolved order r G, nodes_resolveNode _ _ _ _, ?_, fun calls => answers_cons_other hne calls⟩
      rw [cursor_resolved_same hkey hG, Nat.mod_add_mod]
    | succ j ih =>
      obtain ⟨r', hnodes, hcursor, hanswers⟩ := ih (r := resolved order r G) (by rwa [eligible_resolved])
        (by rwa [eligible_resolved])
      refine ⟨r', hnodes.trans (nodes_resolveNode _ _ _ _), ?_, fun calls => ?_⟩
      · rw [hcursor, eligible_resolved, cursor_resolved_same hkey hG, Nat.mod_add_mod, Nat.add_assoc, Nat.mod_add_mod,
          Nat.add_comm 1]
      · rw [List.replicate_succ, List.cons_append, answers_cons_other hne, hanswers]
  obtain ⟨r', hnodes, hcursor, hanswers⟩ :=
    hwalk ((eligible order r G).length - 1 - cursor r F % (eligible order r G).length)
  refine ⟨_, r', hnodes, ?_, hanswers⟩
  have hlt := Nat.mod_lt (cursor r F) hn
  have hdiv := Nat.div_add_mod (cursor r F) (eligible order r G).length
  have hsum : cursor r F + ((eligible order r G).length - 1 - cursor r F % (eligible order r G).length + 1) =
      (eligible order r G).length * (cursor r F / (eligible order r G).length) + (eligible order r G).length := by
    omega
  rw [hcursor, hsum, Nat.mul_add_mod, Nat.mod_self]

/-- So any number of calls in turn can return the same node. -/
theorem exists_answers_replicate (hne : G ≠ F) (hkey : G.key = F.key) (hG : eligible order r G ≠ []) (t : Nat) :
    ∃ calls, answers order r calls F = List.replicate t (eligible order r F)[0]? := by
  induction t generalizing r with
  | zero => exact ⟨[], rfl⟩
  | succ t ih =>
    obtain ⟨j, r', hnodes, hcursor, hanswers⟩ := rewind hne hkey hG
    have hsame (H : Filter) : eligible order r' H = eligible order r H := by
      rw [eligible, candidates, hnodes]
      rfl
    obtain ⟨calls, hcalls⟩ := ih (r := resolved order r' F) (by rwa [eligible_resolved, hsame])
    refine ⟨List.replicate j G ++ F :: calls, ?_⟩
    rw [hanswers, answers_cons_same, hcalls, hcursor, Nat.zero_mod, eligible_resolved, hsame, List.replicate_succ]

/-- A filter goes round its nodes exactly where it has one at most, or shares its entry with no filter that
has any. -/
theorem fair_iff_of_stored (hid : Stored (fun k node => node.id = k) r) :
    Fair order r F ↔
      (eligible order r F).length ≤ 1 ∨ ∀ G, G ≠ F → eligible order r G ≠ [] → G.key ≠ F.key := by
  constructor
  · intro h
    rw [or_iff_not_imp_left]
    intro hmany G hne hG hkey
    obtain ⟨calls, hcalls⟩ := exists_answers_replicate hne hkey hG (eligible order r F).length
    have hfair := h calls 0
    dsimp only at hfair
    rw [List.drop_zero, hcalls, List.take_of_length_le (List.length_replicate ▸ Nat.le_refl _)] at hfair
    exact hmany (List.nodup_replicate.mp (hfair List.length_replicate).1)
  · rintro (hfew | hother) calls i
    · dsimp only
      intro hlen
      apply eachOnce_of_perm order hid
      cases hlist : eligible order r F with
      | nil => exact .refl _
      | cons node nodes =>
        rw [hlist, List.length_cons] at hfew
        obtain rfl : nodes = [] := List.eq_nil_of_length_eq_zero (by omega)
        rw [hlist, List.length_singleton] at hlen
        rw [List.length_singleton]
        obtain ⟨a, ha⟩ := List.length_eq_one_iff.mp hlen
        rw [ha]
        have hmem : a ∈ answers order r calls F :=
          List.mem_of_mem_drop (List.mem_of_mem_take (ha ▸ List.mem_singleton_self a))
        rw [answers_single hlist calls a hmem]
        exact .refl _
    · dsimp only
      intro hlen
      apply eachOnce_of_perm order hid
      have hfree (G : Filter) (hne : G ≠ F) (hkey : G.key = F.key) : eligible order r G = [] := by
        by_contra hG
        exact hother G hne hG hkey
      obtain ⟨m, hm⟩ := answers_eq_turns hfree calls
      by_cases hempty : eligible order r F = []
      · rw [hempty]
        exact .refl _
      · have hpos := List.length_pos_iff.mpr hempty
        have hm' : (answers order r calls F).length = m := by rw [hm, turns, List.length_map, List.length_range]
        rw [List.length_take, List.length_drop, hm'] at hlen
        rw [hm, turns_window _ (by omega)]
        exact (List.rotate_perm _ _).map some

/-- In every registry that operations can leave behind, a filter goes round its eligible nodes exactly where
it has one at most, or its key is that of no other filter that has any. -/
theorem fair_iff (cfg : RegistryConfig) (ops : List Operation) (F : Filter) :
    let r := after cfg empty ops
    Fair cfg.order r F ↔
      (eligible cfg.order r F).length ≤ 1 ∨ ∀ G, G ≠ F → eligible cfg.order r G ≠ [] → G.key ≠ F.key :=
  fair_iff_of_stored fun k node h => (wellFormed_after (stored_empty _) ops k node h).id

end

/-- Two nodes of role "a", and one of role "a:b". -/
private def crossing : List Operation :=
  [.registerOrUpdateNode 5 (ascii "a") [ascii "b:c"] none (ascii "127.0.0.1") [] .null,
    .registerOrUpdateNode 5 (ascii "a") [ascii "b:c"] none (ascii "127.0.0.1") [] .null,
    .registerOrUpdateNode 5 (ascii "a:b") [ascii "c"] none (ascii "127.0.0.1") [] .null]

private def crossed : Registry := after (.ofDocuments []) empty crossing

/-- Between two calls with role "a" and worker "b:c", one with role "a:b" and worker "c": the second of the
two nodes is not returned. -/
theorem crossed_not_fair :
    (eligible .written crossed ⟨ascii "a", ascii "b:c"⟩).length = 2 ∧
      ¬ Fair .written crossed ⟨ascii "a", ascii "b:c"⟩ := by
  have hfacts : (eligible .written crossed ⟨ascii "a", ascii "b:c"⟩).map NodeInfo.id =
        [generateNodeId 5 2, generateNodeId 5 1] ∧
      (answers .written crossed [⟨ascii "a", ascii "b:c"⟩, ⟨ascii "a:b", ascii "c"⟩, ⟨ascii "a", ascii "b:c"⟩]
        ⟨ascii "a", ascii "b:c"⟩).map (Option.map NodeInfo.id) =
        [some (generateNodeId 5 2), some (generateNodeId 5 2)] ∧
      some (generateNodeId 5 1) ≠ some (generateNodeId 5 2) := by
    decide +kernel
  obtain ⟨heligible, hanswers, hids⟩ := hfacts
  have htwo := congrArg List.length heligible
  have hlen := congrArg List.length hanswers
  rw [List.length_map, List.length_cons, List.length_singleton] at htwo hlen
  refine ⟨htwo, fun hfair => ?_⟩
  have hwindow := hfair _ 0 (by rw [List.drop_zero, htwo, List.length_take, hlen]; rfl)
  rw [List.drop_zero, htwo, List.take_of_length_le (Nat.le_of_eq hlen)] at hwindow
  -- the node with the first id is eligible, and both answers are the other node
  obtain ⟨node, hmem, hid⟩ := List.mem_map.mp
    (show generateNodeId 5 1 ∈ (eligible .written crossed ⟨ascii "a", ascii "b:c"⟩).map NodeInfo.id by
      rw [heligible]; exact List.mem_cons_of_mem _ (List.mem_singleton_self _))
  have hanswer := List.mem_map_of_mem (f := Option.map NodeInfo.id)
    ((hwindow.2 (some node)).mpr ⟨node, rfl, mem_eligible.mp hmem⟩)
  rw [hanswers, Option.map_some, hid] at hanswer
  simp [hids] at hanswer

end LightApr.Core.Registry
