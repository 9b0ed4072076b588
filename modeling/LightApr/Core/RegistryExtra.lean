import LightApr.Core.RegistryGauges
import LightApr.Core.RegistryThreads

/-! `update_node_extra`: what it refuses, and all it changes when it does not. -/
namespace LightApr.Core.Registry
open Lib

/-- The calls of the observers, by their tokens, when none of them throws. -/
def invocations (result : Registry × Outcome) : List (Nat × NodeInfo) :=
  match result.2 with
  | .event node => result.1.eventCbs.map fun cb => (cb.1, node)
  | .refused | .threw => []

/-- `update_node_extra` takes the data for a worker of the node. -/
def accepts (cfg : RegistryConfig) (node : NodeInfo) (worker : Bytes) (extra : Json) : Bool :=
  node.workers.contains worker && (dumpSize cfg extra).any (· ≤ cfg.maxNodeExtraBytes)

/-- The reasons for which an update is refused. -/
inductive Inadmissible (cfg : RegistryConfig) (nodeId worker : Bytes) (extra : Json) (r : Registry) : Prop
  | unknown : r.nodes.lookup nodeId = none → Inadmissible cfg nodeId worker extra r
  | foreign {node : NodeInfo} : r.nodes.lookup nodeId = some node → worker ∉ node.workers →
      Inadmissible cfg nodeId worker extra r
  | oversized {node : NodeInfo} {text : Bytes} : r.nodes.lookup nodeId = some node →
      cfg.json.dump extra = some text → cfg.maxNodeExtraBytes < text.length → Inadmissible cfg nodeId worker extra r

/-- The record of the node after an accepted update. -/
structure Refreshed (now : Int) (worker : Bytes) (extra : Json) (node node' : NodeInfo) : Prop where
  same : node' = { node with extra := node'.extra, activeAt := now }
  entries : ∀ key, node'.extra.field? key = if key = worker then some extra else node.extra.field? key

/-- The registry after an accepted update: one record, and the gauge that counts its data, have changed. -/
structure Updated (cfg : RegistryConfig) (now : Int) (nodeId worker : Bytes) (extra : Json) (r r' : Registry)
    (node node' : NodeInfo) : Prop where
  before : r.nodes.lookup nodeId = some node
  record : Refreshed now worker extra node node'
  nodes : ∀ id, r'.nodes.lookup id = if id = nodeId then some node' else r.nodes.lookup id
  gauge : r'.extraBytes - r.extraBytes =
    serialisedSize cfg extra - (node.extra.field? worker).elim 0 (serialisedSize cfg)
  others : r' = { r with nodes := r'.nodes, extraBytes := r'.extraBytes }

/-- An update is refused exactly for the three reasons, and then changes nothing and tells nobody; or it returns true,
changes the entry of the worker and the time of that one node, and tells every observer once. -/
structure Atomic (cfg : RegistryConfig) (now : Int) (nodeId worker : Bytes) (extra : Json) (r r' : Registry)
    (out : Outcome) : Prop where
  refused : out = .refused ↔ Inadmissible cfg nodeId worker extra r
  unchanged : out = .refused → r' = r ∧ invocations (r', out) = []
  updated : out ≠ .refused → ∃ node node', out = .event node' ∧ Updated cfg now nodeId worker extra r r' node node' ∧
    invocations (r', out) = r.eventCbs.map (fun cb => (cb.1, node')) ∧ ((invocations (r', out)).map Prod.fst).Nodup

section
variable {cfg : RegistryConfig} {r r' : Registry} {node node' : NodeInfo} {now : Int} {nodeId worker : Bytes}
  {extra : Json} {out : Outcome}

theorem accepts_of_stored {delta : Int} (h : trySetExtraLocked cfg node worker extra = .stored node' delta) :
    accepts cfg node worker extra = true := by
  obtain ⟨-, -, hw, text, ht, hle⟩ := trySetExtraLocked_fits h
  rw [accepts, dumpSize, ht]
  simp [hw, hle]

theorem accepts_of_fits (hw : worker ∈ node.workers) (hu : extra.utf8 = true) (hfits : ¬ Oversized cfg extra) :
    accepts cfg node worker extra = true := by
  cases hsize : dumpSize cfg extra with
  | none => cases (dumpSize_eq_none.mp hsize).symm.trans hu
  | some size =>
    have hle : size ≤ cfg.maxNodeExtraBytes := Nat.le_of_not_lt fun hlt => hfits ⟨size, hsize, hlt⟩
    rw [accepts, hsize]
    simp [hw, hle]

/-- Data is refused for a worker the node does not have, or for its size. -/
theorem trySetExtraLocked_rejected (h : trySetExtraLocked cfg node worker extra = .rejected) :
    worker ∉ node.workers ∨ ∃ text, cfg.json.dump extra = some text ∧ cfg.maxNodeExtraBytes < text.length := by
  unfold trySetExtraLocked at h
  split at h
  · rename_i hw
    exact .inl hw
  · split at h
    · cases h
    · rename_i size hsize
      obtain ⟨text, ht, rfl⟩ := Option.map_eq_some_iff.mp hsize
      split at h
      · rename_i hlarge
        exact .inr ⟨text, ht, hlarge⟩
      · split at h
        · split at h <;> cases h
        · split at h <;> cases h

/-- The gauge and the entries after data has been stored. -/
theorem trySetExtraLocked_entries {delta : Int} (ht : Tidy cfg node)
    (h : trySetExtraLocked cfg node worker extra = .stored node' delta) :
    delta = serialisedSize cfg extra - (node.extra.field? worker).elim 0 (serialisedSize cfg) ∧
      ∀ key, node'.extra.field? key = if key = worker then some extra else node.extra.field? key := by
  obtain ⟨-, hassign, -⟩ := trySetExtraLocked_fits h
  obtain ⟨fields, he, hs⟩ := ht.fields hassign
  obtain ⟨-, hdelta⟩ := trySetExtraLocked_gauge ht h
  obtain ⟨rfl, -⟩ := trySetExtraLocked_stored h
  have hset : node.extra.set worker extra = .obj (Json.insertField worker extra fields) := by
    rw [he]
    rfl
  refine ⟨?_, fun key => ?_⟩
  · have hweigh := Json.weigh_insertField (serialisedSize cfg) hs worker extra
    rw [hdelta, extraSize, extraSize, hset, he, Json.members, Json.members, Json.field?, hweigh]
    omega
  · dsimp only
    rw [hset, he]
    exact Json.lookup_insertField worker extra fields key

/-- An update ends in one of three ways; with an exception only where there is no object to hold the value. -/
theorem updateNodeExtra_cases (hr : Stored (WellFormed cfg) r) (ht : Stored (fun _ => Tidy cfg) r)
    (hu : extra.utf8 = true) (h : updateNodeExtra cfg now nodeId worker extra r = (r', out)) :
    (Inadmissible cfg nodeId worker extra r ∧ r' = r ∧ out = .refused) ∨
      (cfg.json.bracesWrap = true ∧ out = .threw ∧
        ∃ node, r.nodes.lookup nodeId = some node ∧ accepts cfg node worker extra = true) ∨
      ∃ node node', accepts cfg node worker extra = true ∧ Updated cfg now nodeId worker extra r r' node node' ∧
        out = .event node' := by
  unfold updateNodeExtra at h
  split at h
  · rename_i hnone
    obtain ⟨rfl, rfl⟩ := Prod.mk.inj h
    exact .inl ⟨.unknown hnone, rfl, rfl⟩
  · rename_i node hold
    cases hset : trySetExtraLocked cfg node worker extra with
    | rejected =>
      rw [hset] at h
      obtain ⟨rfl, rfl⟩ := Prod.mk.inj h
      refine .inl ⟨?_, rfl, rfl⟩
      rcases trySetExtraLocked_rejected hset with hw | ⟨text, htext, hlarge⟩
      · exact .foreign hold hw
      · exact .oversized hold htext hlarge
    | threw =>
      rw [hset] at h
      obtain ⟨rfl, rfl⟩ := Prod.mk.inj h
      have hwell := hr nodeId node hold
      obtain ⟨hw, hno | ⟨ha, hfits⟩⟩ := trySetExtraLocked_threw hwell.extraFits.printable hset
      · cases hno.symm.trans hu
      · refine .inr (.inl ⟨?_, rfl, node, hold, ?_⟩)
        · by_contra hcopies
          have hobject := hwell.formed.copies (Bool.eq_false_iff.mpr hcopies)
          cases (Json.assignable_of_isObject hobject).symm.trans ha
        · exact accepts_of_fits hw hu hfits
    | stored node' delta =>
      rw [hset] at h
      obtain ⟨rfl, rfl⟩ := Prod.mk.inj h
      obtain ⟨rfl, hentries⟩ := trySetExtraLocked_entries (ht nodeId node hold) hset
      have hacc := accepts_of_stored hset
      obtain ⟨rfl, -⟩ := trySetExtraLocked_stored hset
      refine .inr (.inr ⟨node, { node with extra := node.extra.set worker extra, activeAt := now }, hacc,
        ⟨hold, ⟨rfl, hentries⟩, fun id => ?_, ?_, rfl⟩, rfl⟩)
      · dsimp only
        split
        · rename_i he
          rw [he, AList.lookup_insert]
        · rename_i he
          rw [AList.lookup_insert_ne he]
      · dsimp only
        omega

/-- An update that there is a reason to refuse is not accepted. -/
theorem Inadmissible.not_accepts (h : Inadmissible cfg nodeId worker extra r)
    (hold : r.nodes.lookup nodeId = some node) :
    accepts cfg node worker extra = false := by
  cases h with
  | unknown hnone => cases hnone.symm.trans hold
  | foreign hold' hw =>
    obtain rfl := Option.some.inj (hold.symm.trans hold')
    simp [accepts, hw]
  | oversized hold' htext hlarge =>
    obtain rfl := Option.some.inj (hold.symm.trans hold')
    rw [accepts, dumpSize, htext]
    simp [hlarge]

end

theorem tidy_after {cfg : RegistryConfig} {r : Registry} (hw : Stored (WellFormed cfg) r)
    (hr : Stored (fun _ => Tidy cfg) r) (ops : List Operation) :
    Stored (fun _ => Tidy cfg) (after cfg r ops) := by
  induction ops generalizing r with
  | nil => exact hr
  | cons op ops ih =>
    have hacc : Accounted cfg r (op.run cfg r).1 (op.roleGrowth r) (op.strayRelease cfg r) := run_accounted hw hr rfl
    exact ih (wellFormed_run hw rfl) (hacc.tidy hr)

/-- No two observers are registered under one token. -/
theorem tokens_nodup_after (cfg : RegistryConfig) {r : Registry} (hn : (r.eventCbs.map Prod.fst).Nodup)
    (hlt : ∀ token ∈ r.eventCbs.map Prod.fst, token < r.eventCbIdCounter) (ops : List Operation) :
    ((after cfg r ops).eventCbs.map Prod.fst).Nodup := by
  induction ops generalizing r with
  | nil => exact hn
  | cons op ops ih =>
    obtain ⟨⟨r', out⟩, hrun⟩ : ∃ x, op.run cfg r = x := ⟨_, rfl⟩
    obtain ⟨hn', hlt'⟩ := Threads.numbered_registry hrun hn hlt
    have hstep := ih hn' hlt'
    rwa [after, List.foldl_cons, hrun]

/-- **In every reachable state an update with data that can be printed is refused exactly for the three reasons,
and then changes nothing and tells nobody, or it returns true, changes the entry of the worker and the time of
that one node, with the gauge of the data following, and tells every observer once, if and only if braces copy or
one of the three reasons is there.** -/
theorem updateNodeExtra_atomic_iff (cfg : RegistryConfig) (registryBytes extraBytes : Int) (ops : List Operation)
    (now : Int) (nodeId worker : Bytes) {extra : Json} (hu : extra.utf8 = true) {r r' : Registry} {out : Outcome}
    (hr : after cfg (startingAt registryBytes extraBytes) ops = r)
    (h : r.updateNodeExtra cfg now nodeId worker extra = (r', out)) :
    Atomic cfg now nodeId worker extra r r' out ↔
      cfg.json.bracesWrap = false ∨ Inadmissible cfg nodeId worker extra r := by
  have hw : Stored (WellFormed cfg) (startingAt registryBytes extraBytes) := stored_empty _
  have hwell := hr ▸ wellFormed_after hw ops
  have htidy := tidy_after hw (stored_empty _) ops
  have hn : ((startingAt registryBytes extraBytes).eventCbs.map Prod.fst).Nodup := List.nodup_nil
  have hlt : ∀ token ∈ (startingAt registryBytes extraBytes).eventCbs.map Prod.fst,
      token < (startingAt registryBytes extraBytes).eventCbIdCounter := fun _ h => absurd h List.not_mem_nil
  have htokens := tokens_nodup_after cfg hn hlt ops
  rw [hr] at htidy htokens
  rcases updateNodeExtra_cases hwell htidy hu h with
    ⟨hin, rfl, rfl⟩ | ⟨hwrap, rfl, node, hold, hacc⟩ | ⟨node, node', hacc, hupd, rfl⟩
  · exact iff_of_true ⟨iff_of_true rfl hin, fun _ => ⟨rfl, rfl⟩, fun hne => absurd rfl hne⟩ (.inr hin)
  · refine iff_of_false (fun hatomic => ?_) ?_
    · obtain ⟨node, node', hevent, -⟩ := hatomic.updated nofun
      cases hevent
    · rintro (hcopies | hin)
      · cases hcopies.symm.trans hwrap
      · cases hacc.symm.trans (hin.not_accepts hold)
  · have hcalls : invocations (r', .event node') = r.eventCbs.map fun cb => (cb.1, node') := by
      rw [invocations, hupd.others]
    refine iff_of_true ⟨iff_of_false nofun fun hin => ?_, nofun, fun _ => ⟨node, node', rfl, hupd, hcalls, ?_⟩⟩
      (.inl ?_)
    · cases hacc.symm.trans (hin.not_accepts hupd.before)
    · rw [hcalls, List.map_map]
      exact htokens
    · -- an array would not have taken the value
      by_contra hwrap
      have harray := (hwell nodeId node hupd.before).formed.wraps (Bool.not_eq_false _ ▸ hwrap)
      rcases updateNodeExtra_effect h with ⟨-, h | h⟩ | ⟨old, delta, hold, hset, -⟩
      · cases h
      · cases h
      · obtain rfl := Option.some.inj (hupd.before.symm.trans hold)
        obtain ⟨-, hassign, -⟩ := trySetExtraLocked_fits hset
        rw [harray] at hassign
        cases hassign

/-- The state after one registration, with an observer. -/
private def observed : Registry :=
  after (.ofDocuments []) (startingAt 0 0) [.addEventCallback 7,
    .registerOrUpdateNode 0 (ascii "gate") [ascii "job"] none (ascii "127.0.0.1") [] .null]

private def recorded : Registry × Outcome :=
  observed.updateNodeExtra (.ofDocuments []) 3 (ascii "node-0-1") (ascii "job") (.obj [])

private theorem recorded_heard : (invocations recorded).map Prod.fst = [1] := by decide +kernel

theorem job_data_recorded : Atomic (.ofDocuments []) 3 (ascii "node-0-1") (ascii "job") (.obj []) observed recorded.1
    recorded.2 ∧ (invocations recorded).map Prod.fst = [1] := by
  refine ⟨?_, recorded_heard⟩
  exact (updateNodeExtra_atomic_iff (.ofDocuments []) 0 0 [.addEventCallback 7,
    .registerOrUpdateNode 0 (ascii "gate") [ascii "job"] none (ascii "127.0.0.1") [] .null] 3
    (ascii "node-0-1") (ascii "job") (show (Json.obj []).utf8 = true from rfl) rfl rfl).mpr (.inl rfl)

/-- On a server for which braces make an array, data for a worker of a node is neither refused nor taken. -/
theorem job_data_thrown :
    ¬ ∀ (cfg : RegistryConfig) (ops : List Operation) (now : Int) (nodeId worker : Bytes) (extra : Json),
      extra.utf8 = true →
        Atomic cfg now nodeId worker extra (after cfg (startingAt 0 0) ops)
          ((after cfg (startingAt 0 0) ops).updateNodeExtra cfg now nodeId worker extra).1
          ((after cfg (startingAt 0 0) ops).updateNodeExtra cfg now nodeId worker extra).2 := by
  intro h
  let ops : List Operation := [.addEventCallback 7,
    .registerOrUpdateNode 0 (ascii "gate") [ascii "job"] none (ascii "127.0.0.1") [] .null]
  have hatomic := h (RegistryConfig.ofDocuments []).wrapping ops 3 (ascii "node-0-1") (ascii "job") (.obj []) rfl
  have haccepts : ((after (RegistryConfig.ofDocuments []).wrapping (startingAt 0 0) ops).nodes.lookup
      (ascii "node-0-1")).any (accepts (RegistryConfig.ofDocuments []).wrapping · (ascii "job") (.obj [])) = true := by
    decide +kernel
  obtain ⟨node, hold, hacc⟩ := (Option.any_eq_true _ _).mp haccepts
  obtain ⟨_, _, -, -, hcalls, -⟩ := hatomic.updated fun hrefused => by
    cases hacc.symm.trans ((hatomic.refused.mp hrefused).not_accepts hold)
  -- the observer should have heard of the update, and has not
  have hlength := congrArg List.length hcalls
  rw [List.length_map] at hlength
  exact absurd hlength (by decide +kernel)

end LightApr.Core.Registry
