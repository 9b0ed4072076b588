import LightApr.Core.RegistryRuns

/-! The two live gauges of the registry, against the nodes it stores. -/
namespace LightApr.Core.Registry
open Lib

section
variable (cfg : RegistryConfig)

/-- `dump().size()`, which no stored value lacks. -/
def serialisedSize (value : Json) : Int := ((dumpSize cfg value).getD 0 : Nat)

/-- The bytes of the extra entries of a node. -/
def extraSize (node : NodeInfo) : Int := Json.weigh (serialisedSize cfg) node.extra.members

/-- What the registry counts for a node itself. -/
def nodeSize (node : NodeInfo) : Int := (cfg.nodeInfoSize + node.role.length + node.id.length : Nat)

/-- The process has counted other bytes before this registry. -/
def startingAt (registryBytes extraBytes : Int) : Registry := { empty with registryBytes, extraBytes }

/-- The bytes that a removal releases of an initial extra that is an array, and that nothing has counted. -/
def strayBytes : Int := if cfg.json.bracesWrap then 2 else 0

/-- The extra of a node is as a registration leaves it, its members in key order. -/
structure Tidy (node : NodeInfo) : Prop where
  formed : Formed cfg node.extra
  sorted : Json.Sorted node.extra.members

end

/-! The gauge of the extra data. -/

section
variable {cfg : RegistryConfig} {node node' : NodeInfo} {gauge gauge' : Int} {threw : Bool}

theorem Tidy.fields (h : Tidy cfg node) (ha : node.extra.assignable = true) :
    ∃ fields, node.extra = .obj fields ∧ Json.Sorted fields := by
  obtain ⟨hf, hs⟩ := h
  cases he : node.extra with
  | obj fields =>
    rw [he] at hs
    exact ⟨fields, rfl, hs⟩
  | _ =>
    rw [he] at hf ha
    rcases hf.cases with ho | ho
    · cases ho
    · rw [ho] at ha
      cases ha

theorem serialisedSize_of_dumpSize {value : Json} {size : Nat} (h : dumpSize cfg value = some size) :
    serialisedSize cfg value = size := by
  rw [serialisedSize, h, Option.getD_some]

/-- A stored value moves the gauge by its size less that of the value it replaces. -/
theorem trySetExtraLocked_gauge {worker : Bytes} {value : Json} {delta : Int} (ht : Tidy cfg node)
    (h : trySetExtraLocked cfg node worker value = .stored node' delta) :
    Tidy cfg node' ∧ delta = extraSize cfg node' - extraSize cfg node := by
  obtain ⟨-, hassign, -⟩ := trySetExtraLocked_fits h
  obtain ⟨fields, he, hs⟩ := ht.fields hassign
  obtain ⟨rfl, hfrom⟩ := trySetExtraLocked_stored h
  have hset : node.extra.set worker value = .obj (Json.insertField worker value fields) := by
    rw [he]
    rfl
  refine ⟨⟨hfrom.formed cfg ht.formed, ?_⟩, ?_⟩
  · rw [hset]
    exact hs.insertField worker value
  have hold : node.extra.field? worker = fields.lookup worker := by
    rw [he]
    rfl
  have hweigh := Json.weigh_insertField (serialisedSize cfg) hs worker value
  have hsize : extraSize cfg { node with extra := node.extra.set worker value } - extraSize cfg node =
      serialisedSize cfg value - (fields.lookup worker).elim 0 (serialisedSize cfg) := by
    rw [extraSize, extraSize, hset, he, Json.members, Json.members, hweigh]
    omega
  rw [hsize]
  unfold trySetExtraLocked at h
  split at h
  · cases h
  · split at h
    · cases h
    · rename_i size hvalue
      rw [serialisedSize_of_dumpSize hvalue]
      split at h
      · cases h
      · rw [hold] at h
        split at h
        · rename_i hnone
          rw [hnone, Option.elim_none, sub_zero]
          exact (SetExtra.stored.inj h).2.symm
        · rename_i old hlookup
          split at h
          · cases h
          · rename_i oldSize hsize
            rw [hlookup, Option.elim_some, serialisedSize_of_dumpSize hsize]
            exact (SetExtra.stored.inj h).2.symm

theorem announceExtra_gauge {members : List (Bytes × Json)} (ht : Tidy cfg node)
    (h : announceExtra cfg node gauge members = (node', gauge', threw)) :
    Tidy cfg node' ∧ gauge' - gauge = extraSize cfg node' - extraSize cfg node := by
  refine announceExtra_invariant (P := fun n g => Tidy cfg n ∧ g - gauge = extraSize cfg n - extraSize cfg node) ?_
    ⟨ht, by omega⟩ h
  rintro n g worker value n' delta ⟨hn, hg⟩ hset
  obtain ⟨hn', hdelta⟩ := trySetExtraLocked_gauge hn hset
  exact ⟨hn', by omega⟩

theorem pruneKeys_gauge {keys : List Bytes} (ht : Tidy cfg node)
    (h : pruneKeys cfg node gauge keys = (node', gauge', threw)) :
    Tidy cfg node' ∧ gauge' - gauge = extraSize cfg node' - extraSize cfg node := by
  induction keys generalizing node gauge with
  | nil =>
    obtain ⟨rfl, rfl, -⟩ : node = node' ∧ gauge = gauge' ∧ false = threw := by simpa [pruneKeys] using h
    exact ⟨ht, by omega⟩
  | cons key rest ih =>
    rw [pruneKeys] at h
    split at h
    · exact ih ht h
    · rename_i old hold
      split at h
      · obtain ⟨rfl, rfl, -⟩ : node = node' ∧ gauge = gauge' ∧ true = threw := by simpa using h
        exact ⟨ht, by omega⟩
      · rename_i size hsize
        obtain ⟨fields, he, hs⟩ := ht.fields (Json.assignable_of_field hold)
        have herase : node.extra.erase key = .obj (fields.filter fun f => f.1 ≠ key) := by
          rw [he]
          rfl
        have hlookup : fields.lookup key = some old := by
          rw [he] at hold
          exact hold
        have hweigh := Json.weigh_erase (serialisedSize cfg) hs key
        rw [hlookup, Option.elim_some, serialisedSize_of_dumpSize hsize] at hweigh
        have hless : extraSize cfg { node with extra := node.extra.erase key } = extraSize cfg node - size := by
          rw [extraSize, extraSize, herase, he, Json.members, Json.members, hweigh]
        have ht1 : Tidy cfg { node with extra := node.extra.erase key } := by
          refine ⟨⟨fun _ => Json.isObject_erase (Json.isObject_of_field hold), fun hw => ?_⟩, ?_⟩
          · cases (ht.formed.wraps hw).symm.trans he
          · rw [herase]
            exact hs.sublist List.filter_sublist
        obtain ⟨ht', hrest⟩ := ih ht1 h
        exact ⟨ht', by omega⟩

theorem pruneStaleExtraLocked_gauge (ht : Tidy cfg node)
    (h : pruneStaleExtraLocked cfg node gauge = (node', gauge', threw)) :
    Tidy cfg node' ∧ gauge' - gauge = extraSize cfg node' - extraSize cfg node := by
  unfold pruneStaleExtraLocked at h
  split at h
  · obtain ⟨rfl, rfl, -⟩ : node = node' ∧ gauge = gauge' ∧ true = threw := by simpa using h
    exact ⟨ht, by omega⟩
  · exact pruneKeys_gauge ht h

theorem releaseExtra_gauge {values : List Json} (hu : ∀ v ∈ values, v.utf8 = true)
    (h : releaseExtra cfg gauge values = (gauge', threw)) :
    gauge' = gauge - (values.map (serialisedSize cfg)).sum := by
  induction values generalizing gauge with
  | nil =>
    obtain ⟨rfl, -⟩ := Prod.mk.inj h
    rw [List.map_nil, List.sum_nil, sub_zero]
  | cons value rest ih =>
    rw [releaseExtra] at h
    split at h
    · rename_i hn
      have hno := dumpSize_eq_none.mp hn
      rw [hu value List.mem_cons_self] at hno
      cases hno
    · rename_i size hsize
      have hrest := ih (fun v hv => hu v (List.mem_cons_of_mem _ hv)) h
      rw [hrest, List.map_cons, List.sum_cons, serialisedSize_of_dumpSize hsize]
      omega

/-- A removal releases the bytes of the entries, and of an array those of the object in it. -/
theorem elements_size {extra : Json} (hf : Formed cfg extra) :
    (extra.elements.map (serialisedSize cfg)).sum = Json.weigh (serialisedSize cfg) extra.members + strayBytes cfg := by
  rw [strayBytes]
  cases hw : cfg.json.bracesWrap with
  | false =>
    rw [Json.elements_object (hf.copies hw), List.map_map]
    exact (add_zero _).symm
  | true =>
    have hempty : serialisedSize cfg (.obj []) = 2 := by
      rw [serialisedSize, dumpSize, cfg.json.dump_empty]
      rfl
    rw [hf.wraps hw]
    simp [Json.elements, Json.members, Json.weigh, hempty]

/-! One operation. -/

variable {now : Int} {role peerIp existingId nodeId worker : Bytes} {workers : List Bytes}
  {ep : Option EndpointInfo} {extra : Json} {r r' : Registry} {out : Outcome} {drift : Int}

/-- What an operation leaves of the nodes and the gauges, by how much the size of the nodes
runs ahead of their gauge, and how much more than the entries their gauge loses. -/
inductive Accounted (cfg : RegistryConfig) (r r' : Registry) : Int → Int → Prop
  | same : r'.nodes = r.nodes → r'.registryBytes = r.registryBytes → r'.extraBytes = r.extraBytes →
      Accounted cfg r r' 0 0
  | added {k : Bytes} {node : NodeInfo} : r.nodes.lookup k = none →
      r'.nodes = r.nodes.insert k node → Tidy cfg node → r'.registryBytes = r.registryBytes + nodeSize cfg node →
      r'.extraBytes = r.extraBytes + extraSize cfg node → Accounted cfg r r' 0 0
  | replaced {k : Bytes} {old node : NodeInfo} : r.nodes.lookup k = some old →
      r'.nodes = r.nodes.insert k node → Tidy cfg node → r'.registryBytes = r.registryBytes →
      r'.extraBytes = r.extraBytes + (extraSize cfg node - extraSize cfg old) →
      Accounted cfg r r' (nodeSize cfg node - nodeSize cfg old) 0
  | removed {k : Bytes} {old : NodeInfo} : r.nodes.lookup k = some old → r'.nodes = r.nodes.erase k →
      r'.registryBytes = r.registryBytes - nodeSize cfg old →
      r'.extraBytes = r.extraBytes - extraSize cfg old - strayBytes cfg → Accounted cfg r r' 0 (strayBytes cfg)

/-- The length by which a re-registration changes the role of its node. -/
def Operation.roleGrowth (r : Registry) : Operation → Int
  | registerOrUpdateNode now role _ _ _ existingId _ =>
    (r.nodes.lookup (targetId now existingId r)).elim 0 fun old => (role.length : Int) - old.role.length
  | _ => 0

/-- The bytes that a removal releases beyond those of the entries. -/
def Operation.strayRelease (cfg : RegistryConfig) (r : Registry) : Operation → Int
  | removeNodePermanently nodeId => (r.nodes.lookup nodeId).elim 0 fun _ => strayBytes cfg
  | _ => 0

/-- The first half of a registration. -/
theorem upsert_gauges (hr : Stored (fun _ => Tidy cfg) r)
    (h : upsert cfg now role workers ep nodeId r = (node, r', threw)) :
    Tidy cfg node ∧
      r'.registryBytes = r.registryBytes + (r.nodes.lookup nodeId).elim (nodeSize cfg node) (fun _ => 0) ∧
      r'.extraBytes = r.extraBytes + (extraSize cfg node - (r.nodes.lookup nodeId).elim 0 (extraSize cfg)) := by
  cases upsert_cases h with
  | @pruned old _ gauge _ hold hp =>
    obtain ⟨ho, hs⟩ := hr nodeId old hold
    have htidy : Tidy cfg (announced now role workers ep old) := ⟨ho, hs⟩
    obtain ⟨ht, hg⟩ := pruneStaleExtraLocked_gauge htidy hp
    refine ⟨ht, ?_, ?_⟩
    · rw [hold, Option.elim_some, add_zero]
    · -- a re-announced node keeps its extra until the pruning
      have hsame : extraSize cfg (announced now role workers ep old) = extraSize cfg old := rfl
      rw [hsame] at hg
      rw [hold, Option.elim_some]
      dsimp only
      omega
  | created hnone =>
    have hmembers : (newNode cfg now nodeId role workers ep).extra.members = [] := members_initial cfg
    refine ⟨⟨formed_initial cfg, hmembers ▸ List.Pairwise.nil⟩, ?_, ?_⟩
    · rw [hnone]
      rfl
    · rw [hnone, extraSize, hmembers]
      exact (add_zero r.extraBytes).symm

theorem registerOrUpdateNode_gauges (hr : Stored (fun _ => Tidy cfg) r)
    (h : registerOrUpdateNode cfg now role workers ep peerIp existingId extra r = (r', out)) :
    ∃ node, r'.nodes = r.nodes.insert (targetId now existingId r) node ∧ Tidy cfg node ∧
      r'.registryBytes = r.registryBytes +
        (r.nodes.lookup (targetId now existingId r)).elim (nodeSize cfg node) (fun _ => 0) ∧
      r'.extraBytes = r.extraBytes +
        (extraSize cfg node - (r.nodes.lookup (targetId now existingId r)).elim 0 (extraSize cfg)) := by
  obtain ⟨counter, hdrawn⟩ := drawId_same existingId r
  have htidy : Stored (fun _ => Tidy cfg) { r with idCounter := counter } := hr.same rfl
  cases registerOrUpdateNode_cases h with
  | @threw node _ hu =>
    rw [hdrawn] at hu
    obtain ⟨hn, -⟩ := upsert_written hu
    have hgauges := upsert_gauges htidy hu
    exact ⟨node, hn, hgauges⟩
  | @announced node node' r₁ gauge threw hu ha =>
    rw [hdrawn] at hu
    obtain ⟨hn, -⟩ := upsert_written hu
    obtain ⟨ht, hregistry, hextra⟩ := upsert_gauges htidy hu
    obtain ⟨ht', hg⟩ := announceExtra_gauge ht ha
    have hsize : nodeSize cfg node' = nodeSize cfg node := by
      obtain ⟨e, rfl⟩ := (announceExtra_same ha).same
      rfl
    refine ⟨node', ?_, ht', ?_, ?_⟩
    · simp [hn, AList.insert_insert]
    · rw [hsize]
      exact hregistry
    · dsimp only at hextra ⊢
      omega

theorem Accounted.of_eq {d stray : Int} (h : Accounted cfg r r' drift stray) (he : drift = d) :
    Accounted cfg r r' d stray := he ▸ h

theorem modifyNode_accounted {f : NodeInfo → NodeInfo} (hr : Stored (fun _ => Tidy cfg) r)
    (hf : ∀ old, ∃ status activeAt expiresIn, f old = { old with status, activeAt, expiresIn })
    (h : modifyNode nodeId f r = (r', out)) : Accounted cfg r r' 0 0 := by
  unfold modifyNode at h
  split at h
  · obtain ⟨rfl, -⟩ := Prod.mk.inj h
    exact .same rfl rfl rfl
  · rename_i old hold
    obtain ⟨rfl, -⟩ := Prod.mk.inj h
    obtain ⟨status, activeAt, expiresIn, he⟩ := hf old
    obtain ⟨ho, hs⟩ := hr nodeId old hold
    have hacc : Accounted cfg r { r with nodes := r.nodes.insert nodeId (f old) }
        (nodeSize cfg (f old) - nodeSize cfg old) 0 := by
      refine .replaced hold rfl ?_ rfl ?_
      · rw [he]
        exact ⟨ho, hs⟩
      · rw [he]
        exact (add_eq_left.mpr (sub_self _)).symm
    apply hacc.of_eq
    rw [he]
    exact sub_self _

theorem registerOrUpdateNode_accounted (hr : Stored (fun _ => Tidy cfg) r)
    (h : registerOrUpdateNode cfg now role workers ep peerIp existingId extra r = (r', out)) :
    Accounted cfg r r'
      ((Operation.registerOrUpdateNode now role workers ep peerIp existingId extra).roleGrowth r) 0 := by
  obtain ⟨node, hn, ht, hregistry, hextra⟩ := registerOrUpdateNode_gauges hr h
  obtain ⟨node', hn', -, hreg, -⟩ := registerOrUpdateNode_effect h
  obtain rfl : node = node' := by
    have hk : r'.nodes.lookup (targetId now existingId r) = some node := by rw [hn, AList.lookup_insert]
    rw [hn', AList.lookup_insert] at hk
    exact (Option.some.inj hk).symm
  rw [Operation.roleGrowth]
  cases hold : r.nodes.lookup (targetId now existingId r) with
  | none =>
    rw [hold, Option.elim_none] at hregistry hextra
    rw [sub_zero] at hextra
    exact .added hold hn ht hregistry hextra
  | some old =>
    rw [hold, Option.elim_some] at hregistry hextra
    rw [add_zero] at hregistry
    apply (Accounted.replaced hold hn ht hregistry hextra).of_eq
    have hid : node.id = old.id := by rw [hreg.id, hold, Option.elim_some]
    rw [Option.elim_some, nodeSize, nodeSize, hid, hreg.role]
    omega

theorem updateNodeExtra_accounted (hr : Stored (fun _ => Tidy cfg) r)
    (h : updateNodeExtra cfg now nodeId worker extra r = (r', out)) : Accounted cfg r r' 0 0 := by
  rw [updateNodeExtra] at h
  split at h
  · obtain ⟨rfl, -⟩ := Prod.mk.inj h
    exact .same rfl rfl rfl
  · rename_i old hold
    cases hset : trySetExtraLocked cfg old worker extra with
    | rejected =>
      rw [hset] at h
      obtain ⟨rfl, -⟩ := Prod.mk.inj h
      exact .same rfl rfl rfl
    | threw =>
      rw [hset] at h
      obtain ⟨rfl, -⟩ := Prod.mk.inj h
      exact .same rfl rfl rfl
    | stored node delta =>
      rw [hset] at h
      obtain ⟨rfl, -⟩ := Prod.mk.inj h
      obtain ⟨ht, rfl⟩ := trySetExtraLocked_gauge (hr nodeId old hold) hset
      obtain ⟨rfl, -⟩ := trySetExtraLocked_stored hset
      refine Accounted.of_eq (.replaced hold rfl ⟨ht.formed, ht.sorted⟩ rfl rfl) ?_
      exact sub_self _

theorem removeNodePermanently_accounted (hw : Stored (WellFormed cfg) r) (hr : Stored (fun _ => Tidy cfg) r)
    (h : removeNodePermanently cfg nodeId r = (r', out)) :
    Accounted cfg r r' 0 ((Operation.removeNodePermanently nodeId).strayRelease cfg r) := by
  rw [removeNodePermanently] at h
  rw [Operation.strayRelease]
  split at h
  · rename_i hnone
    obtain ⟨rfl, -⟩ := Prod.mk.inj h
    rw [hnone, Option.elim_none]
    exact .same rfl rfl rfl
  · rename_i old hold
    obtain ⟨⟨gauge, t⟩, hg⟩ : ∃ x, releaseExtra cfg r.extraBytes old.extra.elements = x := ⟨_, rfl⟩
    dsimp only at h
    rw [hg] at h
    obtain ⟨rfl, -⟩ := Prod.mk.inj h
    have hreleased := releaseExtra_gauge (hw nodeId old hold).extraFits.printable hg
    rw [elements_size (hr nodeId old hold).formed] at hreleased
    rw [hold, Option.elim_some]
    refine .removed hold rfl rfl (hreleased.trans ?_)
    rw [extraSize]
    omega

/-- Every operation keeps account of what it does, but for the length of a role it changes and
the object in an array it removes. -/
theorem run_accounted {op : Operation} (hw : Stored (WellFormed cfg) r) (hr : Stored (fun _ => Tidy cfg) r)
    (h : op.run cfg r = (r', out)) : Accounted cfg r r' (op.roleGrowth r) (op.strayRelease cfg r) := by
  cases op with
  | addEventCallback | removeEventCallback =>
    obtain ⟨rfl, -⟩ := Prod.mk.inj h
    exact .same rfl rfl rfl
  | resolveNode role worker =>
    obtain ⟨rfl, -⟩ := Prod.mk.inj h
    unfold resolveNode
    dsimp only
    split
    · exact .same rfl rfl rfl
    · exact .same rfl rfl rfl
  | registerOrUpdateNode => exact registerOrUpdateNode_accounted hr h
  | markNodeGrace now nodeId =>
    refine modifyNode_accounted hr (fun old => ?_) h
    exact ⟨.grace, now, some 180, rfl⟩
  | restoreNodeActive now nodeId =>
    refine modifyNode_accounted hr (fun old => ?_) h
    exact ⟨.ok, now, none, rfl⟩
  | updateNodeExtra => exact updateNodeExtra_accounted hr h
  | removeNodePermanently => exact removeNodePermanently_accounted hw hr h

theorem Accounted.tidy {stray : Int} (h : Accounted cfg r r' drift stray) (hr : Stored (fun _ => Tidy cfg) r) :
    Stored (fun _ => Tidy cfg) r' := by
  cases h with
  | same hn => exact hr.same hn
  | added _ hn ht => exact hr.insert hn ht
  | replaced _ hn ht => exact hr.insert hn ht
  | removed _ hn => exact hr.erase hn

/-- The gauge of the extra data falls behind what is stored by what is released beyond it. -/
theorem Accounted.extraBytes {stray : Int} (h : Accounted cfg r r' drift stray) :
    r'.extraBytes - Table.total (extraSize cfg) r'.nodes =
      r.extraBytes - Table.total (extraSize cfg) r.nodes - stray := by
  cases h with
  | same hn _ he => rw [hn, he, sub_zero]
  | added hnone hn _ _ he =>
    rw [hn, he, Table.total_insert, Table.erase_of_lookup_none hnone]
    omega
  | replaced hold hn _ _ he =>
    rw [hn, he, Table.total_replace _ hold]
    omega
  | removed hold hn _ he =>
    rw [hn, he, Table.total_of_lookup (extraSize cfg) hold]
    omega

/-- The gauge of the nodes falls behind by what the roles of stored nodes have grown. -/
theorem Accounted.registryBytes {stray : Int} (h : Accounted cfg r r' drift stray) :
    r'.registryBytes - Table.total (nodeSize cfg) r'.nodes =
      r.registryBytes - Table.total (nodeSize cfg) r.nodes - drift := by
  cases h with
  | same hn hb => rw [hn, hb, sub_zero]
  | added hnone hn _ hb =>
    rw [hn, hb, Table.total_insert, Table.erase_of_lookup_none hnone]
    omega
  | replaced hold hn _ hb =>
    rw [hn, hb, Table.total_replace _ hold]
    omega
  | removed hold hn hb =>
    rw [hn, hb, Table.total_of_lookup (nodeSize cfg) hold]
    omega

/-! Runs. -/

/-- Every operation of a run meets the condition in the state it finds. -/
def Throughout (P : Registry → Operation → Prop) (cfg : RegistryConfig) (r : Registry) : List Operation → Prop
  | [] => True
  | op :: ops => P r op ∧ Throughout P cfg (op.run cfg r).1 ops

/-- What each operation of a run lowers by its own amount keeps its value at every time of the run
if and only if none of them lowers it. -/
theorem kept_iff_throughout (excess : Registry → Int) (loss : Registry → Operation → Int)
    (hstep : ∀ r op, Stored (WellFormed cfg) r → Stored (fun _ => Tidy cfg) r →
      excess (op.run cfg r).1 = excess r - loss r op)
    (hw : Stored (WellFormed cfg) r) (hr : Stored (fun _ => Tidy cfg) r) (ops : List Operation) :
    (∀ before, before <+: ops → excess (after cfg r before) = excess r) ↔
      Throughout (fun r op => loss r op = 0) cfg r ops := by
  induction ops generalizing r with
  | nil =>
    refine ⟨fun _ => trivial, fun _ before hb => ?_⟩
    rw [List.prefix_nil.mp hb]
    rfl
  | cons op ops ih =>
    have hexcess := hstep r op hw hr
    have hacc : Accounted cfg r (op.run cfg r).1 (op.roleGrowth r) (op.strayRelease cfg r) := run_accounted hw hr rfl
    have hwell : Stored (WellFormed cfg) (op.run cfg r).1 := wellFormed_run hw rfl
    have hrest := ih hwell (hacc.tidy hr)
    rw [Throughout, ← hrest]
    constructor
    · intro h
      have h1 := h [op] ((List.prefix_cons_inj op).mpr List.nil_prefix)
      refine ⟨?_, fun before hb => ?_⟩
      · rw [after, List.foldl_cons, List.foldl_nil] at h1
        omega
      · exact (h (op :: before) ((List.prefix_cons_inj op).mpr hb)).trans h1.symm
    · rintro ⟨hloss, h⟩ before hb
      rcases List.prefix_cons_iff.mp hb with rfl | ⟨rest, rfl, hrest⟩
      · rfl
      · refine (h rest hrest).trans ?_
        rw [hexcess, hloss, sub_zero]

theorem Throughout.congr {P Q : Registry → Operation → Prop} (h : ∀ r op, P r op ↔ Q r op) (ops : List Operation) :
    Throughout P cfg r ops ↔ Throughout Q cfg r ops := by
  induction ops generalizing r with
  | nil => exact Iff.rfl
  | cons op ops ih => exact and_congr (h r op) ih

/-- A removal finds no node. -/
def Operation.KeepsNodes (r : Registry) : Operation → Prop
  | removeNodePermanently nodeId => r.nodes.lookup nodeId = none
  | _ => True

theorem keepsNodes_iff {op : Operation} (hwrap : cfg.json.bracesWrap = true) :
    op.strayRelease cfg r = 0 ↔ op.KeepsNodes r := by
  cases op with
  | removeNodePermanently nodeId =>
    rw [Operation.KeepsNodes, Operation.strayRelease, strayBytes, if_pos hwrap]
    cases r.nodes.lookup nodeId with
    | none => simp
    | some old => simp
  | _ => exact ⟨fun _ => trivial, fun _ => rfl⟩

theorem strayRelease_copies (hcopies : cfg.json.bracesWrap = false) (op : Operation) : op.strayRelease cfg r = 0 := by
  cases op with
  | removeNodePermanently nodeId =>
    rw [Operation.strayRelease, strayBytes, hcopies]
    cases r.nodes.lookup nodeId <;> rfl
  | _ => rfl

theorem throughout_of_forall {P : Registry → Operation → Prop} (h : ∀ r op, P r op) (ops : List Operation) :
    Throughout P cfg r ops := by
  induction ops generalizing r with
  | nil => trivial
  | cons op ops ih => exact ⟨h r op, ih⟩

/-- **At every time of a run the gauge of the extra data exceeds its initial value by the serialised sizes of the
extra entries of all stored nodes, each of which has one, if and only if braces copy or no removal finds a node.** -/
theorem extra_gauge_exact_iff (cfg : RegistryConfig) (registryBytes extraBytes : Int) (ops : List Operation) :
    (∀ before, before <+: ops →
      (after cfg (startingAt registryBytes extraBytes) before).extraBytes - extraBytes =
          Table.total (extraSize cfg) (after cfg (startingAt registryBytes extraBytes) before).nodes ∧
        Stored (fun _ node => ∀ f ∈ node.extra.members, (dumpSize cfg f.2).isSome = true)
          (after cfg (startingAt registryBytes extraBytes) before)) ↔
      cfg.json.bracesWrap = false ∨
        Throughout (fun r op => op.KeepsNodes r) cfg (startingAt registryBytes extraBytes) ops := by
  have hw : Stored (WellFormed cfg) (startingAt registryBytes extraBytes) := stored_empty _
  have h0 : Table.total (extraSize cfg) (startingAt registryBytes extraBytes).nodes = 0 := Table.total_empty _
  have hb : (startingAt registryBytes extraBytes).extraBytes = extraBytes := rfl
  have hstep (r : Registry) (op : Operation) (hw : Stored (WellFormed cfg) r) (hr : Stored (fun _ => Tidy cfg) r) :
      Accounted cfg r (op.run cfg r).1 (op.roleGrowth r) (op.strayRelease cfg r) := run_accounted hw hr rfl
  have hkept := kept_iff_throughout (fun r => r.extraBytes - Table.total (extraSize cfg) r.nodes)
    (fun r op => op.strayRelease cfg r) (fun r op hw hr => (hstep r op hw hr).extraBytes) hw (stored_empty _) ops
  have hcond : Throughout (fun r op => op.strayRelease cfg r = 0) cfg (startingAt registryBytes extraBytes) ops ↔
      cfg.json.bracesWrap = false ∨
        Throughout (fun r op => op.KeepsNodes r) cfg (startingAt registryBytes extraBytes) ops := by
    cases hwrap : cfg.json.bracesWrap with
    | false =>
      exact iff_of_true (throughout_of_forall (fun r op => strayRelease_copies hwrap op) ops) (.inl rfl)
    | true =>
      rw [Throughout.congr fun r op => keepsNodes_iff hwrap]
      exact ⟨.inr, fun h => h.resolve_left nofun⟩
  have hsized (before : List Operation) : Stored (fun _ node => ∀ f ∈ node.extra.members,
      (dumpSize cfg f.2).isSome = true) (after cfg (startingAt registryBytes extraBytes) before) := by
    intro k node hk f hf
    obtain ⟨text, ht, -⟩ := (wellFormed_after hw before k node hk).limit f hf
    rw [dumpSize, ht]
    rfl
  rw [← hcond, ← hkept]
  refine forall₂_congr fun before _ => ?_
  rw [and_iff_left (hsized before), h0, hb, sub_zero, sub_eq_iff_eq_add, sub_eq_iff_eq_add, add_comm]

/-- A registration under a stored id brings a role as long as the stored one. -/
def Operation.KeepsRole (r : Registry) : Operation → Prop
  | registerOrUpdateNode now role _ _ _ existingId _ =>
    ∀ old ∈ r.nodes.lookup (targetId now existingId r), role.length = old.role.length
  | _ => True

/-- All operations of a run do. -/
def RolesKept (cfg : RegistryConfig) (r : Registry) (ops : List Operation) : Prop :=
  Throughout (fun r op => op.KeepsRole r) cfg r ops

theorem keepsRole_iff {op : Operation} : op.KeepsRole r ↔ op.roleGrowth r = 0 := by
  cases op with
  | registerOrUpdateNode now role workers ep peerIp existingId extra =>
    rw [Operation.KeepsRole, Operation.roleGrowth]
    cases r.nodes.lookup (targetId now existingId r) with
    | none => simp
    | some old => simp [sub_eq_zero]
  | _ => exact ⟨fun _ => rfl, fun _ => trivial⟩

theorem registry_after (hw : Stored (WellFormed cfg) r) (hr : Stored (fun _ => Tidy cfg) r) (ops : List Operation) :
    (∀ before, before <+: ops →
      (after cfg r before).registryBytes - Table.total (nodeSize cfg) (after cfg r before).nodes =
        r.registryBytes - Table.total (nodeSize cfg) r.nodes) ↔ RolesKept cfg r ops := by
  have hstep (r : Registry) (op : Operation) (hw : Stored (WellFormed cfg) r) (hr : Stored (fun _ => Tidy cfg) r) :
      Accounted cfg r (op.run cfg r).1 (op.roleGrowth r) (op.strayRelease cfg r) := run_accounted hw hr rfl
  have hkeeps (r : Registry) (op : Operation) : op.KeepsRole r ↔ op.roleGrowth r = 0 := keepsRole_iff
  rw [RolesKept, Throughout.congr hkeeps]
  exact kept_iff_throughout (fun r => r.registryBytes - Table.total (nodeSize cfg) r.nodes)
    (fun r op => op.roleGrowth r) (fun r op hw hr => (hstep r op hw hr).registryBytes) hw hr ops

/-- **The gauge of the nodes is exact at every time of a run, and back at its initial
value once no node is left, if and only if no re-registration changes the length of a role.** -/
theorem registry_gauge_exact_iff (cfg : RegistryConfig) (registryBytes extraBytes : Int) (ops : List Operation) :
    ((∀ before, before <+: ops →
        (after cfg (startingAt registryBytes extraBytes) before).registryBytes - registryBytes =
          Table.total (nodeSize cfg) (after cfg (startingAt registryBytes extraBytes) before).nodes) ∧
      ((after cfg (startingAt registryBytes extraBytes) ops).nodes = ∅ →
        (after cfg (startingAt registryBytes extraBytes) ops).registryBytes = registryBytes)) ↔
      RolesKept cfg (startingAt registryBytes extraBytes) ops := by
  have hw : Stored (WellFormed cfg) (startingAt registryBytes extraBytes) := stored_empty _
  have h0 : Table.total (nodeSize cfg) (startingAt registryBytes extraBytes).nodes = 0 := Table.total_empty _
  have hb : (startingAt registryBytes extraBytes).registryBytes = registryBytes := rfl
  rw [← registry_after hw (stored_empty _) ops, h0, hb, sub_zero]
  constructor
  · intro h before hpre
    have hbefore := h.1 before hpre
    omega
  · intro h
    refine ⟨fun before hpre => ?_, fun hempty => ?_⟩
    · have hbefore := h before hpre
      omega
    · have hend := h ops (List.prefix_refl ops)
      rw [hempty, Table.total_empty, sub_zero] at hend
      exact hend

end

/-- A node registers, announces itself once more under a longer role, and is removed. -/
private def promotion : List Operation :=
  [.registerOrUpdateNode 5 (ascii "a") [] none (ascii "127.0.0.1") [] .null,
    .registerOrUpdateNode 6 (ascii "ab") [] none (ascii "127.0.0.1") (generateNodeId 5 1) .null,
    .removeNodePermanently (generateNodeId 5 1)]

private theorem promoted :
    (after (.ofDocuments []) (startingAt 0 0) promotion).nodes.entries = [] ∧
      (after (.ofDocuments []) (startingAt 0 0) promotion).registryBytes = -1 := by
  decide +kernel

/-- The longer role is taken off the gauge that only the shorter one was added to. -/
theorem registry_gauge_drifts :
    ¬ ∀ (cfg : RegistryConfig) (registryBytes extraBytes : Int) (ops : List Operation),
      (after cfg (startingAt registryBytes extraBytes) ops).nodes = ∅ →
        (after cfg (startingAt registryBytes extraBytes) ops).registryBytes = registryBytes := by
  intro h
  obtain ⟨hnodes, hbytes⟩ := promoted
  have hback := h (.ofDocuments []) 0 0 promotion (AList.ext hnodes)
  rw [hbytes] at hback
  cases hback

/-- The server for which braces make an array, after a node has registered and been removed. -/
private theorem departed : (after (RegistryConfig.ofDocuments []).wrapping (startingAt 0 0)
    [.registerOrUpdateNode 5 (ascii "a") [] none (ascii "127.0.0.1") [] .null,
      .removeNodePermanently (generateNodeId 5 1)]).nodes.entries = [] ∧
    (after (RegistryConfig.ofDocuments []).wrapping (startingAt 0 0)
      [.registerOrUpdateNode 5 (ascii "a") [] none (ascii "127.0.0.1") [] .null,
        .removeNodePermanently (generateNodeId 5 1)]).extraBytes = -2 := by
  decide +kernel

/-- The removal takes off the gauge what nothing was added for. -/
theorem extra_gauge_drifts :
    ¬ ∀ (cfg : RegistryConfig) (registryBytes extraBytes : Int) (ops : List Operation),
      (after cfg (startingAt registryBytes extraBytes) ops).extraBytes - extraBytes =
        Table.total (extraSize cfg) (after cfg (startingAt registryBytes extraBytes) ops).nodes := by
  intro h
  have hexact := h (RegistryConfig.ofDocuments []).wrapping 0 0
    [.registerOrUpdateNode 5 (ascii "a") [] none (ascii "127.0.0.1") [] .null,
      .removeNodePermanently (generateNodeId 5 1)]
  rw [departed.2, AList.ext (t := ∅) departed.1, Table.total_empty] at hexact
  cases hexact
end LightApr.Core.Registry
