import LightApr.Core.Registry

/-! What each registry mutation can do to the stored nodes. -/
namespace LightApr.Core.Registry
open Lib

/-- Every stored value can be printed. -/
def Printable (j : Json) : Prop := ∀ v ∈ j.elements, v.utf8 = true

theorem Printable.member {j : Json} {f : Bytes × Json} (h : Printable j) (hf : f ∈ j.members) : f.2.utf8 = true :=
  h _ (Json.mem_elements hf)

theorem Printable.field {j v : Json} {key : Bytes} (h : Printable j) (hf : j.field? key = some v) :
    v.utf8 = true := by
  cases j with
  | obj fields => exact h.member (f := (key, v)) (Json.mem_of_lookup hf)
  | _ => exact nomatch hf

theorem Printable.of_members {j : Json} (ho : j.isObject = true) (h : ∀ f ∈ j.members, f.2.utf8 = true) :
    Printable j := by
  intro v hv
  rw [Json.elements_object ho] at hv
  obtain ⟨f, hf, rfl⟩ := List.mem_map.mp hv
  exact h f hf

/-- What the extra of a node is: an object, unless braces make an array of the initial one, which then stays. -/
structure Formed (cfg : RegistryConfig) (extra : Json) : Prop where
  copies : cfg.json.bracesWrap = false → extra.isObject = true
  wraps : cfg.json.bracesWrap = true → extra = .arr [.obj []]

theorem formed_initial (cfg : RegistryConfig) : Formed cfg (cfg.json.braced (.obj [])) := by
  refine ⟨fun hw => ?_, fun hw => ?_⟩
  · rw [JsonLib.braced, hw]
    rfl
  · rw [JsonLib.braced, hw]
    rfl

theorem Formed.cases {cfg : RegistryConfig} {extra : Json} (h : Formed cfg extra) :
    extra.isObject = true ∨ extra = .arr [.obj []] := by
  cases hw : cfg.json.bracesWrap with
  | false => exact .inl (h.copies hw)
  | true => exact .inr (h.wraps hw)

/-- The value is too large to be announced. -/
def Oversized (cfg : RegistryConfig) (value : Json) : Prop :=
  ∃ size, dumpSize cfg value = some size ∧ cfg.maxNodeExtraBytes < size

instance (cfg : RegistryConfig) (value : Json) : Decidable (Oversized cfg value) :=
  inferInstanceAs (Decidable (∃ size, dumpSize cfg value = some size ∧ cfg.maxNodeExtraBytes < size))

/-- A registration does not touch an extra that is no object: none is pruned, and nothing is assigned in a new one. -/
def Unobstructed (cfg : RegistryConfig) (old? : Option NodeInfo) (workers : List Bytes) (extra : Json) : Prop :=
  cfg.json.bracesWrap = false ∨ (old? = none ∧ ∀ f ∈ extra.members, f.1 ∈ workers → Oversized cfg f.2)

instance (cfg : RegistryConfig) (old? : Option NodeInfo) (workers : List Bytes) (extra : Json) :
    Decidable (Unobstructed cfg old? workers extra) :=
  decidable_of_iff (cfg.json.bracesWrap = false ∨
      (old?.isNone = true ∧ ∀ f ∈ extra.members, workers.contains f.1 = true → Oversized cfg f.2))
    (by simp only [Unobstructed, Option.isNone_iff_eq_none, List.contains_iff_mem])

section
variable {cfg : RegistryConfig}

theorem dumpSize_eq_none {j : Json} : dumpSize cfg j = none ↔ j.utf8 = false := by
  rw [dumpSize, Option.map_eq_none_iff, ← cfg.json.dump_isSome]
  simp

theorem utf8_of_dumpSize {j : Json} {n : Nat} (h : dumpSize cfg j = some n) : j.utf8 = true := by
  cases hj : j.utf8 with
  | true => rfl
  | false => exact nomatch (dumpSize_eq_none.mpr hj).symm.trans h

/-- What can be stored in the extra of a node: what was there, and the values of
`announced` that belong to a worker of the node and can be printed. -/
structure ExtraFrom (node node' : NodeInfo) (announced : List (Bytes × Json)) : Prop where
  same : ∃ e, node' = { node with extra := e }
  kind : node'.extra = node.extra ∨ node'.extra.isObject = true
  frozen : node.extra.assignable = false → node'.extra = node.extra
  members : ∀ f ∈ node'.extra.members, f ∈ node.extra.members ∨
    (f ∈ announced ∧ f.1 ∈ node.workers ∧ f.2.utf8 = true)

variable {node node' : NodeInfo} {announced : List (Bytes × Json)} {gauge : Int}

theorem ExtraFrom.refl (node : NodeInfo) (announced : List (Bytes × Json)) : ExtraFrom node node announced :=
  ⟨⟨node.extra, rfl⟩, .inl rfl, fun _ => rfl, fun _ h => .inl h⟩

theorem ExtraFrom.workers (h : ExtraFrom node node' announced) : node'.workers = node.workers := by
  obtain ⟨e, rfl⟩ := h.same
  rfl

theorem ExtraFrom.trans {node'' : NodeInfo} {more : List (Bytes × Json)} (h : ExtraFrom node node' announced)
    (h' : ExtraFrom node' node'' more) : ExtraFrom node node'' (announced ++ more) where
  same := by
    obtain ⟨e, rfl⟩ := h.same
    obtain ⟨e', rfl⟩ := h'.same
    exact ⟨e', rfl⟩
  kind := by
    rcases h'.kind with he | ho
    · exact he ▸ h.kind
    · exact .inr ho
  frozen ha := by
    have he := h.frozen ha
    rw [h'.frozen (he ▸ ha), he]
  members f hf := by
    rcases h'.members f hf with hf | ⟨hf, hw, hu⟩
    · exact (h.members f hf).imp_right fun ⟨hm, hr⟩ => ⟨List.mem_append_left _ hm, hr⟩
    · exact .inr ⟨List.mem_append_right _ hf, h.workers ▸ hw, hu⟩

theorem ExtraFrom.printable (h : ExtraFrom node node' announced) (hp : Printable node.extra) :
    Printable node'.extra := by
  rcases h.kind with he | ho
  · exact he ▸ hp
  · refine .of_members ho fun f hf => ?_
    rcases h.members f hf with hf | ⟨-, -, hu⟩
    · exact hp.member hf
    · exact hu

theorem ExtraFrom.object (h : ExtraFrom node node' announced) (ho : node.extra.isObject = true) :
    node'.extra.isObject = true := by
  rcases h.kind with he | ho'
  · exact he ▸ ho
  · exact ho'

theorem ExtraFrom.formed (cfg : RegistryConfig) (h : ExtraFrom node node' announced) (hf : Formed cfg node.extra) :
    Formed cfg node'.extra :=
  ⟨fun hw => h.object (hf.copies hw), fun hw => (h.frozen (by rw [hf.wraps hw]; rfl)).trans (hf.wraps hw)⟩

private theorem members_set {j v : Json} {key : Bytes} {f : Bytes × Json} (h : f ∈ (j.set key v).members) :
    f = (key, v) ∨ f ∈ j.members := by
  cases j with
  | obj fields => exact Json.mem_insertField h
  | null => exact .inl (List.mem_singleton.mp h)
  | _ => exact nomatch h

/-- A value is stored for a worker of the node, if it can be printed within the limit. -/
theorem trySetExtraLocked_fits {worker : Bytes} {value : Json} {delta : Int}
    (h : trySetExtraLocked cfg node worker value = .stored node' delta) :
    node' = { node with extra := node.extra.set worker value } ∧ node.extra.assignable = true ∧
      worker ∈ node.workers ∧ ∃ text, cfg.json.dump value = some text ∧ text.length ≤ cfg.maxNodeExtraBytes := by
  unfold trySetExtraLocked at h
  split at h
  · exact nomatch h
  · rename_i hw
    split at h
    · exact nomatch h
    · rename_i size hsize
      obtain ⟨text, ht, rfl⟩ := Option.map_eq_some_iff.mp hsize
      split at h
      · exact nomatch h
      · rename_i hle
        suffices hnode : node' = { node with extra := node.extra.set worker value } ∧ node.extra.assignable = true from
          ⟨hnode.1, hnode.2, Decidable.not_not.mp hw, text, ht, Nat.le_of_not_lt hle⟩
        split at h
        · split at h
          · rename_i ha
            exact ⟨(SetExtra.stored.inj h).1.symm, ha⟩
          · exact nomatch h
        · rename_i old hold
          split at h
          · exact nomatch h
          · exact ⟨(SetExtra.stored.inj h).1.symm, Json.assignable_of_field hold⟩

theorem trySetExtraLocked_stored {worker : Bytes} {value : Json} {delta : Int}
    (h : trySetExtraLocked cfg node worker value = .stored node' delta) :
    node' = { node with extra := node.extra.set worker value } ∧ ExtraFrom node node' [(worker, value)] := by
  obtain ⟨rfl, ha, hw, text, ht, -⟩ := trySetExtraLocked_fits h
  have hu : value.utf8 = true := utf8_of_dumpSize (congrArg (Option.map List.length) ht)
  refine ⟨rfl, ⟨_, rfl⟩, .inr (Json.isObject_set ha), fun hn => ?_, fun f hf => ?_⟩
  · cases ha.symm.trans hn
  · rcases members_set hf with rfl | hf
    · exact .inr ⟨by simp, hw, hu⟩
    · exact .inl hf

/-- Storing a value throws where it cannot be printed, or has no place to go. -/
theorem trySetExtraLocked_threw {worker : Bytes} {value : Json} (hp : Printable node.extra)
    (h : trySetExtraLocked cfg node worker value = .threw) :
    worker ∈ node.workers ∧ (value.utf8 = false ∨ node.extra.assignable = false ∧ ¬ Oversized cfg value) := by
  unfold trySetExtraLocked at h
  split at h
  · exact nomatch h
  · rename_i hw
    refine ⟨Decidable.not_not.mp hw, ?_⟩
    split at h
    · rename_i hn
      exact .inl (dumpSize_eq_none.mp hn)
    · rename_i size hsize
      split at h
      · exact nomatch h
      · rename_i hle
        split at h
        · split at h
          · exact nomatch h
          · rename_i ha
            refine .inr ⟨Bool.eq_false_iff.mpr ha, ?_⟩
            rintro ⟨size', hsize', hlt⟩
            obtain rfl := Option.some.inj (hsize.symm.trans hsize')
            exact hle hlt
        · rename_i old hold
          split at h
          · rename_i hn
            exact absurd (hp.field hold) (by simp [dumpSize_eq_none.mp hn])
          · exact nomatch h

/-- And where there is no object to hold the value it does throw, unless it refuses the value first. -/
theorem trySetExtraLocked_frozen (cfg : RegistryConfig) (ha : node.extra.assignable = false) (worker : Bytes)
    (value : Json) :
    (trySetExtraLocked cfg node worker value = .threw ∧ worker ∈ node.workers ∧ ¬ Oversized cfg value) ∨
      (trySetExtraLocked cfg node worker value = .rejected ∧ (worker ∈ node.workers → Oversized cfg value)) := by
  have hfield : node.extra.field? worker = none := by
    cases hf : node.extra.field? worker with
    | none => rfl
    | some old => cases (Json.assignable_of_field hf).symm.trans ha
  unfold trySetExtraLocked
  rw [hfield, ha]
  by_cases hw : worker ∈ node.workers
  · rw [if_neg (not_not_intro hw)]
    cases hsize : dumpSize cfg value with
    | none => exact .inl ⟨rfl, hw, fun ⟨size, hsome, _⟩ => nomatch hsize.symm.trans hsome⟩
    | some size =>
      by_cases hlt : cfg.maxNodeExtraBytes < size
      · exact .inr ⟨if_pos hlt, fun _ => ⟨size, hsize, hlt⟩⟩
      · refine .inl ⟨if_neg hlt, hw, ?_⟩
        rintro ⟨size', hsome, hlt'⟩
        obtain rfl := Option.some.inj (hsize.symm.trans hsome)
        exact hlt hlt'
  · exact .inr ⟨if_pos hw, fun hm => absurd hm hw⟩

/-- What each value that is stored keeps of the record and the gauge, the whole announcement keeps. -/
theorem announceExtra_invariant {P : NodeInfo → Int → Prop} {threw : Bool} {gauge' : Int}
    (hstored : ∀ n g worker value n' delta, P n g → trySetExtraLocked cfg n worker value = .stored n' delta →
      P n' (g + delta))
    (hP : P node gauge) (h : announceExtra cfg node gauge announced = (node', gauge', threw)) : P node' gauge' := by
  induction announced generalizing node gauge with
  | nil =>
    obtain ⟨rfl, rfl, -⟩ : node = node' ∧ gauge = gauge' ∧ false = threw := by simpa [announceExtra] using h
    exact hP
  | cons f rest ih =>
    obtain ⟨worker, value⟩ := f
    rw [announceExtra] at h
    cases hset : trySetExtraLocked cfg node worker value with
    | rejected =>
      rw [hset] at h
      exact ih hP h
    | threw =>
      rw [hset] at h
      obtain ⟨rfl, rfl, -⟩ : node = node' ∧ gauge = gauge' ∧ true = threw := by simpa using h
      exact hP
    | stored node1 delta =>
      rw [hset] at h
      exact ih (hstored node gauge worker value node1 delta hP hset) h

theorem announceExtra_effect {threw : Bool} {gauge' : Int}
    (h : announceExtra cfg node gauge announced = (node', gauge', threw)) :
    ExtraFrom node node' announced ∧
      (Printable node.extra →
        (node.extra.assignable = true ∨ ∀ f ∈ announced, f.1 ∈ node.workers → Oversized cfg f.2) →
        (∀ f ∈ announced, f.1 ∈ node.workers → f.2.utf8 = true) → threw = false) := by
  induction announced generalizing node gauge with
  | nil =>
    obtain ⟨rfl, -, rfl⟩ : node = node' ∧ gauge = gauge' ∧ false = threw := by simpa [announceExtra] using h
    exact ⟨.refl _ _, fun _ _ _ => rfl⟩
  | cons f rest ih =>
    obtain ⟨worker, value⟩ := f
    rw [announceExtra] at h
    cases ht : trySetExtraLocked cfg node worker value with
    | rejected =>
      rw [ht] at h
      obtain ⟨he, hn⟩ := ih h
      exact ⟨(ExtraFrom.refl node [(worker, value)]).trans he,
        fun hp hs hu => hn hp (hs.imp_right fun hs f hf => hs f (List.mem_cons_of_mem _ hf))
          fun f hf => hu f (List.mem_cons_of_mem _ hf)⟩
    | threw =>
      rw [ht] at h
      obtain ⟨rfl, -, rfl⟩ : node = node' ∧ gauge = gauge' ∧ true = threw := by simpa using h
      refine ⟨.refl _ _, fun hp hs hu => ?_⟩
      obtain ⟨hw, hv | ⟨ha, hfits⟩⟩ := trySetExtraLocked_threw hp ht
      · exact nomatch hv.symm.trans (hu (worker, value) (by simp) hw)
      · rcases hs with hs | hs
        · cases hs.symm.trans ha
        · exact absurd (hs (worker, value) (by simp) hw) hfits
    | stored node1 delta =>
      rw [ht] at h
      obtain ⟨rfl, ha, -⟩ := trySetExtraLocked_fits ht
      obtain ⟨-, he1⟩ := trySetExtraLocked_stored ht
      obtain ⟨he, hn⟩ := ih h
      exact ⟨he1.trans he, fun hp _ hu => hn (he1.printable hp)
        (.inl (Json.assignable_of_isObject (Json.isObject_set ha)))
        fun f hf hw => hu f (List.mem_cons_of_mem _ hf) (he1.workers ▸ hw)⟩

/-- An extra that is no object takes nothing, and the announcement ends with the first value it should have taken. -/
theorem announceExtra_frozen {threw : Bool} {gauge' : Int} (ha : node.extra.assignable = false)
    (h : announceExtra cfg node gauge announced = (node', gauge', threw)) :
    node' = node ∧ gauge' = gauge ∧ (threw = false ↔ ∀ f ∈ announced, f.1 ∈ node.workers → Oversized cfg f.2) := by
  induction announced with
  | nil =>
    obtain ⟨rfl, rfl, rfl⟩ : node = node' ∧ gauge = gauge' ∧ false = threw := by simpa [announceExtra] using h
    exact ⟨rfl, rfl, iff_of_true rfl fun f hf => absurd hf List.not_mem_nil⟩
  | cons f rest ih =>
    obtain ⟨worker, value⟩ := f
    rw [announceExtra] at h
    rcases trySetExtraLocked_frozen cfg ha worker value with ⟨ht, hw, hfits⟩ | ⟨ht, hover⟩
    · rw [ht] at h
      obtain ⟨rfl, rfl, rfl⟩ : node = node' ∧ gauge = gauge' ∧ true = threw := by simpa using h
      exact ⟨rfl, rfl, iff_of_false nofun fun hall => hfits (hall (worker, value) (by simp) hw)⟩
    · rw [ht] at h
      obtain ⟨hnode, hgauge, hiff⟩ := ih h
      rw [List.forall_mem_cons]
      exact ⟨hnode, hgauge, hiff.trans (and_iff_right hover).symm⟩

theorem pruneKeys_effect {keys : List Bytes} {threw : Bool} {gauge' : Int}
    (h : pruneKeys cfg node gauge keys = (node', gauge', threw)) :
    ExtraFrom node node' [] ∧ (Printable node.extra → threw = false) := by
  induction keys generalizing node gauge with
  | nil =>
    obtain ⟨rfl, -, rfl⟩ : node = node' ∧ gauge = gauge' ∧ false = threw := by simpa [pruneKeys] using h
    exact ⟨.refl _ _, fun _ => rfl⟩
  | cons key rest ih =>
    rw [pruneKeys] at h
    split at h
    · exact ih h
    · rename_i old hold
      split at h
      · rename_i hn
        obtain ⟨rfl, -, rfl⟩ : node = node' ∧ gauge = gauge' ∧ true = threw := by simpa using h
        refine ⟨.refl _ _, fun hp => ?_⟩
        exact absurd (hp.field hold) (by simp [dumpSize_eq_none.mp hn])
      · have he1 : ExtraFrom node { node with extra := node.extra.erase key } [] := by
          refine ⟨⟨_, rfl⟩, .inr (Json.isObject_erase (Json.isObject_of_field hold)), fun hn => ?_,
            fun f hf => .inl (Json.mem_members_erase.mp hf).1⟩
          cases (Json.assignable_of_field hold).symm.trans hn
        obtain ⟨he, hn⟩ := ih h
        exact ⟨he1.trans he, fun hp => hn (he1.printable hp)⟩

theorem pruneStaleExtraLocked_effect {threw : Bool} {gauge' : Int}
    (h : pruneStaleExtraLocked cfg node gauge = (node', gauge', threw)) :
    ExtraFrom node node' [] ∧ (Printable node.extra → node.extra.isObject = true → threw = false) := by
  unfold pruneStaleExtraLocked at h
  split at h
  · rename_i hkeys
    obtain ⟨rfl, -, rfl⟩ : node = node' ∧ gauge = gauge' ∧ true = threw := by simpa using h
    refine ⟨.refl _ _, fun _ ho => ?_⟩
    cases he : node.extra <;> simp_all [Json.isObject, Json.keys?]
  · obtain ⟨he, hn⟩ := pruneKeys_effect h
    exact ⟨he, fun hp _ => hn hp⟩

/-! One lemma for each mutation: the stored nodes afterwards, and how it ended. -/

variable {now : Int} {role peerIp existingId nodeId worker : Bytes} {workers : List Bytes}
  {ep : Option EndpointInfo} {extra : Json} {r r' : Registry} {out : Outcome}

/-- The observers and the id counter aside from the nodes: what a mutation leaves alone. -/
structure SameObservers (r r' : Registry) : Prop where
  eventCbs : r'.eventCbs = r.eventCbs
  eventCbIdCounter : r'.eventCbIdCounter = r.eventCbIdCounter
  rrIndices : r'.rrIndices = r.rrIndices

theorem SameObservers.refl (r : Registry) : SameObservers r r := ⟨rfl, rfl, rfl⟩

/-- The endpoint a registration stores. -/
def finalEndpoint (peerIp : Bytes) (ep : Option EndpointInfo) : Option EndpointInfo :=
  ep.map fun e => if e.addr = [] then { e with addr := peerIp } else e

/-- What a registration stores under `nodeId`. -/
structure Registered (cfg : RegistryConfig) (old? : Option NodeInfo) (nodeId role : Bytes) (workers : List Bytes)
    (ep : Option EndpointInfo) (extra : Json) (node : NodeInfo) : Prop where
  id : node.id = old?.elim nodeId NodeInfo.id
  role : node.role = role
  workers : node.workers = workers
  endpoint : node.endpoint = ep
  status : node.status = .ok
  formed : (∀ old ∈ old?, Formed cfg old.extra) → Formed cfg node.extra
  printable : (∀ old ∈ old?, Printable old.extra) → Printable node.extra
  members : ∀ f ∈ node.extra.members, (∃ old ∈ old?, f ∈ old.extra.members) ∨
    (f ∈ extra.members ∧ f.1 ∈ node.workers ∧ f.2.utf8 = true)

/-- The registry once a registration has drawn its id. -/
def drawId (existingId : Bytes) (r : Registry) : Registry :=
  if existingId = [] then { r with idCounter := (r.idCounter + 1) % sizeMax } else r

theorem drawId_same (existingId : Bytes) (r : Registry) : ∃ idCounter, drawId existingId r = { r with idCounter } := by
  unfold drawId
  split
  · exact ⟨_, rfl⟩
  · exact ⟨r.idCounter, rfl⟩

/-- What the first half of a registration comes to: a record that is pruned, or a new one. -/
inductive Upserted (cfg : RegistryConfig) (now : Int) (role : Bytes) (workers : List Bytes) (ep : Option EndpointInfo)
    (nodeId : Bytes) (r : Registry) : NodeInfo → Registry → Bool → Prop
  | pruned {old node : NodeInfo} {gauge : Int} {threw : Bool} : r.nodes.lookup nodeId = some old →
      pruneStaleExtraLocked cfg (Registry.announced now role workers ep old) r.extraBytes = (node, gauge, threw) →
      Upserted cfg now role workers ep nodeId r node
        { r with nodes := r.nodes.insert nodeId node, extraBytes := gauge } threw
  | created : r.nodes.lookup nodeId = none → Upserted cfg now role workers ep nodeId r
      (newNode cfg now nodeId role workers ep)
      { r with
        nodes := r.nodes.insert nodeId (newNode cfg now nodeId role workers ep)
        registryBytes := r.registryBytes + (cfg.nodeInfoSize + role.length + nodeId.length : Nat) } false

theorem upsert_cases {node : NodeInfo} {threw : Bool}
    (h : upsert cfg now role workers ep nodeId r = (node, r', threw)) :
    Upserted cfg now role workers ep nodeId r node r' threw := by
  unfold upsert at h
  split at h
  · rename_i old hold
    obtain ⟨⟨node1, gauge, t⟩, hp⟩ : ∃ x, pruneStaleExtraLocked cfg (Registry.announced now role workers ep old)
      r.extraBytes = x := ⟨_, rfl⟩
    rw [hp] at h
    obtain ⟨rfl, rfl, rfl⟩ : node1 = node ∧ _ = r' ∧ t = threw := by simpa using h
    exact .pruned hold hp
  · rename_i hnone
    obtain ⟨rfl, rfl, rfl⟩ : newNode cfg now nodeId role workers ep = node ∧ _ = r' ∧ false = threw := by
      simpa using h
    exact .created hnone

/-- What a registration comes to: the pruning throws, or the announced extra is stored after it. -/
inductive RegisterCase (cfg : RegistryConfig) (now : Int) (role : Bytes) (workers : List Bytes)
    (ep : Option EndpointInfo) (peerIp existingId : Bytes) (extra : Json) (r : Registry) : Registry → Outcome → Prop
  | threw {node : NodeInfo} {r' : Registry} :
      upsert cfg now role workers (finalEndpoint peerIp ep) (targetId now existingId r) (drawId existingId r) =
        (node, r', true) →
      RegisterCase cfg now role workers ep peerIp existingId extra r r' .threw
  | announced {node node' : NodeInfo} {r₁ : Registry} {gauge : Int} {threw : Bool} :
      upsert cfg now role workers (finalEndpoint peerIp ep) (targetId now existingId r) (drawId existingId r) =
        (node, r₁, false) →
      announceExtra cfg node r₁.extraBytes extra.members = (node', gauge, threw) →
      RegisterCase cfg now role workers ep peerIp existingId extra r
        { r₁ with nodes := r₁.nodes.insert (targetId now existingId r) node', extraBytes := gauge }
        (if threw then .threw else .event node')

theorem registerOrUpdateNode_cases
    (h : registerOrUpdateNode cfg now role workers ep peerIp existingId extra r = (r', out)) :
    RegisterCase cfg now role workers ep peerIp existingId extra r r' out := by
  unfold registerOrUpdateNode at h
  dsimp only at h
  rw [← targetId, ← finalEndpoint, ← drawId] at h
  obtain ⟨⟨node, r1, t1⟩, hu⟩ : ∃ x, upsert cfg now role workers (finalEndpoint peerIp ep)
    (targetId now existingId r) (drawId existingId r) = x := ⟨_, rfl⟩
  rw [hu] at h
  dsimp only at h
  cases t1 with
  | true =>
    obtain ⟨rfl, rfl⟩ : r1 = r' ∧ .threw = out := by simpa using h
    exact .threw hu
  | false =>
    obtain ⟨⟨node', gauge, t2⟩, ha⟩ : ∃ x, announceExtra cfg node r1.extraBytes extra.members = x := ⟨_, rfl⟩
    rw [ha] at h
    obtain ⟨rfl, rfl⟩ : { r1 with
        nodes := r1.nodes.insert (targetId now existingId r) node', extraBytes := gauge } = r' ∧
        (if t2 = true then .threw else .event node') = out := by simpa using h
    exact .announced hu ha

theorem initial_cases (cfg : RegistryConfig) :
    cfg.json.braced (.obj []) = .obj [] ∨ cfg.json.braced (.obj []) = .arr [.obj []] := by
  rw [JsonLib.braced]
  cases cfg.json.bracesWrap
  · exact .inl rfl
  · exact .inr rfl

theorem printable_initial (cfg : RegistryConfig) : Printable (cfg.json.braced (.obj [])) := by
  intro v hv
  rcases initial_cases cfg with he | he
  · rw [he] at hv
    exact absurd hv List.not_mem_nil
  · rw [he] at hv
    obtain rfl := List.mem_singleton.mp hv
    rfl

theorem members_initial (cfg : RegistryConfig) : (cfg.json.braced (.obj [])).members = [] := by
  rcases initial_cases cfg with he | he
  · rw [he]
    rfl
  · rw [he]
    rfl

private theorem upsert_effect {node : NodeInfo} {threw : Bool}
    (h : upsert cfg now role workers ep nodeId r = (node, r', threw)) :
    r'.nodes = r.nodes.insert nodeId node ∧ SameObservers r r' ∧
      Registered cfg (r.nodes.lookup nodeId) nodeId role workers ep (.obj []) node ∧
      ((∀ old ∈ r.nodes.lookup nodeId, Printable old.extra ∧ old.extra.isObject = true) → threw = false) := by
  cases upsert_cases h with
  | @pruned old _ gauge _ hold hp =>
    obtain ⟨he, hn⟩ := pruneStaleExtraLocked_effect hp
    have hformed := he.formed cfg
    have hprintable := he.printable
    refine ⟨rfl, ⟨rfl, rfl, rfl⟩, ?_, fun hall => hn (hall old hold).1 (hall old hold).2⟩
    obtain ⟨e, rfl⟩ := he.same
    rw [hold]
    refine ⟨rfl, rfl, rfl, rfl, rfl, fun hf => hformed (hf old rfl), fun hpr => hprintable (hpr old rfl), fun f hf =>
      ?_⟩
    rcases he.members f hf with hf | ⟨hf, -⟩
    · exact .inl ⟨old, rfl, hf⟩
    · exact nomatch hf
  | created hnone =>
    rw [hnone]
    refine ⟨rfl, ⟨rfl, rfl, rfl⟩, ⟨rfl, rfl, rfl, rfl, rfl, fun _ => formed_initial cfg, fun _ => printable_initial cfg,
      fun f hf => ?_⟩, fun _ => rfl⟩
    rw [newNode, members_initial] at hf
    exact absurd hf List.not_mem_nil

/-- A registration stores a node under its target key, whether it returns or throws. -/
theorem registerOrUpdateNode_effect
    (h : registerOrUpdateNode cfg now role workers ep peerIp existingId extra r = (r', out)) :
    ∃ node, r'.nodes = r.nodes.insert (targetId now existingId r) node ∧ SameObservers r r' ∧
      Registered cfg (r.nodes.lookup (targetId now existingId r)) (targetId now existingId r) role workers
        (finalEndpoint peerIp ep) extra node ∧
      (out = .event node ∨ out = .threw) ∧
      ((∀ old ∈ r.nodes.lookup (targetId now existingId r), Printable old.extra ∧ Formed cfg old.extra) →
        Unobstructed cfg (r.nodes.lookup (targetId now existingId r)) workers extra →
        (∀ f ∈ extra.members, f.1 ∈ workers → f.2.utf8 = true) → out = .event node) := by
  obtain ⟨counter, hdrawn⟩ := drawId_same existingId r
  have hobject (hstored : ∀ old ∈ r.nodes.lookup (targetId now existingId r), Printable old.extra ∧
    Formed cfg old.extra)
      (hfree : Unobstructed cfg (r.nodes.lookup (targetId now existingId r)) workers extra) :
      ∀ old ∈ r.nodes.lookup (targetId now existingId r), Printable old.extra ∧ old.extra.isObject = true := by
    intro old ho
    rcases hfree with hw | ⟨hnone, -⟩
    · exact ⟨(hstored old ho).1, (hstored old ho).2.copies hw⟩
    · rw [hnone] at ho
      cases ho
  cases registerOrUpdateNode_cases h with
  | @threw node _ hu =>
    rw [hdrawn] at hu
    obtain ⟨hn, hobs, hreg, hprint⟩ := upsert_effect hu
    refine ⟨node, hn, ⟨hobs.1, hobs.2, hobs.3⟩, { hreg with members := fun f hf => ?_ },
      .inr rfl, fun hp hfree _ => nomatch hprint (hobject hp hfree)⟩
    exact .inl ((hreg.members f hf).resolve_right fun ⟨hm, _⟩ => nomatch hm)
  | @announced node node' r₁ gauge threw hu ha =>
    rw [hdrawn] at hu
    obtain ⟨hn, hobs, hreg, hprint⟩ := upsert_effect hu
    obtain ⟨he, hthrew⟩ := announceExtra_effect ha
    refine ⟨node', ?_, ⟨hobs.1, hobs.2, hobs.3⟩, ?_, ?_, ?_⟩
    · simp [hn, AList.insert_insert]
    · have hformed := he.formed cfg
      have hprintable := he.printable
      obtain ⟨e, rfl⟩ := he.same
      refine ⟨hreg.1, hreg.2, hreg.3, hreg.4, hreg.5, fun hf => hformed (hreg.formed hf),
        fun hp => hprintable (hreg.printable hp), fun f hf => ?_⟩
      rcases he.members f hf with hf | hf
      · exact .inl ((hreg.members f hf).resolve_right fun ⟨hm, _⟩ => nomatch hm)
      · exact .inr hf
    · cases threw
      · exact .inl rfl
      · exact .inr rfl
    · intro hp hfree hx
      have hassign : node.extra.assignable = true ∨ ∀ f ∈ extra.members, f.1 ∈ node.workers → Oversized cfg f.2 := by
        rw [hreg.workers]
        refine hfree.imp (fun hw => Json.assignable_of_isObject ?_) (·.2)
        exact (hreg.formed fun old ho => (hp old ho).2).copies hw
      rw [hthrew (hreg.printable fun old ho => (hp old ho).1) hassign fun f hf hw => hx f hf (hreg.workers ▸ hw)]
      rfl

/-- An extra that is no object cannot be pruned. -/
theorem pruneStaleExtraLocked_wrapped (node : NodeInfo) (h : node.extra = .arr [.obj []]) (gauge : Int) :
    pruneStaleExtraLocked cfg node gauge = (node, gauge, true) := by
  rw [pruneStaleExtraLocked, h]
  rfl

/-- A registration that meets an extra that is no object throws, when it has changed the stored record or put a
new one there. -/
theorem registerOrUpdateNode_obstructed
    (hform : ∀ old ∈ r.nodes.lookup (targetId now existingId r), Formed cfg old.extra)
    (hno : ¬ Unobstructed cfg (r.nodes.lookup (targetId now existingId r)) workers extra)
    (h : registerOrUpdateNode cfg now role workers ep peerIp existingId extra r = (r', out)) :
    out = .threw ∧
      ((∃ old, r.nodes.lookup (targetId now existingId r) = some old ∧
          r' = { drawId existingId r with
            nodes := r.nodes.insert (targetId now existingId r)
              (Registry.announced now role workers (finalEndpoint peerIp ep) old) }) ∨
        (r.nodes.lookup (targetId now existingId r) = none ∧
          (r'.nodes.lookup (targetId now existingId r)).isSome = true)) := by
  have hwrap : cfg.json.bracesWrap = true := by
    by_contra hw
    exact hno (.inl (Bool.eq_false_iff.mpr hw))
  obtain ⟨counter, hdrawn⟩ := drawId_same existingId r
  -- the stored extra is the array of the start
  have hpruned {old : NodeInfo} (hold : r.nodes.lookup (targetId now existingId r) = some old) (gauge : Int) :
      pruneStaleExtraLocked cfg (Registry.announced now role workers (finalEndpoint peerIp ep) old) gauge =
        (Registry.announced now role workers (finalEndpoint peerIp ep) old, gauge, true) :=
    pruneStaleExtraLocked_wrapped (Registry.announced ..) ((hform old hold).wraps hwrap) gauge
  rw [hdrawn]
  cases registerOrUpdateNode_cases h with
  | threw hu =>
    rw [hdrawn] at hu
    cases upsert_cases hu with
    | pruned hold hp =>
      obtain ⟨rfl, hgauge⟩ := Prod.mk.inj ((hpruned hold _).symm.trans hp)
      obtain ⟨rfl, -⟩ := Prod.mk.inj hgauge
      exact ⟨rfl, .inl ⟨_, hold, rfl⟩⟩
  | @announced node node' r₁ gauge threw hu ha =>
    rw [hdrawn] at hu
    cases upsert_cases hu with
    | @pruned old _ _ _ hold hp =>
      cases (Prod.mk.inj (Prod.mk.inj ((hpruned hold _).symm.trans hp)).2).2
    | created hnone =>
      have hfrozen : (newNode cfg now (targetId now existingId r) role workers
          (finalEndpoint peerIp ep)).extra.assignable = false := by
        rw [newNode, JsonLib.braced, hwrap]
        rfl
      obtain ⟨-, -, hiff⟩ := announceExtra_frozen hfrozen ha
      have hthrew : threw = true := by
        by_contra hf
        exact hno (.inr ⟨hnone, hiff.mp (Bool.eq_false_iff.mpr hf)⟩)
      rw [hthrew]
      exact ⟨rfl, .inr ⟨hnone, by rw [AList.lookup_insert]; rfl⟩⟩

/-- A mutation in place refuses an unknown id and otherwise announces what it stored. -/
theorem modifyNode_effect {f : NodeInfo → NodeInfo} (h : modifyNode nodeId f r = (r', out)) :
    (r.nodes.lookup nodeId = none ∧ r' = r ∧ out = .refused) ∨
      ∃ old, r.nodes.lookup nodeId = some old ∧ r'.nodes = r.nodes.insert nodeId (f old) ∧
        SameObservers r r' ∧ out = .event (f old) := by
  unfold modifyNode at h
  split at h
  · rename_i hnone
    obtain ⟨rfl, rfl⟩ : r = r' ∧ .refused = out := by simpa using h
    exact .inl ⟨hnone, rfl, rfl⟩
  · rename_i old hold
    obtain ⟨rfl, rfl⟩ : _ = r' ∧ .event (f old) = out := by simpa using h
    exact .inr ⟨old, hold, rfl, ⟨rfl, rfl, rfl⟩, rfl⟩

/-- An extra update leaves the registry alone unless it is accepted. -/
theorem updateNodeExtra_effect (h : updateNodeExtra cfg now nodeId worker extra r = (r', out)) :
    (r' = r ∧ (out = .refused ∨ out = .threw)) ∨
      ∃ old delta, r.nodes.lookup nodeId = some old ∧
        trySetExtraLocked cfg old worker extra =
          .stored { old with extra := old.extra.set worker extra } delta ∧
        r'.nodes = r.nodes.insert nodeId { old with extra := old.extra.set worker extra, activeAt := now } ∧
        SameObservers r r' ∧
        out = .event { old with extra := old.extra.set worker extra, activeAt := now } := by
  unfold updateNodeExtra at h
  split at h
  · obtain ⟨rfl, rfl⟩ : r = r' ∧ .refused = out := by simpa using h
    exact .inl ⟨rfl, .inl rfl⟩
  · rename_i old hold
    cases ht : trySetExtraLocked cfg old worker extra with
    | rejected =>
      rw [ht] at h
      obtain ⟨rfl, rfl⟩ : r = r' ∧ .refused = out := by simpa using h
      exact .inl ⟨rfl, .inl rfl⟩
    | threw =>
      rw [ht] at h
      obtain ⟨rfl, rfl⟩ : r = r' ∧ .threw = out := by simpa using h
      exact .inl ⟨rfl, .inr rfl⟩
    | stored node delta =>
      obtain ⟨rfl, -⟩ := trySetExtraLocked_stored ht
      rw [ht] at h
      obtain ⟨rfl, rfl⟩ : _ = r' ∧ Outcome.event _ = out := by simpa using h
      exact .inr ⟨old, delta, hold, ht, rfl, ⟨rfl, rfl, rfl⟩, rfl⟩

theorem releaseExtra_effect {values : List Json} {gauge gauge' : Int} {threw : Bool}
    (h : releaseExtra cfg gauge values = (gauge', threw)) (hu : ∀ v ∈ values, v.utf8 = true) :
    threw = false := by
  induction values generalizing gauge with
  | nil => exact ((Prod.mk.inj h).2).symm
  | cons value rest ih =>
    rw [releaseExtra] at h
    split at h
    · rename_i hn
      exact nomatch (dumpSize_eq_none.mp hn).symm.trans (hu value (by simp))
    · exact ih h fun v hv => hu v (List.mem_cons_of_mem _ hv)

/-- A removal erases the node even when releasing its bytes fails. -/
theorem removeNodePermanently_effect (h : removeNodePermanently cfg nodeId r = (r', out)) :
    (r.nodes.lookup nodeId = none ∧ r' = r ∧ out = .refused) ∨
      ∃ old, r.nodes.lookup nodeId = some old ∧ r'.nodes = r.nodes.erase nodeId ∧ SameObservers r r' ∧
        (out = .event { old with status := .erased, expiresIn := some 0 } ∨ out = .threw) ∧
        (Printable old.extra → out = .event { old with status := .erased, expiresIn := some 0 }) := by
  unfold removeNodePermanently at h
  split at h
  · rename_i hnone
    obtain ⟨rfl, rfl⟩ : r = r' ∧ .refused = out := by simpa using h
    exact .inl ⟨hnone, rfl, rfl⟩
  · rename_i old hold
    obtain ⟨⟨gauge, t⟩, hr⟩ : ∃ x, releaseExtra cfg r.extraBytes old.extra.elements = x := ⟨_, rfl⟩
    dsimp only at h
    rw [hr] at h
    obtain ⟨rfl, rfl⟩ : _ = r' ∧
        (if t = true then .threw else .event { old with status := .erased, expiresIn := some 0 }) = out := by
      simpa using h
    refine .inr ⟨old, hold, rfl, ⟨rfl, rfl, rfl⟩, ?_, fun hp => ?_⟩
    · cases t
      · exact .inl rfl
      · exact .inr rfl
    · rw [releaseExtra_effect hr hp]
      rfl

/-- What is stored after a removal was stored before it. -/
theorem lookup_removed {k : Bytes} (h : (removeNodePermanently cfg nodeId r).1.nodes.lookup k = some node) :
    r.nodes.lookup k = some node := by
  obtain ⟨⟨r', out⟩, hrun⟩ : ∃ x, removeNodePermanently cfg nodeId r = x := ⟨_, rfl⟩
  rw [hrun] at h
  rcases removeNodePermanently_effect hrun with ⟨-, rfl, -⟩ | ⟨old, -, hn, -⟩
  · exact h
  · rw [hn, Table.lookup_erase_eq_some] at h
    exact h.2

/-- Only the round robin moves on. -/
theorem nodes_resolveNode (order : MapOrder) (role worker : Bytes) (r : Registry) :
    (r.resolveNode order role worker).2.nodes = r.nodes := by
  unfold resolveNode
  dsimp only
  split <;> rfl

/-! What holds of every stored record. -/

/-- Every stored record has the property. -/
def Stored (P : Bytes → NodeInfo → Prop) (r : Registry) : Prop := ∀ k node, r.nodes.lookup k = some node → P k node

section
variable {P : Bytes → NodeInfo → Prop} {k : Bytes}

theorem stored_empty (P : Bytes → NodeInfo → Prop) : Stored P empty := by
  intro k node h
  simp [empty] at h

theorem Stored.same (hr : Stored P r) (h : r'.nodes = r.nodes) : Stored P r' := fun k node hk => hr k node (h ▸ hk)

theorem Stored.erase (hr : Stored P r) (h : r'.nodes = r.nodes.erase k) : Stored P r' := by
  intro k' node hk
  rw [h, Table.lookup_erase_eq_some] at hk
  exact hr k' node hk.2

theorem Stored.insert (hr : Stored P r) (h : r'.nodes = r.nodes.insert k node) (hn : P k node) : Stored P r' := by
  intro k' node' hk
  rw [h, Table.lookup_insert_eq_some] at hk
  rcases hk with ⟨rfl, rfl⟩ | ⟨-, hk⟩
  · exact hn
  · exact hr k' node' hk

end

/-! The stored nodes stay well formed under every mutation. -/

/-- A node is stored under its own id, is not erased, and its extra can be printed. -/
structure SoundNode (cfg : RegistryConfig) (k : Bytes) (node : NodeInfo) : Prop where
  id : node.id = k
  status : node.status ≠ .erased
  formed : Formed cfg node.extra
  printable : Printable node.extra

def Sound (cfg : RegistryConfig) (r : Registry) : Prop := ∀ k node, r.nodes.lookup k = some node → SoundNode cfg k node

theorem sound_empty (cfg : RegistryConfig) : Sound cfg empty := stored_empty (SoundNode cfg)

theorem Sound.registerOrUpdateNode (hr : Sound cfg r)
    (h : registerOrUpdateNode cfg now role workers ep peerIp existingId extra r = (r', out)) : Sound cfg r' := by
  obtain ⟨node, hn, -, hreg, -, -⟩ := registerOrUpdateNode_effect h
  refine Stored.insert hr hn ⟨?_, ?_, ?_, ?_⟩
  · rw [hreg.id]
    cases hl : r.nodes.lookup (targetId now existingId r) with
    | none => rfl
    | some old => exact (hr _ old hl).id
  · rw [hreg.status]
    exact nofun
  · exact hreg.formed fun old ho => (hr _ old ho).formed
  · exact hreg.printable fun old ho => (hr _ old ho).printable

theorem Sound.modifyNode {f : NodeInfo → NodeInfo} (hr : Sound cfg r)
    (hf : ∀ k node, SoundNode cfg k node → SoundNode cfg k (f node)) (h : modifyNode nodeId f r = (r', out)) :
    Sound cfg r' := by
  rcases modifyNode_effect h with ⟨-, rfl, -⟩ | ⟨old, hold, hn, -, -⟩
  · exact hr
  · exact Stored.insert hr hn (hf _ _ (hr _ _ hold))

theorem Sound.markNodeGrace (hr : Sound cfg r) (h : markNodeGrace now nodeId r = (r', out)) : Sound cfg r' := by
  refine hr.modifyNode (fun k node hs => ?_) h
  exact ⟨hs.id, nofun, hs.formed, hs.printable⟩

theorem Sound.restoreNodeActive (hr : Sound cfg r) (h : restoreNodeActive now nodeId r = (r', out)) : Sound cfg r' := by
  refine hr.modifyNode (fun k node hs => ?_) h
  exact ⟨hs.id, nofun, hs.formed, hs.printable⟩

theorem Sound.updateNodeExtra (hr : Sound cfg r) (h : updateNodeExtra cfg now nodeId worker extra r = (r', out)) :
    Sound cfg r' := by
  rcases updateNodeExtra_effect h with ⟨rfl, -⟩ | ⟨old, delta, hold, ht, hn, -, -⟩
  · exact hr
  · have hs := hr _ _ hold
    have he := (trySetExtraLocked_stored ht).2
    exact Stored.insert hr hn ⟨hs.id, hs.status, he.formed cfg hs.formed, he.printable hs.printable⟩

theorem Sound.removeNodePermanently (hr : Sound cfg r) (h : removeNodePermanently cfg nodeId r = (r', out)) :
    Sound cfg r' := by
  rcases removeNodePermanently_effect h with ⟨-, rfl, -⟩ | ⟨old, -, hn, -, -, -⟩
  · exact hr
  · exact Stored.erase hr hn

end
end LightApr.Core.Registry
