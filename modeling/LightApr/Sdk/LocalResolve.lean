import LightApr.Core.RoundRobin
import LightApr.Sdk.Replica

/-! `resolve_node` of the C++ client: the calls are answered from the replica, and go round its nodes. -/
namespace LightApr.Sdk.LocalResolve
open LightApr.Core Registry Replica Lib Replay

/-- The client, with its own `rr_indices_`. -/
structure Resolver where
  client : Client NodeInfo NodeInfo
  rrIndices : Table Nat

/-- The nodes the loop collects. -/
def candidates (order : MapOrder) (role worker : Bytes) (c : Resolver) : List NodeInfo :=
  ((c.client.localNodes.iterate order).map Prod.snd).filter fun node =>
    decide (node.status = .ok) && decide (node.role = role) &&
      (decide (worker = []) || node.workers.any (· = worker))

def resolveNode (order : MapOrder) (role worker : Bytes) (c : Resolver) : Option NodeInfo × Resolver :=
  let nodes := candidates order role worker c
  if nodes = [] then (none, c)
  else
    let key := role ++ ascii ":" ++ worker
    let idx := (c.rrIndices.lookup key).getD 0 % nodes.length
    (nodes[idx]?, { c with rrIndices := c.rrIndices.insert key ((idx + 1) % nodes.length) })

def getLocalRegistry (order : MapOrder) (c : Resolver) : List NodeInfo :=
  (c.client.localNodes.iterate order).map Prod.snd

/-- What the application and the broker do to the client: a call, or a node event that arrives. -/
inductive Step where
  | resolve (F : Filter)
  | event (node : NodeInfo)

def step (order : MapOrder) (c : Resolver) : Step → Resolver
  | .resolve F => (resolveNode order F.role F.worker c).2
  | .event node => { c with client := handleMessage Cpp.library c.client node.toJson }

/-- `start`: the steps before the snapshot is loaded, the calls until the queue is reconciled, and the steps
after. -/
def started (order : MapOrder) (queued : List Step) (nodes : List Json) (loaded : List Filter) (live : List Step) :
    Resolver :=
  let c := queued.foldl (step order) ⟨⟨∅, [], false⟩, ∅⟩
  let c := (loaded.map Step.resolve).foldl (step order)
    { c with client := fetchSnapshot Cpp.library c.client nodes }
  live.foldl (step order) { c with client := reconcileQueue Cpp.library c.client }

/-- The events among the steps. -/
def eventsIn (steps : List Step) : List NodeInfo :=
  steps.filterMap fun
    | .resolve _ => none
    | .event node => some node

theorem eventsIn_resolve (calls : List Filter) : eventsIn (calls.map Step.resolve) = [] := by
  rw [eventsIn, List.filterMap_map, List.filterMap_eq_nil_iff]
  exact fun _ _ => rfl

theorem eventsIn_event (nodes : List NodeInfo) : eventsIn (nodes.map Step.event) = nodes := by
  rw [eventsIn, List.filterMap_map]
  exact List.filterMap_some

/-- What the calls with this filter return when calls are made in turn. -/
def answers (order : MapOrder) (c : Resolver) (F : Filter) : List Filter → List (Option NodeInfo)
  | [] => []
  | G :: calls =>
    let (answer, c') := resolveNode order G.role G.worker c
    if G = F then answer :: answers order c' F calls else answers order c' F calls

/-- What is compared of two records of a node, the extra as the library reads it. -/
def face (node : NodeInfo) : Bytes × View := (node.id, asRead (view node))

/-- However the calls with this filter are interleaved with others, as many consecutive ones of them as there
are nodes in the list return these nodes, each once. -/
def Spreads (order : MapOrder) (c : Resolver) (F : Filter) (nodes : List NodeInfo) : Prop :=
  ∀ (calls : List Filter) (i : Nat),
    let window := ((answers order c F calls).drop i).take nodes.length
    window.length = nodes.length → (window.map (Option.map face)).Perm (nodes.map fun node => some (face node))

/-! The calls are those of a registry that holds the replica's nodes. -/

def asRegistry (c : Resolver) : Registry :=
  { Registry.empty with nodes := c.client.localNodes, rrIndices := c.rrIndices }

section
variable {order : MapOrder} {role worker : Bytes} {c : Resolver} {F : Filter}

theorem candidates_eq : Registry.candidates order role worker (asRegistry c) = candidates order role worker c := rfl

theorem resolveNode_eq : (asRegistry c).resolveNode order role worker =
    ((resolveNode order role worker c).1, asRegistry (resolveNode order role worker c).2) := by
  rw [Registry.resolveNode, resolveNode, candidates_eq]
  dsimp only
  by_cases h : candidates order role worker c = []
  · rw [if_pos h, if_pos h]
  · rw [if_neg h, if_neg h]
    rfl

theorem answers_eq (calls : List Filter) : answers order c F calls = Registry.answers order (asRegistry c) calls F := by
  induction calls generalizing c with
  | nil => rfl
  | cons G calls ih =>
    rw [answers]
    dsimp only
    rw [ih]
    by_cases hG : G = F
    · subst hG
      rw [if_pos rfl, answers_cons_same, ← resolveNode_answer, resolved, resolveNode_eq]
    · rw [if_neg hG, answers_cons_other hG, resolved, resolveNode_eq]

end

/-! A step of the application leaves the replica alone, and an event is its own. -/

section
variable (order : MapOrder)

theorem client_resolveNode (role worker : Bytes) (c : Resolver) :
    (resolveNode order role worker c).2.client = c.client := by
  rw [resolveNode]
  dsimp only
  split <;> rfl

theorem client_steps (steps : List Step) (c : Resolver) : (steps.foldl (step order) c).client =
    ((eventsIn steps).map NodeInfo.toJson).foldl (handleMessage Cpp.library) c.client := by
  induction steps generalizing c with
  | nil => rfl
  | cons s steps ih =>
    rw [List.foldl_cons, ih]
    cases s with
    | resolve F =>
      rw [step, client_resolveNode]
      rfl
    | event node => rfl

theorem client_started (queued : List Step) (nodes : List Json) (loaded : List Filter) (live : List Step) :
    (started order queued nodes loaded live).client =
      bootstrap Cpp.library ((eventsIn queued).map NodeInfo.toJson) nodes ((eventsIn live).map NodeInfo.toJson) := by
  rw [started, client_steps, client_steps, eventsIn_resolve, client_steps, bootstrap]
  rfl

end

/-! The replica keeps every node under its own id. -/

def OwnIds (localNodes : Table NodeInfo) : Prop := ∀ id node, localNodes.lookup id = some node → node.id = id

section
variable {t : Table NodeInfo}

theorem OwnIds.insert (h : OwnIds t) (node : NodeInfo) : OwnIds (t.insert node.id node) := by
  intro id found hl
  rcases Table.lookup_insert_eq_some.mp hl with ⟨rfl, rfl⟩ | ⟨-, hl⟩
  · rfl
  · exact h id found hl

theorem OwnIds.loadSnapshot (h : OwnIds t) (nodes : List Json) : OwnIds (Cpp.loadSnapshot t nodes) := by
  induction nodes generalizing t with
  | nil => exact h
  | cons nj nodes ih =>
    rw [Cpp.loadSnapshot]
    cases NodeInfo.fromJson nj with
    | none => exact h
    | some n => exact ih (h.insert n)

theorem OwnIds.applyNodeEvent (h : OwnIds t) (node : NodeInfo) : OwnIds (Cpp.applyNodeEvent t node) := by
  rw [Cpp.applyNodeEvent]
  cases node.status with
  | ok => exact h.insert node
  | erased => exact fun id found hl => h id found (Table.lookup_erase_eq_some.mp hl).2
  | grace =>
    dsimp only
    cases hl : t.lookup node.id with
    | none => exact h
    | some existing =>
      have hid := h node.id existing hl
      dsimp only
      rw [← hid]
      exact h.insert { existing with status := .grace }

theorem ownIds_messages (messages : List Json) {c : Client NodeInfo NodeInfo} (h : OwnIds c.localNodes) :
    OwnIds (messages.foldl (handleMessage Cpp.library) c).localNodes := by
  refine List.foldlRecOn (motive := fun c : Client NodeInfo NodeInfo => OwnIds c.localNodes) messages _ h ?_
  intro c hc payload _
  rw [handleMessage]
  cases Cpp.library.decode payload with
  | none => exact hc
  | some node =>
    dsimp only
    split
    · exact hc.applyNodeEvent node
    · exact hc

theorem ownIds_bootstrap (queued nodes live : List Json) :
    OwnIds (bootstrap Cpp.library queued nodes live).localNodes := by
  apply ownIds_messages
  refine List.foldlRecOn _ _ (OwnIds.loadSnapshot (ownIds_messages queued ?_) nodes) fun t ht node _ =>
    ht.applyNodeEvent node
  exact fun id node hl => by simp at hl

end

/-! A replica that shows the registry has the registry's eligible nodes. -/

section
variable {order order' : MapOrder} {c : Resolver} {r : Registry}

theorem perm_of_eachOnce (order : MapOrder) (hid : Stored (fun k node => node.id = k) r) {F : Filter}
    {window : List (Option NodeInfo)} (h : EachOnce r F window) : window.Perm ((eligible order r F).map some) := by
  refine (List.perm_ext_iff_of_nodup h.1 ((eligible_nodup hid).map (Option.some_injective _))).mpr fun a => ?_
  rw [h.2, List.mem_map]
  constructor
  · rintro ⟨node, rfl, hnode⟩
    exact ⟨node, mem_eligible.mpr hnode, rfl⟩
  · rintro ⟨node, hnode, rfl⟩
    exact ⟨node, rfl, mem_eligible.mp hnode⟩

/-- The records of the table in the order of the map. -/
def records (order : MapOrder) (r : Registry) : List NodeInfo := (r.nodes.iterate order).map Prod.snd

/-- What the library reads of each node. -/
def shownRead (r : Registry) : Bytes → Option View := fun id => (shown r id).map asRead

theorem faces_records (hid : Stored (fun k node => node.id = k) r) :
    (records order r).map face = (r.nodes.iterate order).map fun e => (e.1, asRead (view e.2)) := by
  rw [records, List.map_map]
  exact List.map_congr_left fun e he => Prod.ext (hid e.1 e.2 (Table.mem_iterate.mp he)) rfl

theorem records_nodup (hid : Stored (fun k node => node.id = k) r) : ((records order r).map face).Nodup := by
  apply List.Nodup.of_map Prod.fst
  rw [faces_records hid, List.map_map]
  exact Table.iterate_keys_nodup order r.nodes

theorem mem_records (hid : Stored (fun k node => node.id = k) r) {id : Bytes} {v : View} :
    (id, v) ∈ (records order r).map face ↔ shownRead r id = some v := by
  rw [faces_records hid, List.mem_map, shownRead, shown, Option.map_map, Option.map_eq_some_iff]
  constructor
  · rintro ⟨⟨k, node⟩, hmem, hface⟩
    obtain ⟨rfl, rfl⟩ := Prod.mk.inj hface
    exact ⟨node, Table.mem_iterate.mp hmem, rfl⟩
  · rintro ⟨node, hl, rfl⟩
    exact ⟨(id, node), Table.mem_iterate.mpr hl, rfl⟩

/-- Whether a node is eligible can be read off its face. -/
theorem faces_eligible (F : Filter) : (eligible order r F).map face =
    ((records order r).map face).filter fun e => decide (e.2.status = .ok) && decide (e.2.role = F.role) &&
      (decide (F.worker = []) || e.2.workers.any (· = F.worker)) := by
  rw [List.filter_map]
  rfl

theorem faces_nodup (hid : Stored (fun k node => node.id = k) r) (F : Filter) :
    ((eligible order r F).map face).Nodup := by
  rw [faces_eligible]
  exact (records_nodup hid).filter _

/-- Two tables that show the same, in orders of their own. -/
theorem records_perm {r' : Registry} (hid : Stored (fun k node => node.id = k) r)
    (hid' : Stored (fun k node => node.id = k) r') (h : shownRead r' = shownRead r) :
    ((records order r').map face).Perm ((records order' r).map face) := by
  refine (List.perm_ext_iff_of_nodup (records_nodup hid') (records_nodup hid)).mpr fun e => ?_
  rw [mem_records hid', mem_records hid, h]

theorem faces_perm {r' : Registry} (hid : Stored (fun k node => node.id = k) r)
    (hid' : Stored (fun k node => node.id = k) r') (h : shownRead r' = shownRead r) (F : Filter) :
    ((eligible order r' F).map face).Perm ((eligible order' r F).map face) := by
  rw [faces_eligible, faces_eligible]
  exact (records_perm hid hid' h).filter _

/-- A client that shows the registry goes round the registry's nodes exactly where there is one at most, or the
filter shares its entry with no other filter that has nodes. -/
theorem spreads_iff_of_shown (hid : Stored (fun k node => node.id = k) r)
    (hid' : Stored (fun k node => node.id = k) (asRegistry c)) (h : shownRead (asRegistry c) = shownRead r)
    (F : Filter) :
    Spreads order c F (eligible order' r F) ↔
      (eligible order' r F).length ≤ 1 ∨ ∀ G, G ≠ F → eligible order' r G ≠ [] → G.key ≠ F.key := by
  have hperm (G : Filter) : ((eligible order (asRegistry c) G).map face).Perm ((eligible order' r G).map face) :=
    faces_perm hid hid' h G
  have hlength (G : Filter) : (eligible order (asRegistry c) G).length = (eligible order' r G).length := by
    rw [← List.length_map face, (hperm G).length_eq, List.length_map]
  have hempty (G : Filter) : eligible order (asRegistry c) G = [] ↔ eligible order' r G = [] := by
    rw [← List.length_eq_zero_iff, hlength, List.length_eq_zero_iff]
  constructor
  · intro hspreads
    rw [or_iff_not_imp_left]
    intro hmany G hne hG hkey
    obtain ⟨calls, hcalls⟩ :=
      exists_answers_replicate hne hkey (mt (hempty G).mp hG) (eligible order' r F).length
    have hwindow := hspreads calls 0
    dsimp only at hwindow
    rw [List.drop_zero, answers_eq, hcalls, List.take_of_length_le (List.length_replicate ▸ Nat.le_refl _)] at hwindow
    have hnodup : ((eligible order' r F).map fun node => some (face node)).Nodup := by
      have hfaces : (((eligible order' r F).map face).map some).Nodup :=
        (faces_nodup hid F).map (Option.some_injective _)
      rwa [List.map_map] at hfaces
    have honce := (hwindow List.length_replicate).nodup_iff.mpr hnodup
    rw [List.map_replicate] at honce
    exact hmany (List.nodup_replicate.mp honce)
  · intro hfree calls i
    have hfair : Fair order (asRegistry c) F := by
      refine (fair_iff_of_stored hid').mpr (hfree.imp (hlength F).trans_le fun hother G hne hG => ?_)
      exact hother G hne (mt (hempty G).mpr hG)
    dsimp only
    rw [answers_eq, ← hlength]
    intro hlen
    have hwindow := (perm_of_eachOnce order hid' (hfair calls i hlen)).map (Option.map face)
    have hfaces := (hperm F).map some
    rw [List.map_map] at hwindow
    rw [List.map_map, List.map_map] at hfaces
    exact hwindow.trans hfaces

end

/-- A snapshot and the events of a steady run show the registry at its end. -/
theorem shown_started {cfg : RegistryConfig} {start : Registry} (hstart : start.Sound cfg) {before later : List Op}
    (now : Int) (order : MapOrder) {queued live : List Step} (loaded : List Filter)
    (hs : SteadyFrom cfg start (before ++ later))
    (he : (history cfg start (before ++ later)).2 = eventsIn queued ++ eventsIn live) :
    shownRead (asRegistry (started order queued (snapshot cfg.order now (history cfg start before).1) loaded live)) =
      shownRead (history cfg start (before ++ later)).1 := by
  funext id
  have h := congrArg (Option.map asRead) (bootstrap_shown cpp_follows hstart now hs he id)
  rw [← client_started order queued _ loaded live] at h
  refine h.trans ?_
  -- what has been read once is read again as it is
  rw [shownRead, Option.map_map]
  refine congrArg (Option.map · _) (funext fun v => asRead_object ?_)
  rw [asRead]
  exact NodeInfo.isObject_asObject v.extra

/-- **A client that has loaded a snapshot taken anywhere in a steady run, and has then received every event of it,
lists each node of the registry once, answers a call with a node the registry holds as eligible, and with none only
if there is none; and its calls go round the registry's eligible nodes exactly where there is one at most, or the
filter's key is that of no other filter that has nodes. Calls made before and in between change nothing of this.** -/
theorem local_resolve_spreads_iff (cfg : RegistryConfig) (order : MapOrder) (pre before later : List Op) (now : Int)
    (queued live : List Step) (loaded : List Filter) (F : Filter)
    (hs : SteadyFrom cfg (history cfg .empty pre).1 (before ++ later))
    (he : (history cfg (history cfg .empty pre).1 (before ++ later)).2 = eventsIn queued ++ eventsIn live) :
    let start := (history cfg .empty pre).1
    let nodes := snapshot cfg.order now (history cfg start before).1
    let final := (history cfg start (before ++ later)).1
    let c := started order queued nodes loaded live
    ((getLocalRegistry order c).map face).Perm ((records cfg.order final).map face) ∧
      ((resolveNode order F.role F.worker c).1 = none ↔ eligible cfg.order final F = []) ∧
      (∀ node, (resolveNode order F.role F.worker c).1 = some node →
        ∃ held ∈ eligible cfg.order final F, face held = face node) ∧
      (Spreads order c F (eligible cfg.order final F) ↔
        (eligible cfg.order final F).length ≤ 1 ∨
          ∀ G, G ≠ F → eligible cfg.order final G ≠ [] → G.key ≠ F.key) := by
  intro start nodes final c
  have hstart : start.Sound cfg := sound_history (Registry.sound_empty cfg) pre
  have hid : Stored (fun k node => node.id = k) final := fun k node h => (sound_history hstart _ k node h).id
  have hown : Stored (fun k node => node.id = k) (asRegistry c) := by
    intro k node h
    rw [asRegistry, client_started] at h
    exact ownIds_bootstrap _ _ _ k node h
  have hshown : shownRead (asRegistry c) = shownRead final := shown_started hstart now order loaded hs he
  have hperm : ((eligible order (asRegistry c) F).map face).Perm ((eligible cfg.order final F).map face) :=
    faces_perm hid hown hshown F
  have hanswer : (resolveNode order F.role F.worker c).1 = (eligible order (asRegistry c) F)[cursor (asRegistry c) F %
      (eligible order (asRegistry c) F).length]? := by
    rw [← resolveNode_answer, resolveNode_eq]
  refine ⟨records_perm hid hown hshown, ?_, fun node hnode => ?_, spreads_iff_of_shown hid hown hshown F⟩
  · have hlength : (eligible cfg.order final F).length = (eligible order (asRegistry c) F).length := by
      rw [← List.length_map face, ← hperm.length_eq, List.length_map]
    rw [hanswer, List.getElem?_eq_none_iff, ← List.length_eq_zero_iff, hlength]
    refine ⟨fun hle => ?_, fun hzero => hzero ▸ Nat.zero_le _⟩
    by_contra hne
    exact absurd (Nat.mod_lt _ (Nat.pos_of_ne_zero hne)) (Nat.not_lt.mpr hle)
  · rw [hanswer] at hnode
    exact List.mem_map.mp (hperm.mem_iff.mp (List.mem_map_of_mem (List.mem_of_getElem? hnode)))

/-- Two workers register, a call is made too early, and one of them loses its connection between two calls. -/
theorem calls_between_events :
    let first := Op.registerOrUpdateNode 100 (ascii "job") [] none (ascii "10.0.0.7") [] (.obj [])
    let second := Op.registerOrUpdateNode 110 (ascii "job") [] none (ascii "10.0.0.8") [] (.obj [])
    let loss := Op.markNodeGrace 130 (ascii "node-100-1")
    let any : Filter := ⟨ascii "job", []⟩
    let run := history (.ofDocuments []) .empty [first, second, loss]
    let nodes := snapshot .written 120 (history (.ofDocuments []) .empty [first, second]).1
    let c := started .written (.resolve any :: (run.2.take 1).map Step.event) nodes [any]
      (.resolve any :: (run.2.drop 1).map Step.event)
    ((getLocalRegistry .written c).map face).Perm ((records .written run.1).map face) ∧
      ((resolveNode .written any.role any.worker c).1 = none ↔ eligible .written run.1 any = []) ∧
      (∀ node, (resolveNode .written any.role any.worker c).1 = some node →
        ∃ held ∈ eligible .written run.1 any, face held = face node) ∧
      (Spreads .written c any (eligible .written run.1 any) ↔ (eligible .written run.1 any).length ≤ 1 ∨
        ∀ G, G ≠ any → eligible .written run.1 G ≠ [] → G.key ≠ any.key) :=
  have hnone : ∀ f ∈ (Json.obj []).members, f.1 ∈ ([] : List Bytes) → f.2.utf8 = true := nofun
  local_resolve_spreads_iff (.ofDocuments []) .written []
    [.registerOrUpdateNode 100 (ascii "job") [] none (ascii "10.0.0.7") [] (.obj []),
      .registerOrUpdateNode 110 (ascii "job") [] none (ascii "10.0.0.8") [] (.obj [])]
    [.markNodeGrace 130 (ascii "node-100-1")] 120 _ _ _ _
    ⟨⟨.inl rfl, hnone⟩, ⟨.inl rfl, hnone⟩, trivial, trivial⟩
    (List.take_append_drop 1 _ |>.symm.trans (congrArg₂ (· ++ ·) (eventsIn_event _).symm (eventsIn_event _).symm))

end LightApr.Sdk.LocalResolve
