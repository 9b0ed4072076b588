import LightApr.Lib.Machine
import LightApr.Sdk.Bootstrap

/-! The TypeScript and Node.js client over any number of connections. Its connect handler
runs again on every reconnect; the local map, the queue and the flag stay as they are. -/
namespace LightApr.Sdk.Reconnect
open LightApr.Core LightApr.Http Lib Replay Replica Bootstrap Rounding

/-- How far a connect handler has come. The position of the answer in the log is history. -/
inductive Stage where
  | fetching
  | answered (servedAt : Nat) (nodes : List NodeInfo)
  /-- `fetchSnapshot` has returned, with the answer stored or without -/
  | fetched
  | finished

structure System where
  registry : Registry
  /-- history: every event that was announced, on a connection or not -/
  log : List NodeInfo
  connected : Bool
  /-- the position of the event that arrives next -/
  next : Nat
  client : Client Json Json
  /-- the connect handlers, one for each connection -/
  handlers : List Stage

namespace System

def init : System := ⟨.empty, [], false, 0, ⟨∅, [], false⟩, []⟩

inductive Event where
  /-- the registry changes -/
  | operation (op : Op)
  | connect
  | disconnect
  /-- the next event of the connection arrives -/
  | deliver
  /-- the request of handler `k` is answered, fails, or its answer is stored -/
  | serve (k : Nat) (env : Readings)
  | fail (k : Nat)
  | load (k : Nat)
  /-- handler `k` goes on behind `await fetchSnapshot()` -/
  | reconcile (k : Nat)

/-- A record that cannot be printed is not announced. -/
def announcements (out : Outcome) : List NodeInfo := (eventsOf out).filter fun node => node.toJson.utf8

/-- The answer to a request; without one there is nothing to store. -/
def answerTo (cfg : HttpConfig) (env : Readings) (w : System) : Stage :=
  match answer cfg env [] w.registry with
  | none => .fetched
  | some _ => .answered w.log.length (page cfg env w.registry)

def step (cfg : HttpConfig) (reader : NumberReader) (w : System) : Event → Option System
  | .operation op =>
    let (registry, out) := op.run cfg.registry w.registry
    some { w with registry, log := w.log ++ announcements out }
  | .connect =>
    if w.connected then none
    else some { w with connected := true, next := w.log.length, handlers := w.handlers ++ [.fetching] }
  | .disconnect => if w.connected then some { w with connected := false } else none
  | .deliver =>
    if w.connected then
      (w.log[w.next]?).map fun node =>
        { w with next := w.next + 1, client := handleMessage (Js.library reader.round) w.client node.toJson }
    else none
  | .serve k env =>
    match w.handlers[k]? with
    | some .fetching => some { w with handlers := w.handlers.set k (answerTo cfg env w) }
    | _ => none
  | .fail k =>
    match w.handlers[k]? with
    | some .fetching | some (.answered ..) => some { w with handlers := w.handlers.set k .fetched }
    | _ => none
  | .load k =>
    match w.handlers[k]? with
    | some (.answered _ nodes) => some { w with
        handlers := w.handlers.set k .fetched
        client := Replica.fetchSnapshot (Js.library reader.round) w.client (nodes.map NodeInfo.toJson) }
    | _ => none
  | .reconcile k =>
    match w.handlers[k]? with
    | some .fetched => some { w with
        handlers := w.handlers.set k .finished
        client := reconcileQueue (Js.library reader.round) w.client }
    | _ => none

def machine (cfg : HttpConfig) (reader : NumberReader) : Machine System Event := ⟨step cfg reader⟩

/-! What is compared, and when. -/

/-- Role, workers, endpoint and status of a node kept as JSON. -/
def row (node : Json) : List (Option Json) :=
  [ascii "role", ascii "workers", ascii "endpoint", ascii "status"].map node.field?

def Agrees (w : System) : Prop :=
  ∀ id, (w.client.localNodes.lookup id).map row = (w.registry.nodes.lookup id).map fun node => row node.toJson

/-- The handler of the present connection has finished, and every event has arrived. -/
structure Settled (w : System) : Prop where
  connected : w.connected = true
  finished : w.handlers.getLast? = some .finished
  delivered : w.next = w.log.length

/-! The condition. -/

/-- A view without the extra. -/
def plain (v : View) : View := { v with extra := .null }

def plainChange (node : NodeInfo) : Bytes × Change View := (node.id, (change node).2.map plain)

/-- What events make of a map of nodes. -/
def replayed (events : List NodeInfo) (m : Bytes → Option View) : Bytes → Option View :=
  replay graced (events.map plainChange) m

/-- Events before this position have been applied to the local map. -/
def applied (w : System) : Nat := w.next - w.client.syncQueue.length

/-- The events that were applied since the answer was made leave its nodes as it lists them. -/
def Current (w : System) (servedAt : Nat) (nodes : List NodeInfo) : Prop :=
  ∀ node ∈ nodes, replayed ((w.log.take w.applied).drop servedAt) (fun _ => some (plain (view node))) node.id =
    some (plain (view node))

/-- The operation is announced: it ends with an event that can be printed, or it changes no node. -/
def Announces (cfg : RegistryConfig) (r : Registry) (op : Op) : Prop :=
  (∃ node, (op.run cfg r).2 = .event node ∧ node.toJson.utf8 = true) ∨ (op.run cfg r).1.nodes = r.nodes

/-- The condition on a step. -/
def Safe (cfg : HttpConfig) (w : System) : Event → Prop
  | .operation op => Announces cfg.registry w.registry op
  | .connect => w.client.syncQueue = [] ∧ ∀ id ∈ w.client.localNodes, id ∈ w.registry.nodes
  | .serve _ env => w.registry.nodes.entries.length ≤ 1000 ∧ (answer cfg env [] w.registry).isSome = true
  | .fail _ => False
  | .load k =>
    ∀ servedAt nodes, w.connected = true → w.handlers[k]? = some (.answered servedAt nodes) → w.Current servedAt nodes
  | .disconnect | .deliver | .reconcile _ => True

/-! The registry is what its announcements make of the empty map. -/

/-- The nodes after these events, from the start. -/
def truth (log : List NodeInfo) : Bytes → Option View := replayed log fun _ => none

theorem replayed_append (es es' : List NodeInfo) (m : Bytes → Option View) :
    replayed (es ++ es') m = replayed es' (replayed es m) := by
  rw [replayed, List.map_append, replay_append]
  rfl

theorem truth_append (log es : List NodeInfo) : truth (log ++ es) = replayed es (truth log) :=
  replayed_append log es _

/-- Without the extra an event does to a map what it does with it. -/
theorem plain_replay (events : List NodeInfo) (m : Bytes → Option View) (id : Bytes) :
    (replay graced (events.map change) m id).map plain = replayed events (fun id => (m id).map plain) id := by
  have hplain : ∀ v, plain (graced v) = graced (plain v) := fun _ => rfl
  rw [replay_map hplain, List.map_map]
  rfl

/-- What is announced of an operation is what it does, but for the extra. -/
theorem plain_event {cfg : RegistryConfig} {r r' : Registry} {op : Op} {node : NodeInfo} (hr : r.Sound cfg)
    (h : op.run cfg r = (r', .event node)) (id : Bytes) :
    (shown r' id).map plain = replayed [node] (fun id => (shown r id).map plain) id := by
  have follows (hshown : shown r' = replay graced ((eventsOf (.event node)).map change) (shown r)) :
      (shown r' id).map plain = replayed [node] (fun id => (shown r id).map plain) id := by
    rw [hshown, plain_replay]
    rfl
  cases op with
  | registerOrUpdateNode => exact follows (shown_registered hr h)
  | markNodeGrace | restoreNodeActive | removeNodePermanently =>
    refine follows (Op.shown_run hr ?_ h)
    trivial
  | updateNodeExtra now nodeId worker extra =>
    rcases Registry.updateNodeExtra_effect h with ⟨-, he | he⟩ | ⟨old, delta, hold, -, hn, -, he⟩
    · cases he
    · cases he
    · -- the event repeats what is not compared
      obtain rfl := Outcome.event.inj he
      have hold' : shown r nodeId = some (view old) := congrArg (Option.map view) hold
      have hevents (node : NodeInfo) : [node] = eventsOf (.event node) := rfl
      rw [shown_insert hn, hevents, ← plain_replay, replay_event _ (by exact (hr _ _ hold).id)]
      by_cases hk : id = nodeId
      · subst hk
        rw [Function.update_self, Function.update_self, hold', change]
        cases hs : old.status with
        | ok => rfl
        | grace => simp [view, hs, Change.apply, plain, graced]
        | erased => exact absurd hs (hr _ _ hold).status
      · rw [Function.update_of_ne hk, Function.update_of_ne hk]

theorem plain_run {cfg : RegistryConfig} {r r' : Registry} {op : Op} {out : Outcome} (hr : r.Sound cfg)
    (ha : Announces cfg r op) (h : op.run cfg r = (r', out)) (id : Bytes) :
    (shown r' id).map plain = replayed (announcements out) (fun id => (shown r id).map plain) id := by
  rw [Announces, h] at ha
  have announced {node : NodeInfo} (hout : out = .event node) (hprint : node.toJson.utf8 = true) :
      (shown r' id).map plain = replayed (announcements out) (fun id => (shown r id).map plain) id := by
    subst hout
    have hone : announcements (.event node) = [node] := List.filter_cons_of_pos hprint
    rw [hone]
    exact plain_event hr h id
  rcases ha with ⟨node, hout, hprint⟩ | hsame
  · exact announced hout hprint
  · have silent (hnone : announcements out = []) :
        (shown r' id).map plain = replayed (announcements out) (fun id => (shown r id).map plain) id := by
      have hshown : shown r' = shown r := by
        unfold shown
        rw [show r'.nodes = r.nodes from hsame]
      rw [hnone, hshown]
      rfl
    cases hout : out with
    | refused | threw => exact hout ▸ silent (by rw [hout]; rfl)
    | event node =>
      rw [← hout]
      by_cases hprint : node.toJson.utf8 = true
      · exact announced hout hprint
      · exact silent (by rw [hout]; exact List.filter_cons_of_neg hprint)

/-! What the local map comes to. -/

/-- An answer lists the nodes that there were when it was made. -/
structure Answer (log : List NodeInfo) (servedAt : Nat) (nodes : List NodeInfo) : Prop where
  past : servedAt ≤ log.length
  nodup : (nodes.map NodeInfo.id).Nodup
  listed : ∀ node ∈ nodes, truth (log.take servedAt) node.id = some (plain (view node))
  complete : ∀ id, truth (log.take servedAt) id ≠ none → id ∈ nodes.map NodeInfo.id

/-- What the stage of the present handler says about the map `outlook`, which the client
will have when all that is queued and on its way has been applied. -/
def Progress (log : List NodeInfo) (reconciled : Bool) (outlook : Bytes → Option View) : Stage → Prop
  | .fetching => True
  | .answered servedAt _ => ∀ id, truth (log.take servedAt) id = none → outlook id = truth log id
  | .fetched => ∀ id, outlook id = truth log id
  | .finished => (∀ id, outlook id = truth log id) ∧ reconciled = true

structure Follower (log : List NodeInfo) (last : Option Stage) (reconciled : Bool) (outlook : Bytes → Option View) :
    Prop where
  /-- a node that stays is a node of the registry -/
  backed : ∀ id, outlook id ≠ none → truth log id ≠ none
  progress : ∀ stage ∈ last, Progress log reconciled outlook stage

theorem Answer.append {log nodes : List NodeInfo} {servedAt : Nat} (h : Answer log servedAt nodes)
    (es : List NodeInfo) : Answer (log ++ es) servedAt nodes := by
  have htake : (log ++ es).take servedAt = log.take servedAt := List.take_append_of_le_length h.past
  refine ⟨?_, h.nodup, ?_, ?_⟩
  · rw [List.length_append]
    exact Nat.le_add_right_of_le h.past
  · rw [htake]
    exact h.listed
  · rw [htake]
    exact h.complete

section
variable {log nodes : List NodeInfo} {last : Option Stage} {reconciled : Bool}
  {outlook outlook' : Bytes → Option View}
  {servedAt : Nat}

/-- The registry changes, and announces it. -/
theorem Follower.announce (h : Follower log last reconciled outlook)
    (hlast : ∀ servedAt nodes, .answered servedAt nodes ∈ last → servedAt ≤ log.length) (es : List NodeInfo) :
    Follower (log ++ es) last reconciled (replayed es outlook) := by
  have hcaught {id : Bytes} (hid : outlook id = truth log id) : replayed es outlook id = truth (log ++ es) id := by
    rw [truth_append]
    exact replay_congr _ hid
  refine ⟨fun id hid => ?_, fun stage hstage => ?_⟩
  · rw [truth_append]
    exact replay_ne_none graced_idem _ (h.backed id) hid
  · have hprogress := h.progress stage hstage
    cases stage with
    | fetching => trivial
    | answered servedAt nodes =>
      intro id hid
      rw [List.take_append_of_le_length (hlast _ _ hstage)] at hid
      exact hcaught (hprogress id hid)
    | fetched => exact fun id => hcaught (hprogress id)
    | finished => exact ⟨fun id => hcaught (hprogress.1 id), hprogress.2⟩

/-- Where the outlook changes it becomes right. -/
theorem Follower.improve (h : Follower log last reconciled outlook)
    (himprove : ∀ id, outlook' id = truth log id ∨ outlook' id = outlook id) :
    Follower log last reconciled outlook' := by
  have hcaught {id : Bytes} (hid : outlook id = truth log id) : outlook' id = truth log id := by
    rcases himprove id with hnew | hsame
    · exact hnew
    · exact hsame.trans hid
  refine ⟨fun id hid => ?_, fun stage hstage => ?_⟩
  · rcases himprove id with hnew | hsame
    · rwa [hnew] at hid
    · exact h.backed id (hsame ▸ hid)
  · have hprogress := h.progress stage hstage
    cases stage with
    | fetching => trivial
    | answered servedAt nodes => exact fun id hid => hcaught (hprogress id hid)
    | fetched => exact fun id => hcaught (hprogress id)
    | finished => exact ⟨fun id => hcaught (hprogress.1 id), hprogress.2⟩

/-- A loop over the answer, followed by what was pending. -/
theorem outlook_loaded (ha : Answer log servedAt nodes) {a : Nat} {m : Bytes → Option View}
    (hcurrent : ∀ node ∈ nodes, replayed ((log.take a).drop servedAt) (fun _ => some (plain (view node))) node.id =
      some (plain (view node))) (id : Bytes) :
    let before := replayed (log.drop a) fun id => (m id).map plain
    let after := replayed (log.drop a) fun id => (replay graced (puts nodes) m id).map plain
    (id ∈ nodes.map NodeInfo.id → after id = truth log id) ∧
      (id ∉ nodes.map NodeInfo.id → after id = before id) := by
  obtain ⟨hput, hother⟩ := replay_puts ha.nodup m id
  constructor
  · intro hid
    obtain ⟨node, hnode, rfl⟩ := List.mem_map.mp hid
    have hstored : (replay graced (puts nodes) m node.id).map plain = truth (log.take servedAt) node.id := by
      rw [hput node hnode rfl, ha.listed node hnode]
      rfl
    have hkept : replayed ((log.take a).drop servedAt) (truth (log.take servedAt)) node.id =
        truth (log.take servedAt) node.id := by
      have hsame : replayed ((log.take a).drop servedAt) (truth (log.take servedAt)) node.id =
          replayed ((log.take a).drop servedAt) (fun _ => some (plain (view node))) node.id :=
        replay_congr _ (ha.listed node hnode)
      rw [hsame, hcurrent node hnode, ha.listed node hnode]
    refine (replay_congr (n := truth (log.take servedAt)) _ hstored).trans ?_
    simp only [truth, replayed, List.map_take, List.map_drop] at hkept ⊢
    exact replay_resume graced_idem _ _ hkept
  · intro hid
    exact replay_congr _ (congrArg (Option.map plain) (hother hid))

end

/-! The client. -/

variable {reader : NumberReader}

/-- The record of an event as the client reads it. -/
def read (reader : NumberReader) (node : NodeInfo) : Json := rounded reader.round node.toJson

/-- The local map shows `m`, and the events `q` are queued. -/
structure Keeps (reader : NumberReader) (c : Client Json Json) (q : List NodeInfo) (m : Bytes → Option View) :
    Prop where
  queue : c.syncQueue = q.map (read reader)
  live : c.reconciled = true → q = []
  holds : Holds jsonView (jsonRead reader.round) c.localNodes m

theorem holds_event {t : Table Json} {m : Bytes → Option View} (node : NodeInfo)
    (h : Holds jsonView (jsonRead reader.round) t m) :
    Holds jsonView (jsonRead reader.round) (Js.applyNodeEvent t (read reader node))
      (applyAt graced m (change node)) := by
  obtain ⟨e, he, happly⟩ := (js_follows reader.round).event node
  obtain rfl : read reader node = e := Option.some.inj he
  exact happly t m h

theorem holds_drain (q : List NodeInfo) {t : Table Json} {m : Bytes → Option View}
    (h : Holds jsonView (jsonRead reader.round) t m) :
    Holds jsonView (jsonRead reader.round) ((q.map (read reader)).foldl Js.applyNodeEvent t)
      (replay graced (q.map change) m) := by
  induction q generalizing t m with
  | nil => exact h
  | cons node q ih =>
    apply ih
    exact holds_event node h

section
variable {c : Client Json Json} {q : List NodeInfo} {m : Bytes → Option View}

/-- An event is applied, or it waits behind the others. -/
theorem Keeps.handle (h : Keeps reader c q m) (node : NodeInfo) :
    ∃ q' m', Keeps reader (handleMessage (Js.library reader.round) c node.toJson) q' m' ∧
      (handleMessage (Js.library reader.round) c node.toJson).reconciled = c.reconciled ∧
      ((q' = q ++ [node] ∧ m' = m) ∨ (q = [] ∧ q' = [] ∧ m' = applyAt graced m (change node))) := by
  cases hrec : c.reconciled with
  | false =>
    have hstep : handleMessage (Js.library reader.round) c node.toJson =
        { c with syncQueue := c.syncQueue ++ [read reader node] } := by
      simp [handleMessage, Js.library, hrec, read]
    rw [hstep]
    refine ⟨q ++ [node], m, ⟨?_, ?_, h.holds⟩, hrec, .inl ⟨rfl, rfl⟩⟩
    · rw [h.queue, List.map_append]
      rfl
    · intro hlive
      cases hrec.symm.trans hlive
  | true =>
    have hstep : handleMessage (Js.library reader.round) c node.toJson =
        { c with localNodes := Js.applyNodeEvent c.localNodes (read reader node) } := by
      simp [handleMessage, Js.library, hrec, read]
    have hq : q = [] := h.live hrec
    subst hq
    rw [hstep]
    refine ⟨[], applyAt graced m (change node), ⟨h.queue, fun _ => rfl, ?_⟩, hrec, .inr ⟨rfl, rfl, rfl⟩⟩
    dsimp only
    exact holds_event node h.holds

theorem Keeps.load (h : Keeps reader c q m) (nodes : List NodeInfo) :
    Keeps reader (Replica.fetchSnapshot (Js.library reader.round) c (nodes.map NodeInfo.toJson)) q
      (replay graced (puts nodes) m) :=
  ⟨h.queue, h.live, (js_follows reader.round).load nodes _ _ h.holds⟩

theorem Keeps.reconcile (h : Keeps reader c q m) :
    Keeps reader (reconcileQueue (Js.library reader.round) c) [] (replay graced (q.map change) m) := by
  refine ⟨rfl, fun _ => rfl, ?_⟩
  have hdrained : (reconcileQueue (Js.library reader.round) c).localNodes =
      (q.map (read reader)).foldl Js.applyNodeEvent c.localNodes := by
    rw [← h.queue]
    rfl
  rw [hdrained]
  exact holds_drain q h.holds

end

/-! The invariant. -/

/-- What the local map comes to. -/
def outlook (w : System) (q : List NodeInfo) (m : Bytes → Option View) : Bytes → Option View :=
  replayed (q ++ w.log.drop w.next) fun id => (m id).map plain

structure Consistent (cfg : RegistryConfig) (reader : NumberReader) (w : System) : Prop where
  sound : w.registry.Sound cfg
  registry : ∀ id, (shown w.registry id).map plain = truth w.log id
  next : w.next ≤ w.log.length
  answers : ∀ (k servedAt : Nat) (nodes : List NodeInfo),
    w.handlers[k]? = some (.answered servedAt nodes) → Answer w.log servedAt nodes
  client : ∃ q m, Keeps reader w.client q m ∧ (w.connected = true →
    q = (w.log.take w.next).drop w.applied ∧
      Follower w.log w.handlers.getLast? w.client.reconciled (w.outlook q m))

theorem consistent_init (cfg : RegistryConfig) : Consistent cfg reader init where
  sound := Registry.sound_empty cfg
  registry _ := rfl
  next := Nat.le_refl 0
  answers := nofun
  client := ⟨[], fun _ => none, ⟨rfl, nofun, fun _ => rfl⟩, nofun⟩

section
variable {cfg : HttpConfig} {w w' : System}

theorem answered_le (h : Consistent cfg.registry reader w) {servedAt : Nat} {nodes : List NodeInfo}
    (hlast : Stage.answered servedAt nodes ∈ w.handlers.getLast?) : servedAt ≤ w.log.length := by
  rw [List.getLast?_eq_getElem?] at hlast
  exact (h.answers _ servedAt nodes hlast).past

theorem Consistent.operation {op : Op} (h : Consistent cfg.registry reader w)
    (ha : Announces cfg.registry w.registry op)
    (hstep : w.step cfg reader (.operation op) = some w') : Consistent cfg.registry reader w' := by
  obtain ⟨⟨r', out⟩, hrun⟩ : ∃ x, op.run cfg.registry w.registry = x := ⟨_, rfl⟩
  obtain ⟨q, m, hkeeps, hfollower⟩ := h.client
  simp only [step, hrun] at hstep
  obtain rfl := Option.some.inj hstep
  refine ⟨Op.sound h.sound hrun, fun id => ?_, ?_, ?_, q, m, hkeeps, fun hconn => ?_⟩
  · rw [plain_run h.sound ha hrun, truth_append]
    exact replay_congr _ (h.registry id)
  · exact Nat.le_trans h.next (by simp)
  · intro k servedAt nodes hk
    exact (h.answers k servedAt nodes hk).append _
  · obtain ⟨hq, hf⟩ := hfollower hconn
    refine ⟨?_, ?_⟩
    · rw [List.take_append_of_le_length h.next]
      exact hq
    · have hpending : outlook { w with registry := r', log := w.log ++ announcements out } q m =
          replayed (announcements out) (w.outlook q m) := by
        rw [outlook, List.drop_append_of_le_length h.next, ← List.append_assoc, replayed_append]
        rfl
      rw [hpending]
      exact hf.announce (fun servedAt nodes hlast => answered_le h hlast) _

theorem Consistent.connect (h : Consistent cfg.registry reader w) (hsafe : Safe cfg w .connect)
    (hstep : w.step cfg reader .connect = some w') :
    Consistent cfg.registry reader w' := by
  simp only [step] at hstep
  split at hstep
  · cases hstep
  · obtain rfl := Option.some.inj hstep
    obtain ⟨hempty, hstored⟩ := hsafe
    obtain ⟨q, m, hkeeps, -⟩ := h.client
    have hq : q = [] := List.map_eq_nil_iff.mp (hkeeps.queue.symm.trans hempty)
    subst hq
    refine ⟨h.sound, h.registry, Nat.le_refl _, ?_, [], m, hkeeps, fun _ => ⟨?_, ?_, ?_⟩⟩
    · intro k servedAt nodes hk
      rcases getElem?_snoc hk with hk | ⟨-, hk⟩
      · exact h.answers k servedAt nodes hk
      · cases hk
    · have happlied : applied { w with
          connected := true, next := w.log.length, handlers := w.handlers ++ [.fetching] } = w.log.length := by
        rw [applied, hempty]
        rfl
      rw [happlied, List.take_length, List.drop_length]
    · intro id hid
      -- what is shown is stored
      have houtlook : outlook { w with
          connected := true, next := w.log.length, handlers := w.handlers ++ [.fetching] } [] m id =
          (m id).map plain := by
        rw [outlook, List.drop_length]
        rfl
      rw [houtlook] at hid
      have hshown : w.client.localNodes.lookup id ≠ none := by
        intro hnone
        have hholds := hkeeps.holds id
        rw [hnone] at hholds
        rw [Option.map_eq_none_iff.mp hholds.symm] at hid
        exact hid rfl
      have hmem : id ∈ w.registry.nodes :=
        hstored id (AList.lookup_isSome.mp (Option.isSome_iff_ne_none.mpr hshown))
      rw [← h.registry id, shown]
      intro hnone
      rw [Option.map_eq_none_iff, Option.map_eq_none_iff] at hnone
      exact AList.lookup_eq_none.mp hnone hmem
    · intro stage hlast
      obtain rfl : Stage.fetching = stage := by simpa using hlast
      trivial

theorem Consistent.disconnect (h : Consistent cfg.registry reader w)
    (hstep : w.step cfg reader .disconnect = some w') : Consistent cfg.registry reader w' := by
  simp only [step] at hstep
  split at hstep
  · obtain rfl := Option.some.inj hstep
    obtain ⟨q, m, hkeeps, -⟩ := h.client
    exact ⟨h.sound, h.registry, h.next, h.answers, q, m, hkeeps, nofun⟩
  · cases hstep

theorem applied_le (w : System) (h : w.next ≤ w.log.length) : w.applied ≤ (w.log.take w.next).length := by
  rw [List.length_take_of_le h]
  exact Nat.sub_le _ _

/-- Queued or on their way, the events after the applied ones are pending. -/
theorem pending_eq (w : System) {q : List NodeInfo} (h : w.next ≤ w.log.length)
    (hq : q = (w.log.take w.next).drop w.applied) : q ++ w.log.drop w.next = w.log.drop w.applied := by
  conv_rhs => rw [← List.take_append_drop w.next w.log, List.drop_append_of_le_length (applied_le w h)]
  rw [hq]

theorem Consistent.deliver (h : Consistent cfg.registry reader w) (hstep : w.step cfg reader .deliver = some w') :
    Consistent cfg.registry reader w' := by
  simp only [step] at hstep
  split at hstep
  · rename_i hconn
    obtain ⟨node, hnode, rfl⟩ := Option.map_eq_some_iff.mp hstep
    obtain ⟨hlt, hget⟩ := List.getElem?_eq_some_iff.mp hnode
    obtain ⟨q, m, hkeeps, hfollower⟩ := h.client
    obtain ⟨hq, hf⟩ := hfollower hconn
    obtain ⟨q', m', hkeeps', hrec, hcase⟩ := hkeeps.handle node
    have hdrop : w.log.drop w.next = node :: w.log.drop (w.next + 1) := by
      rw [List.drop_eq_getElem_cons hlt, hget]
    refine ⟨h.sound, h.registry, hlt, h.answers, q', m', hkeeps', fun _ => ⟨?_, ?_⟩⟩
    · rw [applied, hkeeps'.queue, List.length_map]
      rcases hcase with ⟨rfl, -⟩ | ⟨-, rfl, -⟩
      · have happlied : w.next + 1 - (q ++ [node]).length = w.applied := by
          rw [applied, hkeeps.queue, List.length_map, List.length_append, List.length_singleton]
          omega
        dsimp only
        rw [happlied, List.take_add_one, hnode, Option.toList_some,
          List.drop_append_of_le_length (applied_le w h.next), ← hq]
      · dsimp only
        rw [List.length_nil, Nat.sub_zero, List.drop_eq_nil_of_le (List.length_take_le _ _)]
    · have hsame : outlook { w with
          next := w.next + 1
          client := handleMessage (Js.library reader.round) w.client node.toJson } q' m' = w.outlook q m := by
        rw [outlook, outlook, hdrop]
        rcases hcase with ⟨rfl, rfl⟩ | ⟨rfl, rfl, rfl⟩
        · rw [List.append_assoc]
          rfl
        · have happly : (fun id => (applyAt graced m (change node) id).map plain) =
              replayed [node] fun id => (m id).map plain := funext (plain_replay [node] m)
          rw [happly]
          rfl
      rw [hsame, hrec]
      exact hf
  · cases hstep

/-- The last handler is the one that went on, or as it was. -/
theorem last_set {handlers : List Stage} {k : Nat} {stage old new : Stage} (hk : handlers[k]? = some old)
    (h : stage ∈ (handlers.set k new).getLast?) :
    (stage = new ∧ old ∈ handlers.getLast?) ∨ stage ∈ handlers.getLast? := by
  rw [List.getLast?_eq_getElem?, List.length_set, List.getElem?_set] at h
  split at h
  · rename_i hlast
    split at h
    · refine .inl ⟨(Option.some.inj h).symm, ?_⟩
      rw [List.getLast?_eq_getElem?, ← hlast]
      exact hk
    · cases h
  · rw [List.getLast?_eq_getElem?]
    exact .inr h

/-- An answer in wait has been so before another handler goes on, or that handler holds it. -/
theorem answered_set {handlers : List Stage} {k j servedAt : Nat} {nodes : List NodeInfo} {new : Stage}
    (h : (handlers.set k new)[j]? = some (.answered servedAt nodes)) :
    new = .answered servedAt nodes ∨ handlers[j]? = some (.answered servedAt nodes) := by
  obtain ⟨-, hnew, -⟩ | ⟨-, h⟩ := getElem?_set_some h
  · exact .inl hnew.symm
  · exact .inr h

theorem answer_page (h : Consistent cfg.registry reader w) (env : Readings)
    (hlen : w.registry.nodes.entries.length ≤ 1000) :
    Answer w.log w.log.length (page cfg env w.registry) := by
  have hid {id : Bytes} {node : NodeInfo} (hl : w.registry.nodes.lookup id = some node) :
      (counted env.now node).id = id := (counted_same env.now node).1.trans (h.sound _ _ hl).id
  refine ⟨Nat.le_refl _, ?_, fun n hn => ?_, fun id hnode => ?_⟩
  · rw [keys_page h.sound]
    exact (Table.iterate_keys_nodup cfg.registry.order w.registry.nodes).sublist (List.take_sublist _ _)
  · obtain ⟨id, node, hl, rfl⟩ := mem_page h.sound hn
    rw [List.take_length, ← h.registry, hid hl, shown, hl, (counted_same env.now node).2.2]
    rfl
  · rw [List.take_length, ← h.registry] at hnode
    cases hl : w.registry.nodes.lookup id with
    | none =>
      rw [shown, hl] at hnode
      exact absurd rfl hnode
    | some node => exact List.mem_map.mpr ⟨_, counted_mem_page h.sound hlen hl, hid hl⟩

theorem Consistent.serve {k : Nat} {env : Readings} (h : Consistent cfg.registry reader w)
    (hsafe : Safe cfg w (.serve k env))
    (hstep : w.step cfg reader (.serve k env) = some w') : Consistent cfg.registry reader w' := by
  simp only [step] at hstep
  split at hstep
  · rename_i hk
    obtain rfl := Option.some.inj hstep
    obtain ⟨hlen, hanswer⟩ := hsafe
    obtain ⟨res, hres⟩ := Option.isSome_iff_exists.mp hanswer
    have hnew : answerTo cfg env w = .answered w.log.length (page cfg env w.registry) := by
      rw [answerTo, hres]
    obtain ⟨q, m, hkeeps, hfollower⟩ := h.client
    rw [hnew]
    refine ⟨h.sound, h.registry, h.next, fun j servedAt nodes hj => ?_, q, m, hkeeps, fun hconn => ?_⟩
    · rcases answered_set hj with hserved | hj
      · obtain ⟨rfl, rfl⟩ := Stage.answered.inj hserved
        exact answer_page h env hlen
      · exact h.answers j servedAt nodes hj
    · obtain ⟨hq, hf⟩ := hfollower hconn
      refine ⟨hq, hf.backed, fun stage hlast => ?_⟩
      rcases last_set hk hlast with ⟨rfl, -⟩ | hold
      · intro id hnone
        rw [List.take_length] at hnone
        rw [hnone]
        exact not_not.mp fun hne => hf.backed id hne hnone
      · exact hf.progress stage hold
  · cases hstep

theorem Consistent.load {k : Nat} (h : Consistent cfg.registry reader w) (hsafe : Safe cfg w (.load k))
    (hstep : w.step cfg reader (.load k) = some w') : Consistent cfg.registry reader w' := by
  simp only [step] at hstep
  split at hstep
  · rename_i servedAt nodes hk
    obtain rfl := Option.some.inj hstep
    obtain ⟨q, m, hkeeps, hfollower⟩ := h.client
    have hanswer := h.answers k servedAt nodes hk
    refine ⟨h.sound, h.registry, h.next, fun j servedAt' nodes' hj => ?_, q, _,
      hkeeps.load nodes, fun hconn => ?_⟩
    · rcases answered_set hj with hserved | hj
      · cases hserved
      · exact h.answers j servedAt' nodes' hj
    · obtain ⟨hq, hf⟩ := hfollower hconn
      refine ⟨hq, ?_⟩
      have hloaded := outlook_loaded hanswer (m := m) (hsafe servedAt nodes hconn hk)
      have hafter (m : Bytes → Option View) :
          outlook { w with
            handlers := w.handlers.set k .fetched
            client := Replica.fetchSnapshot (Js.library reader.round) w.client (nodes.map NodeInfo.toJson) } q m =
            replayed (w.log.drop w.applied) fun id => (m id).map plain := by
        rw [← pending_eq w h.next hq]
        rfl
      have hbefore : w.outlook q m = replayed (w.log.drop w.applied) fun id => (m id).map plain := by
        rw [← pending_eq w h.next hq]
        rfl
      rw [hafter]
      rw [hbefore] at hf
      have himproved := hf.improve fun id => by
        by_cases hid : id ∈ nodes.map NodeInfo.id
        · exact .inl ((hloaded id).1 hid)
        · exact .inr ((hloaded id).2 hid)
      refine ⟨himproved.backed, fun stage hlast => ?_⟩
      rcases last_set hk hlast with ⟨rfl, hold⟩ | hold
      · intro id
        by_cases hid : id ∈ nodes.map NodeInfo.id
        · exact (hloaded id).1 hid
        · have hnone : truth (w.log.take servedAt) id = none := by_contra fun hne => hid (hanswer.complete id hne)
          exact ((hloaded id).2 hid).trans (hf.progress _ hold id hnone)
      · exact himproved.progress stage hold
  · cases hstep

theorem Consistent.reconcile {k : Nat} (h : Consistent cfg.registry reader w)
    (hstep : w.step cfg reader (.reconcile k) = some w') :
    Consistent cfg.registry reader w' := by
  simp only [step] at hstep
  split at hstep
  · rename_i hk
    obtain rfl := Option.some.inj hstep
    obtain ⟨q, m, hkeeps, hfollower⟩ := h.client
    refine ⟨h.sound, h.registry, h.next, fun j servedAt nodes hj => ?_, [], _, hkeeps.reconcile,
      fun hconn => ⟨?_, ?_⟩⟩
    · rcases answered_set hj with hserved | hj
      · cases hserved
      · exact h.answers j servedAt nodes hj
    · exact (List.drop_eq_nil_of_le (List.length_take_le _ _)).symm
    · obtain ⟨-, hf⟩ := hfollower hconn
      have hsame : outlook { w with
          handlers := w.handlers.set k .finished
          client := reconcileQueue (Js.library reader.round) w.client } []
            (replay graced (q.map change) m) = w.outlook q m := by
        have hdrained : (fun id => (replay graced (q.map change) m id).map plain) =
            replayed q fun id => (m id).map plain := funext (plain_replay q m)
        rw [outlook, outlook, hdrained, List.nil_append, replayed_append]
      rw [hsame]
      refine ⟨hf.backed, fun stage hlast => ?_⟩
      rcases last_set hk hlast with ⟨rfl, hold⟩ | hold
      · exact ⟨hf.progress _ hold, rfl⟩
      · have hprogress := hf.progress stage hold
        cases stage with
        | fetching => trivial
        | answered servedAt nodes => exact hprogress
        | fetched => exact hprogress
        | finished => exact ⟨hprogress.1, rfl⟩
  · cases hstep

theorem Consistent.step {e : Event} (h : Consistent cfg.registry reader w) (hsafe : Safe cfg w e)
    (hstep : w.step cfg reader e = some w') :
    Consistent cfg.registry reader w' := by
  cases e with
  | operation op => exact h.operation hsafe hstep
  | connect => exact h.connect hsafe hstep
  | disconnect => exact h.disconnect hstep
  | deliver => exact h.deliver hstep
  | serve k env => exact h.serve hsafe hstep
  | fail k => exact hsafe.elim
  | load k => exact h.load hsafe hstep
  | reconcile k => exact h.reconcile hstep

/-! The result. -/

/-- The row of a node is part of what the library keeps of it. -/
theorem row_eq (node : Json) : row node = (jsonView node).take 4 := rfl

/-- The row is read as it was printed. -/
theorem take_jsonRead (reader : NumberReader) {v v' : View} (h : plain v = plain v') :
    (jsonRead reader.round v).take 4 = (jsonOf v').take 4 := by
  obtain ⟨hrole, hworkers, hendpoint, hstatus, -⟩ := View.mk.inj h
  rw [jsonRead_eq]
  simp only [jsonOf, hrole, hworkers, hendpoint, hstatus, List.take_succ_cons, List.take_zero]

theorem Consistent.agrees (h : Consistent cfg.registry reader w) (hs : Settled w) : Agrees w := by
  obtain ⟨q, m, hkeeps, hfollower⟩ := h.client
  obtain ⟨-, hf⟩ := hfollower hs.connected
  obtain ⟨hcaught, hrec⟩ := hf.progress .finished hs.finished
  have hq : q = [] := hkeeps.live hrec
  intro id
  have hshown : (m id).map plain = (shown w.registry id).map plain := by
    have hpending : outlook w q m = fun id => (m id).map plain := by
      rw [outlook, hq, hs.delivered, List.drop_length]
      rfl
    rw [h.registry, ← hcaught id, hpending]
  have hholds := congrArg (Option.map (List.take 4)) (hkeeps.holds id)
  rw [Option.map_map, Option.map_map] at hholds
  refine hholds.trans ?_
  cases hl : w.registry.nodes.lookup id with
  | none =>
    rw [shown, hl, Option.map_none, Option.map_none, Option.map_eq_none_iff] at hshown
    rw [hshown]
    rfl
  | some node =>
    rw [shown, hl, Option.map_some, Option.map_some] at hshown
    obtain ⟨v, hv, hplain⟩ := Option.map_eq_some_iff.mp hshown
    rw [hv, Option.map_some, Option.map_some, row_eq, jsonView_toJson]
    exact congrArg some (take_jsonRead reader hplain)

/-- **In every run whose steps meet the condition, a client that is connected, has finished the
bootstrap of that connection and has received every event holds the ids of the registry, each
with its role, workers, endpoint and status.** -/
theorem settled_agrees (cfg : HttpConfig) (reader : NumberReader) {es : List Event}
    (hrun : (machine cfg reader).Run (Safe cfg) init es w) (hs : Settled w) : Agrees w :=
  (hrun.invariant (Consistent cfg.registry reader) (consistent_init cfg.registry) fun _ _ _ h hsafe hstep =>
    h.step hsafe hstep).agrees hs

end

/-! A worker that loses its connection while the client is away, and one that leaves. -/

/-- A test for the condition: here an event about a listed node always counts. -/
def calm (cfg : HttpConfig) (w : System) : Event → Bool
  | .operation op => (eventsOf (op.run cfg.registry w.registry).2).any fun node => node.toJson.utf8
  | .connect => w.client.syncQueue.isEmpty && w.client.localNodes.keys.all fun id => (w.registry.nodes.lookup id).isSome
  | .serve _ env => decide (w.registry.nodes.entries.length ≤ 1000) && (answer cfg env [] w.registry).isSome
  | .fail _ => false
  | .load k =>
    match w.handlers[k]? with
    | some (.answered servedAt nodes) =>
      nodes.all fun node => ((w.log.take w.applied).drop servedAt).all fun event => decide (event.id ≠ node.id)
    | _ => true
  | .disconnect | .deliver | .reconcile _ => true

theorem safe_of_calm {cfg : HttpConfig} {w : System} {e : Event} (h : calm cfg w e = true) : Safe cfg w e := by
  cases e with
  | operation op =>
    obtain ⟨node, hnode, hprint⟩ := List.any_eq_true.mp h
    refine .inl ⟨node, ?_, hprint⟩
    cases hout : (op.run cfg.registry w.registry).2 with
    | event stored =>
      rw [hout] at hnode
      rw [List.mem_singleton.mp hnode]
    | refused | threw =>
      rw [hout] at hnode
      cases hnode
  | connect =>
    obtain ⟨hempty, hstored⟩ := Bool.and_eq_true_iff.mp h
    exact ⟨List.isEmpty_iff.mp hempty, fun id hid => AList.lookup_isSome.mp (List.all_eq_true.mp hstored id hid)⟩
  | serve k env =>
    obtain ⟨hlen, hanswer⟩ := Bool.and_eq_true_iff.mp h
    exact ⟨of_decide_eq_true hlen, hanswer⟩
  | fail => cases h
  | load k =>
    intro servedAt nodes _ hk node hnode
    rw [calm, hk] at h
    have hother := List.all_eq_true.mp (List.all_eq_true.mp h node hnode)
    have hnone : (((w.log.take w.applied).drop servedAt).map plainChange).filter (fun c => c.1 = node.id) = [] := by
      apply List.filter_eq_nil_iff.mpr
      intro c hc
      obtain ⟨event, hevent, rfl⟩ := List.mem_map.mp hc
      exact fun hsame => of_decide_eq_true (hother event hevent) (of_decide_eq_true hsame)
    rw [replayed, replay_at, hnone]
    rfl
  | disconnect | deliver | reconcile => trivial

/-- A client bootstraps, is away while `op` happens, and bootstraps again. -/
private def awayDuring (op : Op) : List Event :=
  [.operation registration, .connect, .serve 0 .zero, .load 0, .reconcile 0, .disconnect, .operation op, .connect,
    .serve 1 .zero, .load 1, .reconcile 1]

private def isFinished : Option Stage → Bool
  | some .finished => true
  | _ => false

private theorem settled_of {w : System} (h : w.connected = true ∧ isFinished w.handlers.getLast? = true ∧
    w.next = w.log.length) : Settled w := by
  obtain ⟨hconn, hlast, hnext⟩ := h
  refine ⟨hconn, ?_, hnext⟩
  unfold isFinished at hlast
  split at hlast
  · assumption
  · cases hlast

theorem settled_agrees_grace :
    Agrees (((machine (.ofDocuments []) .exact).execIf (fun w e => calm (.ofDocuments []) w e = true) init
      (awayDuring (.markNodeGrace 130 (ascii "node-100-1")))).getD init) :=
  settled_agrees (.ofDocuments []) .exact
    (((machine (.ofDocuments []) .exact).run_execIf (fun w e => calm (.ofDocuments []) w e = true)
      (by decide +kernel)).mono
      fun _ _ => safe_of_calm)
    (settled_of (by decide +kernel))

/-- A node that was removed while the client was away stays in the local map. -/
theorem removed_node_stays :
    ¬ ∀ (cfg : HttpConfig) (reader : NumberReader) (es : List Event) (w : System),
      (machine cfg reader).Reaches init es w → Settled w → Agrees w := by
  intro h
  have hrun : ((machine (.ofDocuments []) .exact).exec init
      (awayDuring (.removeNodePermanently (ascii "node-100-1")))).isSome = true := by decide +kernel
  have hagrees :=
    h (.ofDocuments []) .exact _ _ ((machine (.ofDocuments []) .exact).reaches_exec hrun)
      (settled_of (by decide +kernel))
  have hsome := congrArg Option.isSome (hagrees (ascii "node-100-1"))
  rw [Option.isSome_map, Option.isSome_map] at hsome
  revert hsome
  decide +kernel

end System
end LightApr.Sdk.Reconnect
