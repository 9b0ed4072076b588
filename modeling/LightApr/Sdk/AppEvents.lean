import LightApr.Sdk.NodeReading
import LightApr.Sdk.PlainClient

/-! The application events of the C++ client library: callbacks under a topic, and the
messages that reach them. -/
namespace LightApr.Sdk.AppEvents
open LightApr.Core Lib Mqtt Server World Replica
open LightApr.Sdk.Stream (Short)
open Replies (Written)
open Wire (ExclusiveTransfers tidy_run)

/-- The topic of a role, or of one worker of it. -/
def appTopic (targetRole worker : Bytes) : Bytes :=
  if worker = [] then ascii "app/" ++ targetRole else ascii "app/" ++ targetRole ++ ascii "/" ++ worker

/-- What `handle_publish` works on; `κ` are the callbacks. -/
structure AppClient (κ : Type) where
  nodes : Client NodeInfo NodeInfo
  appCallbacks : Table (List κ)
  /-- history: the callbacks called, with payload and topic -/
  called : List (κ × Bytes × Bytes)

namespace AppClient
variable {κ : Type}

def start (nodes : Client NodeInfo NodeInfo) : AppClient κ := ⟨nodes, ∅, []⟩

def subscribeAppEvent (targetRole worker : Bytes) (cb : κ) (c : AppClient κ) : AppClient κ :=
  let topic := appTopic targetRole worker
  { c with appCallbacks := c.appCallbacks.insert topic ((c.appCallbacks.lookup topic).getD [] ++ [cb]) }

def handlePublish (parse : Bytes → Option Json) (topic payload : Bytes) (c : AppClient κ) : AppClient κ :=
  if (ascii "apr/").isPrefixOf topic then
    match parse payload with
    | none => c
    | some j => { c with nodes := handleMessage Replica.Cpp.library c.nodes j }
  else if (ascii "app/").isPrefixOf topic then
    match c.appCallbacks.lookup topic with
    | none => c
    | some cbs => { c with called := c.called ++ cbs.map fun cb => (cb, payload, topic) }
  else c

end AppClient

/-- The two threads: one hands over what it reads, the other registers callbacks. -/
inductive Step (κ : Type) where
  | published (topic payload : Bytes)
  | subscribed (targetRole worker : Bytes) (cb : κ)

section
variable {κ : Type} (parse : Bytes → Option Json)

def Step.message? : Step κ → Option (Bytes × Bytes)
  | .published topic payload => some (topic, payload)
  | .subscribed _ _ _ => none

def messages (steps : List (Step κ)) : List (Bytes × Bytes) := steps.filterMap Step.message?

theorem messages_published (topic payload : Bytes) (steps : List (Step κ)) :
    messages (.published topic payload :: steps) = (topic, payload) :: messages steps := rfl

theorem messages_subscribed (targetRole worker : Bytes) (cb : κ) (steps : List (Step κ)) :
    messages (.subscribed targetRole worker cb :: steps) = messages steps := rfl

def step (c : AppClient κ) : Step κ → AppClient κ
  | .published topic payload => c.handlePublish parse topic payload
  | .subscribed targetRole worker cb => c.subscribeAppEvent targetRole worker cb

def run (c : AppClient κ) (steps : List (Step κ)) : AppClient κ := steps.foldl (step parse) c

variable {parse}

/-- The nodes are what the messages make of them, whatever the callbacks are. -/
theorem nodes_run (c : AppClient κ) (steps : List (Step κ)) : (run parse c steps).nodes =
    (messages steps).foldl (fun n m => NodeReading.handlePublish parse n m.1 m.2) c.nodes := by
  induction steps generalizing c with
  | nil => rfl
  | cons x steps ih =>
    rw [run, List.foldl_cons, ← run, ih]
    cases x with
    | subscribed targetRole worker cb => rfl
    | published topic payload =>
      rw [messages_published, List.foldl_cons]
      congr 1
      show (c.handlePublish parse topic payload).nodes = NodeReading.handlePublish parse c.nodes topic payload
      unfold AppClient.handlePublish NodeReading.handlePublish
      split
      · cases parse payload <;> rfl
      · split
        · cases c.appCallbacks.lookup topic <;> rfl
        · rfl

theorem appCallbacks_handlePublish (topic payload : Bytes) (c : AppClient κ) :
    (c.handlePublish parse topic payload).appCallbacks = c.appCallbacks := by
  unfold AppClient.handlePublish
  split
  · cases parse payload <;> rfl
  · split
    · cases c.appCallbacks.lookup topic <;> rfl
    · rfl

/-! One callback. -/

variable [DecidableEq κ]

/-- What it has been called with. -/
def callsOf (cb : κ) (c : AppClient κ) : List (Bytes × Bytes) :=
  (c.called.filter fun call => call.1 = cb).map fun call => (call.2.2, call.2.1)

/-- How often it stands under a topic. -/
def registrations (cb : κ) (c : AppClient κ) (topic : Bytes) : Nat :=
  ((c.appCallbacks.lookup topic).getD []).count cb

/-- The calls that a message leads to. -/
def heard (cb : κ) (c : AppClient κ) (m : Bytes × Bytes) : List (Bytes × Bytes) :=
  if ascii "app/" <+: m.1 then List.replicate (registrations cb c m.1) m else []

theorem registrations_subscribe (cb cb' : κ) (targetRole worker topic : Bytes) (c : AppClient κ) :
    registrations cb (c.subscribeAppEvent targetRole worker cb') topic =
      registrations cb c topic + if topic = appTopic targetRole worker ∧ cb' = cb then 1 else 0 := by
  unfold registrations AppClient.subscribeAppEvent
  dsimp only
  rw [Table.getD_lookup_insert]
  by_cases ht : topic = appTopic targetRole worker
  · subst ht
    rw [if_pos rfl, List.count_append, List.count_singleton]
    by_cases hcb : cb' = cb
    · simp [hcb]
    · simp [hcb]
  · rw [if_neg ht, if_neg fun h => ht h.1, Nat.add_zero]

theorem calls_replicate (cb : κ) (m : Bytes × Bytes) (cbs : List κ) :
    ((cbs.map fun cb' => (cb', m.2, m.1)).filter fun call => call.1 = cb).map (fun call => (call.2.2, call.2.1)) =
      List.replicate (cbs.count cb) m := by
  induction cbs with
  | nil => rfl
  | cons cb' cbs ih =>
    by_cases hcb : cb' = cb
    · subst hcb
      rw [List.map_cons, List.filter_cons_of_pos (by simp), List.map_cons, ih, List.count_cons_self,
        List.replicate_succ]
    · rw [List.map_cons, List.filter_cons_of_neg (by simpa using hcb), ih, List.count_cons_of_ne (by exact hcb)]

theorem callsOf_handlePublish (cb : κ) (topic payload : Bytes) (c : AppClient κ) :
    callsOf cb (c.handlePublish parse topic payload) = callsOf cb c ++ heard cb c (topic, payload) := by
  unfold AppClient.handlePublish heard
  split
  · rename_i hapr
    have happ : ¬ ascii "app/" <+: topic := by
      intro happ
      have hpre := List.prefix_of_prefix_length_le happ (List.isPrefixOf_iff_prefix.mp hapr) (by decide)
      exact absurd hpre (by decide)
    rw [if_neg happ, List.append_nil]
    cases parse payload <;> rfl
  · split
    · rename_i happ
      rw [if_pos (List.isPrefixOf_iff_prefix.mp happ), registrations]
      dsimp only
      cases c.appCallbacks.lookup topic with
      | none => simp
      | some cbs =>
        rw [callsOf, callsOf, List.filter_append, List.map_append, Option.getD_some]
        exact congrArg _ (calls_replicate cb (topic, payload) cbs)
    · rename_i happ
      rw [if_neg fun h => happ (List.isPrefixOf_iff_prefix.mpr h), List.append_nil]

variable (parse) in
/-- While it is not registered again, it hears the messages under its topics. -/
theorem callsOf_run {cb : κ} {steps : List (Step κ)}
    (hno : ∀ targetRole worker, Step.subscribed targetRole worker cb ∉ steps) (c : AppClient κ) :
    registrations cb (run parse c steps) = registrations cb c ∧
      callsOf cb (run parse c steps) = callsOf cb c ++ (messages steps).flatMap (heard cb c) := by
  induction steps generalizing c with
  | nil => exact ⟨rfl, (List.append_nil _).symm⟩
  | cons x steps ih =>
    obtain ⟨hreg, hcalls⟩ := ih (fun r w hm => hno r w (List.mem_cons_of_mem _ hm)) (step parse c x)
    have hsame : registrations cb (step parse c x) = registrations cb c := by
      funext topic
      cases x with
      | published t payload => rw [registrations, step, appCallbacks_handlePublish, ← registrations]
      | subscribed targetRole worker cb' =>
        have hcb : cb' ≠ cb := by
          rintro rfl
          exact hno _ _ (List.mem_cons_self ..)
        rw [step, registrations_subscribe, if_neg fun h => hcb h.2, Nat.add_zero]
    have hheard : heard cb (step parse c x) = heard cb c := by
      funext m
      rw [heard, hsame, ← heard]
    rw [run, List.foldl_cons, ← run]
    refine ⟨hreg.trans hsame, ?_⟩
    rw [hcalls, hheard]
    cases x with
    | published topic payload =>
      rw [messages_published, List.flatMap_cons, ← List.append_assoc, ← callsOf_handlePublish]
      rfl
    | subscribed targetRole worker cb' =>
      rw [messages_subscribed]
      rfl

end

theorem prefix_appTopic (targetRole worker : Bytes) : ascii "app/" <+: appTopic targetRole worker := by
  unfold appTopic
  split
  · exact List.prefix_append ..
  · rw [List.append_assoc, List.append_assoc]
    exact List.prefix_append ..

/-- A callback that stands nowhere, registered under one topic. -/
theorem heard_subscribe {κ : Type} [DecidableEq κ] {cb : κ} {c : AppClient κ}
    (hnone : ∀ topic, registrations cb c topic = 0) (targetRole worker : Bytes) (m : Bytes × Bytes) :
    heard cb (c.subscribeAppEvent targetRole worker cb) m = if m.1 = appTopic targetRole worker then [m] else [] := by
  rw [heard, registrations_subscribe, hnone, Nat.zero_add]
  by_cases ht : m.1 = appTopic targetRole worker
  · rw [if_pos (ht ▸ prefix_appTopic ..), if_pos ⟨ht, rfl⟩, if_pos ht]
    rfl
  · have hother : ¬(m.1 = appTopic targetRole worker ∧ cb = cb) := fun h => ht h.1
    rw [if_neg hother, if_neg ht, List.replicate_zero, ite_self]

/-- Registered once, it is called with the messages of its topic that come after. -/
theorem callsOf_registered {κ : Type} [DecidableEq κ] {parse : Bytes → Option Json} {before after : List (Step κ)}
    {targetRole worker : Bytes} {cb : κ}
    (hno : ∀ r w, Step.subscribed r w cb ∉ before ++ after) (nodes : Client NodeInfo NodeInfo) :
    callsOf cb (run parse (.start nodes) (before ++ .subscribed targetRole worker cb :: after)) =
      (messages after).filter fun m => m.1 = appTopic targetRole worker := by
  obtain ⟨hreg, hcalls⟩ := callsOf_run parse (fun r w hm => hno r w (List.mem_append_left _ hm)) (.start nodes)
  have hnone (topic : Bytes) : registrations cb (AppClient.start nodes) topic = 0 := rfl
  have hbefore : callsOf cb (run parse (.start nodes) before) = [] := by
    rw [hcalls, List.flatMap_eq_nil_iff.mpr fun m _ => ?_]
    · rfl
    · rw [heard, hnone, List.replicate_zero, ite_self]
  obtain ⟨-, hafter⟩ := callsOf_run parse (fun r w hm => hno r w (List.mem_append_right _ hm))
    ((run parse (.start nodes) before).subscribeAppEvent targetRole worker cb)
  have hheard := heard_subscribe (hreg ▸ hnone) targetRole worker
  rw [run, List.foldl_append, List.foldl_cons, ← run, ← run]
  refine hafter.trans ?_
  show callsOf cb (run parse (.start nodes) before) ++ _ = _
  rw [hbefore, List.nil_append, ← List.filterMap_eq_filter, List.filterMap_eq_flatMap_toList]
  refine List.flatMap_congr fun m _ => (hheard m).trans ?_
  by_cases ht : m.1 = appTopic targetRole worker
  · simp [Option.guard, ht]
  · simp [Option.guard, ht]

/-! On a session of the server. -/

/-- The reads of the thread that `start` leaves behind. -/
def receive (isWebsocket : Bool) (reads : List Bytes) : Option Stream.Client :=
  if isWebsocket then WebsocketClient.receive reads else Stream.receive reads

/-- The buffers of a session: the units, on a WebSocket behind the upgrade response. -/
structure Opens (s : MqttSession) (opening : Bytes) (units : List Written) : Prop where
  websocket : s.isWebsocket = true →
    (∃ key, opening = (Written.handshake key).bytes true) ∧ s.out.buffers = opening :: units.map (·.bytes true)
  plain : s.isWebsocket = false → opening = [] ∧ s.out.buffers = units.map (·.bytes false)

/-- Whichever transport it is: what has gone out arrives, in any division, if the messages are short. -/
theorem received_run {cfg : ServerConfig} {es : List World.Event} {w : World}
    (hrun : (machine cfg).Run ExclusiveTransfers (init cfg) es w) {i : Nat} {s : MqttSession} (hs : w.mqtt[i]? = some s)
    (hfirst : s.isWebsocket = true → s.out.FirstOut) (hsize : ∀ buf ∈ s.out.buffers, buf.length < 2 ^ 63)
    (hsub : ∀ data ∈ s.handled, ∀ sub, Packet.decodeSubscribe data = some sub → sub.topics.length ≤ 125)
    (hshort : ∀ m ∈ s.broadcasts, Short m) : ∃ (opening : Bytes) (units sent : List Written) (part : Bytes),
      Opens s opening units ∧ units.filterMap Written.message? = s.broadcasts ∧
      s.out.Outgoing opening.length (·.bytes s.isWebsocket) units sent part ∧
      ∀ reads : List Bytes, reads.flatten <+: s.out.received.drop opening.length →
        ∃ done pending rest, sent = done ++ pending ∧
          reads.flatten = (done.map (·.bytes s.isWebsocket)).flatten ++ rest ∧
          receive s.isWebsocket reads = some ⟨done.filterMap Written.message?, rest⟩ ∧
          ∀ u ∈ pending.head?, ¬ u.bytes s.isWebsocket <+: rest := by
  have fits {u : Written} (hsent : WebsocketClient.Sent cfg.accessKey s u) : WebsocketClient.Fits u := by
    cases hsent with
    | reply hdata hreply => exact WebsocketClient.fits_reply (hsub _ hdata) hreply
    | pong payload => exact .pong payload
    | message topic payload => exact .message topic payload
  cases hws : s.isWebsocket with
  | true =>
    obtain ⟨key, units, sent, part, hbuffers, hmessages, hout, hsent⟩ :=
      WebsocketClient.outgoing_run hrun hs hws (hfirst hws)
    refine ⟨_, units, sent, part, ⟨fun _ => ⟨⟨key, rfl⟩, hbuffers⟩, fun h => ?_⟩, hmessages, hout, fun reads hp => ?_⟩
    · cases hws.symm.trans h
    have hframed : ∀ u ∈ units, WebsocketClient.Framed u := fun u hu =>
      (hsent u hu).framed (hsize _ (hbuffers ▸ List.mem_cons_of_mem _ (List.mem_map.mpr ⟨u, hu, rfl⟩)))
    obtain ⟨done, pending, rest, rfl, hpart, ⟨hstuck, hn⟩, hnext⟩ := WebsocketClient.exists_sent hframed hout hp
    have hdone : ∀ u ∈ done, u ∈ units := fun u hu => hout.once.subset (List.mem_append_left _ hu)
    have hrec :=
      WebsocketClient.receive_done (fun u hu => hframed u (hdone u hu)) (fun u hu => fits (hsent u (hdone u hu)))
      hpart hstuck hn
    rw [if_pos fun m hm => by
      obtain ⟨u, hu, hm⟩ := List.mem_filterMap.mp hm
      exact hshort m (hmessages ▸ List.mem_filterMap.mpr ⟨u, hdone u hu, hm⟩)] at hrec
    exact ⟨done, pending, rest, rfl, hpart, hrec, hnext⟩
  | false =>
    obtain ⟨units, hbuffers, hmessages, hsent⟩ := PlainClient.units_run hrun.reaches hs hws
    obtain ⟨_, _, ht⟩ := tidy_run hrun i s hs
    obtain ⟨sent, part, hout⟩ := ht.outgoing hbuffers
    refine ⟨[], units, sent, part, ⟨fun h => ?_, fun _ => ⟨rfl, hbuffers⟩⟩, hmessages, hout, fun reads hp => ?_⟩
    · cases hws.symm.trans h
    have htaken : ∀ u ∈ units, PlainClient.Taken u := fun u hu =>
      PlainClient.taken_of_short (fits (hsent u hu).1) (hsent u hu).2 fun m hm =>
        hshort m (hmessages ▸ List.mem_filterMap.mpr ⟨u, hu, hm⟩)
    obtain ⟨done, pending, rest, hsplit, hpart, hrec, hnext⟩ := hout.cut
      (Q := fun done rest => Stream.receive reads = some ⟨done.filterMap Written.message?, rest⟩) hp fun us hus hp => by
        obtain ⟨done, pending, rest, hsplit, hpart, -, hrec, hnext⟩ :=
          PlainClient.receive_taken (fun u hu => htaken u (hus hu)) hp
        exact ⟨done, pending, rest, hsplit, hpart, hrec, hnext⟩
    exact ⟨done, pending, rest, hsplit, hpart, hrec, hnext⟩

/-- However the messages and the registrations fall between each other, the nodes follow the messages, and a callback
that is registered once is called with the later messages of its topic, each once and in order. -/
def Dispatched (msgs : List (Bytes × Bytes)) : Prop :=
  ∀ {κ : Type} [DecidableEq κ] (parse : Bytes → Option Json) (nodes : Client NodeInfo NodeInfo) (steps : List (Step κ)),
    messages steps = msgs →
    (run parse (.start nodes) steps).nodes =
        msgs.foldl (fun n m => NodeReading.handlePublish parse n m.1 m.2) nodes ∧
      ∀ (before after : List (Step κ)) (targetRole worker : Bytes) (cb : κ),
        steps = before ++ .subscribed targetRole worker cb :: after →
        (∀ r w, Step.subscribed r w cb ∉ before ++ after) →
        callsOf cb (run parse (.start nodes) steps) =
          (messages after).filter fun m => m.1 = appTopic targetRole worker

theorem dispatched (msgs : List (Bytes × Bytes)) : Dispatched msgs := by
  intro κ _ parse nodes steps hmsgs
  refine ⟨hmsgs ▸ nodes_run _ steps, fun before after targetRole worker cb hsteps hno => ?_⟩
  subst hsteps
  exact callsOf_registered hno nodes

/-- **Whatever happens on the server, and on either transport: where no write overlaps another on the wire of a session
(and the upgrade response goes out first), and the messages broadcast to it are short, the client library on it hands
over those that have gone out, each once and in their order on the wire, as soon as its packet is complete, however its
reads divide the bytes. The node events among them make the nodes, and an application callback is called with exactly the
messages of its topic that come after its registration, however the two threads interleave.** -/
theorem app_events_reach_callbacks (cfg : ServerConfig) {es : List World.Event} {w : World}
    (hrun : (machine cfg).Run ExclusiveTransfers (init cfg) es w) {i : Nat} {s : MqttSession} (hs : w.mqtt[i]? = some s)
    (hfirst : s.isWebsocket = true → s.out.FirstOut) (hsize : ∀ buf ∈ s.out.buffers, buf.length < 2 ^ 63)
    (hsub : ∀ data ∈ s.handled, ∀ sub, Packet.decodeSubscribe data = some sub → sub.topics.length ≤ 125)
    (hshort : ∀ m ∈ s.broadcasts, Short m) : ∃ (opening : Bytes) (units sent : List Written) (part : Bytes),
      Opens s opening units ∧ units.filterMap Written.message? = s.broadcasts ∧
      s.out.Outgoing opening.length (·.bytes s.isWebsocket) units sent part ∧
      ∀ reads : List Bytes, reads.flatten <+: s.out.received.drop opening.length →
        ∃ c done pending, receive s.isWebsocket reads = some c ∧ sent = done ++ pending ∧
          c.published = done.filterMap Written.message? ∧
          reads.flatten = (done.map (·.bytes s.isWebsocket)).flatten ++ c.streamBuf ∧
          (∀ u ∈ pending.head?, ¬ u.bytes s.isWebsocket <+: c.streamBuf) ∧ Dispatched c.published := by
  obtain ⟨opening, units, sent, part, hopens, hmessages, hout, hreads⟩ := received_run hrun hs hfirst hsize hsub hshort
  refine ⟨opening, units, sent, part, hopens, hmessages, hout, fun reads hp => ?_⟩
  obtain ⟨done, pending, rest, hsplit, hpart, hrec, hnext⟩ := hreads reads hp
  exact ⟨_, done, pending, hrec, hsplit, rfl, hpart, hnext, dispatched _⟩

/-- The client subscribes to `app/a`, and publishes `x` there itself; the answers and the message go out. -/
private def echoing : List World.Event :=
  clientSends [connectPacket, subscribePacket (appTopic (ascii "a") []),
    Packet.encodePublish (appTopic (ascii "a") []) (ascii "x") 0 0] ++ clientGets [4, 5, 10]

private def echoed : World :=
  ((machine oneListener).execIf ExclusiveTransfers (init oneListener) echoing).getD (init oneListener)

private theorem echoed_session :
    ((machine oneListener).execIf ExclusiveTransfers (init oneListener) echoing).isSome = true ∧
      0 < echoed.mqtt.length ∧ (∀ buf ∈ (echoed.session 0).out.buffers, buf.length < 1000) ∧
      (∀ data ∈ (echoed.session 0).handled,
        ((Packet.decodeSubscribe data).map fun sub => sub.topics.length).getD 0 ≤ 125) ∧
      (echoed.session 0).isWebsocket = false ∧ (echoed.session 0).out.Finished ∧
      (echoed.session 0).broadcasts = [(appTopic (ascii "a") [], ascii "x")] := by decide +kernel

/-- All that a second client may do here: one callback under `app/a`, then the message. -/
private def listening : List (Step Nat) :=
  [.subscribed (ascii "a") [] 7, .published (appTopic (ascii "a") []) (ascii "x")]

/-- The callback is called with the client's own message. -/
theorem own_message_heard :
    (∃ c, receive false [(echoed.session 0).out.received] = some c ∧
      c.published = [(appTopic (ascii "a") [], ascii "x")]) ∧
    callsOf 7 (run (fun _ => none) (.start ⟨∅, [], false⟩) listening) = [(appTopic (ascii "a") [], ascii "x")] := by
  obtain ⟨hrun, hi, hsize, hsub, hplain, hfinished, hbroadcasts⟩ := echoed_session
  have hshort : ∀ m ∈ (echoed.session 0).broadcasts, Short m := by
    rw [hbroadcasts]
    decide
  have hreached : (machine oneListener).Run ExclusiveTransfers (init oneListener) echoing echoed :=
    (machine oneListener).run_execIf ExclusiveTransfers hrun
  obtain ⟨opening, units, sent, part, hopens, hmessages, hout, hreads⟩ :=
    app_events_reach_callbacks oneListener hreached (session_eq hi) (fun h => by cases hplain.symm.trans h)
      (fun buf hbuf => Nat.lt_trans (hsize buf hbuf) (by decide))
      (fun data hdata sub hd => by
        have hlen := hsub data hdata
        rwa [hd] at hlen) hshort
  obtain ⟨rfl, -⟩ := hopens.plain hplain
  obtain ⟨hperm, rfl⟩ := hout.finished hfinished
  rw [hplain] at hout hreads
  rw [List.length_nil, List.drop_zero] at hreads
  obtain ⟨c, done, pending, hrec, rfl, hpublished, hpart, hnext, hdispatched⟩ :=
    hreads [(echoed.session 0).out.received] (by rw [List.flatten_singleton])
  rw [List.flatten_singleton] at hpart
  obtain rfl := hout.pending_nil (by rwa [List.length_nil, List.drop_zero]) hnext
  have hall : c.published = [(appTopic (ascii "a") [], ascii "x")] := by
    have hmessage := hperm.filterMap Written.message?
    rwa [hmessages, hbroadcasts, List.append_nil, ← hpublished, List.perm_singleton] at hmessage
  refine ⟨⟨c, hrec, hall⟩, ?_⟩
  obtain ⟨-, hcalls⟩ := hdispatched (fun _ => none) ⟨∅, [], false⟩ listening (by rw [hall]; rfl)
  exact hcalls [] [.published (appTopic (ascii "a") []) (ascii "x")] (ascii "a") [] 7 rfl (by simp)

end LightApr.Sdk.AppEvents
