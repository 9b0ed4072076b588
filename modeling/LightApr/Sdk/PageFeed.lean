import LightApr.Sdk.Pages
import LightApr.Sdk.WebsocketClient

/-! The live feeds of the dashboard and of the tester page: what they read off their WebSocket and show. Texts are in
UTF-8. -/
namespace LightApr.Sdk.PageFeed
open LightApr.Core Lib Lib.Framing Mqtt WebsocketCodec FrameStream Server World
open LightApr.Sdk.WebsocketClient (stream frameOf Framed Sent outgoing_run exists_sent peels_units readFrame_units)
open Replies (Written)
open Wire (ExclusiveTransfers)

/-! The decoder. An index past the end of an array is `undefined`, whose bits are zero. -/

/-- The loop of `decodeRemainingLength`: the value and the bytes read. -/
def decodeRemainingLengthFrom (multiplier value bytesRead : Nat) : Bytes → Nat × Nat
  | [] => (value, bytesRead + 1)
  | encodedByte :: rest =>
    let value := value + (encodedByte &&& 127).toNat * multiplier
    if encodedByte &&& 128 ≠ 0 ∧ rest ≠ [] then
      decodeRemainingLengthFrom (multiplier * 128) value (bytesRead + 1) rest
    else (value, bytesRead + 1)

def decodeRemainingLength (bytes : Bytes) (offset : Nat) : Nat × Nat :=
  decodeRemainingLengthFrom 1 0 0 (bytes.drop offset)

def slice (bytes : Bytes) (start stop : Nat) : Bytes := (bytes.take stop).drop start

/-- Topic and payload of a PUBLISH, behind its fixed header. -/
def readPublish (bytes : Bytes) (remLen bytesRead : Nat) : Option (Bytes × Bytes) :=
  let qos := ((bytes.getD 0 0 >>> 1) &&& 0x03).toNat
  let offset := 1 + bytesRead
  if offset + 2 > bytes.length then none
  else
    let topicLen := (bytes.getD offset 0).toNat * 256 + (bytes.getD (offset + 1) 0).toNat
    let offset := offset + 2
    if offset + topicLen > bytes.length then none
    else
      let topic := slice bytes offset (offset + topicLen)
      let offset := offset + topicLen
      let offset := if qos > 0 then offset + 2 else offset
      let payloadEnd := min bytes.length (1 + bytesRead + remLen)
      some (topic, slice bytes offset payloadEnd)

/-- The dashboard's decoder. -/
def decodeMqttPublish (bytes : Bytes) : Option (Bytes × Bytes) :=
  if bytes.length < 2 then none
  else if bytes.getD 0 0 &&& 0xF0 ≠ 0x30 then none
  else readPublish bytes (decodeRemainingLength bytes 1).1 (decodeRemainingLength bytes 1).2

inductive Decoded where
  | connack
  | other (pktType : UInt8)
  | publish (topic payload : Bytes)

/-- The tester's decoder. -/
def decodeMqttPacket (bytes : Bytes) : Option Decoded :=
  if bytes.length < 2 then none
  else
    let pktType := bytes.getD 0 0 &&& 0xF0
    if pktType = 0x20 then some .connack
    else if pktType ≠ 0x30 then some (.other pktType)
    else (readPublish bytes (decodeRemainingLength bytes 1).1 (decodeRemainingLength bytes 1).2).map fun m =>
      .publish m.1 m.2

/-! The tables, newest row first, each row with the texts of its cells. -/

/-- What the browser adds: `TextDecoder`, and the children that a table row gets from some markup. -/
structure Browser where
  decode : Bytes → Bytes
  cells : Bytes → List Bytes

abbrev Row := List Bytes

def eventMarkup (time topic : Bytes) : Bytes :=
  ascii "<td>" ++ time ++ ascii "</td><td>" ++ topic ++ ascii "</td><td></td>"

/-- Text in which a browser sees no markup and which it leaves as it is. -/
def Plain (text : Bytes) : Prop := ∀ b ∈ text, b ≠ 60 ∧ b ≠ 38 ∧ b ≠ 0 ∧ b ≠ 13

instance (text : Bytes) : Decidable (Plain text) := inferInstanceAs (Decidable (∀ b ∈ text, _))

/-- The row of such texts has its three cells. -/
def Browser.Standard (b : Browser) : Prop :=
  ∀ time topic, Plain time → Plain topic → b.cells (eventMarkup time topic) = [time, topic, []]

/-- What `addEventRow` and `appendMqttLog` are called with. -/
structure Call where
  time : Bytes
  topic : Bytes
  payload : Bytes

/-- The row of the dashboard; none: there is no third child, and `tr.children[2].innerText` throws. -/
def eventRow (b : Browser) (call : Call) : Option Row :=
  let cells := b.cells (eventMarkup call.time call.topic)
  if cells.length < 3 then none else some (cells.set 2 call.payload)

/-- A single row with a single cell says that there is nothing yet, and goes. -/
def cleared : List Row → List Row
  | [[_]] => []
  | rows => rows

/-- The new row in a table of at most `limit` rows. -/
def insertRow (limit : Nat) (row? : Option Row) (rows : List Row) : List Row :=
  match row? with
  | some row => (row :: cleared rows).take limit
  | none => cleared rows

def addEventRow (b : Browser) (call : Call) (rows : List Row) : List Row := insertRow 50 (eventRow b call) rows

def appendMqttLog (call : Call) (rows : List Row) : List Row :=
  insertRow 100 (some [call.time, call.topic, call.payload]) rows

/-- What happens to a page: a change of its status, or a message of its socket. -/
inductive PageEvent where
  | status (time text : Bytes)
  | message (time data : Bytes)

def dashboardEvent (b : Browser) (rows : List Row) : PageEvent → List Row
  | .status time text => addEventRow b ⟨time, ascii "(status)", text⟩ rows
  | .message time data =>
    match decodeMqttPublish data with
    | some (topic, payload) => addEventRow b ⟨time, b.decode topic, b.decode payload⟩ rows
    | none => rows

/-- The tester has another place for its status. -/
def testerEvent (b : Browser) (rows : List Row) : PageEvent → List Row
  | .status _ _ => rows
  | .message time data =>
    match decodeMqttPacket data with
    | some (.publish topic payload) => appendMqttLog ⟨time, b.decode topic, b.decode payload⟩ rows
    | _ => rows

def dashboard (b : Browser) (events : List PageEvent) : List Row :=
  events.foldl (dashboardEvent b) [[ascii "Not connected."]]

def tester (b : Browser) (events : List PageEvent) : List Row :=
  events.foldl (testerEvent b) [[ascii "No messages yet."]]

def PageEvent.data? : PageEvent → Option Bytes
  | .status _ _ => none
  | .message _ data => some data

/-- The browser hands on the payload of a data frame; the server only sends binary ones. -/
def dataFrame? (frame : WsFrame) : Option Bytes := if frame.opcode = 0x02 then some frame.payload else none

/-! What the decoder makes of the server's packets. -/

theorem decodeRemainingLengthFrom_encode (n multiplier value bytesRead : Nat) (t : Bytes) :
    decodeRemainingLengthFrom multiplier value bytesRead (Packet.encodeRemainingLength n ++ t) =
      (value + n * multiplier, bytesRead + (Packet.encodeRemainingLength n).length) := by
  induction n using Nat.strong_induction_on generalizing multiplier value bytesRead with
  | _ n ih =>
    by_cases hlt : n < 128
    · obtain ⟨hv, hc⟩ := Packet.last_bits hlt
      rw [Packet.encodeRemainingLength_lt hlt, List.singleton_append, decodeRemainingLengthFrom, hv, if_neg
        (fun h => h.1 hc)]
      rfl
    · obtain ⟨hv, hc⟩ := Packet.continued_bits n
      have hge := Nat.le_of_not_lt hlt
      have hmore : Packet.encodeRemainingLength (n / 128) ++ t ≠ [] :=
        List.append_ne_nil_of_left_ne_nil (Packet.encodeRemainingLength_ne_nil _) t
      rw [Packet.encodeRemainingLength_ge hge, List.cons_append, decodeRemainingLengthFrom, hv, if_pos ⟨hc, hmore⟩, ih
        (n / 128) (Nat.div_lt_self (by omega) (by decide)), List.length_cons]
      have hsum : n % 128 * multiplier + n / 128 * (multiplier * 128) = n * multiplier := by
        rw [Nat.mul_comm multiplier 128, ← Nat.mul_assoc, ← Nat.add_mul, Nat.mul_comm (n / 128) 128,
          Nat.mod_add_div]
      rw [Nat.add_assoc value, hsum, Nat.add_assoc, Nat.add_comm 1]

/-- A topic of more than 65535 bytes is cut where its two length bytes say. -/
def shown (m : Bytes × Bytes) : Bytes × Bytes :=
  ((m.1 ++ m.2).take (m.1.length % 65536), (m.1 ++ m.2).drop (m.1.length % 65536))

theorem decodeMqttPublish_encodePublish (topic payload : Bytes) :
    decodeMqttPublish (Packet.encodePublish topic payload 0 0) = some (shown (topic, payload)) := by
  obtain ⟨n, hn⟩ : ∃ n, (Packet.publishBody topic payload 0 0).length = n := ⟨_, rfl⟩
  have hsize : n = 2 + (topic ++ payload).length := by
    rw [← hn, Packet.publishBody_length, List.length_append]
    omega
  obtain ⟨len, hlen⟩ : ∃ len, topic.length % 65536 = len := ⟨_, rfl⟩
  have hlt : len < 65536 := hlen ▸ Nat.mod_lt _ (by decide)
  have hle : len ≤ (topic ++ payload).length := by
    rw [← hlen, List.length_append]
    exact Nat.le_trans (Nat.mod_le _ _) (Nat.le_add_right _ _)
  have hbody : Packet.publishBody topic payload 0 0 = Packet.u16 len ++ (topic ++ payload) := by
    rw [Packet.publishBody, if_neg (Nat.lt_irrefl 0), List.append_nil, Packet.writeString, hlen, List.append_assoc]
  obtain ⟨rem, hrem⟩ : ∃ rem, Packet.encodeRemainingLength n = rem := ⟨_, rfl⟩
  have hrest := decodeRemainingLengthFrom_encode n 1 0 0 (Packet.u16 len ++ (topic ++ payload))
  rw [hrem, Nat.mul_one, Nat.zero_add, Nat.zero_add] at hrest
  obtain ⟨data, hdata⟩ : ∃ data, (Packet.publish :: rem) ++ (Packet.u16 len ++ (topic ++ payload)) = data := ⟨_, rfl⟩
  have hpacket : Packet.encodePublish topic payload 0 0 = data := by
    rw [Packet.encodePublish_qos0, hn, hrem, hbody, ← hdata]
    rfl
  have htotal : data.length = 1 + rem.length + n := by
    rw [← hdata, List.length_append, List.length_cons, List.length_append, Packet.u16_length, hsize]
    omega
  have hafter : data.drop (1 + rem.length + 2) = topic ++ payload := by
    rw [← hdata, ← List.append_assoc]
    refine List.drop_left' ?_
    rw [List.length_append, List.length_cons, Packet.u16_length]
    omega
  have hfirst : data.getD 0 0 = Packet.publish := by rw [← hdata]; rfl
  have hbytes : (data.getD (1 + rem.length) 0).toNat * 256 + (data.getD (1 + rem.length + 1) 0).toNat = len := by
    have hread := Packet.readU16_u16 (Packet.publish :: rem) (topic ++ payload) hlt
    rw [hdata, Packet.readU16, if_neg (by rw [htotal, List.length_cons]; omega)] at hread
    have hvalue := (Prod.mk.inj (Option.some.inj hread)).1
    rwa [List.length_cons, Nat.add_comm rem.length] at hvalue
  have hlength : decodeRemainingLength data 1 = (n, rem.length) := by
    rw [decodeRemainingLength, ← hdata]
    exact hrest
  rw [hpacket, decodeMqttPublish, if_neg (by omega), hfirst, if_neg (by decide), hlength, readPublish]
  dsimp only
  have htopic : slice data (1 + rem.length + 2) (1 + rem.length + 2 + len) = (topic ++ payload).take len := by
    rw [slice, List.drop_take, hafter, Nat.add_sub_cancel_left]
  have hpayload : slice data (1 + rem.length + 2 + len) data.length = (topic ++ payload).drop len := by
    rw [slice, List.take_length, ← List.drop_drop, hafter]
  rw [if_neg (by omega), hbytes, if_neg (by omega), hfirst, if_neg (by decide), ← htotal, Nat.min_self, htopic,
    hpayload, shown, hlen]

theorem decodeMqttPacket_publish {bytes : Bytes} (h : bytes.getD 0 0 &&& 0xF0 = 0x30) :
    decodeMqttPacket bytes = (decodeMqttPublish bytes).map fun m => .publish m.1 m.2 := by
  unfold decodeMqttPacket decodeMqttPublish
  split
  · rfl
  · dsimp only
    rw [h, if_neg (by decide), if_neg (by decide), if_neg (by decide)]

theorem decodeMqttPublish_other {bytes : Bytes} (h : bytes.getD 0 0 &&& 0xF0 ≠ 0x30) :
    decodeMqttPublish bytes = none := by
  unfold decodeMqttPublish
  rw [if_pos h, ite_self]

theorem decodeMqttPacket_other {bytes : Bytes} (h : bytes.getD 0 0 &&& 0xF0 ≠ 0x30) (topic payload : Bytes) :
    decodeMqttPacket bytes ≠ some (.publish topic payload) := by
  unfold decodeMqttPacket
  dsimp only
  rw [if_pos h]
  split
  · nofun
  · split <;> nofun

/-! The calls that the events of a page lead to. -/

/-- The call for a message. -/
def messageCall (b : Browser) : PageEvent → Option Call
  | .status _ _ => none
  | .message time data => (decodeMqttPublish data).map fun m => ⟨time, b.decode m.1, b.decode m.2⟩

/-- The dashboard shows its status in the table too. -/
def dashboardCall (b : Browser) : PageEvent → Option Call
  | .status time text => some ⟨time, ascii "(status)", text⟩
  | .message time data => messageCall b (.message time data)

theorem dashboard_calls (b : Browser) (events : List PageEvent) : dashboard b events =
    (events.filterMap (dashboardCall b)).foldl (fun rows call => addEventRow b call rows)
    [[ascii "Not connected."]] := by
  rw [List.foldl_filterMap, dashboard]
  congr 1
  funext rows e
  cases e with
  | status time text => rfl
  | message time data =>
    rw [dashboardEvent, dashboardCall, messageCall]
    cases decodeMqttPublish data <;> rfl

theorem tester_calls (b : Browser) (events : List PageEvent) : tester b events =
    (events.filterMap (messageCall b)).foldl (fun rows call => appendMqttLog call rows)
    [[ascii "No messages yet."]] := by
  rw [List.foldl_filterMap, tester]
  congr 1
  funext rows e
  cases e with
  | status time text => rfl
  | message time data =>
    rw [testerEvent, messageCall]
    by_cases h : data.getD 0 0 &&& 0xF0 = 0x30
    · rw [decodeMqttPacket_publish h]
      cases decodeMqttPublish data <;> rfl
    · rw [decodeMqttPublish_other h]
      split
      · rename_i topic payload hd
        exact absurd hd (decodeMqttPacket_other h topic payload)
      · rfl

/-! The tables. -/

theorem cleared_eq {rows : List Row} (h : ∀ row ∈ rows, row.length ≠ 1) : cleared rows = rows := by
  unfold cleared
  split
  · rename_i cell
    exact absurd rfl (h [cell] (List.mem_singleton_self _))
  · rfl

/-- The newest rows, once the first call has been made. -/
theorem foldl_insertRow (limit : Nat) (first : Bytes) (calls : List (Option Row)) (hne : calls ≠ [])
    (hrows : ∀ row? ∈ calls, ∀ row ∈ row?, row.length ≠ 1) :
    calls.foldl (fun rows row? => insertRow limit row? rows) [[first]] = (calls.filterMap id).reverse.take limit := by
  induction calls using List.reverseRecOn with
  | nil => exact absurd rfl hne
  | append_singleton calls row? ih =>
    have hcleared : cleared (calls.foldl (fun rows row? => insertRow limit row? rows) [[first]]) =
        (calls.filterMap id).reverse.take limit := by
      by_cases hnil : calls = []
      · subst hnil
        rw [List.filterMap_nil, List.reverse_nil, List.take_nil]
        rfl
      · rw [ih hnil fun row? hm => hrows row? (List.mem_append_left _ hm)]
        refine cleared_eq fun row hrow => ?_
        obtain ⟨row?, hm, hid⟩ := List.mem_filterMap.mp (List.mem_reverse.mp (List.mem_of_mem_take hrow))
        exact hrows row? (List.mem_append_left _ hm) row hid
    rw [List.foldl_append, List.foldl_cons, List.foldl_nil, List.filterMap_append, List.reverse_append]
    cases row? with
    | none => exact hcleared
    | some row =>
      show (row :: cleared _).take limit = _
      rw [hcleared]
      cases limit with
      | zero => rfl
      | succ limit =>
        rw [List.take_succ_cons, List.take_take, Nat.min_eq_left (Nat.le_succ limit)]
        rfl

theorem eventRow_length {b : Browser} {call : Call} {row : Row} (h : eventRow b call = some row) : row.length ≠ 1 := by
  unfold eventRow at h
  dsimp only at h
  split at h
  · cases h
  · rename_i hlen
    obtain rfl := Option.some.inj h
    rw [List.length_set]
    omega

theorem dashboard_eq {b : Browser} {events : List PageEvent} (h : events.filterMap (dashboardCall b) ≠ []) :
    dashboard b events = ((events.filterMap (dashboardCall b)).filterMap (eventRow b)).reverse.take 50 := by
  have hrows := foldl_insertRow 50 (ascii "Not connected.") ((events.filterMap (dashboardCall b)).map (eventRow b))
    (mt List.map_eq_nil_iff.mp h) fun row? hm row hrow => by
      obtain ⟨call, -, rfl⟩ := List.mem_map.mp hm
      exact eventRow_length hrow
  rw [List.foldl_map, List.filterMap_map] at hrows
  exact (dashboard_calls b events).trans hrows

theorem tester_eq {b : Browser} {events : List PageEvent} (h : events.filterMap (messageCall b) ≠ []) :
    tester b events =
      ((events.filterMap (messageCall b)).map fun call => [call.time, call.topic, call.payload]).reverse.take 100 := by
  have hrows := foldl_insertRow 100 (ascii "No messages yet.")
    ((events.filterMap (messageCall b)).map fun call => some [call.time, call.topic, call.payload])
    (mt List.map_eq_nil_iff.mp h) fun row? hm row hrow => by
      obtain ⟨call, -, rfl⟩ := List.mem_map.mp hm
      obtain rfl := Option.some.inj hrow
      exact Nat.succ_succ_ne_one _
  rw [List.foldl_map, List.filterMap_map] at hrows
  refine (tester_calls b events).trans (hrows.trans ?_)
  rw [← List.filterMap_eq_map]
  rfl

theorem calls_messages (b : Browser) (events : List PageEvent) :
    (events.filterMap (messageCall b)).map (fun call => (call.topic, call.payload)) =
      ((events.filterMap PageEvent.data?).filterMap decodeMqttPublish).map fun m => (b.decode m.1, b.decode m.2) := by
  rw [List.filterMap_filterMap, List.map_filterMap, List.map_filterMap]
  refine List.filterMap_congr fun e _ => ?_
  cases e with
  | status time text => rfl
  | message time data => simp [messageCall, PageEvent.data?, Function.comp_def]

/-! What a session writes. -/

theorem isAnswer_handle {accessKey data reply : Bytes} {c : Replies.Client} (h : reply ∈ (c.handle accessKey data).2) :
    IsAnswer reply := by
  unfold Replies.Client.handle at h
  split at h
  · unfold Replies.Client.connect at h
    split at h
    · exact List.mem_singleton.mp h ▸ .connack _
    · dsimp only at h
      split at h <;> exact List.mem_singleton.mp h ▸ .connack _
  · split at h
    · unfold Replies.Client.publish at h
      split at h
      · split at h
        · exact List.mem_singleton.mp h ▸ .puback _
        · cases h
      · cases h
    · split at h
      · unfold Replies.Client.subscribe at h
        split at h
        · split at h
          · exact List.mem_singleton.mp h ▸ .suback _ _
          · cases h
        · cases h
      · split at h
        · exact List.mem_singleton.mp h ▸ .pingresp
        · cases h

theorem unshown_answer {reply : Bytes} (h : IsAnswer reply) : decodeMqttPublish reply = none := by
  have htype : reply.getD 0 0 ∈ [Packet.connack, Packet.puback, Packet.suback, Packet.pingresp] := by
    cases h with
    | connack => exact .head _
    | puback => exact .tail _ (.head _)
    | suback => exact .tail _ (.tail _ (.head _))
    | pingresp => exact .tail _ (.tail _ (.tail _ (.head _)))
  have hall : ∀ b ∈ [Packet.connack, Packet.puback, Packet.suback, Packet.pingresp], b &&& 0xF0 ≠ 0x30 := by
    decide +kernel
  exact decodeMqttPublish_other (hall _ htype)

theorem shown_sent {accessKey : Bytes} {s : MqttSession} {u : Written} (h : Sent accessKey s u) :
    (dataFrame? (frameOf u)).bind decodeMqttPublish = u.message?.map shown := by
  cases h with
  | reply _ hreply => exact unshown_answer (isAnswer_handle hreply)
  | pong payload => rfl
  | message topic payload => exact decodeMqttPublish_encodePublish topic payload

theorem shown_units {accessKey : Bytes} {s : MqttSession} {units : List Written} (h : ∀ u ∈ units, Sent accessKey s u) :
    ((units.map frameOf).filterMap dataFrame?).filterMap decodeMqttPublish =
      (units.filterMap Written.message?).map shown := by
  rw [List.filterMap_filterMap, List.filterMap_map, List.map_filterMap]
  exact List.filterMap_congr fun u hu => shown_sent (h u hu)

/-- What the pages show of some messages, whatever their status does in between. -/
structure Shows (b : Browser) (events : List PageEvent) (ms : List (Bytes × Bytes)) : Prop where
  /-- one call for each message -/
  called : (events.filterMap (messageCall b)).map (fun call => (call.topic, call.payload)) =
    (ms.map shown).map fun m => (b.decode m.1, b.decode m.2)
  tester : ms ≠ [] → PageFeed.tester b events =
    ((events.filterMap (messageCall b)).map fun call => [call.time, call.topic, call.payload]).reverse.take 100
  dashboard : events.filterMap (dashboardCall b) ≠ [] → PageFeed.dashboard b events =
    ((events.filterMap (dashboardCall b)).filterMap (eventRow b)).reverse.take 50
  plain : b.Standard → ∀ call ∈ events.filterMap (dashboardCall b), Plain call.time → Plain call.topic →
    eventRow b call = some [call.time, call.topic, call.payload]

theorem shows_of_messages {b : Browser} {events : List PageEvent} {ms : List (Bytes × Bytes)}
    (h : (events.filterMap PageEvent.data?).filterMap decodeMqttPublish = ms.map shown) : Shows b events ms where
  called := by rw [calls_messages, h]
  tester hne := by
    refine tester_eq fun hnone => hne ?_
    have hcalls := calls_messages b events
    rw [hnone, h, List.map_nil] at hcalls
    exact List.map_eq_nil_iff.mp (List.map_eq_nil_iff.mp hcalls.symm)
  dashboard := dashboard_eq
  plain hb call _ htime htopic := by
    rw [eventRow, hb _ _ htime htopic]
    rfl

/-- **Whatever happens on the server: where no write overlaps another on the wire, and the upgrade response goes out
first, the pages make one call for every message broadcast to their WebSocket session that has gone out, in their order
on the wire and for nothing else, as soon as its frame is complete: no message is too long for them, and the answers and
pongs in between lead to none. The tester shows the last 100 calls. The dashboard shows the last 50 that leave its row
three cells, as every call does whose texts hold no markup.** -/
theorem pages_show_broadcasts (cfg : ServerConfig) (b : Browser) {es : List World.Event} {w : World}
    (hrun : (machine cfg).Run ExclusiveTransfers (init cfg) es w) {i : Nat} {s : MqttSession} (hs : w.mqtt[i]? = some s)
    (hws : s.isWebsocket = true) (hfirst : s.out.FirstOut) (hsize : ∀ buf ∈ s.out.buffers, buf.length < 2 ^ 63) :
    ∃ (key : Bytes) (units sent : List Written) (part : Bytes),
      s.out.buffers = (.handshake key :: units).map (·.bytes true) ∧ units.filterMap Written.message? = s.broadcasts ∧
      s.out.Outgoing ((Written.handshake key).bytes true).length (·.bytes true) units sent part ∧
      ∀ read : Bytes, read <+: s.out.received.drop ((Written.handshake key).bytes true).length →
        ∃ done pending raws rest, sent = done ++ pending ∧ read = stream done ++ rest ∧
          framer.Peels read raws rest ∧ framer.Stuck rest ∧ (∀ u ∈ pending.head?, ¬ u.bytes true <+: rest) ∧
          ∀ events : List PageEvent,
            events.filterMap PageEvent.data? = (raws.filterMap readFrame).filterMap dataFrame? →
              Shows b events (done.filterMap Written.message?) := by
  obtain ⟨key, units, sent, part, hbuffers, hmessages, hout, hsent⟩ := outgoing_run hrun hs hws hfirst
  have hframed : ∀ u ∈ units, Framed u := fun u hu =>
    (hsent u hu).framed (hsize _ (hbuffers ▸ List.mem_cons_of_mem _ (List.mem_map.mpr ⟨u, hu, rfl⟩)))
  refine ⟨key, units, sent, part, hbuffers, hmessages, hout, fun read hread => ?_⟩
  obtain ⟨done, pending, rest, rfl, rfl, ⟨hstuck, -⟩, hnext⟩ := exists_sent hframed hout hread
  have hmem : ∀ u ∈ done, u ∈ units := fun u hu => hout.once.subset (List.mem_append_left _ hu)
  have hdone : ∀ u ∈ done, Framed u := fun u hu => hframed u (hmem u hu)
  refine ⟨done, pending, _, rest, rfl, rfl, peels_units hdone rest, hstuck, hnext, fun events hevents => ?_⟩
  rw [readFrame_units hdone] at hevents
  exact shows_of_messages (hevents ▸ shown_units fun u hu => hsent u (hmem u hu))

/-- A browser that reads the markup of two texts. -/
private def textBrowser : Browser where
  decode text := text
  cells markup :=
    let rest := markup.drop 4
    [rest.takeWhile (· ≠ 60), ((rest.dropWhile (· ≠ 60)).drop 9).takeWhile (· ≠ 60), []]

private theorem standard_textBrowser : textBrowser.Standard := by
  intro time topic htime htopic
  have hcut {text : Bytes} (h : Plain text) (rest : Bytes) :
      (text ++ 60 :: rest).takeWhile (· ≠ 60) = text ∧ (text ++ 60 :: rest).dropWhile (· ≠ 60) = 60 :: rest := by
    have hpos : ∀ b ∈ text, decide (b ≠ 60) = true := fun b hb => decide_eq_true (h b hb).1
    rw [List.takeWhile_append_of_pos hpos, List.dropWhile_append_of_pos hpos]
    simp
  have hmiddle : ascii "</td><td>" = 60 :: ascii "/td><td>" := by decide
  have hend : ascii "</td><td></td>" = 60 :: ascii "/td><td></td>" := by decide
  have hdrop : (eventMarkup time topic).drop 4 =
      time ++ 60 :: (ascii "/td><td>" ++ (topic ++ 60 :: ascii "/td><td></td>")) := by
    rw [eventMarkup, hmiddle, hend]
    simp [ascii]
  have hnine : (60 :: (ascii "/td><td>" ++ (topic ++ 60 :: ascii "/td><td></td>"))).drop 9 =
      topic ++ 60 :: ascii "/td><td></td>" := by
    rw [List.drop_succ_cons]
    exact List.drop_left' (by decide)
  simp only [textBrowser]
  rw [hdrop, (hcut htime _).1, (hcut htime _).2, hnine, (hcut htopic _).1]

/-- The tester subscribes to `a`, and publishes `x` there itself; the response, the answers and the message go out. -/
private def echoing : List World.Event :=
  clientSends [upgradeRequest,
    clientFrame (Pages.buildMqttConnectPacket (ascii "t") (ascii "tester_client") (ascii "tester_client") 60),
    clientFrame (Pages.buildMqttSubscribePacket 1 (ascii "a")),
    clientFrame (Pages.buildMqttPublishPacket (ascii "a") (ascii "x"))] ++ clientGets [159, 6, 7, 8]

private def echoed : World :=
  ((machine oneListener).execIf ExclusiveTransfers (init oneListener) echoing).getD (init oneListener)

private theorem echoed_session :
    ((machine oneListener).execIf ExclusiveTransfers (init oneListener) echoing).isSome = true ∧
      0 < echoed.mqtt.length ∧ (echoed.session 0).isWebsocket = true ∧ (echoed.session 0).out.FirstOut ∧
      (echoed.session 0).out.Finished ∧ (∀ buf ∈ (echoed.session 0).out.buffers, buf.length < 1000) ∧
      (echoed.session 0).broadcasts = [(ascii "a", ascii "x")] ∧
      (echoed.session 0).out.buffers.head?.map List.length = some 159 := by decide +kernel

/-- Both pages show the tester's message. -/
theorem echo_shown : ∃ raws : List Bytes, framer.Peels ((echoed.session 0).out.received.drop 159) raws [] ∧
    ∀ events : List PageEvent, (∀ e ∈ events, ∃ data, e = .message (ascii "9:30") data) →
      events.filterMap PageEvent.data? = (raws.filterMap readFrame).filterMap dataFrame? →
        tester textBrowser events = [[ascii "9:30", ascii "a", ascii "x"]] ∧
          dashboard textBrowser events = [[ascii "9:30", ascii "a", ascii "x"]] := by
  obtain ⟨hrun, hi, hws, hfirst, hfinished, hsize, hbroadcasts, hresponse⟩ := echoed_session
  have hreached : (machine oneListener).Run ExclusiveTransfers (init oneListener) echoing echoed :=
    (machine oneListener).run_execIf ExclusiveTransfers hrun
  obtain ⟨key, units, sent, part, hbuffers, hmessages, hout, hpages⟩ :=
    pages_show_broadcasts oneListener textBrowser hreached (session_eq hi) hws hfirst
      fun buf hbuf => Nat.lt_trans (hsize buf hbuf) (by decide)
  have hskip : ((Written.handshake key).bytes true).length = 159 := by
    rw [hbuffers] at hresponse
    exact Option.some.inj hresponse
  rw [hskip] at hout hpages
  obtain ⟨hperm, rfl⟩ := hout.finished hfinished
  obtain ⟨done, pending, raws, rest, rfl, hread, hpeels, -, hnext, hshows⟩ := hpages _ (List.prefix_refl _)
  obtain rfl := hout.pending_nil hread hnext
  obtain rfl : rest = [] := by
    have hall : stream done ++ rest = stream (done ++ []) ++ [] := hread.symm.trans hout.received
    rw [List.append_nil, List.append_nil] at hall
    exact List.append_cancel_left (hall.trans (List.append_nil _).symm)
  have hone : done.filterMap Written.message? = [(ascii "a", ascii "x")] := by
    have hmessage := hperm.filterMap Written.message?
    rwa [hmessages, hbroadcasts, List.append_nil, List.perm_singleton] at hmessage
  refine ⟨raws, hpeels, fun events htimes hdata => ?_⟩
  have hshow := hshows events hdata
  rw [hone] at hshow
  have hstatus : events.filterMap (dashboardCall textBrowser) = events.filterMap (messageCall textBrowser) := by
    refine List.filterMap_congr fun e he => ?_
    obtain ⟨data, rfl⟩ := htimes e he
    rfl
  obtain ⟨call, hcall, hfields⟩ : ∃ call, events.filterMap (messageCall textBrowser) = [call] ∧
      (call.topic, call.payload) = (ascii "a", ascii "x") :=
    List.map_eq_singleton_iff.mp hshow.called
  have htime : call.time = ascii "9:30" := by
    obtain ⟨e, he, hmade⟩ := List.mem_filterMap.mp (hcall ▸ List.mem_singleton_self call)
    obtain ⟨data, rfl⟩ := htimes e he
    obtain ⟨m, -, rfl⟩ := Option.map_eq_some_iff.mp hmade
    rfl
  obtain ⟨htopic, hpayload⟩ := Prod.mk.inj hfields
  have hrow : eventRow textBrowser call = some [call.time, call.topic, call.payload] := by
    refine hshow.plain standard_textBrowser call (by rw [hstatus, hcall]; exact List.mem_singleton_self call) ?_ ?_
    · rw [htime]
      decide +kernel
    · rw [htopic]
      decide +kernel
  constructor
  · rw [hshow.tester (by simp), hcall, List.map_singleton, htime, htopic, hpayload]
    rfl
  · rw [hshow.dashboard (by simp [hstatus, hcall]), hstatus, hcall, List.filterMap_cons_some hrow, htime, htopic,
      hpayload]
    rfl

/-! Joining. -/

/-- What the dashboard sends when its socket is open; `rand` is what `Math.floor` leaves. -/
def dashboardId (rand : Nat) : Bytes := ascii "monitor_ws_" ++ decimal (rand % 1000)

def dashboardUser : Bytes := ascii "monitor_client"

def dashboardConnect (accessKey : Bytes) (rand : Nat) : Bytes :=
  Pages.buildMqttConnectPacket (dashboardId rand) dashboardUser (accessKey ++ dashboardUser) 60

/-- And 300 ms later. -/
def dashboardSubscribe : Bytes := Pages.buildMqttSubscribePacket 1 (ascii "apr/#")

theorem final_packets (accessKey : Bytes) (c : Replies.Client) (arrivals : List Replies.Arrival) :
    (Replies.responder accessKey).final c arrivals =
      (arrivals.filterMap Replies.Arrival.packet?).foldl (fun c data => (c.handle accessKey data).1) c := by
  induction arrivals generalizing c with
  | nil => rfl
  | cons x arrivals ih =>
    cases x with
    | upgrade key => exact ih c
    | packet data => exact ih _
    | ping payload => exact ih c

/-- What a session knows of its client follows from the packets alone. -/
theorem client_run {cfg : ServerConfig} {es : List World.Event} {w : World}
    (hrun : (machine cfg).Reaches (init cfg) es w) {i : Nat} {s : MqttSession} (hs : w.mqtt[i]? = some s) :
    Replies.Client.of s = s.handled.foldl (fun c data => (c.handle cfg.accessKey data).1) .unknown := by
  obtain ⟨frames, arrivals, written, hpeeled, harrived, haccounts⟩ := Replies.accounts_run hrun hs
  rw [haccounts.client, final_packets, harrived.packets hpeeled]

theorem length_decimal_le (n : Nat) : (decimal (n % 1000)).length ≤ 3 := by
  have hall : ∀ m < 1000, (decimal m).length ≤ 3 := by decide +kernel
  exact hall (n % 1000) (Nat.mod_lt n (by decide))

/-- The CONNECT of the dashboard. -/
theorem connect_dashboard {key : Bytes} (hkey : key.length < 65000) (rand : Nat) (accessKey : Bytes) :
    ((Replies.Client.unknown.handle accessKey (dashboardConnect key rand)).1.authenticated = true ↔
        Pages.remainingLen (dashboardId rand) dashboardUser (key ++ dashboardUser) % 256 < 128 ∧
          (key = accessKey ∨ accessKey = [])) ∧
      ((Replies.Client.unknown.handle accessKey (dashboardConnect key rand)).1.authenticated = true →
        (Replies.Client.unknown.handle accessKey (dashboardConnect key rand)).1.role = ascii "monitor") := by
  have hid := length_decimal_le rand
  have hascii : (ascii "monitor_ws_").length = 11 ∧ dashboardUser.length = 14 := by decide +kernel
  have hread : Packet.decodeConnect (dashboardConnect key rand) =
      if Pages.remainingLen (dashboardId rand) dashboardUser (key ++ dashboardUser) % 256 < 128 then
        some ⟨dashboardId rand, dashboardUser, key ++ dashboardUser, 60⟩
      else none :=
    Pages.connect_read (by decide) (by rw [dashboardId, List.length_append]; omega) (by omega)
      (by rw [List.length_append]; omega)
  have hhandle : Replies.Client.unknown.handle accessKey (dashboardConnect key rand) =
      Replies.Client.unknown.connect accessKey (dashboardConnect key rand) :=
    if_pos (show (0x10 : UInt8) &&& 0xF0 = Packet.connect by decide)
  have hexpected : key ++ dashboardUser = MqttSession.expectedPassword accessKey dashboardUser ↔ key = accessKey := by
    rw [MqttSession.expectedPassword, List.append_cancel_right_eq]
  have hrole : MqttSession.roleOf dashboardUser = ascii "monitor" := by decide +kernel
  rw [hhandle, Replies.Client.connect, hread]
  by_cases hlen : Pages.remainingLen (dashboardId rand) dashboardUser (key ++ dashboardUser) % 256 < 128
  · rw [if_pos hlen]
    dsimp only
    by_cases hpass : key = accessKey ∨ accessKey = []
    · rw [if_pos (hpass.imp_left hexpected.mpr)]
      exact ⟨⟨fun _ => ⟨hlen, hpass⟩, fun _ => rfl⟩, fun _ => hrole⟩
    · rw [if_neg (mt (Or.imp_left hexpected.mp) hpass)]
      exact ⟨⟨fun h => absurd h Bool.false_ne_true, fun h => absurd h.2 hpass⟩,
        fun h => absurd h Bool.false_ne_true⟩
  · rw [if_neg hlen]
    exact ⟨⟨fun h => absurd h Bool.false_ne_true, fun h => absurd h.1 hlen⟩,
      fun h => absurd h Bool.false_ne_true⟩

theorem subscribe_dashboard (c : Replies.Client) (accessKey : Bytes) : (c.handle accessKey dashboardSubscribe).1 =
    if c.authenticated then { c with subscriptions := c.subscriptions ++ [ascii "apr/#"] } else c := by
  have hread : Packet.decodeSubscribe dashboardSubscribe = some ⟨1, [ascii "apr/#"]⟩ := by decide +kernel
  have hhandle : c.handle accessKey dashboardSubscribe = c.subscribe dashboardSubscribe := rfl
  rw [hhandle, Replies.Client.subscribe, hread]
  dsimp only
  split <;> rfl

/-- The filter takes every topic of the registry. -/
theorem matches_reserved {topic : Bytes} (h : MqttSession.isReserved topic = true) :
    Topic.topicMatches (ascii "apr/#") topic = true := by
  obtain ⟨t, rfl⟩ := List.isPrefixOf_iff_prefix.mp h
  have hfilter : ascii "apr/#" = [97, 112, 114, 47, 35] := by decide +kernel
  have hfront : ascii "apr/" = [97, 112, 114, 47] := by decide +kernel
  have hwalk : Topic.walk (ascii "apr/#") (ascii "apr/" ++ t) = true := by
    rw [hfilter, hfront]
    cases t <;> simp [Topic.walk, Topic.hash, Topic.plus]
  rw [Topic.topicMatches, hwalk, Bool.or_true]

/-- **In every run a session that has handled the packets of the dashboard lets it in exactly if its length byte ends
the length, and its access key is the server's or the server asks for none; it is then in the role `monitor`, and with
its SUBSCRIBE it is sent whatever is published of the registry.** -/
theorem dashboard_joins_iff (cfg : ServerConfig) {es : List World.Event} {w : World}
    (hrun : (machine cfg).Reaches (init cfg) es w) {i : Nat} {s : MqttSession} (hs : w.mqtt[i]? = some s)
    {key : Bytes} {rand : Nat} {rest : List Bytes} (hkey : key.length < 65000)
    (hhandled : s.handled = dashboardConnect key rand :: rest) (hrest : rest <+: [dashboardSubscribe]) :
    (s.authenticated = true ↔
        Pages.remainingLen (dashboardId rand) dashboardUser (key ++ dashboardUser) % 256 < 128 ∧
          (key = cfg.accessKey ∨ cfg.accessKey = [])) ∧
      (s.authenticated = true → s.role = ascii "monitor" ∧
        (rest = [dashboardSubscribe] → ∀ topic, MqttSession.isReserved topic = true →
          s.matchesTopic topic = true)) := by
  obtain ⟨hconnect, hrole⟩ := connect_dashboard hkey rand cfg.accessKey
  have hclient := client_run hrun hs
  rw [hhandled, List.foldl_cons] at hclient
  rcases List.prefix_cons_iff.mp hrest with rfl | ⟨t, rfl, ht⟩
  · rw [List.foldl_nil] at hclient
    have hauth : s.authenticated = _ := congrArg Replies.Client.authenticated hclient
    have hr : s.role = _ := congrArg Replies.Client.role hclient
    rw [hauth, hr]
    exact ⟨hconnect, fun h => ⟨hrole h, nofun⟩⟩
  · obtain rfl := List.prefix_nil.mp ht
    rw [List.foldl_cons, List.foldl_nil, subscribe_dashboard] at hclient
    have hauth : s.authenticated = _ := congrArg Replies.Client.authenticated hclient
    have hr : s.role = _ := congrArg Replies.Client.role hclient
    have hsubs : s.subscriptions = _ := congrArg Replies.Client.subscriptions hclient
    by_cases h : (Replies.Client.unknown.handle cfg.accessKey (dashboardConnect key rand)).1.authenticated = true
    · rw [if_pos h] at hauth hr hsubs
      refine ⟨⟨fun _ => hconnect.mp h, fun _ => hauth.trans h⟩, fun _ => ⟨hr.trans (hrole h), fun _ topic ht => ?_⟩⟩
      rw [MqttSession.matchesTopic, hsubs]
      exact List.any_eq_true.mpr ⟨_, List.mem_append_right _ (List.mem_singleton_self _), matches_reserved ht⟩
    · rw [if_neg h] at hauth
      have hno : s.authenticated ≠ true := fun hyes => h (hauth.symm.trans hyes)
      exact ⟨⟨fun hyes => absurd hyes hno, fun hc => absurd (hconnect.mpr hc) h⟩, fun hyes => absurd hyes hno⟩

private def joining : List World.Event :=
  clientSends [upgradeRequest, clientFrame (dashboardConnect (ascii "secret") 17), clientFrame dashboardSubscribe]

private def joined : World := ((machine keyedListener).exec (init keyedListener) joining).getD (init keyedListener)

theorem dashboard_joined : (joined.session 0).authenticated = true ∧ (joined.session 0).role = ascii "monitor" ∧
    (joined.session 0).matchesTopic (ascii "apr/job") = true := by
  have hrun : (machine keyedListener).Reaches (init keyedListener) joining joined :=
    (machine keyedListener).reaches_exec (by decide +kernel)
  have hhandled : (joined.session 0).handled = [dashboardConnect (ascii "secret") 17, dashboardSubscribe] := by
    decide +kernel
  have hkey : (ascii "secret").length < 65000 := by decide
  obtain ⟨hiff, hthen⟩ :=
    dashboard_joins_iff keyedListener hrun (session_eq (by decide +kernel)) hkey hhandled (List.prefix_refl _)
  have hauth := hiff.mpr ⟨by decide +kernel, .inl rfl⟩
  obtain ⟨hrole, hmatches⟩ := hthen hauth
  exact ⟨hauth, hrole, hmatches rfl _ (by decide +kernel)⟩

end LightApr.Sdk.PageFeed
