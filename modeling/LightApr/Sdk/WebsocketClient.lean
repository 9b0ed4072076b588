import LightApr.Lib.Outgoing
import LightApr.Mqtt.WebsocketRoundTrip
import LightApr.Sdk.Stream
import LightApr.Server.Replies
import LightApr.Server.Wire

/-! The receive path of the C++ client library on a WebSocket, against what a session of the server has on its wire. -/
namespace LightApr.Sdk.WebsocketClient
open LightApr.Core Lib Lib.Framing Mqtt WebsocketCodec FrameStream Server World
open LightApr.Sdk.Stream (Short processMqttBuffer packet front front_packet front_long packet_short)
open Lib.Writers (Channel)
open Replies (Written Accounts Arrived)
open Wire (ExclusiveTransfers tidy_run)

/-- The calls of `handle_publish` that a frame leads to; none: an exception. -/
def frameCalls (frame : WsFrame) : Option (List (Bytes × Bytes)) :=
  if frame.opcode = 0x01 ∨ frame.opcode = 0x02 then
    let scan := processMqttBuffer frame.payload
    if scan.threw then none else some scan.published
  else some []

/-- The loop of `process_stream` over the frames; none: the exception leaves the thread that runs the reads. -/
def processStream (c : Stream.Client) : Option Stream.Client :=
  match _h : decodeFrame c.streamBuf with
  | .incomplete => some c
  | .threw => none
  | .frame frame consumed =>
    match frameCalls frame with
    | none => none
    | some calls => processStream ⟨c.published ++ calls, c.streamBuf.drop consumed⟩
termination_by c.streamBuf.length
decreasing_by
  have := decodeFrame_within _h
  rw [List.length_drop]
  omega

/-- The handler of `do_read`. -/
def doRead (c : Stream.Client) (read : Bytes) : Option Stream.Client :=
  processStream { c with streamBuf := c.streamBuf ++ read }

def receive (reads : List Bytes) : Option Stream.Client := reads.foldlM doRead ⟨[], []⟩

/-! The frames of a stream. -/

/-- The calls of some frames, one after the other. -/
def calls : List WsFrame → Option (List (Bytes × Bytes))
  | [] => some []
  | frame :: frames => (frameCalls frame).bind fun now => (calls frames).map fun later => now ++ later

theorem calls_append (frames more : List WsFrame) :
    calls (frames ++ more) = (calls frames).bind fun now => (calls more).map fun later => now ++ later := by
  induction frames with
  | nil => simp [calls]
  | cons frame frames ih =>
    rw [List.cons_append, calls, calls, ih]
    cases frameCalls frame with
    | none => rfl
    | some a =>
      cases calls frames with
      | none => rfl
      | some b => cases calls more <;> simp

theorem framer_pos {data : Bytes} {n : Nat} (h : framer.cut data = some n) : 0 < n := by
  simp only [framer] at h
  split at h
  · rename_i hd
    obtain rfl := Option.some.inj h
    have := decodeFrame_within hd
    omega
  · cases h
  · cases h

/-- The loop makes the calls of the frames in the buffer, and leaves what follows them. -/
theorem processStream_peels {data rest : Bytes} {raws : List Bytes} (hp : framer.Peels data raws rest)
    (hr : framer.Stuck rest) (hn : decodeFrame rest ≠ .threw) (published : List (Bytes × Bytes)) :
    processStream ⟨published, data⟩ =
      (calls (raws.filterMap readFrame)).map fun made => ⟨published ++ made, rest⟩ := by
  induction hp generalizing published with
  | done rest =>
    rw [processStream]
    split
    · simp [calls]
    · rename_i hd
      exact absurd hd hn
    · rename_i hd
      rw [Framer.Stuck, framer_cut hd] at hr
      cases hr
  | @next data rest n raws hc hp ih =>
    obtain ⟨frame, hd⟩ : ∃ frame, decodeFrame data = .frame frame n := by
      simp only [framer] at hc
      split at hc
      · rename_i hd
        obtain rfl := Option.some.inj hc
        exact ⟨_, hd⟩
      · cases hc
      · cases hc
    rw [List.filterMap_cons_some (readFrame_take hd), calls, processStream]
    split
    · rename_i hd'
      cases hd.symm.trans hd'
    · rename_i hd'
      cases hd.symm.trans hd'
    · rename_i hd'
      obtain ⟨rfl, rfl⟩ := DecodeResult.frame.inj (hd.symm.trans hd')
      cases frameCalls frame with
      | none => rfl
      | some made =>
        dsimp only
        rw [ih hr hn, Option.bind_some, Option.map_map]
        congr 1
        funext later
        simp

/-- However a stream is divided into reads, the calls are those of its frames. -/
theorem receive_peels {reads : List Bytes} {raws : List Bytes} {rest : Bytes}
    (hp : framer.Peels reads.flatten raws rest) (hr : framer.Stuck rest) (hn : decodeFrame rest ≠ .threw) :
    receive reads = (calls (raws.filterMap readFrame)).map fun made => ⟨made, rest⟩ := by
  induction reads using List.reverseRecOn generalizing raws rest with
  | nil =>
    obtain ⟨rfl, rfl⟩ := (Framer.Peels.done []).unique hp rfl hr
    rfl
  | append_singleton reads read ih =>
    rw [List.flatten_append, List.flatten_singleton] at hp
    obtain ⟨raws₀, rest₀, hp₀, hr₀⟩ := Framer.exists_peels_stuck framer_pos reads.flatten
    obtain ⟨raws₁, rest₁, hp₁, hr₁⟩ := Framer.exists_peels_stuck framer_pos (rest₀ ++ read)
    obtain ⟨rfl, rfl⟩ := (hp₀.feed hp₁).unique hp hr₁ hr
    have hn₀ : decodeFrame rest₀ ≠ .threw := by
      intro hthrew
      -- nothing is cut off a buffer that throws
      have hstuck : framer.Stuck (rest₀ ++ read) := by
        simp only [Framer.Stuck, framer, decodeFrame_threw_append hthrew read]
      obtain ⟨-, rfl⟩ := (Framer.Peels.done _).unique hp₁ hstuck hr
      exact hn (decodeFrame_threw_append hthrew read)
    rw [receive, List.foldlM_append, ← receive, ih hp₀ hr₀ hn₀, List.filterMap_append, calls_append]
    cases calls (raws₀.filterMap readFrame) with
    | none => rfl
    | some made =>
      have hlast := processStream_peels hp₁ hr hn made
      show (List.foldlM doRead ⟨made, rest₀⟩ [read]) = _
      rw [List.foldlM_cons, doRead, hlast, Option.bind_some, Option.map_map]
      cases calls (raws₁.filterMap readFrame) <;> rfl

/-! One packet in one frame. -/

theorem front_threw_append {p : Bytes} (h : front p = .threw) (t : Bytes) : front (p ++ t) = .threw := by
  unfold front at h ⊢
  dsimp only at h ⊢
  split at h
  · cases h
  · rename_i h2
    have h1 : (p ++ t).getD 1 0 = p.getD 1 0 := List.getD_append _ _ _ _ (by omega)
    have h0 : (p ++ t).getD 0 0 = p.getD 0 0 := List.getD_append _ _ _ _ (by omega)
    rw [h1, h0, List.length_append]
    split at h
    · cases h
    · rename_i hlen
      rw [if_neg (by omega), if_neg (by omega)]
      split at h
      · rename_i htype
        rw [if_pos htype]
        split at h
        · rename_i hshort
          by_cases h4 : 4 ≤ 2 + (p.getD 1 0).toNat
          · have h2' : (p ++ t).getD 2 0 = p.getD 2 0 := List.getD_append _ _ _ _ (by omega)
            have h3 : (p ++ t).getD 3 0 = p.getD 3 0 := List.getD_append _ _ _ _ (by omega)
            rw [h2', h3, if_pos hshort]
          · exact if_pos (Nat.lt_of_lt_of_le (Nat.lt_of_not_le h4) (Nat.le_add_right ..))
        · cases h
      · cases h

theorem processMqttBuffer_threw {p : Bytes} (h : front p = .threw) : processMqttBuffer p = ⟨[], 0, true⟩ := by
  rw [processMqttBuffer]
  split
  · rename_i he
    cases h.symm.trans he
  · rfl
  · rename_i he
    cases h.symm.trans he

/-- A packet other than a PUBLISH, with one byte of remaining length. -/
theorem processMqttBuffer_other {header len : UInt8} {body : Bytes} (ht : header &&& 0xF0 ≠ Packet.publish)
    (hl : body.length = len.toNat) : processMqttBuffer (header :: len :: body) = ⟨[], 2 + len.toNat, false⟩ := by
  have hf : front (header :: len :: body) = .packet none (2 + len.toNat) := by
    unfold front
    simp only [List.length_cons, List.getD_cons_zero, List.getD_cons_succ]
    rw [if_neg (by omega), if_neg (by omega), if_neg ht]
  rw [processMqttBuffer]
  split
  · rename_i he
    cases hf.symm.trans he
  · rename_i he
    cases hf.symm.trans he
  · rename_i call n he
    obtain ⟨rfl, rfl⟩ := Stream.Front.packet.inj (hf.symm.trans he)
    have hnil : (header :: len :: body).drop (2 + len.toNat) = [] :=
      List.drop_eq_nil_of_le (by simp only [List.length_cons]; omega)
    have hempty : processMqttBuffer [] = ⟨[], 0, false⟩ := by
      have hinc : front [] = .incomplete := rfl
      rw [processMqttBuffer]
      split
      · rfl
      · rename_i he
        cases hinc.symm.trans he
      · rename_i he
        cases hinc.symm.trans he
    rw [hnil, hempty]
    rfl

theorem processMqttBuffer_short {m : Bytes × Bytes} (h : Short m) :
    processMqttBuffer (packet m) = ⟨[m], (packet m).length, false⟩ := by
  have hw : processMqttBuffer (Stream.wire [m] ++ []) = ⟨[m], (Stream.wire [m]).length, false⟩ :=
    Stream.processMqttBuffer_wire (fun x hx => List.mem_singleton.mp hx ▸ h) rfl
  have hone : Stream.wire [m] = packet m := by simp [Stream.wire]
  rwa [List.append_nil, hone] at hw

theorem processMqttBuffer_long {m : Bytes × Bytes} (h : ¬ Short m) : (processMqttBuffer (packet m)).threw = true := by
  obtain ⟨k, -, -, hthrew⟩ := front_long h
  have hall := front_threw_append hthrew ((packet m).drop k)
  rw [List.take_append_drop] at hall
  rw [processMqttBuffer_threw hall]

/-! What the server writes behind the upgrade response. -/

/-- The frame in which it goes out. -/
def frameOf : Written → WsFrame
  | .reply packet => ⟨0x02, true, packet⟩
  | .pong payload => ⟨0x0A, true, payload⟩
  | .message topic payload => ⟨0x02, true, packet (topic, payload)⟩
  | .handshake _ => ⟨0x00, true, []⟩

/-- One frame, in front of whatever follows. -/
def Framed (u : Written) : Prop :=
  ∀ t : Bytes, decodeFrame (u.bytes true ++ t) = .frame (frameOf u) (u.bytes true).length

/-- An answer to a packet of this client library, a pong, or a message. -/
inductive Fits : Written → Prop
  | reply {header len : UInt8} {body : Bytes} : header &&& 0xF0 ≠ Packet.publish → body.length = len.toNat →
      Fits (.reply (header :: len :: body))
  | pong (payload : Bytes) : Fits (.pong payload)
  | message (topic payload : Bytes) : Fits (.message topic payload)

theorem framed_of_size {u : Written} (hno : ∀ key, u ≠ .handshake key) (h : (u.bytes true).length < 2 ^ 63) :
    Framed u := by
  intro t
  have hframe (payload : Bytes) (opcode : UInt8) (hlen : (encodeFrame payload opcode).length < 2 ^ 63) :
      decodeFrame (encodeFrame payload opcode ++ t) =
        .frame ⟨opcode &&& 0x0F, true, payload⟩ (encodeFrame payload opcode).length :=
    decodeFrame_encodeFrame payload opcode t (Nat.lt_trans hlen (by decide))
  cases u with
  | handshake key => exact absurd rfl (hno key)
  | reply packet => exact hframe packet 0x02 h
  | pong payload => exact hframe payload 0x0A h
  | message topic payload => exact hframe (packet (topic, payload)) 0x02 h

/-- A long message throws, whatever else there is. -/
theorem Fits.frameCalls {u : Written} (h : Fits u) :
    frameCalls (frameOf u) = if ∀ m ∈ u.message?, Short m then some u.message?.toList else none := by
  cases h with
  | reply ht hl =>
    rw [if_pos nofun, WebsocketClient.frameCalls, frameOf, if_pos (.inr rfl), processMqttBuffer_other ht hl]
    rfl
  | pong => rfl
  | message topic payload =>
    rw [WebsocketClient.frameCalls, frameOf, if_pos (.inr rfl)]
    by_cases hs : Short (topic, payload)
    · rw [if_pos (fun m hm => Option.some.inj hm ▸ hs), processMqttBuffer_short hs]
      rfl
    · have hno : ¬ ∀ m ∈ (Written.message topic payload).message?, Short m := fun hall => hs (hall _ rfl)
      rw [if_neg hno]
      dsimp only
      rw [if_pos (processMqttBuffer_long hs)]

def stream (units : List Written) : Bytes := (units.map (·.bytes true)).flatten

theorem stream_append (units more : List Written) : stream (units ++ more) = stream units ++ stream more := by
  rw [stream, stream, stream, List.map_append, List.flatten_append]

/-- However the bytes behind the upgrade response are divided into reads, the client has made the calls of the complete
units, and holds what follows them. -/
def Delivered (behind : Bytes) (sent : List Written) : Prop :=
  ∀ reads : List Bytes, (∀ read ∈ reads, read ≠ [] ∧ read.length ≤ 4096) → reads.flatten <+: behind →
    ∃ c done pending, receive reads = some c ∧ sent = done ++ pending ∧
      c.published = done.filterMap Written.message? ∧ reads.flatten = stream done ++ c.streamBuf ∧
      ∀ u ∈ pending.head?, ¬ u.bytes true <+: c.streamBuf

section
variable {units sent : List Written} {out : Channel UInt8} {skip : Nat} {part : Bytes}

theorem calls_units (h : ∀ u ∈ units, Fits u) : calls (units.map frameOf) =
    if ∀ m ∈ units.filterMap Written.message?, Short m then some (units.filterMap Written.message?) else none := by
  induction units with
  | nil => rfl
  | cons u units ih =>
    rw [List.map_cons, calls, (h u (List.mem_cons_self ..)).frameCalls, ih fun v hv => h v (List.mem_cons_of_mem _ hv)]
    cases hm : u.message? with
    | none =>
      rw [if_pos nofun, List.filterMap_cons_none hm]
      simp
    | some m =>
      rw [List.filterMap_cons_some hm]
      by_cases hs : Short m
      · rw [if_pos (fun x hx => Option.some.inj hx ▸ hs)]
        simp only [List.mem_cons, forall_eq_or_imp, hs, true_and, Option.toList_some, Option.bind_some,
          List.singleton_append]
        split <;> rfl
      · have hno : ¬ ∀ x ∈ m :: units.filterMap Written.message?, Short x :=
          fun hall => hs (hall m (List.mem_cons_self ..))
        rw [if_neg (fun hall => hs (hall m rfl)), if_neg hno]
        rfl

theorem words_units (h : ∀ u ∈ units, Framed u) : ∀ raw ∈ units.map (·.bytes true), framer.Word raw := by
  intro raw hraw
  obtain ⟨u, hu, rfl⟩ := List.mem_map.mp hraw
  have hd := h u hu []
  rw [List.append_nil] at hd
  exact framer_cut hd

theorem peels_units (h : ∀ u ∈ units, Framed u) (t : Bytes) :
    framer.Peels (stream units ++ t) (units.map (·.bytes true)) t :=
  Framer.peels_words _ t (words_units h)

theorem readFrame_units (h : ∀ u ∈ units, Framed u) :
    (units.map (·.bytes true)).filterMap readFrame = units.map frameOf := by
  induction units with
  | nil => rfl
  | cons u units ih =>
    have hd := h u (List.mem_cons_self ..) []
    rw [List.append_nil] at hd
    have hread : readFrame (u.bytes true) = some (frameOf u) := by simp only [readFrame, hd]
    rw [List.map_cons, List.filterMap_cons_some hread, ih fun v hv => h v (List.mem_cons_of_mem _ hv), List.map_cons]

/-- A part of the stream holds some units and the beginning of the next. -/
theorem exists_units (h : ∀ u ∈ units, Framed u) {part : Bytes} (hp : part <+: stream units) :
    ∃ done pending rest, units = done ++ pending ∧ part = stream done ++ rest ∧ framer.Stuck rest ∧
      decodeFrame rest ≠ .threw ∧ ∀ u ∈ pending.head?, ¬ u.bytes true <+: rest := by
  obtain ⟨raws, later, rest, hraws, hpart, hstuck, hnext⟩ := Framer.exists_words (F := framer) rfl (words_units h) hp
  obtain ⟨done, pending, rfl, rfl, rfl⟩ := List.map_eq_append_iff.mp hraws
  refine ⟨done, pending, rest, rfl, hpart, hstuck, fun hthrew => ?_, fun u hu => ?_⟩
  · obtain ⟨t, ht⟩ := hp
    have hrest : rest ++ t = stream pending := by
      rw [stream_append, hpart, List.append_assoc] at ht
      exact List.append_cancel_left ht
    have hbad := decodeFrame_threw_append hthrew t
    rw [hrest] at hbad
    cases pending with
    | nil => cases hbad
    | cons u pending =>
      have hd := h u (by simp) (stream pending)
      rw [← show stream (u :: pending) = u.bytes true ++ stream pending from rfl, hbad] at hd
      cases hd
  · exact hnext _ (by rw [List.head?_map]; exact Option.mem_map_of_mem _ hu)

/-- The client has made the calls of the units in front of what is left, or a long message has thrown. -/
theorem receive_done (hf : ∀ u ∈ units, Framed u) (h : ∀ u ∈ units, Fits u) {reads : List Bytes} {rest : Bytes}
    (hpart : reads.flatten = stream units ++ rest) (hstuck : framer.Stuck rest) (hn : decodeFrame rest ≠ .threw) :
    receive reads = if ∀ m ∈ units.filterMap Written.message?, Short m then
      some ⟨units.filterMap Written.message?, rest⟩ else none := by
  have hpeels := peels_units hf rest
  rw [← hpart] at hpeels
  rw [receive_peels hpeels hstuck hn, readFrame_units hf, calls_units h]
  split <;> rfl

/-- A part of what has gone out holds some units and the beginning of the next. -/
theorem exists_sent (hf : ∀ u ∈ units, Framed u) (hout : out.Outgoing skip (·.bytes true) units sent part)
    {read : Bytes}
    (hread : read <+: out.received.drop skip) : ∃ done pending rest, sent = done ++ pending ∧
      read = stream done ++ rest ∧ (framer.Stuck rest ∧ decodeFrame rest ≠ .threw) ∧
      ∀ u ∈ pending.head?, ¬ u.bytes true <+: rest :=
  hout.cut (Q := fun _ rest => framer.Stuck rest ∧ decodeFrame rest ≠ .threw) hread fun us hus hp => by
    obtain ⟨done, pending, rest, hsplit, hpart, hstuck, hn, hnext⟩ := exists_units (fun u hu => hf u (hus hu)) hp
    exact ⟨done, pending, rest, hsplit, hpart, ⟨hstuck, hn⟩, hnext⟩

/-- **Exactly if every message that has gone out is short, the client receives what has gone out, in any division.** -/
theorem delivered_iff (hf : ∀ u ∈ units, Framed u) (h : ∀ u ∈ units, Fits u)
    (hout : out.Outgoing skip (·.bytes true) units sent part) :
    Delivered (out.received.drop skip) sent ↔ ∀ m ∈ sent.filterMap Written.message?, Short m := by
  have hmem : ∀ u ∈ sent, u ∈ units := hout.once.subset
  constructor
  · intro hd
    -- all of it, byte by byte
    let single : List Bytes := (out.received.drop skip).map fun b => [b]
    have hflat : single.flatten = out.received.drop skip :=
      (List.flatMap_def ..).symm.trans (List.flatMap_singleton' _)
    obtain ⟨c, -, -, hc, -⟩ := hd single (by
      intro read hr
      obtain ⟨b, -, rfl⟩ := List.mem_map.mp hr
      simp) (by rw [hflat])
    obtain ⟨done, pending, rest, rfl, hpart, ⟨hstuck, hn⟩, hnext⟩ := exists_sent hf hout (List.prefix_refl _)
    obtain rfl := hout.pending_nil hpart hnext
    rw [List.append_nil] at hmem ⊢
    have hrec := receive_done (fun u hu => hf u (hmem u hu)) (fun u hu => h u (hmem u hu)) (hflat.trans hpart) hstuck hn
    by_contra hlong
    rw [hc, if_neg hlong] at hrec
    cases hrec
  · intro hs reads _ hp
    obtain ⟨done, pending, rest, rfl, hpart, ⟨hstuck, hn⟩, hnext⟩ := exists_sent hf hout hp
    have hdone : ∀ u ∈ done, u ∈ units := fun u hu => hmem u (List.mem_append_left _ hu)
    have hrec := receive_done (fun u hu => hf u (hdone u hu)) (fun u hu => h u (hdone u hu)) hpart hstuck hn
    rw [List.filterMap_append] at hs
    rw [if_pos fun m hm => hs m (List.mem_append_left _ hm)] at hrec
    exact ⟨_, done, pending, hrec, rfl, rfl, hpart, hnext⟩

end

/-! A session of the server. -/

/-- What answers a packet, unless it is a SUBSCRIBE of more topics than this client ever asks for. -/
theorem fits_reply {accessKey data reply : Bytes} {c : Replies.Client}
    (hsub : ∀ sub, Packet.decodeSubscribe data = some sub → sub.topics.length ≤ 125)
    (h : reply ∈ (c.handle accessKey data).2) : Fits (.reply reply) := by
  have connack (returnCode : UInt8) : Fits (.reply (Packet.encodeConnack returnCode)) := .reply (by decide) rfl
  unfold Replies.Client.handle at h
  split at h
  · unfold Replies.Client.connect at h
    split at h
    · exact List.mem_singleton.mp h ▸ connack _
    · dsimp only at h
      split at h
      · exact List.mem_singleton.mp h ▸ connack _
      · exact List.mem_singleton.mp h ▸ connack _
  · split at h
    · unfold Replies.Client.publish at h
      split at h
      · split at h
        · rw [List.mem_singleton.mp h]
          exact .reply (by decide) rfl
        · cases h
      · cases h
    · split at h
      · unfold Replies.Client.subscribe at h
        split at h
        · rename_i sub hd
          split at h
          · have hlen := hsub sub hd
            have hbody : (Packet.u16 sub.packetId ++ sub.topics.map fun _ => (0x00 : UInt8)).length =
                2 + sub.topics.length := by
              rw [List.length_append, List.length_map]
              rfl
            rw [List.mem_singleton.mp h, Packet.encodeSuback, hbody, Packet.encodeRemainingLength_lt (by omega)]
            refine .reply (by decide) (hbody.trans ?_)
            rw [UInt8.toNat_ofNat', Nat.mod_eq_of_lt (by omega)]
          · cases h
        · cases h
      · split at h
        · rw [List.mem_singleton.mp h]
          exact .reply (by decide) rfl
        · cases h

/-- What a session writes behind the upgrade response. -/
inductive Sent (accessKey : Bytes) (s : MqttSession) : Written → Prop
  | reply {c : Replies.Client} {data reply : Bytes} : data ∈ s.handled → reply ∈ (c.handle accessKey data).2 →
      Sent accessKey s (.reply reply)
  | pong (payload : Bytes) : Sent accessKey s (.pong payload)
  | message (topic payload : Bytes) : Sent accessKey s (.message topic payload)

theorem Sent.framed {accessKey : Bytes} {s : MqttSession} {u : Written} (h : Sent accessKey s u)
    (hsize : (u.bytes true).length < 2 ^ 63) : Framed u := by
  refine framed_of_size (fun key he => ?_) hsize
  subst he
  cases h

/-- The answers of the machine to packets and pings, and the messages. -/
theorem units_run {cfg : ServerConfig} {es : List World.Event} {w : World}
    (hrun : (machine cfg).Reaches (init cfg) es w) {i : Nat} {s : MqttSession} (hs : w.mqtt[i]? = some s)
    (hws : s.isWebsocket = true) : ∃ (key : Bytes) (units : List Written),
      s.out.buffers = (.handshake key :: units).map (·.bytes true) ∧ units.filterMap Written.message? = s.broadcasts ∧
      ∀ u ∈ units, Sent cfg.accessKey s u := by
  obtain ⟨frames, arrivals, written, hpeeled, harrived, haccounts⟩ := Replies.accounts_run hrun hs
  have hpackets := harrived.packets hpeeled
  obtain ⟨key, hkey⟩ := haccounts.first hws
  obtain ⟨units, rfl⟩ := List.head?_eq_some_iff.mp hkey
  have hbuffers := haccounts.buffers
  rw [hws] at hbuffers
  refine ⟨key, units, hbuffers, haccounts.messages, fun u hu => ?_⟩
  cases hm : u.message? with
  | some m =>
    cases u with
    | message topic payload => exact .message topic payload
    | handshake | reply | pong => cases hm
  | none =>
    cases harrived with
    | plain hno => cases hno.symm.trans hws
    | @websocket request key' protocol _ _ _ =>
      have hall := haccounts.answers
      rw [List.filter_cons_of_pos rfl] at hall
      have hrest : u ∈ (Replies.responder cfg.accessKey).output _ (frames.filterMap Replies.arrival?) :=
        (List.cons.inj hall).2 ▸ List.mem_filter.mpr ⟨hu, Option.isNone_iff_eq_none.mpr hm⟩
      obtain ⟨c, x, hx, hy⟩ := Transducer.mem_output hrest
      cases x with
      | upgrade key =>
        -- no frame is an upgrade
        obtain ⟨frame, -, hf⟩ := List.mem_filterMap.mp hx
        rw [Replies.arrival?] at hf
        split at hf
        · cases hf
        · split at hf <;> cases hf
      | ping payload =>
        obtain rfl := List.mem_singleton.mp hy
        exact .pong payload
      | packet data =>
        obtain ⟨reply, hreply, rfl⟩ := List.mem_map.mp hy
        have hmem : data ∈ s.handled :=
          hpackets ▸ List.mem_filterMap.mpr ⟨_, List.mem_cons_of_mem _ hx, rfl⟩
        exact .reply hmem hreply

/-- What a WebSocket session has on its wire behind the upgrade response, if this went out first. -/
theorem outgoing_run {cfg : ServerConfig} {es : List World.Event} {w : World}
    (hrun : (machine cfg).Run ExclusiveTransfers (init cfg) es w) {i : Nat} {s : MqttSession} (hs : w.mqtt[i]? = some s)
    (hws : s.isWebsocket = true) (hfirst : s.out.FirstOut) : ∃ (key : Bytes) (units sent : List Written) (part : Bytes),
      s.out.buffers = (.handshake key :: units).map (·.bytes true) ∧ units.filterMap Written.message? = s.broadcasts ∧
      s.out.Outgoing ((Written.handshake key).bytes true).length (·.bytes true) units sent part ∧
      ∀ u ∈ units, Sent cfg.accessKey s u := by
  obtain ⟨key, units, hbuffers, hmessages, hsent⟩ := units_run hrun.reaches hs hws
  obtain ⟨done, open?, ht⟩ := tidy_run hrun i s hs
  obtain ⟨sent, part, hout⟩ := ht.outgoing_first hbuffers hfirst
  exact ⟨key, units, sent, part, hbuffers, hmessages, hout, hsent⟩

/-- **Whatever happens on the server: where no write overlaps another on its wire, and the upgrade response goes out
first, a client on a WebSocket session receives the messages broadcast to it that have gone out whole, each once and in
their order on the wire, however its reads divide the bytes, exactly if all of them are short; the answers and pongs in
between do no harm.** -/
theorem websocket_client_receives_iff (cfg : ServerConfig) {es : List World.Event} {w : World}
    (hrun : (machine cfg).Run ExclusiveTransfers (init cfg) es w) {i : Nat} {s : MqttSession} (hs : w.mqtt[i]? = some s)
    (hws : s.isWebsocket = true) (hfirst : s.out.FirstOut) (hsize : ∀ buf ∈ s.out.buffers, buf.length < 2 ^ 63)
    (hsub : ∀ data ∈ s.handled, ∀ sub, Packet.decodeSubscribe data = some sub → sub.topics.length ≤ 125) :
    ∃ (key : Bytes) (units sent : List Written) (part : Bytes),
      s.out.buffers = (.handshake key :: units).map (·.bytes true) ∧ units.filterMap Written.message? = s.broadcasts ∧
      s.out.Outgoing ((Written.handshake key).bytes true).length (·.bytes true) units sent part ∧
      (Delivered (s.out.received.drop ((Written.handshake key).bytes true).length) sent ↔
        ∀ m ∈ sent.filterMap Written.message?, Short m) := by
  obtain ⟨key, units, sent, part, hbuffers, hmessages, hout, hsent⟩ := outgoing_run hrun hs hws hfirst
  have hframed : ∀ u ∈ units, Framed u := fun u hu =>
    (hsent u hu).framed (hsize _ (hbuffers ▸ List.mem_cons_of_mem _ (List.mem_map.mpr ⟨u, hu, rfl⟩)))
  have hfits : ∀ u ∈ units, Fits u := by
    intro u hu
    cases hsent u hu with
    | reply hdata hreply => exact fits_reply (hsub _ hdata) hreply
    | pong payload => exact .pong payload
    | message topic payload => exact .message topic payload
  exact ⟨key, units, sent, part, hbuffers, hmessages, hout, delivered_iff hframed hfits hout⟩

/-- The client subscribes to `a`, and publishes `x` there itself; the response, the answers and the message go out. -/
private def echoing : List World.Event :=
  clientSends [upgradeRequest, clientFrame connectPacket, clientFrame (subscribePacket (ascii "a")),
    clientFrame (Packet.encodePublish (ascii "a") (ascii "x") 0 0)] ++ clientGets [159, 6, 7, 8]

private def echoed : World :=
  ((machine oneListener).execIf ExclusiveTransfers (init oneListener) echoing).getD (init oneListener)

private theorem echoed_session :
    ((machine oneListener).execIf ExclusiveTransfers (init oneListener) echoing).isSome = true ∧
      0 < echoed.mqtt.length ∧ (echoed.session 0).isWebsocket = true ∧ (echoed.session 0).out.FirstOut ∧
      (echoed.session 0).out.Finished ∧ (∀ buf ∈ (echoed.session 0).out.buffers, buf.length < 1000) ∧
      (∀ data ∈ (echoed.session 0).handled,
        ((Packet.decodeSubscribe data).map fun sub => sub.topics.length).getD 0 ≤ 125) ∧
      (echoed.session 0).broadcasts = [(ascii "a", ascii "x")] := by decide +kernel

/-- The echo of the client's own message arrives. -/
theorem echo_received : ∃ (skip : Nat) (sent : List Written), Delivered
    ((echoed.session 0).out.received.drop skip) sent ∧
    sent.filterMap Written.message? = [(ascii "a", ascii "x")] := by
  obtain ⟨hrun, hi, hws, hfirst, hfinished, hsize, hsub, hbroadcasts⟩ := echoed_session
  have hreached : (machine oneListener).Run ExclusiveTransfers (init oneListener) echoing echoed :=
    (machine oneListener).run_execIf ExclusiveTransfers hrun
  obtain ⟨key, units, sent, part, -, hmessages, hout, hiff⟩ :=
    websocket_client_receives_iff oneListener hreached (session_eq hi) hws hfirst
      (fun buf hbuf => Nat.lt_trans (hsize buf hbuf) (by decide)) (fun data hdata sub hd => by
        have hlen := hsub data hdata
        rwa [hd] at hlen)
  have hall := (hout.finished hfinished).1.filterMap Written.message?
  rw [hmessages, hbroadcasts, List.perm_singleton] at hall
  refine ⟨_, sent, hiff.mpr ?_, hall⟩
  rw [hall]
  decide

end LightApr.Sdk.WebsocketClient
