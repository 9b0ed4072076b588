import LightApr.Server.FrameLoop
import LightApr.Server.Provenance

/-! A CONNECT that is refused is the last thing a session handles. -/
namespace LightApr.Server.Refusal
open LightApr.Core Lib Lib.Framing Mqtt MqttSession World FrameStream Receiving FrameLoop WebsocketCodec Packet

/-- The packet is a CONNECT, and malformed or without the password for its user name. -/
def refuses (accessKey data : Bytes) : Bool :=
  decide (data.headD 0 &&& 0xF0 = connect) &&
    match decodeConnect data with
    | none => true
    | some conn => decide (conn.password ≠ expectedPassword accessKey conn.username ∧ accessKey ≠ [])

def framedOn (isWebsocket : Bool) (data : Bytes) : Bytes := if isWebsocket then encodeFrame data 0x02 else data

/-- A CONNACK with a return code other than "accepted". -/
def IsRefusal (isWebsocket : Bool) (buf : Bytes) : Prop :=
  ∃ returnCode, returnCode ≠ 0 ∧ buf = framedOn isWebsocket (encodeConnack returnCode)

/-- A message of another session or of the registry. -/
def IsDelivery (isWebsocket : Bool) (buf : Bytes) : Prop :=
  ∃ topic payload, buf = framedOn isWebsocket (encodePublish topic payload 0 0)

/-- What the session is to the server. -/
def profile (s : MqttSession) : Bool × Bytes × Bytes × Bytes × Bytes × List Bytes × List Registration :=
  (s.authenticated, s.clientId, s.username, s.role, s.nodeId, s.subscriptions, s.registrations)

/-- Only writes have been added, of buffers in `B`, and none that closes the session. -/
structure Keeps (B : Bytes → Prop) (s s' : MqttSession) : Prop where
  input : SameInput s s'
  closing : s'.closing = s.closing
  reads : s'.tcp.reads <:+ s.tcp.reads
  buffers : ∃ more, s'.out.buffers = s.out.buffers ++ more ∧ ∀ buf ∈ more, B buf
  writes : ∀ x ∈ s'.writes, x ∈ s.writes ∨
    (x.2 ≠ .closing ∧ s.out.buffers.length ≤ x.1 ∧ x.1 < s'.out.buffers.length)

/-- What happens to a session other than through its own reads. -/
structure Passes (s s' : MqttSession) : Prop where
  keeps : Keeps (IsDelivery s.isWebsocket) s s'
  pending : s'.tcp.closed = true ∨ ∀ x ∈ s.writes, x.2 = .closing → x ∈ s'.writes
  profile : profile s' = profile s

variable {cfg : ServerConfig} {now : Int} {i : Nat} {w w' : World} {s s' s'' : MqttSession} {accessKey data : Bytes}
  {B B' : Bytes → Prop}

/-! Buffers. -/

theorem framedOn_inj {isWebsocket : Bool} {p q : Bytes} (h : framedOn isWebsocket p = framedOn isWebsocket q) :
    p = q := by
  cases isWebsocket with
  | true => exact Provenance.encodeFrame_inj h
  | false => exact h

theorem IsDelivery.not_isRefusal {isWebsocket : Bool} {buf : Bytes} (h : IsDelivery isWebsocket buf) :
    ¬ IsRefusal isWebsocket buf := by
  obtain ⟨topic, payload, rfl⟩ := h
  rintro ⟨returnCode, -, h⟩
  have h := framedOn_inj h
  rw [encodePublish_qos0] at h
  exact absurd (List.cons.inj h).1 (by decide)

theorem not_isRefusal_framed (s : MqttSession) (h : ∀ returnCode, returnCode ≠ 0 → data ≠ encodeConnack returnCode) :
    ¬ IsRefusal s.isWebsocket (s.framed data) := by
  rintro ⟨returnCode, hne, he⟩
  exact h returnCode hne (framedOn_inj he)

theorem not_isRefusal_pong (payload : Bytes) : ¬ IsRefusal true (encodeFrame payload 0x0A) := by
  rintro ⟨returnCode, -, h⟩
  exact absurd (List.cons.inj h).1 (by decide)

theorem not_isRefusal_handshake (acceptKey : Bytes) :
    ¬ IsRefusal true (generateHandshakeResponse acceptKey (ascii "mqtt")) := by
  rintro ⟨returnCode, -, h⟩
  have hhead : (72 : UInt8) = 0x80 ||| (0x02 &&& 0x0F) := congrArg (fun l : Bytes => l.headD 0) h
  exact absurd hhead (by decide)

/-! What adds to the writes only. -/

theorem Keeps.refl (s : MqttSession) : Keeps B s s :=
  ⟨.refl s, rfl, List.suffix_rfl, ⟨[], (List.append_nil _).symm, fun _ h => absurd h List.not_mem_nil⟩, fun _ h =>
    .inl h⟩

theorem Keeps.mono (h : Keeps B s s') (hB : ∀ buf, B buf → B' buf) : Keeps B' s s' where
  input := h.input
  closing := h.closing
  reads := h.reads
  buffers :=
    let ⟨more, hm, hall⟩ := h.buffers
    ⟨more, hm, fun buf hbuf => hB buf (hall buf hbuf)⟩
  writes := h.writes

theorem Keeps.trans (h : Keeps B s s') (h' : Keeps B s' s'') : Keeps B s s'' := by
  obtain ⟨more, hm, hall⟩ := h.buffers
  obtain ⟨more', hm', hall'⟩ := h'.buffers
  have hlen : s.out.buffers.length ≤ s'.out.buffers.length := by
    rw [hm, List.length_append]
    exact Nat.le_add_right _ _
  have hlen' : s'.out.buffers.length ≤ s''.out.buffers.length := by
    rw [hm', List.length_append]
    exact Nat.le_add_right _ _
  refine ⟨h.input.trans h'.input, h'.closing.trans h.closing, h'.reads.trans h.reads,
    ⟨more ++ more', by rw [hm', hm, List.append_assoc], fun buf hbuf => ?_⟩, fun x hx => ?_⟩
  · rcases List.mem_append.mp hbuf with hb | hb
    · exact hall buf hb
    · exact hall' buf hb
  · rcases h'.writes x hx with hx | ⟨hne, hge, hlt⟩
    · rcases h.writes x hx with hx | ⟨hne, hge, hlt⟩
      · exact .inl hx
      · exact .inr ⟨hne, hge, Nat.lt_of_lt_of_le hlt hlen'⟩
    · exact .inr ⟨hne, Nat.le_trans hlen hge, hlt⟩

/-- Changes of the other fields. -/
theorem keeps_same (h : SameInput s s') (hclosing : s'.closing = s.closing) (hreads : s'.tcp.reads <:+ s.tcp.reads)
    (hout : s'.out.buffers = s.out.buffers) (hwrites : s'.writes = s.writes) : Keeps B s s' :=
  ⟨h, hclosing, hreads, ⟨[], by rw [hout, List.append_nil], fun _ h => absurd h List.not_mem_nil⟩,
    fun _ hx => .inl (hwrites ▸ hx)⟩

theorem keeps_asyncWrite {buf : Bytes} (kind : WriteKind) (hB : B buf) (hk : kind ≠ .closing) :
    Keeps B s (s.asyncWrite buf kind) := by
  refine ⟨⟨rfl, rfl, rfl, rfl, rfl, id⟩, rfl, List.suffix_rfl, ⟨[buf], rfl, fun b hb => ?_⟩, fun x hx => ?_⟩
  · rwa [List.mem_singleton.mp hb]
  · rcases List.mem_append.mp hx with hx | hx
    · exact .inl hx
    · rw [List.mem_singleton.mp hx]
      refine .inr ⟨hk, Nat.le_refl _, ?_⟩
      show s.out.buffers.length < (s.out.buffers ++ [buf]).length
      rw [List.length_append]
      exact Nat.lt_succ_self _

theorem Passes.refl (s : MqttSession) : Passes s s := ⟨.refl s, .inr fun _ h _ => h, rfl⟩

theorem Passes.trans (h : Passes s s') (h' : Passes s' s'') : Passes s s'' := by
  have hws := h.keeps.input.isWebsocket
  refine ⟨h.keeps.trans (hws ▸ h'.keeps), ?_, h'.profile.trans h.profile⟩
  rcases h'.pending with hc | hp'
  · exact .inl hc
  · rcases h.pending with hc | hp
    · exact .inl (h'.keeps.input.closed hc)
    · exact .inr fun x hx hk => hp' x (hp x hx hk) hk

theorem passes_deliver (server : Nat) (topic payload : Bytes) (s : MqttSession) :
    Passes s (s.deliver server topic payload) := by
  unfold deliver
  split
  · have hrecord : Keeps (IsDelivery s.isWebsocket) s { s with broadcasts := s.broadcasts ++ [(topic, payload)] } :=
      keeps_same ⟨rfl, rfl, rfl, rfl, rfl, id⟩ rfl List.suffix_rfl rfl rfl
    have hsend := hrecord.trans (keeps_asyncWrite .reply ⟨topic, payload, rfl⟩ nofun)
    exact ⟨hsend, .inr fun x hx _ => List.mem_append_left _ hx, rfl⟩
  · exact .refl s

theorem passes_deliverAll (msgs : List (Nat × Bytes × Bytes)) (s : MqttSession) : Passes s (deliverAll msgs s) := by
  induction msgs generalizing s with
  | nil => exact .refl s
  | cons m msgs ih => exact (passes_deliver m.1 m.2.1 m.2.2 s).trans (ih _)

theorem passes_same (h : SameInput s s') (hclosing : s'.closing = s.closing) (hreads : s'.tcp.reads <:+ s.tcp.reads)
    (hout : s'.out.buffers = s.out.buffers) (hwrites : s'.writes = s.writes) (hprofile : profile s' = profile s) :
    Passes s s' :=
  ⟨keeps_same h hclosing hreads hout hwrites, .inr fun _ hx _ => hwrites ▸ hx, hprofile⟩

theorem passes_markClosed (s : MqttSession) : Passes s s.markClosed :=
  passes_same ⟨rfl, rfl, rfl, rfl, rfl, fun _ => rfl⟩ rfl List.suffix_rfl rfl rfl rfl

theorem passes_unlist (s : MqttSession) : Passes s s.unlist :=
  passes_same ⟨rfl, rfl, rfl, rfl, rfl, id⟩ rfl List.suffix_rfl rfl rfl rfl

theorem passes_passive : Passive Passes where
  refl := .refl
  trans := .trans
  messages := passes_deliverAll
  closed := passes_markClosed
  unlisted := passes_unlist
  gone _ := passes_same ⟨rfl, rfl, rfl, rfl, rfl, id⟩ rfl List.suffix_rfl rfl rfl rfl

theorem passes_endSession (cfg : ServerConfig) (now : Int) (hi : i < w.mqtt.length) :
    Passes (w.session i) ((w.endSession cfg now i).1.session i) := passes_passive.endSession cfg now hi

/-! One packet. -/

/-- Everything but a refusal. -/
abbrev Harmless (s : MqttSession) (buf : Bytes) : Prop := ¬ IsRefusal s.isWebsocket buf

theorem Passes.harmless (h : Passes s s') : Keeps (Harmless s) s s' := h.keeps.mono fun _ => IsDelivery.not_isRefusal

theorem keeps_sendRaw (s : MqttSession) (h : ∀ returnCode, returnCode ≠ 0 → data ≠ encodeConnack returnCode) :
    Keeps (Harmless s) s (s.sendRaw data) := keeps_asyncWrite .reply (not_isRefusal_framed s h) nofun

/-- A CONNECT that is not refused. -/
theorem keeps_handleConnect (h : refuses accessKey data = false) (ht : data.headD 0 &&& 0xF0 = connect) :
    Keeps (Harmless s) s (s.handleConnect accessKey data) := by
  rw [refuses, decide_eq_true ht, Bool.true_and] at h
  unfold handleConnect
  cases hd : decodeConnect data with
  | none =>
    rw [hd] at h
    cases h
  | some conn =>
    rw [hd] at h
    dsimp only at h ⊢
    rw [if_neg (of_decide_eq_false h)]
    have haccepted : ∀ returnCode, returnCode ≠ 0 → encodeConnack 0x00 ≠ encodeConnack returnCode := by
      intro returnCode hne he
      rw [encodeConnack, encodeConnack] at he
      exact hne (by simpa using he.symm)
    let granted : MqttSession :=
      { s with
        clientId := conn.clientId, username := conn.username, role := roleOf conn.username, authenticated := true }
    have hgrant : Keeps (Harmless s) s granted :=
      keeps_same ⟨rfl, rfl, rfl, rfl, rfl, id⟩ rfl List.suffix_rfl rfl rfl
    exact hgrant.trans (keeps_sendRaw granted haccepted)

/-- A CONNECT that is. -/
theorem handleConnect_refused (h : refuses accessKey data = true) (s : MqttSession) :
    ∃ clientId username returnCode, returnCode ≠ 0 ∧
      s.handleConnect accessKey data = { s with clientId, username }.sendRawAndClose (encodeConnack returnCode) := by
  obtain ⟨-, h⟩ := Bool.and_eq_true_iff.mp h
  unfold handleConnect
  cases hd : decodeConnect data with
  | none => exact ⟨s.clientId, s.username, 0x01, by decide, rfl⟩
  | some conn =>
    rw [hd] at h
    dsimp only at h ⊢
    rw [if_pos (of_decide_eq_true h)]
    exact ⟨conn.clientId, conn.username, 0x04, by decide, rfl⟩

theorem keeps_handleSubscribe (data : Bytes) (s : MqttSession) : Keeps (Harmless s) s (s.handleSubscribe data) := by
  unfold handleSubscribe
  split
  · exact .refl s
  · split
    · exact .refl s
    · rename_i sub _
      let subscribed : MqttSession := { s with subscriptions := s.subscriptions ++ sub.topics }
      have hsub : Keeps (Harmless s) s subscribed :=
        keeps_same ⟨rfl, rfl, rfl, rfl, rfl, id⟩ rfl List.suffix_rfl rfl rfl
      refine hsub.trans (keeps_sendRaw subscribed fun returnCode _ he => ?_)
      rw [encodeSuback, encodeConnack] at he
      exact absurd (List.cons.inj he).1 (by decide)

theorem keeps_handlePingreq (s : MqttSession) : Keeps (Harmless s) s s.handlePingreq :=
  keeps_sendRaw s fun returnCode _ he => absurd (List.cons.inj he).1 (by decide)

theorem keeps_acknowledge (pub : MqttPublish) (s : MqttSession) : Keeps (Harmless s) s (s.acknowledge pub) := by
  unfold acknowledge
  split
  · exact keeps_sendRaw s fun returnCode _ he => absurd (List.cons.inj he).1 (by decide)
  · exact .refl s

/-- The session that a broadcast leaves behind. -/
theorem session_broadcast (hi : i < w.mqtt.length) (server : Nat) (topic payload : Bytes) :
    (w.broadcast server topic payload).session i = (w.session i).deliver server topic payload := by
  refine (session_of_get ?_).1
  rw [broadcast, List.getElem?_map, session_eq hi]
  rfl

theorem keeps_publishMeta (cfg : ServerConfig) (now : Int) (hi : i < w.mqtt.length) (m : NodeMeta) :
    Keeps (Harmless (w.session i)) (w.session i) ((w.publishMeta cfg now i m).session i) := by
  obtain ⟨nodeId, -, he⟩ := publishMeta_effect cfg now m hi
  rw [he.session_self hi]
  let learned : MqttSession := ((w.session i).recordRegistration now m w.shared.registry).assignNode nodeId
  have hlearn : Keeps (Harmless (w.session i)) (w.session i) learned :=
    keeps_same ⟨rfl, rfl, rfl, rfl, rfl, id⟩ rfl List.suffix_rfl rfl rfl
  exact hlearn.trans (passes_deliverAll _ learned).harmless

theorem keeps_publishExtra (cfg : ServerConfig) (now : Int) (hi : i < w.mqtt.length) (worker : Bytes) (extra : Json) :
    Keeps (Harmless (w.session i)) (w.session i) ((w.publishExtra cfg now i worker extra).session i) := by
  rw [(publishExtra_effect cfg now i worker extra w).session_self hi]
  exact (passes_deliverAll _ _).harmless

theorem keeps_handlePublish (cfg : ServerConfig) (now : Int) (hi : i < w.mqtt.length) (data : Bytes) :
    Keeps (Harmless (w.session i)) (w.session i) ((w.handlePublish cfg now i data).session i) := by
  unfold handlePublish
  dsimp only
  split
  · exact .refl _
  · split
    · exact .refl _
    · rename_i pub _
      have hack := keeps_acknowledge pub (w.session i)
      have hi' : i < (w.update i (acknowledge pub)).mqtt.length := by simpa using hi
      rw [← session_update hi (acknowledge pub)] at hack
      have hws := hack.input.isWebsocket
      have next {w' : World} (h : Keeps (Harmless ((w.update i (acknowledge pub)).session i))
          ((w.update i (acknowledge pub)).session i) (w'.session i)) :
          Keeps (Harmless (w.session i)) (w.session i) (w'.session i) :=
        hack.trans (h.mono fun buf hb => by rwa [Harmless, hws] at hb)
      split
      · split
        · exact hack
        · exact next (keeps_publishMeta cfg now hi' _)
      · split
        · split
          · exact hack
          · split
            · exact hack
            · exact next (keeps_publishExtra cfg now hi' _ _)
        · split
          · exact hack
          · refine next ?_
            rw [session_broadcast hi']
            exact (passes_deliver _ _ _ _).harmless

/-- A packet is refused, and nothing else happens; or it is not, and the session goes on. -/
theorem processPacket_verdict (cfg : ServerConfig) (now : Int) (hi : i < w.mqtt.length) (hne : data ≠ []) :
    (refuses cfg.accessKey data = false ∧ Keeps (Harmless (w.session i)) ((w.session i).recordPacket data)
        ((w.processPacket cfg now i data).1.session i)) ∨
      (refuses cfg.accessKey data = true ∧ ∃ clientId username returnCode, returnCode ≠ 0 ∧
        (w.processPacket cfg now i data).1.session i =
          { (w.session i).recordPacket data with clientId, username }.sendRawAndClose (encodeConnack returnCode)) := by
  have hi' : i < (w.update i (recordPacket data)).mqtt.length := by simpa using hi
  have hs' := session_update hi (recordPacket data)
  have hharmless : Harmless (w.session i) = Harmless ((w.update i (recordPacket data)).session i) := by
    rw [hs']
    rfl
  -- a packet of another type is no CONNECT
  have other {packetType : UInt8} (ht : data.headD 0 &&& 0xF0 = packetType) (hother : packetType ≠ connect) :
      refuses cfg.accessKey data = false := by rw [refuses, decide_eq_false (ht ▸ hother), Bool.false_and]
  have hcase := processPacket_cases cfg now i w hne
  generalize w.processPacket cfg now i data = x at hcase ⊢
  rw [← hs', hharmless]
  cases hcase with
  | connect ht =>
    rw [session_update hi']
    cases hr : refuses cfg.accessKey data with
    | false => exact .inl ⟨rfl, keeps_handleConnect hr ht⟩
    | true => exact .inr ⟨rfl, handleConnect_refused hr _⟩
  | publish ht => exact .inl ⟨other ht (by decide), keeps_handlePublish cfg now hi' _⟩
  | subscribe ht =>
    rw [session_update hi']
    exact .inl ⟨other ht (by decide), keeps_handleSubscribe _ _⟩
  | pingreq ht =>
    rw [session_update hi']
    exact .inl ⟨other ht (by decide), keeps_handlePingreq _⟩
  | disconnect ht => exact .inl ⟨other ht (by decide), (passes_endSession cfg now hi').harmless⟩
  | dropped hno => exact .inl ⟨other rfl hno, .refl _⟩

/-! The other events. -/

/-- A change of the session itself that passes. -/
theorem passes_update {f : MqttSession → MqttSession} (hi : i < w.mqtt.length)
    (h : Passes (w.session i) (f (w.session i))) : Passes (w.session i) ((w.update i f).session i) := by
  rwa [session_update hi]

/-- The end of a write: the entry is gone, and a closing one closes the session. -/
theorem passes_written (hi : i < w.mqtt.length)
    (only : ∀ x ∈ (w.session i).writes, ∀ y ∈ (w.session i).writes, y.2 = .closing → x.1 = y.1 → x.2 = .closing)
    {k : Nat} {kind : WriteKind} (hk : (w.session i).writes.find? (fun x => x.1 = k) = some (k, kind)) (ok : Bool) :
    Passes (w.session i) (((w.update i (writeDone k)).onWritten cfg now i ok kind).1.session i) := by
  have hi' : i < (w.update i (writeDone k)).mqtt.length := by simpa using hi
  have hs' : (w.update i (writeDone k)).session i = writeDone k (w.session i) := session_update hi _
  have hkeeps : Keeps (IsDelivery (w.session i).isWebsocket) (w.session i) (writeDone k (w.session i)) :=
    ⟨⟨rfl, rfl, rfl, rfl, rfl, id⟩, rfl, List.suffix_rfl,
      ⟨[], (List.append_nil _).symm, fun _ h => absurd h List.not_mem_nil⟩, fun x hx => .inl (List.mem_filter.mp hx).1⟩
  have hended : Passes (w.session i) (((w.update i (writeDone k)).endSession cfg now i).1.session i) := by
    have hend := passes_endSession cfg now hi'
    rw [hs'] at hend
    exact ⟨hkeeps.trans hend.keeps, .inl (closed_endSession hi'), hend.profile⟩
  -- a write that does not close leaves the closing one where it is
  have hother (hne : kind ≠ .closing) : Passes (w.session i) ((w.update i (writeDone k)).session i) := by
    rw [hs']
    refine ⟨hkeeps, .inr fun x hx hxk => List.mem_filter.mpr ⟨hx, ?_⟩, rfl⟩
    refine decide_eq_true fun hpos => hne ?_
    exact only _ (List.mem_of_find?_eq_some hk) x hx hxk hpos.symm
  cases kind with
  | closing => exact hended
  | ignored => exact hother nofun
  | reply =>
    unfold onWritten
    dsimp only
    split
    · exact hother nofun
    · exact hended

theorem passes_onMqtt {e : MqttEvent} (hi : i < w.mqtt.length) (he : ∀ data, e ≠ .read data)
    (only : ∀ x ∈ (w.session i).writes, ∀ y ∈ (w.session i).writes, y.2 = .closing → x.1 = y.1 → x.2 = .closing)
    (h : w.onMqtt cfg now i (w.session i) e = some w') : Passes (w.session i) (w'.session i) := by
  have ended {f : MqttSession → MqttSession} (hf : Passes (w.session i) (f (w.session i))) :
      Passes (w.session i) (((w.update i f).endSession cfg now i).1.session i) := by
    have hend := passes_endSession cfg now (show i < (w.update i f).mqtt.length by simpa using hi)
    rw [session_update hi] at hend
    exact hf.trans hend
  cases onMqtt_cases h with
  | read _ _ _ => exact absurd rfl (he _)
  | readFailed _ => exact ended (passes_same ⟨rfl, rfl, rfl, rfl, rfl, id⟩ rfl (List.tail_suffix _) rfl rfl rfl)
  | idleExpired _ => exact ended (passes_same ⟨rfl, rfl, rfl, rfl, rfl, id⟩ rfl List.suffix_rfl rfl rfl rfl)
  | waitCanceled _ =>
    exact passes_update hi (passes_same ⟨rfl, rfl, rfl, rfl, rfl, id⟩ rfl List.suffix_rfl rfl rfl rfl)
  | transferred _ _ =>
    exact passes_update hi (passes_same ⟨rfl, rfl, rfl, rfl, rfl, id⟩ rfl List.suffix_rfl rfl rfl rfl)
  | written hfind => exact passes_written hi only hfind _

/-- Whatever happens to a session, except a read of its own. -/
theorem passes_step {e : World.Event} (hi : i < w.mqtt.length) (he : ∀ now data, e ≠ .mqtt now i (.read data))
    (only : ∀ x ∈ (w.session i).writes, ∀ y ∈ (w.session i).writes, y.2 = .closing → x.1 = y.1 → x.2 = .closing)
    (h : step cfg w e = some w') : Passes (w.session i) (w'.session i) := by
  refine passes_passive.step hi (fun now e' hown hs => ?_) h
  exact passes_onMqtt hi (fun data hd => he now data (hd ▸ hown)) only hs

end LightApr.Server.Refusal
