import LightApr.Mqtt.Packet
import LightApr.Lib.Framing
import Mathlib.Data.List.GetD

/-! The plain-TCP receive path of the C++ client library against the packets the
broker broadcasts. The library reads the remaining length as a single byte. -/
namespace LightApr.Sdk.Stream
open LightApr.Core Lib.Framing Mqtt.Packet

/-- What the loop of `process_mqtt_buffer` finds at the front of the buffer. -/
inductive Front where
  | incomplete
  /-- the payload is built with a length that wrapped below zero -/
  | threw
  /-- one packet, and the `handle_publish` call it leads to -/
  | packet (call : Option (Bytes × Bytes)) (pktLen : Nat)
  deriving DecidableEq, Repr

def front (data : Bytes) : Front :=
  if data.length < 2 then .incomplete
  else
    let pktLen := 2 + (data.getD 1 0).toNat
    if data.length < pktLen then .incomplete
    else if data.getD 0 0 &&& 0xF0 = publish then
      let topicLen := (data.getD 2 0).toNat * 256 + (data.getD 3 0).toNat
      if pktLen < 4 + topicLen then .threw
      else .packet (some (substr data 4 topicLen, substr data (4 + topicLen) (pktLen - (4 + topicLen)))) pktLen
    else .packet none pktLen

theorem front_within {data : Bytes} {call : Option (Bytes × Bytes)} {n : Nat}
    (h : front data = .packet call n) : 2 ≤ n ∧ n ≤ data.length := by
  unfold front at h
  split at h
  · exact nomatch h
  · dsimp only at h
    split at h
    · exact nomatch h
    · split at h
      · split at h
        · exact nomatch h
        · obtain ⟨-, rfl⟩ := Front.packet.inj h
          omega
      · obtain ⟨-, rfl⟩ := Front.packet.inj h
        omega

/-- The calls made, the offset returned, and whether an exception ended the loop. -/
structure Scan where
  published : List (Bytes × Bytes)
  offset : Nat
  threw : Bool
  deriving DecidableEq, Repr

def processMqttBuffer (data : Bytes) : Scan :=
  match _h : front data with
  | .incomplete => ⟨[], 0, false⟩
  | .threw => ⟨[], 0, true⟩
  | .packet call pktLen =>
    let rest := processMqttBuffer (data.drop pktLen)
    ⟨call.toList ++ rest.published, pktLen + rest.offset, rest.threw⟩
termination_by data.length
decreasing_by
  have := front_within ‹front _ = _›
  rw [List.length_drop]
  omega

structure Client where
  /-- the calls of `handle_publish` so far -/
  published : List (Bytes × Bytes)
  streamBuf : Bytes
  deriving DecidableEq, Repr

/-- none: the exception leaves the thread that runs the reads. -/
def processStream (c : Client) : Option Client :=
  let scan := processMqttBuffer c.streamBuf
  if scan.threw then none
  else some ⟨c.published ++ scan.published, c.streamBuf.drop scan.offset⟩

/-- The handler of `do_read`. -/
def doRead (c : Client) (read : Bytes) : Option Client :=
  processStream { c with streamBuf := c.streamBuf ++ read }

def receive (reads : List Bytes) : Option Client := reads.foldlM doRead ⟨[], []⟩

/-- A broadcast as it goes out to a subscriber. -/
def packet (m : Bytes × Bytes) : Bytes := encodePublish m.1 m.2 0 0

def wire (msgs : List (Bytes × Bytes)) : Bytes := (msgs.map packet).flatten

/-- The complete messages of `received` were handled, and what follows them is kept. -/
def InStep (msgs : List (Bytes × Bytes)) (received : Bytes) (c : Client) : Prop :=
  ∃ pending, msgs = c.published ++ pending ∧ received = wire c.published ++ c.streamBuf ∧
    ∀ m ∈ pending.head?, ¬ packet m <+: c.streamBuf

/-- However the bytes of `msgs` are divided into reads, the client stays in step. -/
def Delivers (msgs : List (Bytes × Bytes)) : Prop :=
  ∀ reads : List Bytes, (∀ read ∈ reads, read ≠ [] ∧ read.length ≤ 4096) → reads.flatten <+: wire msgs →
    ∃ c, receive reads = some c ∧ InStep msgs reads.flatten c

/-- The remaining length fits the one byte the client reads. -/
def Short (m : Bytes × Bytes) : Prop := 2 + m.1.length + m.2.length ≤ 127

instance (m : Bytes × Bytes) : Decidable (Short m) := inferInstanceAs (Decidable (_ ≤ _))

private theorem framed {s : Bytes} {n : Nat} (h : (if s.length < 2 then none
    else if s.length < 2 + (s.getD 1 0).toNat then none else some (2 + (s.getD 1 0).toNat)) = some n) :
    2 ≤ s.length ∧ n ≤ s.length ∧ n = 2 + (s.getD 1 0).toNat := by
  obtain ⟨h2, h⟩ := Option.ite_none_left_eq_some.mp h
  obtain ⟨hn, h⟩ := Option.ite_none_left_eq_some.mp h
  obtain rfl := Option.some.inj h
  exact ⟨Nat.le_of_not_lt h2, Nat.le_of_not_lt hn, rfl⟩

/-- The client's framing: two bytes of header, then as many as the second one says. -/
def framer : Framer UInt8 where
  cut s :=
    if s.length < 2 then none
    else if s.length < 2 + (s.getD 1 0).toNat then none
    else some (2 + (s.getD 1 0).toNat)
  within h := (framed h).2.1
  stable t h := by
    obtain ⟨h2, hn, rfl⟩ := framed h
    rw [List.getD_append _ t 0 1 (by omega), List.length_append, if_neg (by omega), if_neg (by omega)]

theorem framer_pos {s : Bytes} {n : Nat} (h : framer.cut s = some n) : 0 < n := by
  obtain ⟨-, -, rfl⟩ := framed h
  omega

theorem front_incomplete {s : Bytes} (h : framer.Stuck s) : front s = .incomplete := by
  simp only [Framer.Stuck, framer] at h
  unfold front
  split
  · rfl
  · rename_i h2
    rw [if_neg h2] at h
    split at h
    · rename_i hn
      exact if_pos hn
    · cases h

/-! A short packet is one word of the client's framing, and the client reads it back. -/

theorem packet_short {m : Bytes × Bytes} (h : Short m) :
    packet m = publish :: UInt8.ofNat (2 + m.1.length + m.2.length) :: publishBody m.1 m.2 0 0 := by
  have h : 2 + m.1.length + m.2.length ≤ 127 := h
  rw [packet, encodePublish_qos0, publishBody_length, encodeRemainingLength_lt (by omega)]
  rfl

theorem packet_word {m : Bytes × Bytes} (h : Short m) : framer.Word (packet m) := by
  have h' : 2 + m.1.length + m.2.length ≤ 127 := h
  have hb : (UInt8.ofNat (2 + m.1.length + m.2.length)).toNat = 2 + m.1.length + m.2.length := by
    rw [UInt8.toNat_ofNat', Nat.mod_eq_of_lt (by omega)]
  simp only [Framer.Word, framer, packet_short h, List.getD_cons_succ, List.getD_cons_zero, hb,
    List.length_cons, publishBody_length]
  rw [if_neg (by omega), if_neg (by omega)]
  congr 1
  omega

theorem front_packet {m : Bytes × Bytes} (h : Short m) (t : Bytes) :
    front (packet m ++ t) = .packet (some m) (packet m).length := by
  have h' : 2 + m.1.length + m.2.length ≤ 127 := h
  have hb : (UInt8.ofNat (2 + m.1.length + m.2.length)).toNat = 2 + m.1.length + m.2.length := by
    rw [UInt8.toNat_ofNat', Nat.mod_eq_of_lt (by omega)]
  have ht : (UInt8.ofNat (m.1.length % 65536 / 256)).toNat * 256 +
      (UInt8.ofNat (m.1.length % 65536)).toNat = m.1.length := by
    rw [UInt8.toNat_ofNat', UInt8.toNat_ofNat']
    omega
  have hl : (packet m).length = 2 + (2 + m.1.length + m.2.length) := by
    simp only [packet_short h, List.length_cons, publishBody_length]
    omega
  have hd : packet m ++ t = publish :: UInt8.ofNat (2 + m.1.length + m.2.length) ::
      UInt8.ofNat (m.1.length % 65536 / 256) :: UInt8.ofNat (m.1.length % 65536) :: (m.1 ++ (m.2 ++ t)) := by
    simp [packet_short h, publishBody, writeString, u16]
  have hs1 : substr (packet m ++ t) 4 m.1.length = m.1 := by
    simp [hd, substr]
  have hs2 : substr (packet m ++ t) (4 + m.1.length) m.2.length = m.2 := by
    rw [hd, substr, Nat.add_comm 4]
    simp
  have hlen : (packet m ++ t).length = 2 + (2 + m.1.length + m.2.length) + t.length := by
    rw [List.length_append, hl]
  unfold front
  simp only [hd, List.getD_cons_succ, List.getD_cons_zero, hb, ht]
  rw [← hd, hlen, if_neg (by omega), if_neg (by omega), if_pos (by decide), if_neg (by omega), hs1, hl]
  have he : 2 + (2 + m.1.length + m.2.length) - (4 + m.1.length) = m.2.length := by omega
  rw [he, hs2]

/-- The loop over complete short packets followed by an incomplete one. -/
theorem processMqttBuffer_wire {msgs : List (Bytes × Bytes)} {r : Bytes} (h : ∀ m ∈ msgs, Short m)
    (hr : framer.Stuck r) : processMqttBuffer (wire msgs ++ r) = ⟨msgs, (wire msgs).length, false⟩ := by
  induction msgs with
  | nil =>
    rw [processMqttBuffer]
    split <;> simp_all [wire, front_incomplete hr]
  | cons m msgs ih =>
    have hw : wire (m :: msgs) ++ r = packet m ++ (wire msgs ++ r) := by simp [wire]
    have hf := front_packet (h m (by simp)) (wire msgs ++ r)
    rw [hw, processMqttBuffer]
    split
    · simp_all
    · simp_all
    · rename_i call n he
      rw [hf] at he
      obtain ⟨rfl, rfl⟩ := Front.packet.inj he
      rw [List.drop_left, ih fun m hm => h m (by simp [hm])]
      simp [wire]

/-- What the client holds after some reads: the bytes cut into the first packets and a
rest that completes no packet. -/
structure Synced (msgs : List (Bytes × Bytes)) (received : Bytes) (c : Client) : Prop where
  sent : ∃ pending, msgs = c.published ++ pending
  peels : framer.Peels received (c.published.map packet) c.streamBuf
  stuck : framer.Stuck c.streamBuf

variable {msgs : List (Bytes × Bytes)} {received read : Bytes} {c : Client}

theorem synced_init : Synced msgs [] ⟨[], []⟩ := ⟨⟨msgs, rfl⟩, .done _, rfl⟩

private theorem peels_wire (hs : ∀ m ∈ msgs, Short m) : framer.Peels (wire msgs) (msgs.map packet) [] := by
  have h := Framer.peels_words (F := framer) (msgs.map packet) [] fun w hw => by
    obtain ⟨m, hm, rfl⟩ := List.mem_map.mp hw
    exact packet_word (hs m hm)
  rwa [List.append_nil] at h

/-- One read keeps the client synced as long as the packets are short. -/
theorem Synced.doRead (hs : ∀ m ∈ msgs, Short m) (h : Synced msgs received c)
    (hp : received ++ read <+: wire msgs) :
    ∃ c', doRead c read = some c' ∧ Synced msgs (received ++ read) c' := by
  obtain ⟨t, ht⟩ := hp
  obtain ⟨pending, hpend⟩ := h.sent
  obtain ⟨fs, r, hf, hr⟩ := Framer.exists_peels_stuck framer_pos (c.streamBuf ++ read)
  have hall : framer.Peels (received ++ read) (c.published.map packet ++ fs) r := h.peels.feed hf
  -- the frames cut so far begin the packets sent, so the new ones are the next packets
  have hpre := (ht ▸ hall.extend t).le_stuck (peels_wire hs) rfl
  rw [hpend, List.map_append, List.prefix_append_right_inj] at hpre
  obtain ⟨next, ⟨rest, rfl⟩, rfl⟩ := List.prefix_map_iff.mp hpre
  have hscan : processMqttBuffer (c.streamBuf ++ read) = ⟨next, (wire next).length, false⟩ := by
    rw [hf.flatten]
    exact processMqttBuffer_wire (fun m hm => hs m (by simp [hpend, hm])) hr
  have hdrop : (c.streamBuf ++ read).drop (wire next).length = r := by
    rw [hf.flatten]
    exact List.drop_left
  refine ⟨⟨c.published ++ next, r⟩, ?_, ⟨rest, by simp [hpend]⟩, by simpa using hall, hr⟩
  simp [Stream.doRead, processStream, hscan, hdrop]

theorem synced_receive (hs : ∀ m ∈ msgs, Short m) (reads : List Bytes) (hp : reads.flatten <+: wire msgs) :
    ∃ c, receive reads = some c ∧ Synced msgs reads.flatten c := by
  induction reads using List.reverseRecOn with
  | nil => exact ⟨_, rfl, synced_init⟩
  | append_singleton reads read ih =>
    simp only [List.flatten_append, List.flatten_singleton] at hp ⊢
    obtain ⟨c, hc, hsync⟩ := ih ((List.prefix_append _ _).trans hp)
    obtain ⟨c', hc', hsync'⟩ := hsync.doRead hs hp
    refine ⟨c', ?_, hsync'⟩
    rw [receive, List.foldlM_append, ← receive, hc]
    simpa using hc'

/-- A synced client has handled every complete packet. -/
theorem Synced.inStep (hs : ∀ m ∈ msgs, Short m) (h : Synced msgs received c) : InStep msgs received c := by
  obtain ⟨pending, hpend⟩ := h.sent
  refine ⟨pending, hpend, h.peels.flatten, fun m hm => ?_⟩
  rintro ⟨t, ht⟩
  have hmem : m ∈ msgs := by
    rw [hpend]
    exact List.mem_append_right _ (List.mem_of_mem_head? hm)
  have hcut := (packet_word (hs m hmem)).cut_append t
  rw [ht, h.stuck] at hcut
  exact nomatch hcut

theorem delivers_of_short (hs : ∀ m ∈ msgs, Short m) : Delivers msgs := by
  intro reads _ hp
  obtain ⟨c, hc, hsync⟩ := synced_receive hs reads hp
  exact ⟨c, hc, hsync.inStep hs⟩

/-! A longer packet throws once enough of it has arrived: its second length byte is
read as the high byte of the topic length. -/

private theorem encodeRemainingLength_head {n : Nat} (h : 0 < n) :
    ∃ b rest, encodeRemainingLength n = b :: rest ∧ 0 < b.toNat := by
  by_cases hn : n < 128
  · refine ⟨_, [], encodeRemainingLength_lt hn, ?_⟩
    rw [UInt8.toNat_ofNat', Nat.mod_eq_of_lt (by omega)]
    exact h
  · refine ⟨_, _, encodeRemainingLength_ge (by omega), ?_⟩
    rw [continued_toNat]
    omega

theorem front_long {m : Bytes × Bytes} (h : ¬ Short m) :
    ∃ k, 0 < k ∧ k ≤ 4096 ∧ front ((packet m).take k) = .threw := by
  have h : ¬ 2 + m.1.length + m.2.length ≤ 127 := h
  set n := 2 + m.1.length + m.2.length with hn
  obtain ⟨b, rest, hb, hpos⟩ := encodeRemainingLength_head (n := n / 128) (by omega)
  have hp : packet m = publish :: (UInt8.ofNat (n % 128) ||| 0x80) :: b :: (rest ++ publishBody m.1 m.2 0 0) := by
    rw [packet, encodePublish_qos0, publishBody_length, ← hn, encodeRemainingLength_ge (by omega), hb]
    rfl
  have hl : (packet m).length = 3 + rest.length + n := by
    rw [hp]
    simp only [List.length_cons, List.length_append, publishBody_length]
    omega
  refine ⟨130 + n % 128, by omega, by omega, ?_⟩
  have ht : (packet m).take (130 + n % 128) = publish :: (UInt8.ofNat (n % 128) ||| 0x80) :: b ::
      (rest ++ publishBody m.1 m.2 0 0).take (127 + n % 128) := by
    rw [hp]
    have he : 130 + n % 128 = 127 + n % 128 + 1 + 1 + 1 := by omega
    rw [he]
    rfl
  have hlen : ((packet m).take (130 + n % 128)).length = 130 + n % 128 := by
    rw [List.length_take]
    omega
  unfold front
  rw [hlen, ht]
  simp only [List.getD_cons_succ, List.getD_cons_zero, continued_toNat]
  rw [if_neg (by omega), if_neg (by omega), if_pos (by decide), if_pos (by omega)]

/-- **The client receives exactly what was broadcast, for every division into reads, if
and only if every packet body is at most 127 bytes long.** -/
theorem delivers_iff_short (msgs : List (Bytes × Bytes)) : Delivers msgs ↔ ∀ m ∈ msgs, Short m := by
  refine ⟨fun hd => ?_, delivers_of_short⟩
  by_contra hlong
  -- the first long packet, all bytes before it having arrived one by one
  obtain ⟨m, hfind⟩ := Option.isSome_iff_exists.mp (List.find?_isSome (p := fun m => ¬ Short m) |>.mpr (by
    simpa using hlong))
  obtain ⟨hm, before, after, rfl, hbefore⟩ := List.find?_eq_some_iff_append.mp hfind
  obtain ⟨k, hk0, hk, hthrew⟩ := front_long (m := m) (by simpa using hm)
  let single : List Bytes := (wire before).map fun b => [b]
  have hflat : single.flatten = wire before := by simp [single, ← List.flatMap_def]
  have hshort : ∀ x ∈ before, Short x := fun x hx => by simpa using hbefore x hx
  obtain ⟨c, hc, hsync⟩ := synced_receive hshort single (by rw [hflat])
  have hbuf : c.streamBuf = [] :=
    ((hflat ▸ hsync.peels).unique (peels_wire hshort) hsync.stuck rfl).2
  have hne : (packet m).take k ≠ [] := by
    intro h
    rw [h] at hthrew
    exact nomatch hthrew
  obtain ⟨c', hc', -⟩ := hd (single ++ [(packet m).take k]) (by
    intro read hr
    rcases List.mem_append.mp hr with hr | hr
    · obtain ⟨b, -, rfl⟩ := List.mem_map.mp hr
      simp
    · obtain rfl := List.mem_singleton.mp hr
      exact ⟨hne, (List.length_take_le ..).trans hk⟩) (by
    have hw : wire (before ++ m :: after) = wire before ++ (packet m ++ wire after) := by simp [wire]
    rw [List.flatten_append, hflat, List.flatten_singleton, hw]
    exact (List.prefix_append_right_inj _).mpr ((List.take_prefix ..).trans (List.prefix_append ..)))
  have hnone : doRead c ((packet m).take k) = none := by
    have hscan : processMqttBuffer ((packet m).take k) = ⟨[], 0, true⟩ := by
      rw [processMqttBuffer]
      split <;> simp_all
    simp [doRead, processStream, hbuf, hscan]
  rw [receive, List.foldlM_append, ← receive, hc] at hc'
  simp [hnone] at hc'

/-- A worker event of ordinary size, in one read: nothing is delivered. -/
theorem event_of_128_bytes_lost : ¬ Delivers [(ascii "apr/worker", List.replicate 116 120)] := by
  intro h
  obtain ⟨c, hc, -⟩ := h [packet (ascii "apr/worker", List.replicate 116 120)] (by decide +kernel)
    (by simp [wire])
  have hn : receive [packet (ascii "apr/worker", List.replicate 116 120)] = none := by decide +kernel
  exact nomatch hn.symm.trans hc

end LightApr.Sdk.Stream
