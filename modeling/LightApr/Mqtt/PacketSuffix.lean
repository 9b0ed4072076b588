import LightApr.Mqtt.Packet

/-! What the decoders of the MQTT codec make of bytes behind the packet. -/
namespace LightApr.Mqtt.PacketSuffix
open LightApr.Core Packet

/-- A remaining-length field of any width: its value and its bytes. -/
def lengthField : Bytes → Option (Nat × Nat)
  | [] => none
  | b :: rest =>
    if b &&& 128 ≠ 0 then (lengthField rest).map fun (value, width) => ((b &&& 127).toNat + 128 * value, width + 1)
    else some ((b &&& 127).toNat, 1)

/-- `p` is exactly one packet: a first byte, a remaining-length field and the body it announces. -/
structure OnePacket (p field body : Bytes) : Prop where
  split : ∃ first, p = first :: (field ++ body)
  announced : lengthField field = some (body.length, field.length)

theorem decodeRemainingLengthFrom_field {field : Bytes} {n : Nat} (h : lengthField field = some (n, field.length))
    (j value : Nat) (t : Bytes) :
    decodeRemainingLengthFrom (128 ^ j) value j (field ++ t) =
      if j + field.length ≤ 3 then some (value + n * 128 ^ j, j + field.length) else none := by
  induction field generalizing n j value with
  | nil => cases h
  | cons b rest ih =>
    rw [lengthField] at h
    rw [List.cons_append, decodeRemainingLengthFrom]
    by_cases hpow : 128 ^ j * 128 > 128 * 128 * 128
    · have hj : 3 ≤ j := by
        by_contra hj
        have hle : 128 ^ (j + 1) ≤ 128 ^ 3 := Nat.pow_le_pow_right (by decide) (by omega)
        rw [Nat.pow_succ] at hle
        omega
      rw [if_pos hpow, List.length_cons, if_neg (by omega)]
    · rw [if_neg hpow]
      by_cases hb : b &&& 128 ≠ 0
      · rw [if_pos hb] at h ⊢
        obtain ⟨⟨v, w⟩, hrest, hvw⟩ := Option.map_eq_some_iff.mp h
        obtain ⟨rfl, hw⟩ := Prod.mk.inj hvw
        obtain rfl : w = rest.length := by simpa using hw
        have hsum : value + (b &&& 127).toNat * 128 ^ j + v * 128 ^ (j + 1) =
            value + ((b &&& 127).toNat + 128 * v) * 128 ^ j := by
          rw [Nat.pow_succ, Nat.add_mul, Nat.mul_comm (128 ^ j) 128, Nat.mul_comm 128 v, Nat.mul_assoc, Nat.add_assoc]
        rw [← Nat.pow_succ, ih hrest, hsum, List.length_cons, ← Nat.add_assoc, Nat.succ_add]
      · rw [if_neg hb] at h ⊢
        obtain ⟨rfl, hlen⟩ := Prod.mk.inj (Option.some.inj h)
        have hj : j < 3 := by
          by_contra hj
          have hle : 128 ^ 3 ≤ 128 ^ j := Nat.pow_le_pow_right (by decide) (by omega)
          omega
        rw [← hlen, if_pos (by omega)]

/-- Three length bytes are taken, more are refused, whatever stands behind the packet. -/
theorem readFixedHeader_packet {p field body : Bytes} (h : OnePacket p field body) (t : Bytes) :
    readFixedHeader (p ++ t) = if field.length ≤ 3 then some (body.length, 1 + field.length) else none := by
  obtain ⟨⟨first, rfl⟩, hfield⟩ := h
  have hpos : 1 ≤ field.length := by
    cases field with
    | nil => cases hfield
    | cons b rest => simp
  have hrem := decodeRemainingLengthFrom_field hfield 0 0 (body ++ t)
  rw [Nat.pow_zero, Nat.mul_one, Nat.zero_add, Nat.zero_add] at hrem
  rw [readFixedHeader, List.cons_append, List.drop_succ_cons, List.drop_zero, decodeRemainingLength,
    List.append_assoc, hrem, if_neg (by rw [List.length_cons, List.length_append]; omega)]
  split
  · dsimp only [Option.bind_eq_bind, Option.bind_some]
    rw [if_neg (by simp; omega)]
  · rfl

theorem readFixedHeader_alone {p field body : Bytes} (h : OnePacket p field body) :
    readFixedHeader p = if field.length ≤ 3 then some (body.length, 1 + field.length) else none := by
  have hnil := readFixedHeader_packet h []
  rwa [List.append_nil] at hnil

/-! A reader succeeds exactly where its field stands, and what follows does not matter. -/

theorem append_prefix_drop {a b data : Bytes} {offset : Nat} :
    a ++ b <+: data.drop offset ↔ a <+: data.drop offset ∧ b <+: data.drop (offset + a.length) := by
  constructor
  · rintro ⟨t, ht⟩
    rw [List.append_assoc] at ht
    refine ⟨⟨b ++ t, ht⟩, t, ?_⟩
    rw [← List.drop_drop, ← ht, List.drop_left]
  · rintro ⟨⟨t, ht⟩, hb⟩
    rw [← List.drop_drop, ← ht, List.drop_left] at hb
    rw [← ht]
    exact (List.prefix_append_right_inj a).mpr hb

/-- What stands in front of the end stands there with any continuation. -/
theorem prefix_drop_front {e p : Bytes} {offset : Nat} (he : e ≠ []) (t : Bytes) :
    e <+: p.drop offset ↔ e <+: (p ++ t).drop offset ∧ offset + e.length ≤ p.length := by
  have hpos := List.length_pos_of_ne_nil he
  constructor
  · intro h
    have hle := h.length_le
    rw [List.length_drop] at hle
    rw [List.drop_append_of_le_length (by omega)]
    exact ⟨h.trans (List.prefix_append _ t), by omega⟩
  · rintro ⟨h, hle⟩
    rw [List.drop_append_of_le_length (by omega)] at h
    refine List.prefix_of_prefix_length_le h (List.prefix_append _ t) ?_
    rw [List.length_drop]
    omega

theorem readU8_eq_some {data : Bytes} {offset offset' : Nat} {b : UInt8} :
    readU8 data offset = some (b, offset') ↔ offset' = offset + 1 ∧ [b] <+: data.drop offset := by
  constructor
  · intro h
    obtain ⟨hb, rfl, hle⟩ := readU8_some h
    rw [List.getD_eq_getElem?_getD, List.getElem?_eq_getElem (by omega), Option.getD_some] at hb
    rw [List.drop_eq_getElem_cons (by omega), hb]
    exact ⟨rfl, _, rfl⟩
  · rintro ⟨rfl, t, h⟩
    have hlen := congrArg List.length h
    rw [List.length_drop, List.length_append, List.length_singleton] at hlen
    have hb : data.getD offset 0 = b := by
      rw [List.getD_eq_getElem?_getD, ← Nat.add_zero offset, ← List.getElem?_drop, ← h]
      rfl
    rw [readU8, if_neg (by omega), hb]

private theorem u16_bytes (hi lo : UInt8) : u16 (hi.toNat * 256 + lo.toNat) = [hi, lo] := by
  have hlo := lo.toNat_lt
  have hdiv : (hi.toNat * 256 + lo.toNat) / 256 = hi.toNat := by omega
  have hmod : UInt8.ofNat (hi.toNat * 256 + lo.toNat) = lo := by
    apply UInt8.toNat_inj.mp
    rw [UInt8.toNat_ofNat']
    omega
  rw [u16, hdiv, hmod, UInt8.ofNat_toNat]

theorem readU16_eq_some {data : Bytes} {offset offset' v : Nat} :
    readU16 data offset = some (v, offset') ↔ v < 65536 ∧ offset' = offset + 2 ∧ u16 v <+: data.drop offset := by
  constructor
  · intro h
    obtain ⟨hv, hlt, rfl, hle⟩ := readU16_some h
    refine ⟨hlt, rfl, ?_⟩
    have hbyte {i : Nat} (hi : i < data.length) : data.getD i 0 = data[i] := by
      rw [List.getD_eq_getElem?_getD, List.getElem?_eq_getElem hi, Option.getD_some]
    rw [hv, u16_bytes, hbyte (by omega), hbyte (by omega), List.drop_eq_getElem_cons (by omega),
      List.drop_eq_getElem_cons (by omega)]
    exact ⟨_, rfl⟩
  · rintro ⟨hlt, rfl, t, h⟩
    have hfront := readU16_u16 (data.take offset) t hlt
    have hlen := congrArg List.length h
    rw [List.length_drop, List.length_append, u16_length] at hlen
    rwa [h, List.take_append_drop, List.length_take, Nat.min_eq_left (by omega)] at hfront

theorem readString_eq_some {data str : Bytes} {offset offset' : Nat} :
    readString data offset = some (str, offset') ↔
      str.length < 65536 ∧ offset' = offset + (writeString str).length ∧ writeString str <+: data.drop offset := by
  constructor
  · intro h
    obtain ⟨⟨len, o⟩, hu, hs⟩ := Option.bind_eq_some_iff.mp h
    obtain ⟨hstr, hlt, hoff, hle⟩ := readString_some h
    obtain ⟨hlen, rfl, hfront⟩ := readU16_eq_some.mp hu
    have hl : len = str.length := by
      dsimp only at hs
      split at hs
      · cases hs
      · obtain ⟨rfl, rfl⟩ := Prod.mk.inj (Option.some.inj hs)
        omega
    refine ⟨hlt, by rw [writeString_length]; omega, ?_⟩
    rw [writeString, Nat.mod_eq_of_lt hlt, append_prefix_drop, ← hl]
    refine ⟨hfront, ?_⟩
    rw [hstr, u16_length]
    exact List.take_prefix _ _
  · rintro ⟨hlt, rfl, t, h⟩
    have hfront := readString_writeString (data.take offset) str t hlt
    have hlen := congrArg List.length h
    rw [List.length_drop, List.length_append, writeString_length] at hlen
    rwa [h, List.take_append_drop, List.length_take, Nat.min_eq_left (by omega), Nat.add_assoc,
      ← writeString_length] at hfront

/-- A field that is there when its flag is set. -/
def flagged (flag : Bool) (str : Bytes) : Bytes := if flag then writeString str else []

theorem readFlagged_eq_some {flag : Bool} {data str : Bytes} {offset offset' : Nat} :
    readFlagged flag data offset = some (str, offset') ↔ str.length < 65536 ∧ (flag = false → str = []) ∧
      offset' = offset + (flagged flag str).length ∧ flagged flag str <+: data.drop offset := by
  cases flag with
  | true =>
    rw [readFlagged, if_pos rfl, readString_eq_some, flagged, if_pos rfl]
    simp
  | false =>
    constructor
    · intro h
      obtain ⟨rfl, rfl⟩ := Prod.mk.inj (Option.some.inj h)
      exact ⟨by decide, fun _ => rfl, rfl, List.nil_prefix⟩
    · rintro ⟨-, hstr, rfl, -⟩
      rw [hstr rfl]
      rfl

theorem writeString_ne_nil (s : Bytes) : writeString s ≠ [] := by
  apply List.ne_nil_of_length_pos
  rw [writeString_length]
  omega

/-! With a continuation behind it, an array yields the same fields and those that end further on. -/

theorem readU16_front {p : Bytes} {offset offset' v : Nat} (t : Bytes) :
    readU16 p offset = some (v, offset') ↔ readU16 (p ++ t) offset = some (v, offset') ∧ offset' ≤ p.length := by
  rw [readU16_eq_some, readU16_eq_some, prefix_drop_front (e := u16 v) (List.cons_ne_nil _ _) t, u16_length]
  constructor
  · rintro ⟨hv, rfl, hp, hle⟩
    exact ⟨⟨hv, rfl, hp⟩, hle⟩
  · rintro ⟨⟨hv, rfl, hp⟩, hle⟩
    exact ⟨hv, rfl, hp, hle⟩

theorem readString_front {p str : Bytes} {offset offset' : Nat} (t : Bytes) :
    readString p offset = some (str, offset') ↔
      readString (p ++ t) offset = some (str, offset') ∧ offset' ≤ p.length := by
  rw [readString_eq_some, readString_eq_some, prefix_drop_front (writeString_ne_nil str) t]
  constructor
  · rintro ⟨hs, rfl, hp, hle⟩
    exact ⟨⟨hs, rfl, hp⟩, hle⟩
  · rintro ⟨⟨hs, rfl, hp⟩, hle⟩
    exact ⟨hs, rfl, hp, hle⟩

theorem packetId_front {p : Bytes} {qos offset offset' packetId : Nat} (t : Bytes) (h : offset' ≤ p.length) :
    (if qos > 0 then readU16 p offset else some (0, offset)) = some (packetId, offset') ↔
      (if qos > 0 then readU16 (p ++ t) offset else some (0, offset)) = some (packetId, offset') := by
  split
  · rw [readU16_front t, and_iff_left h]
  · rfl

theorem decodePublish_eq_some {data : Bytes} {remLen start : Nat} {pub : MqttPublish}
    (h : readFixedHeader data = some (remLen, start)) :
    decodePublish data = some pub ↔ ∃ offset offset', readString data start = some (pub.topic, offset) ∧
      (if pub.qos > 0 then readU16 data offset else some (0, offset)) = some (pub.packetId, offset') ∧
      offset' ≤ start + remLen ∧ pub.payload = substr data offset' (start + remLen - offset') ∧
      pub.qos = ((data.getD 0 0 >>> 1) &&& 0x03).toNat ∧ pub.retain = (data.getD 0 0 &&& 0x01 ≠ 0 : Bool) := by
  rw [decodePublish_chain, h, Option.bind_some]
  constructor
  · intro h
    obtain ⟨⟨topic, offset⟩, htopic, h⟩ := Option.bind_eq_some_iff.mp h
    obtain ⟨⟨packetId, offset'⟩, hid, h⟩ := Option.bind_eq_some_iff.mp h
    dsimp only at h
    split at h
    · cases h
    · obtain rfl := Option.some.inj h
      exact ⟨offset, offset', htopic, hid, by omega, rfl, rfl, rfl⟩
  · rintro ⟨offset, offset', htopic, hid, hend, hpay, hqos, hretain⟩
    rw [hqos] at hid
    simp only [htopic, hid, Option.bind_some]
    rw [if_neg (by omega), ← hpay, ← hqos, ← hretain]

theorem getD_zero_append {p : Bytes} (h : p ≠ []) (t : Bytes) : (p ++ t).getD 0 0 = p.getD 0 0 := by
  cases p with
  | nil => exact absurd rfl h
  | cons b rest => rfl

theorem substr_append {p : Bytes} {pos n : Nat} (h : pos + n ≤ p.length) (t : Bytes) :
    substr (p ++ t) pos n = substr p pos n := by
  rw [substr, substr, List.drop_append_of_le_length (by omega), List.take_append_of_le_length (by
    rw [List.length_drop]
    omega)]

theorem OnePacket.drop {p field body : Bytes} (h : OnePacket p field body) (t : Bytes) :
    (p ++ t).drop (1 + field.length) = body ++ t := by
  obtain ⟨⟨first, rfl⟩, -⟩ := h
  rw [Nat.add_comm, List.cons_append, List.drop_succ_cons, List.append_assoc, List.drop_left]

theorem OnePacket.drop_nil {p field body : Bytes} (h : OnePacket p field body) :
    p.drop (1 + field.length) = body := by
  have hdrop := h.drop []
  rwa [List.append_nil, List.append_nil] at hdrop

theorem OnePacket.length {p field body : Bytes} (h : OnePacket p field body) :
    p.length = 1 + field.length + body.length := by
  obtain ⟨⟨first, rfl⟩, -⟩ := h
  rw [List.length_cons, List.length_append]
  omega

/-- `decode_publish` compares its offset with the end of the packet. -/
theorem decodePublish_append {p field body : Bytes} (h : OnePacket p field body) (t : Bytes) :
    decodePublish (p ++ t) = decodePublish p := by
  have hwith := readFixedHeader_packet h t
  have halone := readFixedHeader_alone h
  by_cases hshort : field.length ≤ 3
  · rw [if_pos hshort] at hwith halone
    have hlen := h.length
    have hbyte : (p ++ t).getD 0 0 = p.getD 0 0 :=
      getD_zero_append (List.ne_nil_of_length_pos (by omega)) t
    refine Option.ext fun pub => ?_
    rw [decodePublish_eq_some hwith, decodePublish_eq_some halone, hbyte]
    refine exists_congr fun offset => exists_congr fun offset' => ?_
    constructor
    · rintro ⟨htopic, hid, hend, hpay, hbits⟩
      have hmono := packetId_le hid
      rw [substr_append (by omega)] at hpay
      exact ⟨(readString_front t).mpr ⟨htopic, by omega⟩, (packetId_front t (by omega)).mpr hid, hend, hpay, hbits⟩
    · rintro ⟨htopic, hid, hend, hpay, hbits⟩
      rw [← substr_append (t := t) (by omega)] at hpay
      exact ⟨((readString_front t).mp htopic).1, (packetId_front t (by omega)).mp hid, hend, hpay, hbits⟩
  · rw [if_neg hshort] at hwith halone
    rw [decodePublish_chain, decodePublish_chain, hwith, halone]
    rfl

/-! `decode_subscribe` compares its offset between two filters, but not within one. -/

/-- The filters of a SUBSCRIBE with the QoS asked for each. -/
def filterBytes (filters : List (Bytes × UInt8)) : Bytes := filters.flatMap fun f => writeString f.1 ++ [f.2]

/-- The body is a packet id and whole filters. -/
def SubscribeWithin (body : Bytes) : Prop :=
  ∃ packetId filters, packetId < 65536 ∧ (∀ f ∈ filters, f.1.length < 65536) ∧
    body = u16 packetId ++ filterBytes filters

theorem filterBytes_cons (f : Bytes × UInt8) (filters : List (Bytes × UInt8)) :
    filterBytes (f :: filters) = writeString f.1 ++ ([f.2] ++ filterBytes filters) := by
  rw [filterBytes, List.flatMap_cons, List.append_assoc]
  rfl

theorem length_le_filterBytes (filters : List (Bytes × UInt8)) :
    filters.length ≤ (filterBytes filters).length := by
  induction filters with
  | nil => exact Nat.le_refl 0
  | cons f filters ih =>
    rw [filterBytes_cons, List.length_cons, List.length_append, List.length_append, List.length_singleton]
    omega

theorem readTopics_filters {filters : List (Bytes × UInt8)} (hf : ∀ f ∈ filters, f.1.length < 65536)
    {data : Bytes} {endOffset offset fuel : Nat} (hp : filterBytes filters <+: data.drop offset)
    (hend : endOffset = offset + (filterBytes filters).length) (hfuel : filters.length ≤ fuel) :
    readTopics data endOffset fuel offset = some (filters.map Prod.fst) := by
  induction filters generalizing offset fuel with
  | nil =>
    cases fuel with
    | zero => rfl
    | succ fuel => exact if_neg (by simp [hend, filterBytes])
  | cons f filters ih =>
    obtain ⟨fuel, rfl⟩ : ∃ fuel', fuel = fuel' + 1 := Nat.exists_eq_succ_of_ne_zero (by simp at hfuel; omega)
    rw [filterBytes_cons, append_prefix_drop, append_prefix_drop] at hp
    obtain ⟨htopic, hqos, hrest⟩ := hp
    rw [filterBytes_cons, List.length_append, List.length_append] at hend
    have hpos : 0 < (writeString f.1).length := List.length_pos_of_ne_nil (writeString_ne_nil f.1)
    have h1 := readString_eq_some.mpr ⟨hf f List.mem_cons_self, rfl, htopic⟩
    have h2 := readU8_eq_some.mpr ⟨rfl, hqos⟩
    have h3 := ih (fun g hg => hf g (List.mem_cons_of_mem f hg)) hrest (by omega) (Nat.le_of_succ_le_succ hfuel)
    rw [readTopics, if_pos (by omega), h1]
    dsimp only [Option.bind_eq_bind, Option.bind_some]
    rw [h2]
    dsimp only [Option.bind_some]
    rw [show offset + (writeString f.1).length + 1 = offset + (writeString f.1).length + [f.2].length from rfl, h3]
    rfl

theorem drop_of_prefix {e data : Bytes} {offset : Nat} (h : e <+: data.drop offset) :
    data.drop offset = e ++ data.drop (offset + e.length) := by
  obtain ⟨t, ht⟩ := h
  rw [← List.drop_drop, ← ht, List.drop_left]

theorem filters_of_readTopics {data : Bytes} {offset fuel : Nat} {topics : List Bytes}
    (h : readTopics data data.length fuel offset = some topics) (hle : offset ≤ data.length)
    (hfuel : data.length ≤ offset + fuel) :
    ∃ filters, (∀ f ∈ filters, f.1.length < 65536) ∧ data.drop offset = filterBytes filters := by
  induction fuel generalizing offset topics with
  | zero => exact ⟨[], by simp, List.drop_of_length_le hfuel⟩
  | succ fuel ih =>
    rw [readTopics] at h
    split at h
    · obtain ⟨⟨topic, o1⟩, h1, h⟩ := Option.bind_eq_some_iff.mp h
      obtain ⟨⟨qos, o2⟩, h2, h⟩ := Option.bind_eq_some_iff.mp h
      obtain ⟨rest, h3, h⟩ := Option.bind_eq_some_iff.mp h
      obtain ⟨-, -, hle2⟩ := readU8_some h2
      obtain ⟨ht, ho1, hp1⟩ := readString_eq_some.mp h1
      obtain ⟨ho2, hp2⟩ := readU8_eq_some.mp h2
      obtain ⟨filters, hf, hdrop⟩ := ih h3 hle2 (by omega)
      refine ⟨(topic, qos) :: filters, ?_, ?_⟩
      · rintro f (- | ⟨-, hmem⟩)
        · exact ht
        · exact hf f hmem
      · rw [filterBytes_cons, drop_of_prefix hp1, ← ho1, drop_of_prefix hp2, List.length_singleton, ← ho2, hdrop]
    · exact ⟨[], by simp, List.drop_of_length_le (by omega)⟩

/-- The longest string fits in what is left. -/
theorem readString_room (data : Bytes) (offset : Nat) (h : offset + 65537 ≤ data.length) :
    ∃ str offset', readString data offset = some (str, offset') ∧ offset' ≤ offset + 65537 := by
  cases hs : readString data offset with
  | some out =>
    obtain ⟨-, hlen, hoff, -⟩ := readString_some hs
    exact ⟨out.1, out.2, rfl, by omega⟩
  | none =>
    exfalso
    obtain ⟨v, hu⟩ : ∃ v, readU16 data offset = some (v, offset + 2) := ⟨_, if_neg (by omega)⟩
    obtain ⟨-, hv, -⟩ := readU16_some hu
    rw [readString, hu] at hs
    dsimp only [Option.bind_eq_bind, Option.bind_some] at hs
    rw [if_neg (by omega)] at hs
    cases hs

theorem readU8_room (data : Bytes) (offset : Nat) (h : offset + 1 ≤ data.length) :
    ∃ b, readU8 data offset = some (b, offset + 1) := ⟨_, if_neg (by omega)⟩

theorem readU16_room (data : Bytes) (offset : Nat) (h : offset + 2 ≤ data.length) :
    ∃ v, readU16 data offset = some (v, offset + 2) := ⟨_, if_neg (by omega)⟩

theorem readTopics_room {data : Bytes} {endOffset : Nat} (h : endOffset + 65538 ≤ data.length)
    (fuel offset : Nat) : ∃ topics, readTopics data endOffset fuel offset = some topics := by
  induction fuel generalizing offset with
  | zero => exact ⟨[], rfl⟩
  | succ fuel ih =>
    rw [readTopics]
    split
    · obtain ⟨topic, o1, h1, hle⟩ := readString_room data offset (by omega)
      obtain ⟨qos, h2⟩ := readU8_room data o1 (by omega)
      obtain ⟨topics, h3⟩ := ih (o1 + 1)
      exact ⟨topic :: topics, by simp only [h1, h2, h3, Option.bind_eq_bind, Option.bind_some]⟩
    · exact ⟨[], rfl⟩

theorem exists_length (n : Nat) : ∃ t : Bytes, t.length = n := ⟨List.replicate n 0, List.length_replicate⟩

/-- The decoder on bytes whose fixed header is known. -/
theorem decodeSubscribe_eq_some {data : Bytes} {remLen start : Nat} {sub : MqttSubscribe}
    (h : readFixedHeader data = some (remLen, start)) :
    decodeSubscribe data = some sub ↔ readU16 data start = some (sub.packetId, start + 2) ∧
      readTopics data (start + remLen) data.length (start + 2) = some sub.topics := by
  rw [decodeSubscribe, h, Option.bind_eq_bind, Option.bind_some]
  constructor
  · intro h
    obtain ⟨⟨packetId, offset⟩, hid, h⟩ := Option.bind_eq_some_iff.mp h
    obtain ⟨topics, htopics, h⟩ := Option.bind_eq_some_iff.mp h
    obtain rfl := Option.some.inj h
    obtain ⟨-, -, rfl, -⟩ := readU16_some hid
    exact ⟨hid, htopics⟩
  · rintro ⟨hid, htopics⟩
    simp only [hid, htopics, Option.bind_eq_bind, Option.bind_some]

theorem decodeSubscribe_append_iff {p field body : Bytes} (h : OnePacket p field body) :
    (∀ t, decodeSubscribe (p ++ t) = decodeSubscribe p) ↔ (field.length ≤ 3 → SubscribeWithin body) := by
  have hwith := readFixedHeader_packet h
  have halone := readFixedHeader_alone h
  have hlen := h.length
  by_cases hshort : field.length ≤ 3
  · simp only [if_pos hshort] at hwith halone
    constructor
    · intro hall _
      -- a continuation long enough completes the filter that the packet breaks off
      obtain ⟨t, ht⟩ := exists_length 65540
      have htotal : (p ++ t).length = p.length + 65540 := by rw [List.length_append, ht]
      obtain ⟨packetId, hid⟩ := readU16_room (p ++ t) (1 + field.length) (by omega)
      obtain ⟨topics, htopics⟩ := readTopics_room
        (show 1 + field.length + body.length + 65538 ≤ (p ++ t).length by omega) (p ++ t).length (1 + field.length + 2)
      have hsub : decodeSubscribe (p ++ t) = some ⟨packetId, topics⟩ :=
        (decodeSubscribe_eq_some (hwith t)).mpr ⟨hid, htopics⟩
      rw [hall t, decodeSubscribe_eq_some halone] at hsub
      obtain ⟨hlt, -, hp⟩ := readU16_eq_some.mp hsub.1
      obtain ⟨-, -, -, hle⟩ := readU16_some hsub.1
      rw [← hlen] at hsub
      obtain ⟨filters, hf, hdrop⟩ := filters_of_readTopics hsub.2 hle (by omega)
      refine ⟨packetId, filters, hlt, hf, ?_⟩
      rw [← h.drop_nil, drop_of_prefix hp, u16_length, hdrop]
    · intro hin
      obtain ⟨packetId, filters, hlt, hf, hbody⟩ := hin hshort
      have hdecode (t : Bytes) : decodeSubscribe (p ++ t) = some ⟨packetId, filters.map Prod.fst⟩ := by
        have hp : u16 packetId ++ filterBytes filters <+: (p ++ t).drop (1 + field.length) := by
          rw [h.drop, hbody]
          exact List.prefix_append _ t
        obtain ⟨hid, hfilters⟩ := append_prefix_drop.mp hp
        refine (decodeSubscribe_eq_some (hwith t)).mpr ⟨readU16_eq_some.mpr ⟨hlt, rfl, hid⟩, ?_⟩
        have hmany := length_le_filterBytes filters
        have hsize := congrArg List.length hbody
        rw [List.length_append, u16_length] at hsize
        refine readTopics_filters hf hfilters (by omega) ?_
        rw [List.length_append]
        omega
      intro t
      have hp := hdecode []
      rw [List.append_nil] at hp
      rw [hdecode t, hp]
  · simp only [if_neg hshort] at hwith halone
    refine ⟨fun _ hle => absurd hle hshort, fun _ t => ?_⟩
    rw [decodeSubscribe, decodeSubscribe, hwith, halone]
    rfl

/-! `decode_connect` compares its offset with the end of the packet nowhere. -/

/-- The fields of a CONNECT; a field that the flags do not announce is empty. -/
structure ConnectFields where
  protoName : Bytes
  protoLevel : UInt8
  connFlags : UInt8
  keepAlive : Nat
  clientId : Bytes
  willTopic : Bytes
  willMessage : Bytes
  username : Bytes
  password : Bytes

namespace ConnectFields

def bytes (f : ConnectFields) : Bytes :=
  writeString f.protoName ++ ([f.protoLevel] ++ ([f.connFlags] ++ (u16 f.keepAlive ++ (writeString f.clientId ++
    (flagged (f.connFlags &&& 0x04 ≠ 0) f.willTopic ++ (flagged (f.connFlags &&& 0x04 ≠ 0) f.willMessage ++
      (flagged (f.connFlags &&& 0x80 ≠ 0) f.username ++ flagged (f.connFlags &&& 0x40 ≠ 0) f.password)))))))

/-- A string that its flag announces, of a size that the length bytes can say. -/
def Sized (flag : Bool) (str : Bytes) : Prop := str.length < 65536 ∧ (flag = false → str = [])

structure WellFormed (f : ConnectFields) : Prop where
  protoName : f.protoName.length < 65536
  keepAlive : f.keepAlive < 65536
  clientId : f.clientId.length < 65536
  willTopic : Sized (f.connFlags &&& 0x04 ≠ 0) f.willTopic
  willMessage : Sized (f.connFlags &&& 0x04 ≠ 0) f.willMessage
  username : Sized (f.connFlags &&& 0x80 ≠ 0) f.username
  password : Sized (f.connFlags &&& 0x40 ≠ 0) f.password

end ConnectFields

/-- The protocol names that the broker speaks. -/
def protoNames : List Bytes := [ascii "MQTT", ascii "MQIsdp"]

/-- The body holds all fields that its flags announce. -/
def ConnectWithin (body : Bytes) : Prop := ∃ f : ConnectFields, f.WellFormed ∧ f.bytes <+: body

/-- As far as it goes, the body begins like a CONNECT with a protocol name of the broker. -/
def NamesBroker (body : Bytes) : Prop :=
  ∃ name ∈ protoNames, writeString name <+: body ∨ body <+: writeString name

theorem decodeConnect_chain {data : Bytes} {remLen start : Nat} (h : readFixedHeader data = some (remLen, start)) :
    decodeConnect data = (readString data start).bind fun (protoName, o1) =>
      if protoName ∉ protoNames then none
      else (readU8 data o1).bind fun (_, o2) => (readU8 data o2).bind fun (connFlags, o3) =>
        (readU16 data o3).bind fun (keepAlive, o4) => (readString data o4).bind fun (clientId, o5) =>
          (readFlagged (connFlags &&& 0x04 ≠ 0) data o5).bind fun (_, o6) =>
            (readFlagged (connFlags &&& 0x04 ≠ 0) data o6).bind fun (_, o7) =>
              (readFlagged (connFlags &&& 0x80 ≠ 0) data o7).bind fun (username, o8) =>
                (readFlagged (connFlags &&& 0x40 ≠ 0) data o8).bind fun (password, _) =>
                  some ⟨clientId, username, password, keepAlive⟩ := by
  rw [decodeConnect, h, Option.bind_eq_bind, Option.bind_some]
  refine congrArg (Option.bind _) (funext fun ⟨protoName, offset⟩ => ?_)
  have hnames : protoName ∉ protoNames ↔ protoName ≠ ascii "MQTT" ∧ protoName ≠ ascii "MQIsdp" := by
    simp [protoNames]
  dsimp only
  rw [if_congr hnames rfl rfl]
  split <;> rfl

theorem decodeConnect_eq_some {data : Bytes} {remLen start : Nat} {conn : MqttConnect}
    (h : readFixedHeader data = some (remLen, start)) :
    decodeConnect data = some conn ↔ ∃ f : ConnectFields, f.WellFormed ∧ f.protoName ∈ protoNames ∧
      f.bytes <+: data.drop start ∧ conn = ⟨f.clientId, f.username, f.password, f.keepAlive⟩ := by
  rw [decodeConnect_chain h]
  constructor
  · intro h
    obtain ⟨⟨protoName, o1⟩, h1, h⟩ := Option.bind_eq_some_iff.mp h
    obtain ⟨l1, ho1, p1⟩ := readString_eq_some.mp h1
    dsimp only at h
    split at h
    · cases h
    · rename_i hname
      obtain ⟨⟨protoLevel, o2⟩, h2, h⟩ := Option.bind_eq_some_iff.mp h
      obtain ⟨⟨connFlags, o3⟩, h3, h⟩ := Option.bind_eq_some_iff.mp h
      obtain ⟨⟨keepAlive, o4⟩, h4, h⟩ := Option.bind_eq_some_iff.mp h
      obtain ⟨⟨clientId, o5⟩, h5, h⟩ := Option.bind_eq_some_iff.mp h
      obtain ⟨⟨willTopic, o6⟩, h6, h⟩ := Option.bind_eq_some_iff.mp h
      obtain ⟨⟨willMessage, o7⟩, h7, h⟩ := Option.bind_eq_some_iff.mp h
      obtain ⟨⟨username, o8⟩, h8, h⟩ := Option.bind_eq_some_iff.mp h
      obtain ⟨⟨password, o9⟩, h9, h⟩ := Option.bind_eq_some_iff.mp h
      obtain rfl := Option.some.inj h
      obtain ⟨rfl, p2⟩ := readU8_eq_some.mp h2
      obtain ⟨rfl, p3⟩ := readU8_eq_some.mp h3
      obtain ⟨l4, rfl, p4⟩ := readU16_eq_some.mp h4
      obtain ⟨l5, rfl, p5⟩ := readString_eq_some.mp h5
      obtain ⟨l6, e6, rfl, p6⟩ := readFlagged_eq_some.mp h6
      obtain ⟨l7, e7, rfl, p7⟩ := readFlagged_eq_some.mp h7
      obtain ⟨l8, e8, rfl, p8⟩ := readFlagged_eq_some.mp h8
      obtain ⟨l9, e9, -, p9⟩ := readFlagged_eq_some.mp h9
      refine ⟨⟨protoName, protoLevel, connFlags, keepAlive, clientId, willTopic, willMessage, username, password⟩,
        ⟨l1, l4, l5, ⟨l6, e6⟩, ⟨l7, e7⟩, ⟨l8, e8⟩, ⟨l9, e9⟩⟩, not_not.mp hname, ?_, rfl⟩
      subst ho1
      simp only [ConnectFields.bytes, append_prefix_drop]
      exact ⟨p1, p2, p3, p4, p5, p6, p7, p8, p9⟩
  · rintro ⟨f, hf, hname, hbytes, rfl⟩
    simp only [ConnectFields.bytes, append_prefix_drop, List.length_singleton, u16_length] at hbytes
    obtain ⟨p1, p2, p3, p4, p5, p6, p7, p8, p9⟩ := hbytes
    have h1 := readString_eq_some.mpr ⟨hf.protoName, rfl, p1⟩
    have h2 := readU8_eq_some.mpr ⟨rfl, p2⟩
    have h3 := readU8_eq_some.mpr ⟨rfl, p3⟩
    have h4 := readU16_eq_some.mpr ⟨hf.keepAlive, rfl, p4⟩
    have h5 := readString_eq_some.mpr ⟨hf.clientId, rfl, p5⟩
    have h6 := readFlagged_eq_some.mpr ⟨hf.willTopic.1, hf.willTopic.2, rfl, p6⟩
    have h7 := readFlagged_eq_some.mpr ⟨hf.willMessage.1, hf.willMessage.2, rfl, p7⟩
    have h8 := readFlagged_eq_some.mpr ⟨hf.username.1, hf.username.2, rfl, p8⟩
    have h9 := readFlagged_eq_some.mpr ⟨hf.password.1, hf.password.2, rfl, p9⟩
    simp only [h1, h2, h3, h4, h5, h6, h7, h8, h9, hname, not_true_eq_false, if_false, Option.bind_some]

/-- A packet decodes alike with any continuation once it decodes. -/
theorem decodeConnect_mono {p field body : Bytes} (h : OnePacket p field body) {conn : MqttConnect}
    (hp : decodeConnect p = some conn) (t : Bytes) : decodeConnect (p ++ t) = some conn := by
  have hwith := readFixedHeader_packet h t
  have halone := readFixedHeader_alone h
  by_cases hshort : field.length ≤ 3
  · rw [if_pos hshort] at hwith halone
    rw [decodeConnect_eq_some halone, h.drop_nil] at hp
    obtain ⟨f, hf, hname, hbytes, hconn⟩ := hp
    rw [decodeConnect_eq_some hwith, h.drop]
    exact ⟨f, hf, hname, hbytes.trans (List.prefix_append _ t), hconn⟩
  · rw [if_neg hshort] at halone
    rw [decodeConnect, halone] at hp
    cases hp

theorem readFlagged_room (flag : Bool) (data : Bytes) (offset : Nat) (h : offset + 65537 ≤ data.length) :
    ∃ str offset', readFlagged flag data offset = some (str, offset') ∧ offset' ≤ offset + 65537 := by
  cases flag with
  | true => exact readString_room data offset h
  | false => exact ⟨[], offset, rfl, Nat.le_add_right offset 65537⟩

/-- Behind a protocol name of the broker anything is a CONNECT, if there is enough of it. -/
theorem decodeConnect_room {data name : Bytes} {remLen start : Nat}
    (h : readFixedHeader data = some (remLen, start)) (hname : name ∈ protoNames)
    (hp : writeString name <+: data.drop start) (hroom : start + 400000 ≤ data.length) :
    ∃ conn, decodeConnect data = some conn := by
  have hsize : name.length ≤ 6 := by
    have hall : ∀ n ∈ protoNames, n.length ≤ 6 := by decide
    exact hall name hname
  have h1 := readString_eq_some.mpr ⟨by omega, rfl, hp⟩
  rw [writeString_length] at h1
  obtain ⟨protoLevel, h2⟩ := readU8_room data (start + (2 + name.length)) (by omega)
  obtain ⟨connFlags, h3⟩ := readU8_room data (start + (2 + name.length) + 1) (by omega)
  obtain ⟨keepAlive, h4⟩ := readU16_room data (start + (2 + name.length) + 1 + 1) (by omega)
  obtain ⟨clientId, o5, h5, b5⟩ := readString_room data (start + (2 + name.length) + 1 + 1 + 2) (by omega)
  obtain ⟨willTopic, o6, h6, b6⟩ := readFlagged_room (connFlags &&& 0x04 ≠ 0) data o5 (by omega)
  obtain ⟨willMessage, o7, h7, b7⟩ := readFlagged_room (connFlags &&& 0x04 ≠ 0) data o6 (by omega)
  obtain ⟨username, o8, h8, b8⟩ := readFlagged_room (connFlags &&& 0x80 ≠ 0) data o7 (by omega)
  obtain ⟨password, o9, h9, b9⟩ := readFlagged_room (connFlags &&& 0x40 ≠ 0) data o8 (by omega)
  refine ⟨⟨clientId, username, password, keepAlive⟩, ?_⟩
  rw [decodeConnect_chain h]
  simp only [h1, h2, h3, h4, h5, h6, h7, h8, h9, hname, not_true_eq_false, if_false, Option.bind_some]

theorem decodeConnect_append_iff {p field body : Bytes} (h : OnePacket p field body) :
    (∀ t, decodeConnect (p ++ t) = decodeConnect p) ↔
      (field.length ≤ 3 → NamesBroker body → ConnectWithin body) := by
  have hwith := readFixedHeader_packet h
  have halone := readFixedHeader_alone h
  by_cases hshort : field.length ≤ 3
  · simp only [if_pos hshort] at hwith halone
    constructor
    · rintro hall - ⟨name, hname, hcompat⟩
      -- a continuation that completes the name and leaves room for every other field
      obtain ⟨filler, hfiller⟩ := exists_length 400000
      have hp : writeString name <+: body ++ ((writeString name).drop body.length ++ filler) := by
        obtain ⟨s, hs⟩ | ⟨s, hs⟩ := hcompat
        · rw [← hs, List.append_assoc]
          exact List.prefix_append _ _
        · rw [← hs, List.drop_left, ← List.append_assoc]
          exact List.prefix_append _ _
      rw [← h.drop] at hp
      obtain ⟨conn, hconn⟩ := decodeConnect_room (hwith _) hname hp (by
        have hlen := h.length
        simp only [List.length_append, hfiller]
        omega)
      rw [hall, decodeConnect_eq_some halone, h.drop_nil] at hconn
      obtain ⟨f, hf, -, hbytes, -⟩ := hconn
      exact ⟨f, hf, hbytes⟩
    · intro hin t
      cases hdecode : decodeConnect (p ++ t) with
      | none =>
        symm
        by_contra hne
        obtain ⟨conn, hconn⟩ := Option.ne_none_iff_exists'.mp hne
        rw [decodeConnect_mono h hconn t] at hdecode
        cases hdecode
      | some conn =>
        obtain ⟨f, hf, hname, hbytes, -⟩ := (decodeConnect_eq_some (hwith t)).mp hdecode
        rw [h.drop] at hbytes
        have hnamed : writeString f.protoName <+: body ++ t := (List.prefix_append _ _).trans hbytes
        obtain ⟨g, hg, hgbytes⟩ := hin hshort
          ⟨f.protoName, hname, List.prefix_or_prefix_of_prefix hnamed (List.prefix_append body t)⟩
        -- both layouts begin with the same name
        have hsame : g.protoName = f.protoName := by
          have hgnamed : writeString g.protoName <+: body ++ t :=
            (List.prefix_append _ _).trans (hgbytes.trans (List.prefix_append body t))
          rw [← h.drop] at hnamed hgnamed
          have h1 := readString_eq_some.mpr ⟨hf.protoName, rfl, hnamed⟩
          have h2 := readString_eq_some.mpr ⟨hg.protoName, rfl, hgnamed⟩
          exact (Prod.mk.inj (Option.some.inj (h2.symm.trans h1))).1
        have hp : decodeConnect p = some ⟨g.clientId, g.username, g.password, g.keepAlive⟩ := by
          rw [decodeConnect_eq_some halone, h.drop_nil]
          exact ⟨g, hg, hsame ▸ hname, hgbytes, rfl⟩
        rw [← hdecode, hp, decodeConnect_mono h hp t]
  · simp only [if_neg hshort] at hwith halone
    refine ⟨fun _ hle => absurd hle hshort, fun _ t => ?_⟩
    rw [decodeConnect, decodeConnect, hwith, halone]
    rfl

/-- A PUBLISH is decoded from its own bytes. A CONNECT is if it holds the fields it announces, and
a SUBSCRIBE if it holds whole filters; otherwise some continuation completes the field. -/
theorem trailing_bytes_ignored_iff {p field body : Bytes} (h : OnePacket p field body) :
    ((∀ t, decodeConnect (p ++ t) = decodeConnect p) ↔
        (field.length ≤ 3 → NamesBroker body → ConnectWithin body)) ∧
      (∀ t, decodePublish (p ++ t) = decodePublish p) ∧
      ((∀ t, decodeSubscribe (p ++ t) = decodeSubscribe p) ↔ (field.length ≤ 3 → SubscribeWithin body)) :=
  ⟨decodeConnect_append_iff h, decodePublish_append h, decodeSubscribe_append_iff h⟩

/-- A SUBSCRIBE without a body. -/
private theorem onePacket_bare : OnePacket [0x82, 0x00] [0x00] [] := ⟨⟨0x82, rfl⟩, by decide⟩

theorem trailing_bytes_bare : OnePacket [0x82, 0x00] [0x00] [] ∧
    ((∀ t, decodeConnect ([0x82, 0x00] ++ t) = decodeConnect [0x82, 0x00]) ↔
        (1 ≤ 3 → NamesBroker [] → ConnectWithin [])) ∧
      (∀ t, decodePublish ([0x82, 0x00] ++ t) = decodePublish [0x82, 0x00]) ∧
      ((∀ t, decodeSubscribe ([0x82, 0x00] ++ t) = decodeSubscribe [0x82, 0x00]) ↔ (1 ≤ 3 → SubscribeWithin [])) :=
  ⟨onePacket_bare, trailing_bytes_ignored_iff onePacket_bare⟩

/-- A CONNECT that ends behind the length of its client id. -/
private def cutConnect : Bytes := [0x10, 0x0C, 0x00, 0x04, 77, 81, 84, 84, 0x04, 0x02, 0x00, 60, 0x00, 0x01]

/-- The packet id of a SUBSCRIBE and the client id of a CONNECT are taken from what follows. -/
theorem fields_taken_from_trailing_bytes :
    (OnePacket [0x82, 0x00] [0x00] [] ∧ decodeSubscribe [0x82, 0x00] = none ∧
      decodeSubscribe ([0x82, 0x00] ++ [0x00, 0x07]) = some ⟨7, []⟩) ∧
    OnePacket cutConnect [0x0C] (cutConnect.drop 2) ∧ decodeConnect cutConnect = none ∧
      decodeConnect (cutConnect ++ [97]) = some ⟨[97], [], [], 60⟩ := by
  refine ⟨⟨onePacket_bare, by decide +kernel, by decide +kernel⟩, ⟨⟨0x10, rfl⟩, by decide⟩, by decide +kernel,
    by decide +kernel⟩

end LightApr.Mqtt.PacketSuffix
