import LightApr.Lib.Framing
import LightApr.Mqtt.WebsocketCodec

/-! The frames of a WebSocket stream, and what they carry. -/
namespace LightApr.Mqtt.FrameStream
open LightApr.Core Lib.Framing WebsocketCodec

private theorem getD_front {p : Bytes} {k : Nat} (u : Bytes) (h : k < p.length) :
    (p ++ u).getD k 0 = p.getD k 0 := by
  rw [List.getD_eq_getElem?_getD, List.getD_eq_getElem?_getD, List.getElem?_append_left h]

private theorem substr_front {p : Bytes} {pos n : Nat} (u : Bytes) (h : pos + n ≤ p.length) :
    substr (p ++ u) pos n = substr p pos n := by
  rw [substr, substr, List.drop_append_of_le_length (by omega), List.take_append_of_le_length (by
    rw [List.length_drop]
    omega)]

/-- The length field is read from the header alone. -/
theorem frameLength_front {p u : Bytes} {payloadLen lenEnd : Nat}
    (h : frameLength (p ++ u) = some (payloadLen, lenEnd)) (hle : lenEnd ≤ p.length) (t : Bytes) :
    frameLength (p ++ t) = some (payloadLen, lenEnd) := by
  have h2 : 2 ≤ lenEnd := (frameLength_le h).1
  have hb (v : Bytes) : (p ++ v).getD 1 0 = p.getD 1 0 := getD_front v (by omega)
  have hlen (v : Bytes) : p.length ≤ (p ++ v).length := by simp
  unfold frameLength at h ⊢
  dsimp only at h ⊢
  rw [hb] at h ⊢
  rw [if_neg (by have := hlen t; omega)]
  rw [if_neg (by have := hlen u; omega)] at h
  split at h
  · rename_i h126
    rw [if_pos h126]
    split at h
    · cases h
    · obtain ⟨hv, rfl⟩ := Prod.mk.inj (Option.some.inj h)
      rw [if_neg (by have := hlen t; omega), substr_front t (by omega), ← hv, substr_front u (by omega)]
  · rename_i h126
    rw [if_neg h126]
    split at h
    · rename_i h127
      rw [if_pos h127]
      split at h
      · cases h
      · obtain ⟨hv, rfl⟩ := Prod.mk.inj (Option.some.inj h)
        rw [if_neg (by have := hlen t; omega), substr_front t (by omega), ← hv, substr_front u (by omega)]
    · rename_i h127
      rw [if_neg h127, h]

/-- A frame is read from its own bytes alone. -/
theorem decodeFrame_front {p u : Bytes} {f : WsFrame} (h : decodeFrame (p ++ u) = .frame f p.length) (t : Bytes) :
    decodeFrame (p ++ t) = .frame f p.length := by
  unfold decodeFrame at h ⊢
  cases hl : frameLength (p ++ u) with
  | none =>
    rw [hl] at h
    cases h
  | some l =>
    obtain ⟨payloadLen, lenEnd⟩ := l
    obtain ⟨h2, -⟩ := frameLength_le hl
    rw [hl] at h
    dsimp only at h
    obtain ⟨headerLen, hm⟩ : ∃ x, (if (p ++ u).getD 1 0 &&& 0x80 ≠ 0 then lenEnd + 4 else lenEnd) = x := ⟨_, rfl⟩
    rw [hm] at h
    have hh : lenEnd ≤ headerLen := by
      rw [← hm]
      split <;> omega
    split at h
    · cases h
    · split at h
      · cases h
      · split at h
        · cases h
        · rename_i hshort hlen hwrap
          obtain ⟨hf, hn⟩ := DecodeResult.frame.inj h
          have hb (v : Bytes) : (p ++ v).getD 1 0 = p.getD 1 0 := getD_front v (by omega)
          have hb0 (v : Bytes) : (p ++ v).getD 0 0 = p.getD 0 0 := getD_front v (by omega)
          rw [frameLength_front hl (by omega) t]
          dsimp only
          rw [hb] at hm hf ⊢
          rw [hm, hn, Nat.mod_eq_of_lt (by omega), if_neg, if_neg (by simp), if_neg (by omega)]
          · have hpayload (v : Bytes) : substr (p ++ v) headerLen payloadLen = substr p headerLen payloadLen :=
              substr_front v (by omega)
            rw [← hf, hb0, hb0, hpayload, hpayload]
            by_cases hmask : p.getD 1 0 &&& 0x80 ≠ 0
            · rw [if_pos hmask] at hm
              rw [substr_front t (by omega : lenEnd + 4 ≤ _), substr_front u (by omega : lenEnd + 4 ≤ _)]
            · simp only [if_neg hmask]
          · rintro ⟨hmask, hshort⟩
            rw [if_pos hmask] at hm
            rw [List.length_append] at hshort
            omega

theorem decodeFrame_take {data : Bytes} {f : WsFrame} {n : Nat} (h : decodeFrame data = .frame f n) (t : Bytes) :
    decodeFrame (data.take n ++ t) = .frame f n := by
  have hlen : (data.take n).length = n := List.length_take_of_le (decodeFrame_within h).2
  have hsplit : decodeFrame (data.take n ++ data.drop n) = .frame f (data.take n).length := by
    rw [List.take_append_drop, hlen, h]
  rw [decodeFrame_front hsplit, hlen]

/-- A claimed length that wraps around stays refused. -/
theorem decodeFrame_threw_append {p : Bytes} (h : decodeFrame p = .threw) (t : Bytes) :
    decodeFrame (p ++ t) = .threw := by
  unfold decodeFrame at h ⊢
  cases hl : frameLength p with
  | none =>
    rw [hl] at h
    cases h
  | some l =>
    obtain ⟨payloadLen, lenEnd⟩ := l
    obtain ⟨h2, hle⟩ := frameLength_le hl
    have hb : (p ++ t).getD 1 0 = p.getD 1 0 := getD_front t (by omega)
    rw [hl] at h
    rw [frameLength_front (u := []) (by rw [List.append_nil, hl]) hle t]
    dsimp only at h ⊢
    rw [hb, List.length_append]
    generalize (if p.getD 1 0 &&& 0x80 ≠ 0 then lenEnd + 4 else lenEnd) = headerLen at h ⊢
    split at h
    · cases h
    · rename_i hmask
      split at h
      · cases h
      · rename_i hlen
        split at h
        · rename_i hwrap
          rw [if_neg (fun hc => hmask ⟨hc.1, by omega⟩), if_neg (by omega), if_pos hwrap]
        · cases h

/-- The framer that the receive loop runs on its buffer. -/
def framer : Framer UInt8 where
  cut data := match decodeFrame data with
    | .frame _ n => some n
    | .incomplete | .threw => none
  within := by
    intro s n h
    split at h
    · rename_i hd
      obtain rfl := Option.some.inj h
      exact (decodeFrame_within hd).2
    · cases h
    · cases h
  stable := by
    intro s n t h
    split at h
    · rename_i f m hd
      obtain rfl := Option.some.inj h
      rw [← List.take_append_drop m s, List.append_assoc, decodeFrame_take hd]
    · cases h
    · cases h

theorem framer_cut {data : Bytes} {f : WsFrame} {n : Nat} (h : decodeFrame data = .frame f n) :
    framer.cut data = some n := by
  simp only [framer, h]

/-- A frame as it stands on the wire, read. -/
def readFrame (raw : Bytes) : Option WsFrame :=
  match decodeFrame raw with
  | .frame f _ => some f
  | .incomplete | .threw => none

/-- No frame is empty. -/
theorem length_le_of_peels {stream rest : Bytes} {raws : List Bytes} (h : framer.Peels stream raws rest) :
    raws.length ≤ stream.length := by
  induction h with
  | done => exact Nat.zero_le _
  | @next stream _ n _ hc _ ih =>
    have h2 : 2 ≤ n ∧ n ≤ stream.length := by
      simp only [framer] at hc
      split at hc
      · rename_i hd
        obtain rfl := Option.some.inj hc
        exact decodeFrame_within hd
      · cases hc
      · cases hc
    rw [List.length_drop] at ih
    rw [List.length_cons]
    omega

theorem readFrame_take {data : Bytes} {f : WsFrame} {n : Nat} (h : decodeFrame data = .frame f n) :
    readFrame (data.take n) = some f := by
  have hread := decodeFrame_take h []
  rw [List.append_nil] at hread
  simp only [readFrame, hread]

/-- The frames that have arrived completely. -/
def arrived (stream : Bytes) : List WsFrame := (framer.frames stream.length stream).filterMap readFrame

theorem arrived_eq {stream rest : Bytes} {raws : List Bytes} (h : framer.Peels stream raws rest)
    (hr : framer.Stuck rest) : arrived stream = raws.filterMap readFrame := by
  rw [arrived, h.frames_eq hr (length_le_of_peels h)]

/-! What the frames carry. -/

/-- The payloads that the receive loop hands to `process_packet`, and that are not empty. -/
def packets (frames : List WsFrame) : List Bytes :=
  (frames.filter fun f => (f.opcode = 0x01 ∨ f.opcode = 0x02) ∧ f.payload ≠ []).map WsFrame.payload

/-- The payloads of continuation frames, as one string. -/
def continued (frames : List WsFrame) : Bytes :=
  (frames.filter fun f => f.opcode = 0x00).flatMap WsFrame.payload

/-- The payloads of all data frames, continued or not, as one string. -/
def data (frames : List WsFrame) : Bytes :=
  (frames.filter fun f => f.opcode = 0x00 ∨ f.opcode = 0x01 ∨ f.opcode = 0x02).flatMap WsFrame.payload

/-- The frames of a client that sends binary messages, whole or fragmented, with pings in
between; `inside`: a message has begun and is not finished. -/
def binaryMessages (inside : Bool) : List WsFrame → Bool
  | [] => true
  | f :: frames =>
    if f.opcode = 0x09 then f.fin && binaryMessages inside frames
    else f.opcode = (if inside then 0x00 else 0x02) && binaryMessages (!f.fin) frames

theorem length_data (frames : List WsFrame) :
    (data frames).length = (packets frames).flatten.length + (continued frames).length := by
  induction frames with
  | nil => rfl
  | cons f frames ih =>
    have hnil : f.payload = [] ∨ f.payload ≠ [] := Classical.em _
    simp only [data, packets, continued, List.filter_cons, decide_eq_true_eq] at ih ⊢
    by_cases h0 : f.opcode = 0x00
    · have h1 : ¬ ((f.opcode = 0x01 ∨ f.opcode = 0x02) ∧ f.payload ≠ []) := by
        rw [h0]
        rintro ⟨h | h, -⟩ <;> exact absurd h (by decide)
      rw [if_pos (.inl h0), if_neg h1, if_pos h0, List.flatMap_cons, List.flatMap_cons, List.length_append,
        List.length_append, ih]
      omega
    · by_cases h12 : f.opcode = 0x01 ∨ f.opcode = 0x02
      · rw [if_pos (.inr h12), if_neg h0, List.flatMap_cons, List.length_append, ih]
        rcases hnil with hnil | hnil
        · rw [if_neg (by simp [hnil]), hnil, List.length_nil, Nat.zero_add]
        · rw [if_pos ⟨h12, hnil⟩, List.map_cons, List.flatten_cons, List.length_append, Nat.add_assoc]
      · rw [if_neg (by simp [h0, h12]), if_neg (by simp [h12]), if_neg h0, ih]

end LightApr.Mqtt.FrameStream
