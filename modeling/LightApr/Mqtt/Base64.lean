import LightApr.Lib.BaseEncoding
import LightApr.Mqtt.WebsocketCodec

/-! The base64 text of the handshake, against RFC 4648. -/
namespace LightApr.Mqtt.Base64
open LightApr.Core WebsocketCodec
open LightApr.Lib.BaseEncoding
open LightApr.Lib.Sha1 (digits digits_add digits_join digits_mod length_ofBytes ofBytes)

/-! The characters of one group. -/

/-- The characters of the codec are the letters of the table. -/
theorem b64Chars_getD {i : Nat} (hi : i < 64) : b64Chars.getD i 0 = base64Letter i := by
  have htable : ∀ i < 64, b64Chars.getD i 0 = base64Letter i := by decide +kernel
  exact htable i hi

/-- The letter of a number's last six bits. -/
private theorem letter_ofNat (n : Nat) : base64.letter (BitVec.ofNat 6 n) = b64Chars.getD (n % 64) 0 := by
  rw [b64Chars_getD (Nat.mod_lt n (by decide))]
  exact congrArg base64Letter (BitVec.toNat_ofNat n 6)

/-- What the masks and shifts take out of a byte. -/
private theorem masked (b : UInt8) : ((b &&& 0xfc) >>> 2).toNat = b.toNat / 4 ∧
    ((b &&& 0x03) <<< 4).toNat = b.toNat % 4 * 16 ∧ ((b &&& 0xf0) >>> 4).toNat = b.toNat / 16 ∧
    ((b &&& 0x0f) <<< 2).toNat = b.toNat % 16 * 4 ∧ ((b &&& 0xc0) >>> 6).toNat = b.toNat / 64 ∧
    (b &&& 0x3f).toNat = b.toNat % 64 := by
  have hbytes : ∀ n < 256, ((UInt8.ofNat n &&& 0xfc) >>> 2).toNat = n / 4 ∧
      ((UInt8.ofNat n &&& 0x03) <<< 4).toNat = n % 4 * 16 ∧ ((UInt8.ofNat n &&& 0xf0) >>> 4).toNat = n / 16 ∧
      ((UInt8.ofNat n &&& 0x0f) <<< 2).toNat = n % 16 * 4 ∧ ((UInt8.ofNat n &&& 0xc0) >>> 6).toNat = n / 64 ∧
      (UInt8.ofNat n &&& 0x3f).toNat = n % 64 := by decide +kernel
  simpa using hbytes b.toNat b.toNat_lt

/-- The six-bit numbers of three bytes. -/
private def sextets (a b c : Nat) : List (BitVec 6) :=
  [BitVec.ofNat 6 (a / 4), BitVec.ofNat 6 (a * 16 + b / 16), BitVec.ofNat 6 (b * 4 + c / 64), BitVec.ofNat 6 c]

theorem b64Group_eq (a b c : UInt8) : b64Group a b c = (sextets a.toNat b.toNat c.toNat).map base64.letter := by
  obtain ⟨ha0, ha1, -⟩ := masked a
  obtain ⟨-, -, hb1, hb2, -⟩ := masked b
  obtain ⟨-, -, -, -, hc2, hc3⟩ := masked c
  have h0 : a.toNat / 4 = a.toNat / 4 % 64 := by
    have := a.toNat_lt
    omega
  have h1 : (((a &&& 0x03) <<< 4) + ((b &&& 0xf0) >>> 4)).toNat = (a.toNat * 16 + b.toNat / 16) % 64 := by
    have := b.toNat_lt
    rw [UInt8.toNat_add, ha1, hb1]
    omega
  have h2 : (((b &&& 0x0f) <<< 2) + ((c &&& 0xc0) >>> 6)).toNat = (b.toNat * 4 + c.toNat / 64) % 64 := by
    have := c.toNat_lt
    rw [UInt8.toNat_add, hb2, hc2]
    omega
  simp only [b64Group, sextets, List.map_cons, List.map_nil, letter_ofNat, ha0, h1, h2, hc3, ← h0]

/-- The bits of three bytes, where they are divided between the numbers. -/
private theorem digits_split {a b c : Nat} (hb : b < 256) (hc : c < 256) :
    (digits 8 a = digits 6 (a / 4) ++ digits 2 a ∧ digits 6 (a * 16 + b / 16) = digits 2 a ++ digits 4 (b / 16)) ∧
    (digits 8 b = digits 4 (b / 16) ++ digits 4 b ∧ digits 6 (b * 4 + c / 64) = digits 4 b ++ digits 2 (c / 64)) ∧
    digits 8 c = digits 2 (c / 64) ++ digits 6 c :=
  ⟨⟨digits_add 6 2 a, digits_join 2 (show b / 16 < 2 ^ 4 by omega) a⟩,
    ⟨digits_add 4 4 b, digits_join 4 (show c / 64 < 2 ^ 2 by omega) b⟩, digits_add 2 6 c⟩

theorem indices_three (a b c : UInt8) : indices 6 [a, b, c] = sextets a.toNat b.toNat c.toNat := by
  obtain ⟨⟨ha, hab⟩, ⟨hb, hbc⟩, hc⟩ := digits_split (a := a.toNat) b.toNat_lt c.toNat_lt
  rw [indices_eq_iff (by decide), fillUp_of_dvd (by rw [length_ofBytes]; exact ⟨4, rfl⟩)]
  simp only [sextets, List.flatMap_cons, List.flatMap_nil, BitVec.toNat_ofNat, digits_mod, ofBytes, ha, hab, hb, hbc,
    hc, List.append_assoc]

/-- A group is written in as many letters as its bytes need, and one sign for each byte that is missing. -/
theorem encode_group {pending : Bytes} (h0 : pending ≠ []) (h3 : pending.length ≤ 3) :
    encode base64 pending =
      (b64Group (pending.getD 0 0) (pending.getD 1 0) (pending.getD 2 0)).take (pending.length + 1) ++
        List.replicate (3 - pending.length) 61 := by
  have hfilled : pending ++ List.replicate (3 - pending.length) 0 =
      [pending.getD 0 0, pending.getD 1 0, pending.getD 2 0] := by
    match pending, h0, h3 with
    | [_], _, _ | [_, _], _, _ | [_, _, _], _, _ => rfl
  have hpos := List.length_pos_iff.mpr h0
  have hcount : (indices 6 pending).length = pending.length + 1 := by
    have hlength := length_indices (w := 6) (by decide) pending
    rw [fillUp, List.length_append, List.length_replicate, length_ofBytes] at hlength
    omega
  have htake := take_indices (w := 6) (by decide) (by decide) pending (3 - pending.length)
  rw [hfilled, indices_three, hcount] at htake
  have hsigns : (4 - (pending.length + 1) % 4) % 4 = 3 - pending.length := by omega
  rw [encode, fillUp, quantum_six, List.length_map, hcount, hsigns, ← htake, b64Group_eq, List.map_take]
  rfl

/-! The loop. -/

/-- The bytes in `char_array_3` and those not read yet are encoded as if they were still one string. -/
theorem base64From_eq (pending rest : Bytes) (h : pending.length < 3) :
    base64From pending rest = encode base64 (pending ++ rest) := by
  induction rest generalizing pending with
  | nil =>
    rw [List.append_nil, base64From]
    by_cases h0 : pending = []
    · subst h0
      decide
    · rw [if_neg h0, encode_group h0 (Nat.le_of_lt h)]
  | cons b rest ih =>
    match pending, h with
    | [], _ => exact ih [b] (by simp)
    | [a0], _ => exact ih [a0, b] (by simp)
    | [a0, a1], _ =>
      have hlcm : Nat.lcm 8 6 = 24 := by decide
      have hwhole : Nat.lcm 8 6 ∣ 8 * [a0, a1, b].length := by
        rw [hlcm]
        exact ⟨1, rfl⟩
      have happend : encode base64 ([a0, a1] ++ b :: rest) = encode base64 [a0, a1, b] ++ encode base64 rest :=
        encode_append (by decide) hwhole rest
      have hgroup : encode base64 [a0, a1, b] = b64Group a0 a1 b := encode_group (List.cons_ne_nil _ _) (Nat.le_refl 3)
      rw [happend, hgroup, base64From, ih [] (by decide), List.nil_append]

theorem base64Encode_eq (data : Bytes) : base64Encode data = encode base64 data :=
  base64From_eq [] data (Nat.zero_lt_succ 2)

/-- **The text is the one of RFC 4648: as long as it has to be, of letters of the alphabet with at most two signs
behind them, and read back as the bytes.** -/
theorem base64Encode_standard (data : Bytes) :
    base64Encode data = encode base64 data ∧ (base64Encode data).length = 4 * ((data.length + 2) / 3) ∧
      (∃ letters k, base64Encode data = letters ++ List.replicate k 61 ∧ k ≤ 2 ∧
        ∀ c ∈ letters, ∃ i, base64.letter i = c) ∧
      decode base64 (base64Encode data) = some data := by
  obtain ⟨k, hk, hletters⟩ := encode_letters base64 data
  rw [base64Encode_eq]
  refine ⟨rfl, length_encode base64 data, ⟨_, k, hletters, hk, fun c hc => ?_⟩, ?_⟩
  · obtain ⟨i, -, hi⟩ := List.mem_map.mp hc
    exact ⟨i, hi⟩
  · exact decode_encode (by decide) (by decide) data

/-! The two that are written so: the accept key, and the key of a client. -/

/-- The accept key is the hash, in 28 characters. -/
theorem computeAcceptKey_text (clientKey : Bytes) : (computeAcceptKey clientKey).length = 28 ∧
    decode base64 (computeAcceptKey clientKey) =
      some (sha1 (clientKey ++ ascii "258EAFA5-E914-47DA-95CA-C5AB0DC85B11")) := by
  have hlength : (sha1 (clientKey ++ ascii "258EAFA5-E914-47DA-95CA-C5AB0DC85B11")).length = 20 := rfl
  rw [computeAcceptKey, base64Encode_eq, length_encode, hlength]
  exact ⟨rfl, decode_encode (by decide) (by decide) _⟩

/-- `generate_ws_nonce` of the C++ client; `dist` is what its generator draws. -/
def generateWsNonce (dist : Nat → Nat) : Bytes := base64Encode ((List.range 16).map fun i => UInt8.ofNat (dist i))

/-- The nonce is sixteen bytes, in 24 characters. -/
theorem generateWsNonce_text (dist : Nat → Nat) : (generateWsNonce dist).length = 24 ∧
    decode base64 (generateWsNonce dist) = some ((List.range 16).map fun i => UInt8.ofNat (dist i)) := by
  rw [generateWsNonce, base64Encode_eq, length_encode, List.length_map, List.length_range]
  exact ⟨rfl, decode_encode (by decide) (by decide) _⟩

end LightApr.Mqtt.Base64
