import LightApr.Core.Bytes

/-! The WebSocket codec of the broker: the upgrade handshake with its SHA-1 and
base64, and the frame encoder and decoder. -/
namespace LightApr.Mqtt.WebsocketCodec
open LightApr.Core

def leftRotate (value : UInt32) (count : Nat) : UInt32 :=
  (value <<< UInt32.ofNat count) ||| (value >>> UInt32.ofNat (32 - count))

/-- The five chaining words. -/
structure Sha1State where
  h0 : UInt32
  h1 : UInt32
  h2 : UInt32
  h3 : UInt32
  h4 : UInt32
  deriving DecidableEq, Repr

def sha1Init : Sha1State := ⟨0x67452301, 0xEFCDAB89, 0x98BADCFE, 0x10325476, 0xC3D2E1F0⟩

/-- 0x80, zeroes up to 56 modulo 64, and the bit length in eight bytes. -/
def sha1Pad (input : Bytes) : Bytes :=
  let bitLen := input.length * 8 % sizeMax
  let zeroes := (56 + 64 - (input.length + 1) % 64) % 64
  input ++ [0x80] ++ List.replicate zeroes 0 ++
    [7, 6, 5, 4, 3, 2, 1, 0].map fun i => UInt8.ofNat (bitLen / 256 ^ i)

def sha1Word (chunk : Bytes) (i : Nat) : UInt32 :=
  ((chunk.getD (i * 4) 0).toUInt32 <<< 24) ||| ((chunk.getD (i * 4 + 1) 0).toUInt32 <<< 16) |||
    ((chunk.getD (i * 4 + 2) 0).toUInt32 <<< 8) ||| (chunk.getD (i * 4 + 3) 0).toUInt32

/-- `w[0..16)` from the chunk, then one word after the other. -/
def sha1Schedule (chunk : Bytes) : List UInt32 :=
  (List.range 64).foldl (fun w k =>
    let i := k + 16
    w ++ [leftRotate (w.getD (i - 3) 0 ^^^ w.getD (i - 8) 0 ^^^ w.getD (i - 14) 0 ^^^ w.getD (i - 16) 0) 1])
    ((List.range 16).map (sha1Word chunk))

/-- The round function and constant. -/
def sha1Mix (i : Nat) (b c d : UInt32) : UInt32 × UInt32 :=
  if i < 20 then ((b &&& c) ||| (~~~b &&& d), 0x5A827999)
  else if i < 40 then (b ^^^ c ^^^ d, 0x6ED9EBA1)
  else if i < 60 then ((b &&& c) ||| (b &&& d) ||| (c &&& d), 0x8F1BBCDC)
  else (b ^^^ c ^^^ d, 0xCA62C1D6)

def sha1Round (s : Sha1State) (i : Nat) (w : UInt32) : Sha1State :=
  let (f, k) := sha1Mix i s.h1 s.h2 s.h3
  ⟨leftRotate s.h0 5 + f + s.h4 + k + w, s.h0, leftRotate s.h1 30, s.h2, s.h3⟩

def sha1Chunk (h : Sha1State) (chunk : Bytes) : Sha1State :=
  let w := sha1Schedule chunk
  let s := (List.range 80).foldl (fun s i => sha1Round s i (w.getD i 0)) h
  ⟨h.h0 + s.h0, h.h1 + s.h1, h.h2 + s.h2, h.h3 + s.h3, h.h4 + s.h4⟩

def sha1 (input : Bytes) : Bytes :=
  let msg := sha1Pad input
  let h := (List.range (msg.length / 64)).foldl (fun h k => sha1Chunk h (substr msg (k * 64) 64)) sha1Init
  [h.h0, h.h1, h.h2, h.h3, h.h4].flatMap fun x : UInt32 =>
    [(x >>> 24).toUInt8, (x >>> 16).toUInt8, (x >>> 8).toUInt8, x.toUInt8]

def b64Chars : Bytes :=
  ascii "ABCDEFGHIJKLMNOPQRSTUVWXYZabcdefghijklmnopqrstuvwxyz0123456789+/"

/-- `char_array_4` from the three bytes of `char_array_3`, as characters. -/
def b64Group (a b c : UInt8) : Bytes :=
  [(a &&& 0xfc) >>> 2, ((a &&& 0x03) <<< 4) + ((b &&& 0xf0) >>> 4),
    ((b &&& 0x0f) <<< 2) + ((c &&& 0xc0) >>> 6), c &&& 0x3f].map fun i => b64Chars.getD i.toNat 0

/-- The loop over the input; `pending` is the filled part of `char_array_3`. -/
def base64From (pending : Bytes) : Bytes → Bytes
  | b :: rest =>
    match pending with
    | [a0, a1] => b64Group a0 a1 b ++ base64From [] rest
    | _ => base64From (pending ++ [b]) rest
  | [] =>
    if pending = [] then []
    else
      (b64Group (pending.getD 0 0) (pending.getD 1 0) (pending.getD 2 0)).take (pending.length + 1) ++
        List.replicate (3 - pending.length) 61

def base64Encode (data : Bytes) : Bytes := base64From [] data

def computeAcceptKey (clientKey : Bytes) : Bytes :=
  base64Encode (sha1 (clientKey ++ ascii "258EAFA5-E914-47DA-95CA-C5AB0DC85B11"))

/-- One line of the upgrade request; the later header of a name wins. -/
def handshakeLine (found : Bytes × Bytes) (line : Bytes) : Bytes × Bytes :=
  let line := if line.getLast? = some cr then line.dropLast else line
  match findByte 58 line with
  | none => found
  | some colon =>
    let lowerName := (line.take colon).map toLower
    let headerVal := (line.drop (colon + 1)).dropWhile (· = 32)
    if lowerName = ascii "sec-websocket-key" then (headerVal, found.2)
    else if lowerName = ascii "sec-websocket-protocol" then (found.1, headerVal)
    else found

/-- The key and the protocol, or none when the request is refused. -/
def parseHandshakeRequest (request : Bytes) : Option (Bytes × Bytes) :=
  if find (ascii "GET ") request ≠ some 0 ∧ find (ascii "get ") request ≠ some 0 then none
  else if find (ascii "Upgrade: websocket") request = none ∧
      find (ascii "upgrade: websocket") request = none ∧
      find (ascii "Upgrade: WebSocket") request = none then none
  else
    let found := (request.splitOn lf).foldl handshakeLine ([], [])
    if found.1 = [] then none else some found

def generateHandshakeResponse (acceptKey protocol : Bytes) : Bytes :=
  ascii "HTTP/1.1 101 Switching Protocols\r\nUpgrade: websocket\r\nConnection: Upgrade\r\n" ++
    ascii "Sec-WebSocket-Accept: " ++ acceptKey ++ ascii "\r\n" ++
    (if protocol = [] then [] else ascii "Sec-WebSocket-Protocol: " ++ protocol ++ ascii "\r\n") ++
    ascii "\r\n"

structure WsFrame where
  opcode : UInt8
  fin : Bool
  payload : Bytes
  deriving DecidableEq, Repr

inductive DecodeResult where
  /-- 0 is returned: more bytes are needed -/
  | incomplete
  /-- the payload string cannot be resized to the claimed length -/
  | threw
  | frame (f : WsFrame) (consumed : Nat)
  deriving DecidableEq, Repr

/-- Big-endian value of a length field. -/
def beValue (bytes : Bytes) : Nat := bytes.foldl (fun n b => n * 256 + b.toNat) 0

/-- Payload length and header length before the mask; none: not there yet. -/
def frameLength (data : Bytes) : Option (Nat × Nat) :=
  if data.length < 2 then none
  else
    let len7 := (data.getD 1 0 &&& 0x7F).toNat
    if len7 = 126 then
      if data.length < 4 then none else some (beValue (substr data 2 2), 4)
    else if len7 = 127 then
      if data.length < 10 then none else some (beValue (substr data 2 8), 10)
    else some (len7, 2)

def unmask (mask payload : Bytes) : Bytes := payload.mapIdx fun i b => b ^^^ mask.getD (i % 4) 0

/-- The sum of header and payload length is taken modulo 2^64. A length that makes
it wrap passes the size test and is then refused by `resize`. -/
def decodeFrame (data : Bytes) : DecodeResult :=
  match frameLength data with
  | none => .incomplete
  | some (payloadLen, lenEnd) =>
    let b0 := data.getD 0 0
    let masked := data.getD 1 0 &&& 0x80 ≠ 0
    if masked ∧ data.length < lenEnd + 4 then .incomplete
    else
      let headerLen := if masked then lenEnd + 4 else lenEnd
      if data.length < (headerLen + payloadLen) % sizeMax then .incomplete
      else if sizeMax ≤ headerLen + payloadLen then .threw
      else
        let payload := substr data headerLen payloadLen
        .frame { opcode := b0 &&& 0x0F, fin := b0 &&& 0x80 ≠ 0,
                 payload := if masked then unmask (substr data lenEnd 4) payload else payload }
          (headerLen + payloadLen)

def encodeFrame (payload : Bytes) (opcode : UInt8) : Bytes :=
  let len := payload.length
  let header : Bytes :=
    if len ≤ 125 then [UInt8.ofNat len]
    else if len ≤ 65535 then [126, UInt8.ofNat (len / 256), UInt8.ofNat len]
    else 127 :: [7, 6, 5, 4, 3, 2, 1, 0].map fun i => UInt8.ofNat (len / 256 ^ i)
  (0x80 ||| (opcode &&& 0x0F)) :: (header ++ payload)

theorem frameLength_le {data : Bytes} {payloadLen lenEnd : Nat}
    (h : frameLength data = some (payloadLen, lenEnd)) : 2 ≤ lenEnd ∧ lenEnd ≤ data.length := by
  unfold frameLength at h
  dsimp only at h
  split at h
  · exact nomatch h
  · split at h
    · split at h
      · exact nomatch h
      · obtain ⟨-, rfl⟩ := Prod.mk.inj (Option.some.inj h)
        omega
    · split at h
      · split at h
        · exact nomatch h
        · obtain ⟨-, rfl⟩ := Prod.mk.inj (Option.some.inj h)
          omega
      · obtain ⟨-, rfl⟩ := Prod.mk.inj (Option.some.inj h)
        omega

/-- A decoded frame lies inside the buffer and is at least as long as its header. -/
theorem decodeFrame_within {data : Bytes} {f : WsFrame} {n : Nat}
    (h : decodeFrame data = .frame f n) : 2 ≤ n ∧ n ≤ data.length := by
  unfold decodeFrame at h
  cases hl : frameLength data with
  | none =>
    rw [hl] at h
    exact nomatch h
  | some l =>
    obtain ⟨payloadLen, lenEnd⟩ := l
    obtain ⟨h2, -⟩ := frameLength_le hl
    rw [hl] at h
    dsimp only at h
    generalize hm : (if data.getD 1 0 &&& 0x80 ≠ 0 then lenEnd + 4 else lenEnd) = headerLen at h
    have hh : lenEnd ≤ headerLen := by
      rw [← hm]
      split <;> omega
    split at h
    · exact nomatch h
    · split at h
      · exact nomatch h
      · rename_i hlen
        split at h
        · exact nomatch h
        · rename_i hwrap
          rw [Nat.mod_eq_of_lt (Nat.lt_of_not_le hwrap)] at hlen
          obtain ⟨-, rfl⟩ := DecodeResult.frame.inj h
          omega

/-! What the encoder writes, the decoder reads back. -/

/-- Big-endian bytes of a number, read as a length field. -/
theorem beValue_bytes (k n : Nat) :
    beValue ((List.range k).reverse.map fun i => UInt8.ofNat (n / 256 ^ i)) = n % 256 ^ k := by
  induction k generalizing n with
  | zero => simp [beValue, Nat.mod_one]
  | succ k ih =>
    have hmap : (List.range (k + 1)).reverse.map (fun i => UInt8.ofNat (n / 256 ^ i)) =
        ((List.range k).reverse.map fun i => UInt8.ofNat (n / 256 / 256 ^ i)) ++ [UInt8.ofNat n] := by
      rw [List.range_succ_eq_map, List.reverse_cons, List.map_append, ← List.map_reverse, List.map_map]
      congr 1
      · apply List.map_congr_left
        intro i _
        simp [Nat.div_div_eq_div_mul, Nat.pow_succ, Nat.mul_comm]
      · simp
    have hsnoc (xs : Bytes) (b : UInt8) : beValue (xs ++ [b]) = beValue xs * 256 + b.toNat := by
      simp [beValue]
    rw [hmap, hsnoc, ih, Nat.pow_succ, Nat.mul_comm (256 ^ k) 256, Nat.mod_mul, UInt8.toNat_ofNat']
    omega

/-- The length field of an outgoing frame. -/
def frameHeader (len : Nat) : Bytes :=
  if len ≤ 125 then [UInt8.ofNat len]
  else if len ≤ 65535 then [126, UInt8.ofNat (len / 256), UInt8.ofNat len]
  else 127 :: [7, 6, 5, 4, 3, 2, 1, 0].map fun i => UInt8.ofNat (len / 256 ^ i)

theorem encodeFrame_eq (payload : Bytes) (opcode : UInt8) :
    encodeFrame payload opcode = (0x80 ||| (opcode &&& 0x0F)) :: (frameHeader payload.length ++ payload) := rfl

/-- An outgoing length is read back, and no mask is announced. -/
theorem frameLength_frameHeader (b : UInt8) {len : Nat} (t : Bytes) (h : len < sizeMax) :
    frameLength (b :: (frameHeader len ++ t)) = some (len, 1 + (frameHeader len).length) ∧
      (b :: (frameHeader len ++ t)).getD 1 0 &&& 0x80 = 0 := by
  unfold frameHeader
  by_cases h1 : len ≤ 125
  · have hbyte : ∀ n ≤ 125, (UInt8.ofNat n &&& 0x7F).toNat = n ∧ UInt8.ofNat n &&& 0x80 = 0 := by decide +kernel
    obtain ⟨hlen, hmask⟩ := hbyte len h1
    rw [if_pos h1]
    refine ⟨?_, hmask⟩
    have h126 : len ≠ 126 := by omega
    have h127 : len ≠ 127 := by omega
    simp [frameLength, hlen, h126, h127]
  · rw [if_neg h1]
    by_cases h2 : len ≤ 65535
    · rw [if_pos h2]
      refine ⟨?_, show (126 : UInt8) &&& 0x80 = 0 by decide⟩
      have hvalue : beValue [UInt8.ofNat (len / 256), UInt8.ofNat len] = len := by
        have h := beValue_bytes 2 len
        rw [Nat.mod_eq_of_lt (by omega)] at h
        simpa [List.range_succ] using h
      simp [frameLength, substr, hvalue]
    · rw [if_neg h2]
      refine ⟨?_, show (127 : UInt8) &&& 0x80 = 0 by decide⟩
      have hvalue : beValue ([7, 6, 5, 4, 3, 2, 1, 0].map fun i => UInt8.ofNat (len / 256 ^ i)) = len := by
        have h := beValue_bytes 8 len
        rw [Nat.mod_eq_of_lt (by omega)] at h
        exact h
      generalize hf : ([7, 6, 5, 4, 3, 2, 1, 0].map fun i => UInt8.ofNat (len / 256 ^ i)) = field at hvalue
      have hlen : field.length = 8 := by rw [← hf]; rfl
      simp [frameLength, substr, hlen, hvalue]

private theorem opcode_bits (opcode : UInt8) :
    (0x80 ||| (opcode &&& 0x0F)) &&& 0x0F = opcode &&& 0x0F ∧ (0x80 ||| (opcode &&& 0x0F)) &&& 0x80 ≠ 0 := by
  have h : ∀ n < 256, (0x80 ||| (UInt8.ofNat n &&& 0x0F)) &&& 0x0F = UInt8.ofNat n &&& 0x0F ∧
      (0x80 ||| (UInt8.ofNat n &&& 0x0F)) &&& 0x80 ≠ 0 := by decide +kernel
  simpa using h opcode.toNat opcode.toNat_lt

/-- A frame of the server decodes to its payload, whatever follows it. -/
theorem decodeFrame_encodeFrame (payload : Bytes) (opcode : UInt8) (t : Bytes)
    (h : (encodeFrame payload opcode).length < sizeMax) :
    decodeFrame (encodeFrame payload opcode ++ t) =
      .frame ⟨opcode &&& 0x0F, true, payload⟩ (encodeFrame payload opcode).length := by
  rw [encodeFrame_eq] at h ⊢
  simp only [List.length_cons, List.length_append, List.cons_append, List.append_assoc] at h ⊢
  obtain ⟨hlen, hmask⟩ := frameLength_frameHeader (0x80 ||| (opcode &&& 0x0F)) (payload ++ t)
    (show payload.length < sizeMax by omega)
  obtain ⟨hop, hfin⟩ := opcode_bits opcode
  have hsum : 1 + (frameHeader payload.length).length + payload.length =
      (frameHeader payload.length).length + payload.length + 1 := by omega
  have hsub : substr ((0x80 ||| (opcode &&& 0x0F)) :: (frameHeader payload.length ++ (payload ++ t)))
      (1 + (frameHeader payload.length).length) payload.length = payload := by
    rw [substr, Nat.add_comm 1, List.drop_succ_cons, List.drop_left, List.take_left]
  unfold decodeFrame
  rw [hlen]
  dsimp only
  simp only [hmask, ne_eq, not_true_eq_false, false_and, if_false, hsum, hsub]
  rw [Nat.mod_eq_of_lt h, if_neg (by simp), if_neg (by omega), List.getD_cons_zero, hop]
  simp [hfin]

example : computeAcceptKey (ascii "dGhlIHNhbXBsZSBub25jZQ==") = ascii "s3pPLMBiTxaQ9kYGzzhZRbK+xOo=" := by
  decide +kernel

end LightApr.Mqtt.WebsocketCodec
