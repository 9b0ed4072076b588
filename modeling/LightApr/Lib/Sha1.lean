import Mathlib.Data.Nat.Bitwise
import Mathlib.Order.Bounds.Basic
import Mathlib.Tactic.Ring

/-! SHA-1 as FIPS 180-4 defines it: on strings of bits, padded and cut into blocks of sixteen words. -/
namespace LightApr.Lib.Sha1

abbrev Bits := List Bool

abbrev Word := BitVec 32

/-- The number that a string of bits stands for, the first bit being the most significant. -/
def value (bs : Bits) : Nat := bs.foldl (fun n b => 2 * n + b.toNat) 0

/-- The last `n` binary digits of a number. -/
def digits (n x : Nat) : Bits := (List.range n).map fun i => x.testBit (n - 1 - i)

/-- The bits of a string of bytes. -/
def ofBytes (bytes : List UInt8) : Bits := bytes.flatMap fun b => digits 8 b.toNat

/-! Padding and parsing. -/

/-- The zero bits after the one bit. -/
def zeroBits (length : Nat) : Nat := (448 + 512 - (length + 1) % 512) % 512

/-- The standard hashes messages of fewer than `2 ^ 64` bits; their length is written in full. -/
def pad (message : Bits) : Bits :=
  message ++ true :: (List.replicate (zeroBits message.length) false ++ digits 64 message.length)

/-- The word `t` of the block `i`. -/
def blockWord (padded : Bits) (i t : Nat) : Word := BitVec.ofNat 32 (value ((padded.drop (512 * i + 32 * t)).take 32))

/-! Functions and constants. -/

def rotl (n : Nat) (x : Word) : Word := (x <<< n) ||| (x >>> (32 - n))

def ch (x y z : Word) : Word := (x &&& y) ^^^ (~~~x &&& z)

def parity (x y z : Word) : Word := x ^^^ y ^^^ z

def maj (x y z : Word) : Word := (x &&& y) ^^^ (x &&& z) ^^^ (y &&& z)

def f (t : Nat) : Word → Word → Word → Word :=
  if t < 20 then ch else if t < 40 then parity else if t < 60 then maj else parity

def k (t : Nat) : Word :=
  if t < 20 then 0x5a827999 else if t < 40 then 0x6ed9eba1 else if t < 60 then 0x8f1bbcdc else 0xca62c1d6

/-! The computation. -/

def schedule (m : Nat → Word) (t : Nat) : Word :=
  if t < 16 then m t
  else rotl 1 (schedule m (t - 3) ^^^ schedule m (t - 8) ^^^ schedule m (t - 14) ^^^ schedule m (t - 16))

/-- The five working variables, and the five words of a hash value. -/
structure Chain where
  a : Word
  b : Word
  c : Word
  d : Word
  e : Word
  deriving DecidableEq

def initial : Chain := ⟨0x67452301, 0xefcdab89, 0x98badcfe, 0x10325476, 0xc3d2e1f0⟩

def round (t : Nat) (w : Word) (s : Chain) : Chain :=
  ⟨rotl 5 s.a + f t s.b s.c s.d + s.e + k t + w, s.a, rotl 30 s.b, s.c, s.d⟩

def compress (m : Nat → Word) (h : Chain) : Chain :=
  let s := (List.range 80).foldl (fun s t => round t (schedule m t) s) h
  ⟨s.a + h.a, s.b + h.b, s.c + h.c, s.d + h.d, s.e + h.e⟩

/-- The hash value before the digest is written out. -/
def chain (padded : Bits) : Chain :=
  (List.range (padded.length / 512)).foldl (fun h i => compress (blockWord padded i) h) initial

def hash (message : Bits) : Bits :=
  let h := chain (pad message)
  [h.a, h.b, h.c, h.d, h.e].flatMap fun x => digits 32 x.toNat

/-! Bits and numbers. -/

@[simp] theorem length_digits (n x : Nat) : (digits n x).length = n := by
  rw [digits, List.length_map, List.length_range]

theorem digits_succ (n x : Nat) : digits (n + 1) x = x.testBit n :: digits n x := by
  rw [digits, digits, List.range_succ_eq_map, List.map_cons, List.map_map]
  refine List.cons_eq_cons.mpr ⟨rfl, List.map_congr_left fun i _ => ?_⟩
  have hindex : n + 1 - 1 - (i + 1) = n - 1 - i := by omega
  exact congrArg x.testBit hindex

/-- The high digits come first. -/
theorem digits_add (m n x : Nat) : digits (m + n) x = digits m (x / 2 ^ n) ++ digits n x := by
  induction m with
  | zero => rw [Nat.zero_add]; rfl
  | succ m ih =>
    rw [Nat.succ_add, digits_succ, digits_succ, ih, Nat.testBit_div_two_pow, List.cons_append]

theorem digits_mod (n x : Nat) : digits n (x % 2 ^ n) = digits n x := by
  refine List.map_congr_left fun i hi => ?_
  have hlt : n - 1 - i < n := by
    have := List.mem_range.mp hi
    omega
  rw [Nat.testBit_mod_two_pow, decide_eq_true hlt, Bool.true_and]

private theorem foldl_value (ys : Bits) (n : Nat) :
    ys.foldl (fun n b => 2 * n + b.toNat) n = n * 2 ^ ys.length + value ys := by
  induction ys generalizing n with
  | nil => simp [value]
  | cons y ys ih =>
    rw [value, List.foldl_cons, List.foldl_cons, ih, ih, List.length_cons, pow_succ]
    ring

theorem value_append (xs ys : Bits) : value (xs ++ ys) = value xs * 2 ^ ys.length + value ys := by
  rw [value, List.foldl_append, foldl_value]
  rfl

theorem value_digits (n x : Nat) : value (digits n x) = x % 2 ^ n := by
  induction n with
  | zero => rw [pow_zero, Nat.mod_one]; rfl
  | succ n ih =>
    have hbit : value [x.testBit n] = x / 2 ^ n % 2 := by
      rw [Nat.testBit_eq_decide_div_mod_eq, value, List.foldl_cons, List.foldl_nil]
      rcases Nat.mod_two_eq_zero_or_one (x / 2 ^ n) with h | h <;> rw [h] <;> rfl
    rw [digits_succ, ← List.singleton_append, value_append, hbit, ih, length_digits, Nat.mod_pow_succ]
    ring

/-- A number counts in its last digits only up to its remainder. -/
theorem digits_congr {n x y : Nat} (h : x % 2 ^ n = y % 2 ^ n) : digits n x = digits n y := by
  rw [← digits_mod, h, digits_mod]

theorem digits_join (m : Nat) {n y : Nat} (hy : y < 2 ^ n) (x : Nat) :
    digits (m + n) (x * 2 ^ n + y) = digits m x ++ digits n y := by
  have hhigh : (x * 2 ^ n + y) / 2 ^ n = x := by
    rw [Nat.mul_comm, Nat.mul_add_div (Nat.two_pow_pos n), Nat.div_eq_of_lt hy, Nat.add_zero]
  have hlow : (x * 2 ^ n + y) % 2 ^ n = y % 2 ^ n := by
    rw [Nat.mul_comm, Nat.mul_add_mod]
  rw [digits_add, hhigh, digits_congr hlow]

theorem value_lt (bs : Bits) : value bs < 2 ^ bs.length := by
  induction bs with
  | nil => exact Nat.one_pos
  | cons b bs ih =>
    have hbit : value [b] ≤ 1 := by cases b <;> decide
    have hhigh := Nat.mul_le_mul_right (2 ^ bs.length) hbit
    rw [← List.singleton_append, value_append, List.length_append, List.length_singleton, pow_add, pow_one]
    omega

/-- A string of bits is the digits of its number. -/
theorem digits_value (bs : Bits) : digits bs.length (value bs) = bs := by
  induction bs with
  | nil => rfl
  | cons b bs ih =>
    have hbit : digits 1 (value [b]) = [b] := by cases b <;> rfl
    rw [List.length_cons, Nat.add_comm, ← List.singleton_append, value_append, digits_join 1 (value_lt bs), hbit, ih]

@[simp] theorem length_ofBytes (bytes : List UInt8) : (ofBytes bytes).length = 8 * bytes.length := by
  induction bytes with
  | nil => rfl
  | cons b bytes ih =>
    rw [ofBytes, List.flatMap_cons, List.length_append, length_digits, ← ofBytes, ih, List.length_cons]
    omega

@[simp] theorem ofBytes_cons (b : UInt8) (bytes : List UInt8) :
    ofBytes (b :: bytes) = digits 8 b.toNat ++ ofBytes bytes := rfl

@[simp] theorem ofBytes_append (xs ys : List UInt8) : ofBytes (xs ++ ys) = ofBytes xs ++ ofBytes ys :=
  List.flatMap_append

theorem ofBytes_drop (n : Nat) (bytes : List UInt8) : ofBytes (bytes.drop n) = (ofBytes bytes).drop (8 * n) := by
  by_cases hn : n ≤ bytes.length
  · conv_rhs => rw [← List.take_append_drop n bytes, ofBytes_append]
    rw [List.drop_left' (by rw [length_ofBytes, List.length_take_of_le hn])]
  · rw [List.drop_eq_nil_of_le (by omega), List.drop_eq_nil_of_le (by rw [length_ofBytes]; omega)]
    rfl

theorem ofBytes_take (n : Nat) (bytes : List UInt8) : ofBytes (bytes.take n) = (ofBytes bytes).take (8 * n) := by
  by_cases hn : n ≤ bytes.length
  · conv_rhs => rw [← List.take_append_drop n bytes, ofBytes_append]
    rw [List.take_left' (by rw [length_ofBytes, List.length_take_of_le hn])]
  · rw [List.take_of_length_le (by omega), List.take_of_length_le (by rw [length_ofBytes]; omega)]

/-- Zero bytes are zero bits. -/
theorem ofBytes_replicate_zero (n : Nat) : ofBytes (List.replicate n 0) = List.replicate (8 * n) false := by
  induction n with
  | zero => rfl
  | succ n ih =>
    have hbyte : digits 8 (0 : UInt8).toNat = List.replicate 8 false := by decide
    rw [List.replicate_succ, ofBytes_cons, hbyte, ih, List.replicate_append_replicate]
    congr 1
    omega

theorem pow_byte (n : Nat) : 256 ^ n = 2 ^ (8 * n) := by
  rw [pow_mul]
  rfl

/-- The big-endian bytes of a number are its digits. -/
theorem ofBytes_bigEndian (n x : Nat) :
    ofBytes ((List.range n).reverse.map fun i => UInt8.ofNat (x / 256 ^ i)) = digits (8 * n) x := by
  induction n with
  | zero => rfl
  | succ n ih =>
    have hcount : 8 * (n + 1) = 8 + 8 * n := by omega
    rw [List.range_succ, List.reverse_append, List.reverse_singleton, List.singleton_append, List.map_cons,
      ofBytes_cons, ih, hcount, digits_add, UInt8.toNat_ofNat', digits_mod, pow_byte]

/-! Padding. -/

/-- The zero bits are as few as there can be. -/
theorem zeroBits_isLeast (length : Nat) : IsLeast {k | (length + 1 + k) % 512 = 448} (zeroBits length) := by
  constructor
  · rw [Set.mem_ofPred_eq, zeroBits]
    omega
  · intro k hk
    rw [Set.mem_ofPred_eq] at hk
    rw [zeroBits]
    omega

/-- A padded message is whole blocks. -/
theorem length_pad (message : Bits) : (pad message).length % 512 = 0 := by
  simp only [pad, zeroBits, List.length_append, List.length_cons, List.length_replicate, length_digits]
  omega

end LightApr.Lib.Sha1
