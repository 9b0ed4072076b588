import LightApr.Lib.Sha1
import Mathlib.Data.List.DropRight
import Mathlib.Data.List.SplitLengths

/-! The base encodings of RFC 4648, with letters of `w` bits each: how a string of bytes is written, and which texts are
read. The strings of bits are those of `Lib.Sha1`. -/
namespace LightApr.Lib.BaseEncoding
open Sha1 (Bits digits digits_mod digits_value length_digits length_ofBytes ofBytes ofBytes_append ofBytes_replicate_zero
  value value_digits)

section
variable {α : Type*} {n : Nat} {x : α} {xs ys : List α}

/-! Filling up to a multiple of a length, and cutting into pieces of it. -/

def fillUp (n : Nat) (x : α) (xs : List α) : List α := xs ++ List.replicate ((n - xs.length % n) % n) x

/-- The pieces of length `n`, without a shorter one at the end. -/
def cut (n : Nat) (xs : List α) : List (List α) := (List.replicate (xs.length / n) n).splitLengths xs

theorem dvd_length_fillUp (hn : 0 < n) (x : α) (xs : List α) : n ∣ (fillUp n x xs).length := by
  have hlt := Nat.mod_lt xs.length hn
  rw [fillUp, List.length_append, List.length_replicate]
  by_cases hzero : xs.length % n = 0
  · rw [hzero, Nat.sub_zero, Nat.mod_self, Nat.add_zero]
    exact Nat.dvd_of_mod_eq_zero hzero
  · rw [Nat.mod_eq_of_lt (show n - xs.length % n < n by omega)]
    have hsplit : xs.length + (n - xs.length % n) = n * (xs.length / n + 1) := by
      have hdiv := Nat.div_add_mod xs.length n
      rw [Nat.mul_add, Nat.mul_one]
      omega
    exact ⟨_, hsplit⟩

theorem fillUp_append (h : n ∣ xs.length) (x : α) (ys : List α) : fillUp n x (xs ++ ys) = xs ++ fillUp n x ys := by
  obtain ⟨c, hc⟩ := h
  rw [fillUp, fillUp, List.length_append, hc, Nat.mul_add_mod, List.append_assoc]

theorem fillUp_of_dvd (h : n ∣ xs.length) (x : α) : fillUp n x xs = xs := by
  rw [fillUp, Nat.mod_eq_zero_of_dvd h, Nat.sub_zero, Nat.mod_self, List.replicate_zero, List.append_nil]

theorem flatten_cut (h : n ∣ xs.length) : (cut n xs).flatten = xs := by
  apply List.flatten_splitLengths
  rw [List.sum_replicate_nat, Nat.div_mul_cancel h]

theorem length_of_mem_cut {g : List α} (h : g ∈ cut n xs) : g.length = n := by
  have hlengths := List.map_splitLengths_length xs (List.replicate (xs.length / n) n) (by
    rw [List.sum_replicate_nat]
    exact Nat.div_mul_le_self _ _)
  have hmem : g.length ∈ (cut n xs).map List.length := List.mem_map_of_mem h
  rw [cut, hlengths] at hmem
  exact List.eq_of_mem_replicate hmem

theorem cut_append (hn : 0 < n) (h : xs.length = n) (ys : List α) : cut n (xs ++ ys) = xs :: cut n ys := by
  have hcount : (xs ++ ys).length / n = ys.length / n + 1 := by
    rw [List.length_append, h, Nat.add_div_left _ hn]
  rw [cut, hcount, List.replicate_succ, List.splitLengths_cons, List.take_left' h, List.drop_left' h, cut]

/-- Pieces joined are cut into the same pieces, also with less than a piece behind them. -/
theorem cut_flatten {gs : List (List α)} (h : ∀ g ∈ gs, g.length = n) (hys : ys.length < n) :
    cut n (gs.flatten ++ ys) = gs := by
  induction gs with
  | nil =>
    rw [List.flatten_nil, List.nil_append, cut, Nat.div_eq_of_lt hys, List.replicate_zero, List.splitLengths_nil]
  | cons g gs ih =>
    rw [List.flatten_cons, List.append_assoc, cut_append (Nat.zero_lt_of_lt hys) (h g List.mem_cons_self),
      ih fun g' hg' => h g' (List.mem_cons_of_mem _ hg')]

theorem cut_append_short (h : n ∣ xs.length) (hys : ys.length < n) : cut n (xs ++ ys) = cut n xs := by
  conv_lhs => rw [← flatten_cut h]
  exact cut_flatten (fun g hg => length_of_mem_cut hg) hys

private theorem rdropWhile_fill [DecidableEq α] (h : x ∉ xs) (k : Nat) :
    (xs ++ List.replicate k x).rdropWhile (· = x) = xs ∧
      (xs ++ List.replicate k x).rtakeWhile (· = x) = List.replicate k x := by
  induction k with
  | zero =>
    have hlast : ∀ hne : xs ≠ [], ¬ decide (xs.getLast hne = x) = true := fun hne hlast =>
      h (of_decide_eq_true hlast ▸ List.getLast_mem hne)
    rw [List.replicate_zero, List.append_nil]
    exact ⟨List.rdropWhile_eq_self_iff.mpr hlast, List.rtakeWhile_eq_nil_iff.mpr hlast⟩
  | succ k ih =>
    have hx : decide (x = x) = true := decide_eq_true rfl
    rw [List.replicate_succ', ← List.append_assoc, List.rdropWhile_concat_pos (fun a => decide (a = x)) _ _ hx,
      List.rtakeWhile_concat_pos (fun a => decide (a = x)) _ _ hx, ih.1, ih.2]
    exact ⟨rfl, rfl⟩

private theorem fill_unique {m k : Nat} (hk : k < n) (h : n ∣ m + k) : k = (n - m % n) % n := by
  have hlt := Nat.mod_lt m (Nat.zero_lt_of_lt hk)
  have hsum : (m % n + k) % n = 0 := by
    rw [Nat.mod_add_mod]
    exact Nat.mod_eq_zero_of_dvd h
  by_cases hsmall : m % n + k < n
  · rw [Nat.mod_eq_of_lt hsmall] at hsum
    have hzero : n - m % n = n := by omega
    rw [hzero, Nat.mod_self]
    omega
  · rw [Nat.mod_eq_sub_mod (by omega), Nat.mod_eq_of_lt (by omega)] at hsum
    rw [Nat.mod_eq_of_lt (by omega)]
    omega

theorem fillUp_eq_iff (hn : 0 < n) :
    fillUp n x xs = ys ↔ n ∣ ys.length ∧ ∃ k < n, ys = xs ++ List.replicate k x := by
  constructor
  · rintro rfl
    exact ⟨dvd_length_fillUp hn x xs, _, Nat.mod_lt _ hn, rfl⟩
  · rintro ⟨hdvd, k, hk, rfl⟩
    rw [List.length_append, List.length_replicate] at hdvd
    rw [fillUp, ← fill_unique hk hdvd]

/-- What was filled up can be told from what it was filled up with. -/
theorem fillUp_eq_iff_rdropWhile [DecidableEq α] (hn : 0 < n) (h : x ∉ xs) : fillUp n x xs = ys ↔
    ys.rdropWhile (· = x) = xs ∧ n ∣ ys.length ∧ (ys.rtakeWhile (· = x)).length < n := by
  rw [fillUp_eq_iff hn]
  constructor
  · rintro ⟨hdvd, k, hk, rfl⟩
    obtain ⟨hdrop, htake⟩ := rdropWhile_fill h k
    refine ⟨hdrop, hdvd, ?_⟩
    rwa [htake, List.length_replicate]
  · rintro ⟨hdrop, hdvd, htake⟩
    have hfill : ys.rtakeWhile (· = x) = List.replicate (ys.rtakeWhile (· = x)).length x :=
      List.eq_replicate_of_mem fun a ha =>
        of_decide_eq_true (List.mem_rtakeWhile_imp (p := fun a => decide (a = x)) ha)
    refine ⟨hdvd, _, htake, ?_⟩
    rw [← hfill, ← hdrop, List.rdropWhile_append_rtakeWhile]

end

/-! The encoding. -/

/-- The letters, how they are read, and the sign that fills up the text. -/
structure Alphabet (w : Nat) (α : Type*) where
  letter : BitVec w → α
  index? : α → Option (BitVec w)
  pad : α
  index?_eq_some : ∀ c i, index? c = some i ↔ letter i = c
  index?_pad : index? pad = none

/-- The letters of the shortest text that is whole bytes. -/
def quantum (w : Nat) : Nat := Nat.lcm 8 w / w

/-- The bits, with zero bits added on the right, as numbers of `w` bits. -/
def indices (w : Nat) (data : List UInt8) : List (BitVec w) :=
  (cut w (fillUp w false (ofBytes data))).map fun g => BitVec.ofNat w (value g)

section
variable {w : Nat} {α : Type*} (A : Alphabet w α)

def encode (data : List UInt8) : List α := fillUp (quantum w) A.pad ((indices w data).map A.letter)

/-- Only a text that is filled up, and has no more letters than its bytes take and no bit set in what is left, is
read. -/
def decode [DecidableEq α] (text : List α) : Option (List UInt8) := do
  let is ← (text.rdropWhile (· = A.pad)).mapM A.index?
  let bits := is.flatMap fun i => digits w i.toNat
  let rest := bits.drop (8 * (bits.length / 8))
  if quantum w ∣ text.length ∧ (text.rtakeWhile (· = A.pad)).length < quantum w ∧ rest.length < w ∧
      ∀ b ∈ rest, b = false then
    some ((cut 8 bits).map fun g => UInt8.ofNat (value g))
  else none

/-! What is read is what was written. -/

variable {A} {data : List UInt8} {is : List (BitVec w)} {bits : Bits} {text : List α}

private theorem ofNat_value {g : Bits} (h : g.length = w) : digits w (BitVec.ofNat w (value g)).toNat = g := by
  rw [BitVec.toNat_ofNat, digits_mod, ← h, digits_value]

/-- The numbers are those whose digits are the bits, filled up. -/
theorem indices_eq_iff (hw : 0 < w) :
    indices w data = is ↔ is.flatMap (fun i => digits w i.toNat) = fillUp w false (ofBytes data) := by
  have hdvd := dvd_length_fillUp hw false (ofBytes data)
  constructor
  · rintro rfl
    rw [indices, List.flatMap_map, List.flatMap_def, List.map_congr_left fun g hg => ofNat_value (length_of_mem_cut hg),
      List.map_id', flatten_cut hdvd]
  · intro h
    have hpieces : ∀ g ∈ is.map fun i => digits w i.toNat, g.length = w := by
      intro g hg
      obtain ⟨i, -, rfl⟩ := List.mem_map.mp hg
      exact length_digits w i.toNat
    rw [indices, ← h, List.flatMap_def, ← List.append_nil (List.flatten _),
      cut_flatten hpieces (show ([] : Bits).length < w from hw), List.map_map]
    refine List.map_id'' (fun i => ?_) is
    rw [Function.comp_apply, value_digits, Nat.mod_eq_of_lt i.isLt, BitVec.ofNat_toNat, BitVec.setWidth_eq]

theorem length_flatMap_digits (is : List (BitVec w)) :
    (is.flatMap fun i => digits w i.toNat).length = w * is.length := by
  induction is with
  | nil => rfl
  | cons i is ih =>
    rw [List.flatMap_cons, List.length_append, length_digits, ih, List.length_cons, Nat.mul_succ, Nat.add_comm]

theorem flatMap_digits_take (is : List (BitVec w)) (k : Nat) :
    (is.take k).flatMap (fun i => digits w i.toNat) = (is.flatMap fun i => digits w i.toNat).take (w * k) := by
  induction is generalizing k with
  | nil => rw [List.take_nil, List.flatMap_nil, List.take_nil]
  | cons i is ih =>
    cases k with
    | zero => rfl
    | succ k =>
      have hcount : w * (k + 1) = (digits w i.toNat).length + w * k := by
        rw [length_digits, Nat.mul_succ, Nat.add_comm]
      rw [List.take_succ_cons, List.flatMap_cons, List.flatMap_cons, ih, hcount, List.take_length_add_append]

/-- Bytes are read out of bits that are filled up, when less than a letter is left and none of its bits is set. -/
theorem fillUp_ofBytes_eq_iff (hw : 0 < w) (h8 : w ≤ 8) (hbits : w ∣ bits.length) :
    fillUp w false (ofBytes data) = bits ↔ (bits.drop (8 * (bits.length / 8))).length < w ∧
      (∀ b ∈ bits.drop (8 * (bits.length / 8)), b = false) ∧
      (cut 8 bits).map (fun g => UInt8.ofNat (value g)) = data := by
  rw [fillUp_eq_iff hw]
  constructor
  · rintro ⟨-, k, hk, rfl⟩
    have hcount : (ofBytes data ++ List.replicate k false).length / 8 = data.length := by
      rw [List.length_append, List.length_replicate, length_ofBytes]
      omega
    rw [hcount, List.drop_left' (length_ofBytes data), List.length_replicate]
    refine ⟨hk, fun b hb => List.eq_of_mem_replicate hb, ?_⟩
    have hpieces : ∀ g ∈ data.map fun b => digits 8 b.toNat, g.length = 8 := by
      intro g hg
      obtain ⟨b, -, rfl⟩ := List.mem_map.mp hg
      exact length_digits 8 b.toNat
    have hshort : (List.replicate k false).length < 8 := by
      rw [List.length_replicate]
      omega
    rw [ofBytes, List.flatMap_def, cut_flatten hpieces hshort, List.map_map]
    refine List.map_id'' (fun b => ?_) data
    rw [Function.comp_apply, value_digits, Nat.mod_eq_of_lt b.toNat_lt, UInt8.ofNat_toNat]
  · rintro ⟨hshort, hzero, rfl⟩
    refine ⟨hbits, _, hshort, ?_⟩
    have hwhole : 8 ∣ (bits.take (8 * (bits.length / 8))).length := by
      rw [List.length_take_of_le (Nat.mul_div_le _ _)]
      exact Nat.dvd_mul_right _ _
    have hcut : cut 8 bits = cut 8 (bits.take (8 * (bits.length / 8))) := by
      conv_lhs => rw [← List.take_append_drop (8 * (bits.length / 8)) bits]
      exact cut_append_short hwhole (by omega)
    have hbyte : ∀ g ∈ cut 8 bits, digits 8 (UInt8.ofNat (value g)).toNat = g := by
      intro g hg
      rw [UInt8.toNat_ofNat', digits_mod, ← length_of_mem_cut hg, digits_value]
    have hdata : ofBytes ((cut 8 bits).map fun g => UInt8.ofNat (value g)) =
        bits.take (8 * (bits.length / 8)) := by
      rw [ofBytes, List.flatMap_map, List.flatMap_def, List.map_congr_left hbyte, List.map_id', hcut,
        flatten_cut hwhole]
    rw [hdata, ← List.eq_replicate_of_mem hzero, List.take_append_drop]

theorem mapM_index?_eq_some {cs : List α} : cs.mapM A.index? = some is ↔ is.map A.letter = cs := by
  induction cs generalizing is with
  | nil =>
    rw [List.mapM_nil, List.map_eq_nil_iff]
    exact ⟨fun h => (Option.some.inj h).symm, fun h => h ▸ rfl⟩
  | cons c cs ih =>
    rw [List.mapM_cons]
    constructor
    · intro h
      obtain ⟨i, hi, h⟩ := Option.bind_eq_some_iff.mp h
      obtain ⟨rest, hrest, h⟩ := Option.bind_eq_some_iff.mp h
      obtain rfl := Option.some.inj h
      rw [List.map_cons, (A.index?_eq_some c i).mp hi, ih.mp hrest]
    · intro h
      obtain ⟨i, rest, rfl, hi, hrest⟩ := List.map_eq_cons_iff.mp h
      rw [(A.index?_eq_some c i).mpr hi, ih.mpr hrest]
      rfl

theorem pad_not_mem (A : Alphabet w α) (is : List (BitVec w)) : A.pad ∉ is.map A.letter := by
  intro h
  obtain ⟨i, -, hi⟩ := List.mem_map.mp h
  cases A.index?_pad.symm.trans ((A.index?_eq_some _ i).mpr hi)

theorem quantum_pos (hw : 0 < w) : 0 < quantum w :=
  Nat.div_pos (Nat.le_of_dvd (Nat.lcm_pos (by omega) hw) (Nat.dvd_lcm_right 8 w)) hw

/-- **A text is read as some bytes exactly if it is what they are written as.** -/
theorem decode_eq_some_iff [DecidableEq α] (hw : 0 < w) (h8 : w ≤ 8) :
    decode A text = some data ↔ encode A data = text := by
  rw [encode, fillUp_eq_iff_rdropWhile (quantum_pos hw) (pad_not_mem A _), decode]
  constructor
  · intro h
    obtain ⟨is, his, h⟩ := Option.bind_eq_some_iff.mp h
    obtain ⟨⟨hdvd, hpads, hshort, hzero⟩, h⟩ := Option.ite_none_right_eq_some.mp h
    have hfill := (fillUp_ofBytes_eq_iff hw h8 ⟨_, length_flatMap_digits is⟩).mpr ⟨hshort, hzero, Option.some.inj h⟩
    rw [(indices_eq_iff hw).mpr hfill.symm]
    exact ⟨(mapM_index?_eq_some.mp his).symm, hdvd, hpads⟩
  · rintro ⟨hdrop, hdvd, hpads⟩
    have hfill : (indices w data).flatMap (fun i => digits w i.toNat) = fillUp w false (ofBytes data) :=
      (indices_eq_iff hw).mp rfl
    obtain ⟨hshort, hzero, hbytes⟩ :=
      (fillUp_ofBytes_eq_iff hw h8 ⟨_, length_flatMap_digits (indices w data)⟩).mp hfill.symm
    rw [mapM_index?_eq_some.mpr hdrop.symm, Option.bind_eq_bind, Option.bind_some]
    dsimp only
    rw [if_pos ⟨hdvd, hpads, hshort, hzero⟩, hbytes]

theorem decode_encode [DecidableEq α] (hw : 0 < w) (h8 : w ≤ 8) (data : List UInt8) :
    decode A (encode A data) = some data := (decode_eq_some_iff hw h8).mpr rfl

/-! Whole quanta are written one after the other. -/

theorem length_indices (hw : 0 < w) (data : List UInt8) :
    w * (indices w data).length = (fillUp w false (ofBytes data)).length := by
  rw [← length_flatMap_digits, (indices_eq_iff hw).mp rfl]

/-- Zero bytes behind only add numbers. -/
theorem take_indices (hw : 0 < w) (h8 : w ≤ 8) (data : List UInt8) (m : Nat) :
    (indices w (data ++ List.replicate m 0)).take (indices w data).length = indices w data := by
  symm
  have hbits : (indices w (data ++ List.replicate m 0)).flatMap (fun i => digits w i.toNat) =
      fillUp w false (ofBytes (data ++ List.replicate m 0)) := (indices_eq_iff hw).mp rfl
  rw [indices_eq_iff hw, flatMap_digits_take, hbits, length_indices hw, Eq.comm, ← List.prefix_iff_eq_take]
  rw [fillUp, fillUp, ofBytes_append, List.append_assoc, List.prefix_append_right_inj, ofBytes_replicate_zero,
    List.replicate_append_replicate, List.length_append, List.length_replicate, length_ofBytes]
  have hle : (w - 8 * data.length % w) % w ≤ 8 * m + (w - (8 * data.length + 8 * m) % w) % w := by
    obtain rfl | hm := Nat.eq_zero_or_pos m
    · rw [Nat.mul_zero, Nat.add_zero, Nat.zero_add]
    · have hlt := Nat.mod_lt (w - 8 * data.length % w) hw
      omega
  refine ⟨List.replicate (8 * m + (w - (8 * data.length + 8 * m) % w) % w - (w - 8 * data.length % w) % w) false, ?_⟩
  rw [List.replicate_append_replicate, Nat.add_sub_cancel' hle]

theorem indices_append (hw : 0 < w) {xs : List UInt8} (h : w ∣ 8 * xs.length) (ys : List UInt8) :
    indices w (xs ++ ys) = indices w xs ++ indices w ys := by
  have hbits : w ∣ (ofBytes xs).length := by rwa [length_ofBytes]
  rw [indices_eq_iff hw, List.flatMap_append, (indices_eq_iff hw).mp rfl, (indices_eq_iff hw).mp rfl,
    fillUp_of_dvd hbits, ofBytes_append, fillUp_append hbits]

theorem encode_append (hw : 0 < w) {xs : List UInt8} (h : Nat.lcm 8 w ∣ 8 * xs.length) (ys : List UInt8) :
    encode A (xs ++ ys) = encode A xs ++ encode A ys := by
  have hdvd : w ∣ 8 * xs.length := Nat.dvd_trans (Nat.dvd_lcm_right 8 w) h
  have hletters : quantum w ∣ ((indices w xs).map A.letter).length := by
    have hlength := length_indices hw xs
    rw [fillUp_of_dvd (by rwa [length_ofBytes]), length_ofBytes] at hlength
    rw [List.length_map]
    refine Nat.dvd_of_mul_dvd_mul_left hw ?_
    rw [hlength, quantum, Nat.mul_div_cancel' (Nat.dvd_lcm_right 8 w)]
    exact h
  rw [encode, encode, encode, indices_append hw hdvd, List.map_append, fillUp_append hletters, fillUp_of_dvd hletters]

end

/-! Base 64. -/

theorem quantum_six : quantum 6 = 4 := by decide

section
variable {α : Type*} (A : Alphabet 6 α) (data : List UInt8)

/-- At most two signs fill the text up. -/
theorem encode_letters : ∃ k ≤ 2, encode A data = (indices 6 data).map A.letter ++ List.replicate k A.pad := by
  have hlength := length_indices (w := 6) (by decide) data
  rw [fillUp, List.length_append, List.length_replicate, length_ofBytes] at hlength
  refine ⟨_, ?_, rfl⟩
  rw [quantum_six, List.length_map]
  omega

theorem length_encode : (encode A data).length = 4 * ((data.length + 2) / 3) := by
  have hlength := length_indices (w := 6) (by decide) data
  rw [fillUp, List.length_append, List.length_replicate, length_ofBytes] at hlength
  rw [encode, fillUp, List.length_append, List.length_replicate, List.length_map, quantum_six]
  omega

end

/-- The table of the standard. -/
def base64Letter (i : Nat) : UInt8 :=
  UInt8.ofNat (if i < 26 then 65 + i else if i < 52 then 97 + (i - 26) else if i < 62 then 48 + (i - 52)
    else if i = 62 then 43 else 47)

def base64Index? (c : UInt8) : Option Nat :=
  if 65 ≤ c ∧ c ≤ 90 then some (c.toNat - 65)
  else if 97 ≤ c ∧ c ≤ 122 then some (c.toNat - 97 + 26)
  else if 48 ≤ c ∧ c ≤ 57 then some (c.toNat - 48 + 52)
  else if c = 43 then some 62
  else if c = 47 then some 63
  else none

private theorem base64Index?_letter : ∀ i < 64, base64Index? (base64Letter i) = some i := by decide +kernel

private theorem base64Letter_index? : ∀ n < 256, ∀ i ∈ base64Index? (UInt8.ofNat n),
    i < 64 ∧ base64Letter i = UInt8.ofNat n := by decide +kernel

def base64 : Alphabet 6 UInt8 where
  letter i := base64Letter i.toNat
  index? c := (base64Index? c).map (BitVec.ofNat 6)
  pad := 61
  index?_eq_some c i := by
    constructor
    · intro h
      obtain ⟨n, hn, rfl⟩ := Option.map_eq_some_iff.mp h
      rw [← UInt8.ofNat_toNat (x := c)] at hn
      obtain ⟨hlt, hletter⟩ := base64Letter_index? c.toNat c.toNat_lt n hn
      rw [BitVec.toNat_ofNat, Nat.mod_eq_of_lt hlt, hletter, UInt8.ofNat_toNat]
    · rintro rfl
      rw [base64Index?_letter i.toNat i.isLt, Option.map_some, BitVec.ofNat_toNat, BitVec.setWidth_eq]
  index?_pad := by decide

/-- "foob" is "Zm9vYg==". -/
example : encode base64 [102, 111, 111, 98] = [90, 109, 57, 118, 89, 103, 61, 61] := by
  decide +kernel

end LightApr.Lib.BaseEncoding
