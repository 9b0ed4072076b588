import Mathlib.Algebra.Group.Nat.Defs
import Mathlib.Data.List.Infix
import Mathlib.Data.List.Basic

/-! Byte strings, as `std::string`, `std::vector<uint8_t>` and the socket buffers
hold them, with the few string operations the program calls. -/
namespace LightApr.Core

abbrev Bytes := List UInt8

/-- The bytes of an ASCII source literal. -/
def ascii (s : String) : Bytes := s.toList.map fun c => c.toNat.toUInt8

/-- `size_t` and `uint64_t` arithmetic wraps here. -/
abbrev sizeMax : Nat := 2 ^ 64

def cr : UInt8 := 13
def lf : UInt8 := 10
def slash : UInt8 := 47

/-- `find`: the first position at which `needle` occurs. -/
def find (needle : Bytes) : Bytes → Option Nat
  | [] => if needle = [] then some 0 else none
  | b :: rest =>
    if needle.isPrefixOf (b :: rest) then some 0 else (find needle rest).map (· + 1)

/-- `find(char)`. -/
def findByte (c : UInt8) (s : Bytes) : Option Nat := s.findIdx? (· = c)

/-- `substr(pos, n)` on a position known to be in range. -/
def substr (s : Bytes) (pos n : Nat) : Bytes := (s.drop pos).take n

/-- `std::tolower` in the "C" locale. -/
def toLower (b : UInt8) : UInt8 := if 65 ≤ b ∧ b ≤ 90 then b + 32 else b

/-- The decimal digits `std::to_string` and `operator<<` print. -/
def decimal (n : Nat) : Bytes := (Nat.toDigits 10 n).map fun c => c.toNat.toUInt8

def decimalInt : Int → Bytes
  | .ofNat n => decimal n
  | .negSucc n => ascii "-" ++ decimal (n + 1)

def isSpace (b : UInt8) : Bool := b = 32 || (9 ≤ b && b ≤ 13)
def isDigit (b : UInt8) : Bool := 48 ≤ b && b ≤ 57

/-- Value of a run of decimal digits. -/
def digitsValue (ds : Bytes) : Nat := ds.foldl (fun n d => n * 10 + (d.toNat - 48)) 0

/-- `std::stoul`: blanks, a sign, digits, then anything. none: `invalid_argument` when
there is no digit, `out_of_range` when the number does not fit; a minus sign wraps. -/
def stoul (s : Bytes) : Option Nat :=
  let s := s.dropWhile isSpace
  let negative := s.head? = some 45
  let s := if negative ∨ s.head? = some 43 then s.drop 1 else s
  let ds := s.takeWhile isDigit
  if ds = [] then none
  else if sizeMax ≤ digitsValue ds then none
  else some (if negative then (sizeMax - digitsValue ds) % sizeMax else digitsValue ds)

theorem findByte_of_not_mem {c : UInt8} {s : Bytes} (h : c ∉ s) : findByte c s = none := by
  rw [findByte, List.findIdx?_eq_none_iff]
  intro b hb
  simpa using fun he : b = c => h (he ▸ hb)

theorem findByte_append_cons {c : UInt8} {a : Bytes} (b : Bytes) (h : c ∉ a) :
    findByte c (a ++ c :: b) = some a.length := by
  have hnone : a.findIdx? (· = c) = none := findByte_of_not_mem h
  rw [findByte, List.findIdx?_append, hnone]
  simp [List.findIdx?_cons]

theorem find_spec {needle s : Bytes} {n : Nat} (h : find needle s = some n) :
    needle <+: s.drop n ∧ n + needle.length ≤ s.length := by
  induction s generalizing n with
  | nil =>
    simp only [find] at h
    split at h
    · rename_i hn
      obtain rfl : 0 = n := by simpa using h
      simp [hn]
    · exact nomatch h
  | cons b rest ih =>
    simp only [find] at h
    split at h
    · rename_i hp
      obtain rfl : 0 = n := by simpa using h
      have hp := List.isPrefixOf_iff_prefix.mp hp
      exact ⟨hp, by simpa using hp.length_le⟩
    · obtain ⟨m, hm, rfl⟩ := Option.map_eq_some_iff.mp h
      obtain ⟨hp, hl⟩ := ih hm
      exact ⟨by simpa using hp, by simp only [List.length_cons]; omega⟩

theorem find_ne_none_iff {needle s : Bytes} : find needle s ≠ none ↔ List.IsInfix needle s := by
  induction s with
  | nil =>
    rw [find, List.infix_nil]
    split
    · rename_i hn
      simp [hn]
    · rename_i hn
      simp [hn]
  | cons b rest ih =>
    rw [find, List.infix_cons_iff]
    split
    · rename_i hp
      have hp : needle <+: b :: rest := List.isPrefixOf_iff_prefix.mp hp
      simp [hp]
    · rename_i hp
      have hp : ¬ needle <+: b :: rest := fun h => hp (List.isPrefixOf_iff_prefix.mpr h)
      rw [← ih]
      simp [hp]

theorem find_zero_iff {needle s : Bytes} : find needle s = some 0 ↔ List.IsPrefix needle s := by
  cases s with
  | nil =>
    rw [find, List.prefix_nil]
    split
    · rename_i hn
      simp [hn]
    · rename_i hn
      simp [hn]
  | cons b rest =>
    rw [find, ← List.isPrefixOf_iff_prefix]
    split
    · rename_i hp
      simp [hp]
    · rename_i hp
      simp [hp]

/-- A needle without the separator lies on one side of it. -/
theorem infix_append_cons {α : Type} {needle s t : List α} {sep : α} (h : sep ∉ needle) :
    List.IsInfix needle (s ++ sep :: t) ↔ List.IsInfix needle s ∨ List.IsInfix needle t := by
  constructor
  · rintro ⟨a, b, hab⟩
    rcases List.append_eq_append_iff.mp hab with ⟨c, hs, hb⟩ | ⟨c, ha, hc⟩
    · exact .inl ⟨a, c, hs.symm⟩
    · cases c with
      | nil => exact .inl ⟨a, [], by simpa using ha⟩
      | cons x c =>
        obtain ⟨rfl, rfl⟩ := List.cons_eq_cons.mp hc
        rcases List.append_eq_append_iff.mp ha with ⟨d, hs, hn⟩ | ⟨d, -, hn⟩
        · refine absurd ?_ h
          rw [hn]
          simp
        · cases d with
          | nil =>
            refine absurd ?_ h
            rw [show needle = sep :: c from hn.symm]
            simp
          | cons y d =>
            obtain ⟨-, rfl⟩ := List.cons_eq_cons.mp hn
            exact .inr ⟨d, b, rfl⟩
  · rintro (⟨a, b, rfl⟩ | ⟨a, b, rfl⟩)
    · exact ⟨a, b ++ sep :: t, by simp⟩
    · exact ⟨s ++ sep :: a, b, by simp⟩

/-- An occurrence found in a buffer stays the first one when more bytes arrive. -/
theorem find_append {needle s : Bytes} {n : Nat} (t : Bytes) (h : find needle s = some n) :
    find needle (s ++ t) = some n := by
  induction s generalizing n with
  | nil =>
    simp only [find] at h
    split at h
    · rename_i hn
      subst hn
      obtain rfl : 0 = n := by simpa using h
      cases t <;> simp [find]
    · exact nomatch h
  | cons b rest ih =>
    simp only [find] at h
    simp only [List.cons_append, find]
    by_cases hp : needle.isPrefixOf (b :: rest) = true
    · rw [if_pos hp] at h
      have hp' : needle.isPrefixOf (b :: (rest ++ t)) = true :=
        List.isPrefixOf_iff_prefix.mpr ((List.isPrefixOf_iff_prefix.mp hp).trans (List.prefix_append _ _))
      rw [if_pos hp', h]
    · rw [if_neg hp] at h
      obtain ⟨m, hm, rfl⟩ := Option.map_eq_some_iff.mp h
      obtain ⟨_, hl⟩ := find_spec hm
      have hp' : ¬ needle.isPrefixOf (b :: (rest ++ t)) = true := by
        intro hc
        have hc := List.isPrefixOf_iff_prefix.mp hc
        apply hp
        apply List.isPrefixOf_iff_prefix.mpr
        rw [← List.cons_append] at hc
        exact List.prefix_of_prefix_length_le hc (List.prefix_append _ _) (by simp; omega)
      rw [if_neg hp', ih hm]
      rfl

end LightApr.Core
