import Mathlib.Data.List.Basic

/-! Well-formed UTF-8 by a small automaton: after each byte it knows how many
continuation bytes are owed and which range the next one must lie in. -/
namespace LightApr.Lib.Utf8

/-- `owed` continuation bytes are missing; the next one lies in `[low, high]`. -/
structure Expect where
  owed : Nat
  low : UInt8
  high : UInt8
  deriving DecidableEq, Repr

/-- Between two characters. -/
def boundary : Expect := ⟨0, 0x80, 0xBF⟩

/-- The first byte of a character. Overlong forms, surrogates and code points
above U+10FFFF are excluded by the range of the second byte. -/
def lead (b : UInt8) : Option Expect :=
  if b ≤ 0x7F then some boundary
  else if 0xC2 ≤ b ∧ b ≤ 0xDF then some ⟨1, 0x80, 0xBF⟩
  else if b = 0xE0 then some ⟨2, 0xA0, 0xBF⟩
  else if b = 0xED then some ⟨2, 0x80, 0x9F⟩
  else if 0xE1 ≤ b ∧ b ≤ 0xEF then some ⟨2, 0x80, 0xBF⟩
  else if b = 0xF0 then some ⟨3, 0x90, 0xBF⟩
  else if 0xF1 ≤ b ∧ b ≤ 0xF3 then some ⟨3, 0x80, 0xBF⟩
  else if b = 0xF4 then some ⟨3, 0x80, 0x8F⟩
  else none

def step (e : Expect) (b : UInt8) : Option Expect :=
  match e.owed with
  | 0 => lead b
  | n + 1 => if e.low ≤ b ∧ b ≤ e.high then some ⟨n, 0x80, 0xBF⟩ else none

def run (e : Expect) : List UInt8 → Option Expect
  | [] => some e
  | b :: s => (step e b).bind fun e' => run e' s

/-- The bytes are a sequence of whole UTF-8 characters. -/
def Valid (s : List UInt8) : Prop := run boundary s = some boundary

instance (s : List UInt8) : Decidable (Valid s) :=
  inferInstanceAs (Decidable (run boundary s = some boundary))

theorem run_append (e : Expect) (s t : List UInt8) :
    run e (s ++ t) = (run e s).bind fun e' => run e' t := by
  induction s generalizing e with
  | nil => rfl
  | cons b s ih =>
    simp only [List.cons_append, run]
    cases step e b with
    | none => rfl
    | some e' => exact ih e'

@[simp] theorem valid_nil : Valid [] := rfl

theorem Valid.append {s t : List UInt8} (hs : Valid s) (ht : Valid t) : Valid (s ++ t) := by
  rw [Valid, run_append, hs]
  exact ht

theorem valid_ascii {s : List UInt8} (h : ∀ b ∈ s, b ≤ 0x7F) : Valid s := by
  induction s with
  | nil => rfl
  | cons b s ih =>
    have hb : step boundary b = some boundary := by
      rw [step, boundary, lead, if_pos (h b (by simp))]
      rfl
    rw [Valid, run, hb]
    exact ih fun c hc => h c (by simp [hc])

end LightApr.Lib.Utf8
