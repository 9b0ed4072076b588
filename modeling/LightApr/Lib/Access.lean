import Mathlib.Data.List.Basic

/-! Code that reads an array by index. Each read is checked against the array and each
difference of lengths against zero; the fields the code asks for are recorded, whether the
array holds them or not. -/
namespace LightApr.Lib
variable {α β γ : Type}

/-- How such code ends. -/
inductive Outcome (α : Type) where
  | returned (a : α)
  /-- an exception leaves it -/
  | threw
  /-- it read outside the array, or took a larger length from a smaller one -/
  | outside
  /-- its loop has not ended yet -/
  | running
  deriving DecidableEq, Repr

/-- A piece of code: the fields it asked for, as position and length, and how it ends. -/
structure Access (α : Type) where
  fields : List (Nat × Nat)
  outcome : Outcome α
  deriving DecidableEq, Repr

namespace Access

/-- One piece after the other. -/
def andThen (m : Access α) (f : α → Access β) : Access β :=
  match m.outcome with
  | .returned a => ⟨m.fields ++ (f a).fields, (f a).outcome⟩
  | .threw => ⟨m.fields, .threw⟩
  | .outside => ⟨m.fields, .outside⟩
  | .running => ⟨m.fields, .running⟩

instance : Monad Access where
  pure a := ⟨[], .returned a⟩
  bind := andThen

/-- The code asks for the `n` elements from `pos` on. -/
def field (pos n : Nat) : Access Unit := ⟨[(pos, n)], .returned ()⟩

def throwIf (c : Prop) [Decidable c] : Access Unit := ⟨[], if c then .threw else .returned ()⟩

/-- `data[i]`. -/
def read (data : List α) (i : Nat) : Access α :=
  ⟨[], match data[i]? with
    | some a => .returned a
    | none => .outside⟩

/-- The elements `data[pos..pos + n)`. -/
def slice (data : List α) (pos n : Nat) : Access (List α) :=
  ⟨[], if pos + n ≤ data.length then .returned ((data.drop pos).take n) else .outside⟩

/-- `a - b` on lengths. -/
def minus (a b : Nat) : Access Nat := ⟨[], if b ≤ a then .returned (a - b) else .outside⟩

/-- A loop whose fuel is used up. -/
def running : Access α := ⟨[], .running⟩

/-- `try { m } catch (...) { return a; }`. -/
def orElse (m : Access α) (a : α) : Access α :=
  match m.outcome with
  | .threw => ⟨m.fields, .returned a⟩
  | _ => m

/-- Goes on unless `m` has returned without a result. -/
def unlessNone (m : Access (Option α)) (f : α → Access (Option β)) : Access (Option β) :=
  m >>= fun o => match o with
    | none => pure none
    | some a => f a

theorem bind_returned {m : Access α} {a : α} (f : α → Access β) (h : m.outcome = .returned a) :
    m >>= f = ⟨m.fields ++ (f a).fields, (f a).outcome⟩ := by
  show andThen m f = _
  rw [andThen, h]

theorem bind_threw {m : Access α} (f : α → Access β) (h : m.outcome = .threw) :
    m >>= f = ⟨m.fields, .threw⟩ := by
  show andThen m f = _
  rw [andThen, h]

theorem bind_outcome {m : Access α} {a : α} (f : α → Access β) (h : m.outcome = .returned a) :
    (m >>= f).outcome = (f a).outcome := by
  rw [bind_returned f h]

theorem unlessNone_none {m : Access (Option α)} (f : α → Access (Option β)) (h : m.outcome = .returned none) :
    (m.unlessNone f).outcome = .returned none := by
  rw [unlessNone, bind_outcome _ h]
  rfl

theorem unlessNone_some {m : Access (Option α)} {a : α} (f : α → Access (Option β))
    (h : m.outcome = .returned (some a)) : (m.unlessNone f).outcome = (f a).outcome := by
  rw [unlessNone, bind_outcome _ h]

theorem read_eq {data : List α} {i : Nat} (h : i < data.length) (d : α) :
    read data i = pure (data.getD i d) := by
  rw [read, List.getElem?_eq_getElem h, List.getD_eq_getElem?_getD, List.getElem?_eq_getElem h]
  rfl

theorem slice_eq {data : List α} {pos n : Nat} (h : pos + n ≤ data.length) :
    slice data pos n = pure ((data.drop pos).take n) := by
  rw [slice, if_pos h]
  rfl

theorem minus_eq {a b : Nat} (h : b ≤ a) : minus a b = pure (a - b) := by
  rw [minus, if_pos h]
  rfl

@[simp] theorem pure_bind' (a : α) (f : α → Access β) : (pure a : Access α) >>= f = f a := rfl

/-! Code that follows a partial function: it returns where the function is defined,
all that it asked for being in the array then, and throws where it is not. -/

/-- Everything asked for lies in an array of length `n`. -/
def Fits (n : Nat) (m : Access α) : Prop := ∀ f ∈ m.fields, f.1 + f.2 ≤ n

structure Follows (n : Nat) (m : Access α) (o : Option α) : Prop where
  outcome : m.outcome = (match o with
    | some a => .returned a
    | none => .threw)
  fits : o ≠ none → m.Fits n

/-- The same for code that may also return without a result. -/
structure Decides (n : Nat) (m : Access (Option α)) (o : Option α) : Prop where
  outcome : m.outcome = .returned o ∨ m.outcome = .threw ∧ o = none
  fits : o ≠ none → m.Fits n

variable {n : Nat}

theorem fits_pure (a : α) : (pure a : Access α).Fits n := fun _ hf => absurd hf List.not_mem_nil

theorem fits_bind {m : Access α} {f : α → Access β} {a : α} (h : m.outcome = .returned a) (hm : m.Fits n)
    (hf : (f a).Fits n) : (m >>= f).Fits n := by
  rw [bind_returned f h]
  intro x hx
  obtain hx | hx := List.mem_append.mp hx
  · exact hm x hx
  · exact hf x hx

theorem Follows.pure (a : α) : Follows n (pure a) (some a) := ⟨rfl, fun _ => fits_pure a⟩

theorem Decides.pure (o : Option α) : Decides n (pure o) o := ⟨.inl rfl, fun _ => fits_pure o⟩

theorem Follows.bind {m : Access α} {o : Option α} {f : α → Access β} {g : α → Option β} (h : Follows n m o)
    (hf : ∀ a, o = some a → Follows n (f a) (g a)) : Follows n (m >>= f) (o.bind g) := by
  cases ho : o with
  | none =>
    rw [ho] at h
    rw [bind_threw f h.outcome]
    exact ⟨rfl, fun hne => absurd rfl hne⟩
  | some a =>
    have ha := hf a ho
    rw [ho] at h
    refine ⟨?_, fun hne => fits_bind h.outcome (h.fits (Option.some_ne_none a)) (ha.fits hne)⟩
    rw [bind_returned f h.outcome]
    exact ha.outcome

theorem Follows.decides {m : Access α} {o : Option α} {f : α → Access (Option β)} {g : α → Option β}
    (h : Follows n m o) (hf : ∀ a, o = some a → Decides n (f a) (g a)) : Decides n (m >>= f) (o.bind g) := by
  cases ho : o with
  | none =>
    rw [ho] at h
    rw [bind_threw f h.outcome]
    exact ⟨.inr ⟨rfl, rfl⟩, fun hne => absurd rfl hne⟩
  | some a =>
    have ha := hf a ho
    rw [ho] at h
    refine ⟨?_, fun hne => fits_bind h.outcome (h.fits (Option.some_ne_none a)) (ha.fits hne)⟩
    rw [bind_returned f h.outcome]
    exact ha.outcome

theorem Decides.unlessNone {m : Access (Option α)} {o : Option α} {f : α → Access (Option β)}
    {g : α → Option β} (h : Decides n m o) (hf : ∀ a, o = some a → Decides n (f a) (g a)) :
    Decides n (m.unlessNone f) (o.bind g) := by
  obtain hret | ⟨hthrew, rfl⟩ := h.outcome
  · cases ho : o with
    | none =>
      rw [ho] at hret
      rw [Access.unlessNone, bind_returned _ hret]
      exact ⟨.inl rfl, fun hne => absurd rfl hne⟩
    | some a =>
      have ha := hf a ho
      have hm := h.fits (by rw [ho]; exact Option.some_ne_none a)
      rw [ho] at hret
      refine ⟨?_, fun hne => fits_bind hret hm (ha.fits hne)⟩
      rw [Access.unlessNone, bind_returned _ hret]
      exact ha.outcome
  · rw [Access.unlessNone, bind_threw _ hthrew]
    exact ⟨.inr ⟨rfl, rfl⟩, fun hne => absurd rfl hne⟩

/-- A field that is there is passed over. -/
theorem Follows.field {pos k : Nat} {f : Unit → Access α} {o : Option α} (hk : o ≠ none → pos + k ≤ n)
    (h : Follows n (f ()) o) : Follows n (field pos k >>= f) o := by
  refine ⟨h.outcome, fun hne x hx => ?_⟩
  obtain rfl | hx := List.mem_cons.mp (show x ∈ (pos, k) :: (f ()).fields from hx)
  · exact hk hne
  · exact h.fits hne x hx

theorem Decides.field {pos k : Nat} {f : Unit → Access (Option α)} {o : Option α}
    (hk : o ≠ none → pos + k ≤ n) (h : Decides n (f ()) o) : Decides n (Access.field pos k >>= f) o := by
  refine ⟨h.outcome, fun hne x hx => ?_⟩
  obtain rfl | hx := List.mem_cons.mp (show x ∈ (pos, k) :: (f ()).fields from hx)
  · exact hk hne
  · exact h.fits hne x hx

theorem throwIf_bind (c : Prop) [Decidable c] (f : Unit → Access α) :
    throwIf c >>= f = if c then ⟨[], .threw⟩ else f () := by
  by_cases h : c
  · rw [if_pos h, bind_threw f (by rw [throwIf, if_pos h])]
    rfl
  · rw [if_neg h, throwIf, if_neg h]
    rfl

theorem Follows.throwIf {c : Prop} [Decidable c] {f : Unit → Access α} {o : Option α}
    (h : ¬ c → Follows n (f ()) o) : Follows n (throwIf c >>= f) (if c then none else o) := by
  rw [throwIf_bind]
  split
  · exact ⟨rfl, fun hne => absurd rfl hne⟩
  · rename_i hc
    exact h hc

/-- The code has ended and returned `o`: no exception has left it and nothing outside the array
was read. A field that an array of length `n` does not hold makes it return nothing. -/
structure Answers (n : Nat) (m : Access (Option α)) (o : Option α) : Prop where
  outcome : m.outcome = .returned o
  refuses : ∀ f ∈ m.fields, n < f.1 + f.2 → o = none

/-- Code that decides answers, with the handler around it. -/
theorem Decides.orElse {m : Access (Option α)} {o : Option α} (h : Decides n m o) :
    Answers n (m.orElse none) o := by
  have hfields : (m.orElse none).fields = m.fields := by
    rw [Access.orElse]
    split <;> rfl
  refine ⟨?_, fun f hf hlt => ?_⟩
  · obtain hret | ⟨hthrew, rfl⟩ := h.outcome
    · rw [Access.orElse, hret]
      exact hret
    · rw [Access.orElse, hthrew]
  · by_contra hne
    rw [hfields] at hf
    exact Nat.not_lt.mpr (h.fits hne f hf) hlt

end Access
end LightApr.Lib
