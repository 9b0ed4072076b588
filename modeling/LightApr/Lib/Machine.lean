import Mathlib.Data.List.Basic

/-! Labelled transition systems whose step is a partial function, their runs,
and the invariant rule. A run carries a condition that each of its steps meets. -/
namespace LightApr.Lib

/-- `step s e = none`: the event `e` cannot happen in `s`. -/
structure Machine (σ ε : Type*) where
  step : σ → ε → Option σ

namespace Machine
variable {σ ε : Type*} (M : Machine σ ε)

/-- `M.Run P s es t`: the events `es` lead from `s` to `t`, and `P` holds of every
state an event leaves together with that event. -/
inductive Run (P : σ → ε → Prop) (s : σ) : List ε → σ → Prop
  | start : Run P s [] s
  | snoc {es : List ε} {m t : σ} {e : ε} :
      Run P s es m → P m e → M.step m e = some t → Run P s (es ++ [e]) t

/-- Runs on which nothing is required of the steps. -/
abbrev Reaches (s : σ) (es : List ε) (t : σ) : Prop := M.Run (fun _ _ => True) s es t

/-- The executable run. -/
def exec (s : σ) : List ε → Option σ
  | [] => some s
  | e :: es => (M.step s e).bind fun t => exec t es

variable {M} {P Q : σ → ε → Prop} {s t u : σ} {es fs : List ε}

theorem Run.mono (h : M.Run P s es t) (hpq : ∀ m e, P m e → Q m e) : M.Run Q s es t := by
  induction h with
  | start => exact .start
  | snoc _ hp hs ih => exact .snoc ih (hpq _ _ hp) hs

/-- On a run a condition only has to imply another one where the run can come. -/
theorem Run.imp (h : M.Run P s es t)
    (hpq : ∀ {fs m e n}, M.Reaches s fs m → M.step m e = some n → P m e → Q m e) : M.Run Q s es t := by
  induction h with
  | start => exact .start
  | snoc hrun hp hs ih => exact .snoc ih (hpq (hrun.mono fun _ _ _ => trivial) hs hp) hs

theorem Run.reaches (h : M.Run P s es t) : M.Reaches s es t := h.mono fun _ _ _ => trivial

/-- A condition on the events alone is met by a run of such events. -/
theorem Run.of_events (h : M.Reaches s es t) (hp : ∀ e ∈ es, ∀ m, P m e) : M.Run P s es t := by
  induction h with
  | start => exact .start
  | snoc _ _ hs ih =>
    exact .snoc (ih fun e he => hp e (List.mem_append_left _ he)) (hp _ (by simp) _) hs

theorem Run.trans (h : M.Run P s es t) (h' : M.Run P t fs u) : M.Run P s (es ++ fs) u := by
  induction h' with
  | start => simpa using h
  | snoc _ hp hs ih =>
    rw [← List.append_assoc]
    exact .snoc ih hp hs

/-- The invariant rule. -/
theorem Run.invariant (I : σ → Prop) (h : M.Run P s es t) (h0 : I s)
    (hstep : ∀ m e n, I m → P m e → M.step m e = some n → I n) : I t := by
  induction h with
  | start => exact h0
  | snoc _ hp hs ih => exact hstep _ _ _ ih hp hs

theorem reaches_of_exec (h : M.exec s es = some t) : M.Reaches s es t := by
  induction es generalizing s with
  | nil =>
    obtain rfl : s = t := by simpa [exec] using h
    exact .start
  | cons e es ih =>
    obtain ⟨m, hm, he⟩ := Option.bind_eq_some_iff.mp h
    have h1 : M.Reaches s ([] ++ [e]) m := .snoc .start trivial hm
    exact h1.trans (ih he)

theorem exec_append (es : List ε) (e : ε) : M.exec s (es ++ [e]) = (M.exec s es).bind fun t => M.step t e := by
  induction es generalizing s with
  | nil =>
    rw [List.nil_append, exec, exec, Option.bind_some]
    exact Option.bind_fun_some _
  | cons e' es ih => simp only [List.cons_append, exec, ih, Option.bind_assoc]

/-- There is one run of the events. -/
theorem Run.exec_eq (h : M.Run P s es t) : M.exec s es = some t := by
  induction h with
  | start => rfl
  | snoc _ _ hs ih => rw [exec_append, ih, Option.bind_some, hs]

theorem Run.last {e : ε} (h : M.Run P s (es ++ [e]) t) : ∃ m, M.Run P s es m ∧ P m e ∧ M.step m e = some t := by
  generalize hes : es ++ [e] = fs at h
  cases h with
  | start => exact absurd hes (List.append_ne_nil_of_right_ne_nil _ (List.cons_ne_nil _ _))
  | snoc hrun hp hs =>
    obtain ⟨rfl, he⟩ := List.append_inj' hes rfl
    obtain rfl := List.singleton_inj.mp he
    exact ⟨_, hrun, hp, hs⟩

/-- An executed run, evaluated. -/
theorem reaches_exec (M : Machine σ ε) {s : σ} {es : List ε} (h : (M.exec s es).isSome = true) :
    M.Reaches s es ((M.exec s es).getD s) := by
  obtain ⟨t, ht⟩ := Option.isSome_iff_exists.mp h
  rw [ht]
  exact reaches_of_exec ht

/-- The executable run whose steps meet `P`. -/
def execIf (M : Machine σ ε) (P : σ → ε → Prop) [∀ s e, Decidable (P s e)] (s : σ) : List ε → Option σ
  | [] => some s
  | e :: es => if P s e then (M.step s e).bind fun t => execIf M P t es else none

theorem run_of_execIf [∀ s e, Decidable (P s e)] (h : M.execIf P s es = some t) : M.Run P s es t := by
  induction es generalizing s with
  | nil =>
    obtain rfl : s = t := by simpa [execIf] using h
    exact .start
  | cons e es ih =>
    rw [execIf] at h
    split at h
    · rename_i hp
      obtain ⟨m, hm, he⟩ := Option.bind_eq_some_iff.mp h
      have h1 : M.Run P s ([] ++ [e]) m := .snoc .start hp hm
      exact h1.trans (ih he)
    · cases h

/-- A run whose steps meet `P`, evaluated. -/
theorem run_execIf (M : Machine σ ε) (P : σ → ε → Prop) [∀ s e, Decidable (P s e)] {s : σ} {es : List ε}
    (h : (M.execIf P s es).isSome = true) : M.Run P s es ((M.execIf P s es).getD s) := by
  obtain ⟨t, ht⟩ := Option.isSome_iff_exists.mp h
  rw [ht]
  exact run_of_execIf ht

/-- One more step, evaluated. -/
theorem Run.next {m : σ} {e : ε} (h : M.Run P s es m) (hp : P m e) (hs : (M.step m e).isSome = true) :
    M.Run P s (es ++ [e]) ((M.step m e).getD m) := by
  obtain ⟨t, ht⟩ := Option.isSome_iff_exists.mp hs
  rw [ht]
  exact h.snoc hp ht

/-! Termination, by a rank that every step lowers. -/

section
variable {I : σ → Prop} {rank : σ → Nat}

theorem Run.length_le (hlower : ∀ m e n, I m → M.step m e = some n → I n ∧ rank n < rank m) (h0 : I s)
    (h : M.Run P s es t) : I t ∧ es.length + rank t ≤ rank s := by
  induction h with
  | start => exact ⟨h0, Nat.le_of_eq (Nat.zero_add _)⟩
  | snoc _ _ hs ih =>
    obtain ⟨hm, hle⟩ := ih
    obtain ⟨hn, hlt⟩ := hlower _ _ _ hm hs
    refine ⟨hn, ?_⟩
    rw [List.length_append, List.length_singleton]
    omega

/-- A state from which something can happen as long as it is not final leads to a final one. -/
theorem exists_reaches (final : σ → Prop) (hlower : ∀ m e n, I m → M.step m e = some n → I n ∧ rank n < rank m)
    (hlive : ∀ m, I m → ¬ final m → ∃ e, (M.step m e).isSome = true) (h0 : I s) :
    ∃ es t, M.Reaches s es t ∧ I t ∧ final t := by
  generalize hn : rank s = n
  induction n using Nat.strongRecOn generalizing s with
  | ind n ih =>
    by_cases hfinal : final s
    · exact ⟨[], s, .start, h0, hfinal⟩
    · obtain ⟨e, he⟩ := hlive s h0 hfinal
      obtain ⟨m, hm⟩ := Option.isSome_iff_exists.mp he
      obtain ⟨hi, hlt⟩ := hlower s e m h0 hm
      obtain ⟨es, t, hrun, ht⟩ := ih (rank m) (hn ▸ hlt) hi rfl
      have hfirst : M.Reaches s ([] ++ [e]) m := .snoc .start trivial hm
      exact ⟨[] ++ [e] ++ es, t, hfirst.trans hrun, ht⟩

end

/-- Every step of `M` is a step of `N` with the event `f e`, and keeps the relation of the two states. -/
def Simulates {τ δ : Type*} (M : Machine σ ε) (N : Machine τ δ) (f : ε → δ) (R : σ → τ → Prop) : Prop :=
  ∀ s a e t, R s a → M.step s e = some t → ∃ b, N.step a (f e) = some b ∧ R t b

/-- The simulation rule. -/
theorem Simulates.run {τ δ : Type*} {N : Machine τ δ} {f : ε → δ} {R : σ → τ → Prop} {a : τ}
    (hsim : M.Simulates N f R) (h0 : R s a) (h : M.Run P s es t) : ∃ b, N.Reaches a (es.map f) b ∧ R t b := by
  induction h with
  | start => exact ⟨a, .start, h0⟩
  | snoc _ _ hs ih =>
    obtain ⟨b, hrun, hb⟩ := ih
    obtain ⟨c, hstep, hc⟩ := hsim _ _ _ _ hb hs
    rw [List.map_append]
    exact ⟨c, hrun.snoc trivial hstep, hc⟩

end Machine

/-! One of several components that changes. -/

/-- What stands in a list after one entry is replaced: the new entry in its place, or what stood there before. -/
theorem getElem?_set_some {α : Type*} {l : List α} {x y : α} {i j : Nat} (h : (l.set i x)[j]? = some y) :
    (j = i ∧ y = x ∧ i < l.length) ∨ (j ≠ i ∧ l[j]? = some y) := by
  rw [List.getElem?_set] at h
  split at h
  · rename_i hij
    split at h
    · rename_i hi
      exact .inl ⟨hij.symm, (Option.some.inj h).symm, hi⟩
    · cases h
  · rename_i hij
    exact .inr ⟨Ne.symm hij, h⟩

/-! A history that grows by one. -/

/-- What stands in a list one longer stood in it before, or is the new element. -/
theorem getElem?_snoc {α : Type*} {l : List α} {x y : α} {i : Nat} (h : (l ++ [x])[i]? = some y) :
    l[i]? = some y ∨ (i = l.length ∧ y = x) := by
  rw [List.getElem?_append] at h
  split at h
  · exact .inl h
  · rename_i hi
    rw [List.getElem?_singleton] at h
    split at h
    · rename_i h0
      exact .inr ⟨by omega, (Option.some.inj h).symm⟩
    · cases h

end LightApr.Lib
