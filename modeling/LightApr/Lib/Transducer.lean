import Mathlib.Data.List.Basic

/-! Machines that answer: an input leads to the next state and puts out a list. -/
namespace LightApr.Lib

structure Transducer (σ ι ο : Type*) where
  step : σ → ι → σ × List ο

namespace Transducer
variable {σ ι ο : Type*} (T : Transducer σ ι ο)

/-- The state after the inputs. -/
def final (s : σ) (inputs : List ι) : σ := inputs.foldl (fun s x => (T.step s x).1) s

/-- What the inputs put out, one after the other. -/
def output (s : σ) : List ι → List ο
  | [] => []
  | x :: inputs => (T.step s x).2 ++ output (T.step s x).1 inputs

variable (s : σ) (inputs more : List ι) (x : ι)

theorem final_append : T.final s (inputs ++ more) = T.final (T.final s inputs) more := List.foldl_append ..

theorem final_snoc : T.final s (inputs ++ [x]) = (T.step (T.final s inputs) x).1 := T.final_append s inputs [x]

theorem output_append : T.output s (inputs ++ more) = T.output s inputs ++ T.output (T.final s inputs) more := by
  induction inputs generalizing s with
  | nil => rfl
  | cons x inputs ih =>
    rw [List.cons_append, output, output, ih, List.append_assoc]
    rfl

theorem output_snoc : T.output s (inputs ++ [x]) = T.output s inputs ++ (T.step (T.final s inputs) x).2 := by
  rw [output_append, output, output, List.append_nil]

variable {T s inputs}

/-- Whatever is put out answers one of the inputs. -/
theorem mem_output {y : ο} (h : y ∈ T.output s inputs) : ∃ t, ∃ x ∈ inputs, y ∈ (T.step t x).2 := by
  induction inputs generalizing s with
  | nil => cases h
  | cons x inputs ih =>
    rcases List.mem_append.mp h with h | h
    · exact ⟨s, x, List.mem_cons_self .., h⟩
    · obtain ⟨t, x', hx', hy⟩ := ih h
      exact ⟨t, x', List.mem_cons_of_mem _ hx', hy⟩

end Transducer
end LightApr.Lib
