import LightApr.Lib.Machine

/-! A plain queue, with all that was put in since it was last emptied. -/
namespace LightApr.Lib

structure Fifo (α : Type*) where
  entered : List α
  taken : Nat
  taken_le : taken ≤ entered.length

namespace Fifo
variable {α : Type*}

def empty : Fifo α := ⟨[], 0, Nat.le_refl 0⟩

/-- What was put in, without the part that was taken. -/
def contents (q : Fifo α) : List α := q.entered.drop q.taken

def put (q : Fifo α) (xs : List α) : Fifo α where
  entered := q.entered ++ xs
  taken := q.taken
  taken_le := by
    rw [List.length_append]
    exact Nat.le_add_right_of_le q.taken_le

@[simp] theorem contents_empty : (empty : Fifo α).contents = [] := rfl

@[simp] theorem contents_put (q : Fifo α) (xs : List α) : (q.put xs).contents = q.contents ++ xs :=
  List.drop_append_of_le_length q.taken_le

theorem length_contents (q : Fifo α) : q.contents.length = q.entered.length - q.taken := List.length_drop

def take (q : Fifo α) (n : Nat) (h : n ≤ q.contents.length) : Fifo α where
  entered := q.entered
  taken := q.taken + n
  taken_le := by
    have hle := q.taken_le
    rw [length_contents] at h
    omega

@[simp] theorem contents_take (q : Fifo α) (n : Nat) (h : n ≤ q.contents.length) :
    (q.take n h).contents = q.contents.drop n := by
  rw [contents, contents, List.drop_drop]
  rfl

inductive Event (α : Type*) where
  | put (xs : List α)
  | take (n : Nat)
  | keep
  | reset

/-- No more is taken than there is. -/
def step (q : Fifo α) : Event α → Option (Fifo α)
  | .put xs => some (q.put xs)
  | .take n => if h : n ≤ q.contents.length then some (q.take n h) else none
  | .keep => some q
  | .reset => some empty

def machine : Machine (Fifo α) (Event α) := ⟨step⟩

theorem step_take {q : Fifo α} {n : Nat} (h : n ≤ q.contents.length) :
    machine.step q (.take n) = some (q.take n h) := dif_pos h

end Fifo
end LightApr.Lib
