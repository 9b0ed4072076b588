import Mathlib.Data.List.TakeDrop
import Mathlib.Data.List.Basic

/-! The receive buffer shared by the protocol loops: consumed bytes stay in the
container until a compaction removes them. -/
namespace LightApr.Core

structure StreamAccumulator (α : Type) where
  buf : List α
  offset : Nat
  deriving DecidableEq, Repr

namespace StreamAccumulator
variable {α : Type}

def empty : StreamAccumulator α := ⟨[], 0⟩

def append (a : StreamAccumulator α) (bytes : List α) : StreamAccumulator α :=
  { a with buf := a.buf ++ bytes }

/-- The bytes `data()[0..size())`. -/
def data (a : StreamAccumulator α) : List α := a.buf.drop a.offset

def size (a : StreamAccumulator α) : Nat := a.buf.length - a.offset

def consume (a : StreamAccumulator α) (n : Nat) : StreamAccumulator α :=
  { a with offset := a.offset + n }

def compactIfNeeded (a : StreamAccumulator α) (threshold : Nat) : StreamAccumulator α :=
  if a.offset = 0 then a
  else if a.offset = a.buf.length then ⟨[], 0⟩
  else if threshold ≤ a.offset then ⟨a.buf.drop a.offset, 0⟩
  else a

/-- Bytes retained in the container, consumed ones included. -/
def totalCapacity (a : StreamAccumulator α) : Nat := a.buf.length

def clear (_ : StreamAccumulator α) : StreamAccumulator α := ⟨[], 0⟩

/-- The offset stays inside the container. -/
def InRange (a : StreamAccumulator α) : Prop := a.offset ≤ a.buf.length

@[simp] theorem data_empty : (empty : StreamAccumulator α).data = [] := rfl
@[simp] theorem inRange_empty : (empty : StreamAccumulator α).InRange := Nat.le_refl 0

theorem size_eq (a : StreamAccumulator α) : a.size = a.data.length := by
  simp [size, data]

theorem data_append {a : StreamAccumulator α} (h : a.InRange) (bytes : List α) :
    (a.append bytes).data = a.data ++ bytes :=
  List.drop_append_of_le_length h

@[simp] theorem data_consume (a : StreamAccumulator α) (n : Nat) :
    (a.consume n).data = a.data.drop n := by
  simp [data, consume, List.drop_drop]

/-- Compaction is invisible to the consumer. -/
@[simp] theorem data_compactIfNeeded (a : StreamAccumulator α) (threshold : Nat) :
    (a.compactIfNeeded threshold).data = a.data := by
  unfold compactIfNeeded
  split
  · rfl
  · split
    · rename_i h
      simp [data, h]
    · split <;> simp [data]

theorem InRange.append {a : StreamAccumulator α} (h : a.InRange) (bytes : List α) :
    (a.append bytes).InRange := by
  have h : a.offset ≤ a.buf.length := h
  simp only [InRange, StreamAccumulator.append, List.length_append]
  omega

theorem InRange.consume {a : StreamAccumulator α} (h : a.InRange) {n : Nat} (hn : n ≤ a.data.length) :
    (a.consume n).InRange := by
  have h : a.offset ≤ a.buf.length := h
  simp only [data, List.length_drop] at hn
  simp only [InRange, StreamAccumulator.consume]
  omega

theorem InRange.compactIfNeeded {a : StreamAccumulator α} (h : a.InRange) (threshold : Nat) :
    (a.compactIfNeeded threshold).InRange := by
  unfold StreamAccumulator.compactIfNeeded
  split
  · exact h
  · split
    · exact Nat.le_refl 0
    · split
      · exact Nat.zero_le _
      · exact h

end StreamAccumulator
end LightApr.Core
