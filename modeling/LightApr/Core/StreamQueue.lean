import LightApr.Core.StreamAccumulator
import LightApr.Lib.Fifo

/-! The receive buffer as a plain queue: whatever is called on it, it shows the bytes that a queue would hold. -/
namespace LightApr.Core.StreamAccumulator
open Lib

variable {α : Type}

inductive Event (α : Type) where
  | append (bytes : List α)
  | consume (n : Nat)
  | compactIfNeeded (threshold : Nat)
  | clear

/-- Callers consume no more than they were shown. -/
def step (a : StreamAccumulator α) : Event α → Option (StreamAccumulator α)
  | .append bytes => some (a.append bytes)
  | .consume n => if n ≤ a.size then some (a.consume n) else none
  | .compactIfNeeded threshold => some (a.compactIfNeeded threshold)
  | .clear => some a.clear

def machine : Machine (StreamAccumulator α) (Event α) := ⟨step⟩

/-- The queue does not notice a compaction. -/
def Event.onQueue : Event α → Fifo.Event α
  | .append bytes => .put bytes
  | .consume n => .take n
  | .compactIfNeeded _ => .keep
  | .clear => .reset

structure Shows (a : StreamAccumulator α) (q : Fifo α) : Prop where
  data : a.data = q.contents
  inRange : a.InRange

theorem simulates_queue : (machine : Machine (StreamAccumulator α) (Event α)).Simulates Fifo.machine Event.onQueue
    Shows := by
  intro a q e b h hs
  cases e with
  | append bytes =>
    obtain rfl := Option.some.inj hs
    refine ⟨q.put bytes, rfl, ?_, h.inRange.append bytes⟩
    rw [data_append h.inRange, h.data, Fifo.contents_put]
  | consume n =>
    simp only [machine, step] at hs
    split at hs
    · rename_i hn
      obtain rfl := Option.some.inj hs
      have hn' : n ≤ a.data.length := size_eq a ▸ hn
      have hn'' : n ≤ q.contents.length := h.data ▸ hn'
      refine ⟨q.take n hn'', Fifo.step_take hn'', ?_, h.inRange.consume hn'⟩
      rw [data_consume, h.data, Fifo.contents_take]
    · cases hs
  | compactIfNeeded threshold =>
    obtain rfl := Option.some.inj hs
    exact ⟨q, rfl, (data_compactIfNeeded a threshold).trans h.data, h.inRange.compactIfNeeded threshold⟩
  | clear =>
    obtain rfl := Option.some.inj hs
    exact ⟨.empty, rfl, rfl, inRange_empty⟩

/-- What a compaction leaves of the consumed bytes. -/
theorem totalCapacity_compactIfNeeded (a : StreamAccumulator α) {threshold : Nat} (h : 1 ≤ threshold) :
    (a.compactIfNeeded threshold).totalCapacity < (a.compactIfNeeded threshold).size + threshold := by
  have hoffset : (a.compactIfNeeded threshold).offset < threshold := by
    unfold compactIfNeeded
    split
    · omega
    · split
      · exact h
      · split
        · exact h
        · omega
  rw [totalCapacity, size]
  omega

/-- **After every sequence of calls the visible bytes are those appended since the last `clear`, without the
consumed prefix. The offset is inside the container, a compaction changes no visible byte, and it leaves fewer than
`threshold` consumed ones.** -/
theorem visible_bytes {es : List (Event α)} {a : StreamAccumulator α} (h : machine.Reaches empty es a) :
    ∃ q, Fifo.machine.Reaches Fifo.empty (es.map Event.onQueue) q ∧ a.data = q.entered.drop q.taken ∧
      a.size = a.data.length ∧ a.offset ≤ a.totalCapacity ∧
      ∀ threshold, (a.compactIfNeeded threshold).data = a.data ∧ (1 ≤ threshold →
        (a.compactIfNeeded threshold).totalCapacity < (a.compactIfNeeded threshold).size + threshold) := by
  obtain ⟨q, hq, hshows⟩ := simulates_queue.run (a := .empty) ⟨rfl, inRange_empty⟩ h
  refine ⟨q, hq, hshows.data, size_eq a, hshows.inRange, fun threshold => ⟨data_compactIfNeeded a threshold, ?_⟩⟩
  exact totalCapacity_compactIfNeeded a

private def twoReads : List (Event Nat) := [.append [1, 2, 3], .consume 2, .append [4, 5], .compactIfNeeded 1]

/-- Two reads, a message consumed and the buffer compacted. -/
theorem visible_bytes_read : ∃ a : StreamAccumulator Nat,
    a.data = [3, 4, 5] ∧ ∃ q : Fifo Nat, q.entered = [1, 2, 3, 4, 5] ∧ a.data = q.entered.drop q.taken := by
  have hrun : machine.Reaches empty twoReads ((machine.exec empty twoReads).getD empty) :=
    Machine.reaches_exec machine rfl
  obtain ⟨q, hq, hdata, -⟩ := visible_bytes hrun
  refine ⟨_, rfl, q, ?_, hdata⟩
  have he := hq.exec_eq
  exact congrArg (fun o => (o.map Fifo.entered).getD []) he.symm

end LightApr.Core.StreamAccumulator
