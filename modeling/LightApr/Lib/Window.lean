import Mathlib.Algebra.Order.Group.Defs
import Mathlib.Data.List.Count
import Mathlib.Algebra.Order.Group.Basic

/-! Logs of points in time, and the part of a log within a window of fixed width. -/
namespace LightApr.Lib.Window
variable {τ : Type*} [AddCommGroup τ] [LinearOrder τ]

/-- The entries in front that are older than `w` go. -/
def prune (w now : τ) (log : List τ) : List τ := log.dropWhile fun t => w < now - t

/-- How many entries lie in the closed interval from `a` to `a + w`. -/
def inWindow (w a : τ) (log : List τ) : Nat := log.countP fun t => a ≤ t ∧ t ≤ a + w

private theorem dropWhile_dropWhile {α : Type*} {p q : α → Bool} (h : ∀ x, q x = true → p x = true) (l : List α) :
    (l.dropWhile q).dropWhile p = l.dropWhile p := by
  induction l with
  | nil => rfl
  | cons x l ih =>
    by_cases hx : q x = true
    · rw [List.dropWhile_cons_of_pos hx, List.dropWhile_cons_of_pos (h x hx), ih]
    · rw [List.dropWhile_cons_of_neg hx]

/-- What an append leaves to later prunings, they find in the longer list as well. -/
private theorem dropWhile_append_congr {α : Type*} {p : α → Bool} {l l' : List α}
    (h : l.dropWhile p = l'.dropWhile p) (more : List α) : (l ++ more).dropWhile p = (l' ++ more).dropWhile p := by
  rw [List.dropWhile_append, List.dropWhile_append, h]

variable {w now later a t : τ} {log log' : List τ}

theorem prune_append_congr (h : prune w now log = prune w now log') (more : List τ) :
    prune w now (log ++ more) = prune w now (log' ++ more) := dropWhile_append_congr h more

variable [IsOrderedAddMonoid τ]

/-- An earlier pruning takes nothing that a later one would have kept. -/
theorem prune_prune (h : now ≤ later) (log : List τ) : prune w later (prune w now log) = prune w later log := by
  apply dropWhile_dropWhile
  intro t ht
  rw [decide_eq_true_eq] at ht ⊢
  exact ht.trans_le (sub_le_sub_right h t)

theorem prune_sorted (h : log.Pairwise (· ≤ ·)) : prune w now log = log.filter fun t => now - t ≤ w := by
  induction log with
  | nil => rfl
  | cons t log ih =>
    obtain ⟨hle, hlog⟩ := List.pairwise_cons.mp h
    by_cases ht : w < now - t
    · rw [prune, List.dropWhile_cons, if_pos (decide_eq_true ht), ← prune, ih hlog, List.filter_cons,
        if_neg (by simpa only [decide_eq_true_eq, not_le] using ht)]
    · rw [prune, List.dropWhile_cons, if_neg (by simpa only [decide_eq_true_eq] using ht), eq_comm,
        List.filter_eq_self]
      -- everything behind the front is younger
      intro s hs
      rw [decide_eq_true_eq]
      rcases List.mem_cons.mp hs with rfl | hs
      · exact not_lt.mp ht
      · exact (sub_le_sub_left (hle s hs) now).trans (not_lt.mp ht)

/-- The entries that survive a pruning are those of the window that ends now. -/
theorem length_prune (h : log.Pairwise (· ≤ ·)) (hnow : ∀ t ∈ log, t ≤ now) :
    (prune w now log).length = log.countP fun t => now - w ≤ t ∧ t ≤ now := by
  rw [prune_sorted h, ← List.countP_eq_length_filter]
  apply List.countP_congr
  intro t ht
  rw [decide_eq_true_eq, decide_eq_true_eq, sub_le_comm]
  exact ⟨fun hw => ⟨hw, hnow t ht⟩, And.left⟩

/-- A log that grows only while fewer than `m` entries lie in the window that ends with the
new one has at most `m` entries in every window. -/
theorem inWindow_snoc {m : Nat} (hlog : ∀ a, inWindow w a log ≤ m) (hsorted : log.Pairwise (· ≤ ·))
    (hnow : ∀ s ∈ log, s ≤ now) (hroom : (prune w now log).length < m) (a : τ) :
    inWindow w a (log ++ [now]) ≤ m := by
  unfold inWindow at hlog ⊢
  rw [List.countP_append, List.countP_singleton]
  split
  · rename_i hin
    rw [decide_eq_true_eq] at hin
    rw [length_prune hsorted hnow] at hroom
    refine Nat.succ_le_of_lt (Nat.lt_of_le_of_lt ?_ hroom)
    apply List.countP_mono_left
    intro s hs h
    rw [decide_eq_true_eq] at h ⊢
    exact ⟨(sub_le_iff_le_add.mpr hin.2).trans h.1, hnow s hs⟩
  · exact hlog a

end LightApr.Lib.Window
