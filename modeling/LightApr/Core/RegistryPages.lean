import LightApr.Core.Registry

/-! Pages of the registry listing: where 64-bit positions agree with exact ones. -/
namespace LightApr.Core.Registry

section
variable {α : Type}

/-- Positions `(page - 1) * count` up to `min (page * count) total` of a list. -/
def exactPage (page count : Nat) (nodes : List α) : List α :=
  (nodes.take (min (page * count) nodes.length)).drop ((page - 1) * count)

theorem exactPage_eq (page count : Nat) (nodes : List α) :
    exactPage page count nodes = (nodes.take (page * count)).drop ((page - 1) * count) := by
  rw [exactPage, ← List.take_eq_take_min]

theorem exactPage_past {page count : Nat} {nodes : List α} (h : nodes.length ≤ (page - 1) * count) :
    exactPage page count nodes = [] := by
  apply List.drop_eq_nil_of_le
  simp only [List.length_take]
  omega

/-- The first pages of a list are its first elements, in order and each once. -/
theorem exactPages (count : Nat) (nodes : List α) (pages : Nat) :
    ((List.range pages).flatMap fun i => exactPage (i + 1) count nodes) = nodes.take (pages * count) := by
  induction pages with
  | zero => simp
  | succ pages ih =>
    have hsplit := List.take_append_drop (pages * count) (nodes.take ((pages + 1) * count))
    have hle : pages * count ≤ (pages + 1) * count := Nat.mul_le_mul_right count (Nat.le_succ pages)
    rw [List.take_take, Nat.min_eq_left hle] at hsplit
    rw [List.range_succ, List.flatMap_append, ih, List.flatMap_singleton, exactPage_eq, Nat.add_sub_cancel,
      hsplit]

end

/-- The positions of the page do not wrap, or they wrap to a position past the end. -/
def PageFits (page count total : Nat) : Prop :=
  page * count < sizeMax ∨ total ≤ (page - 1) * count % sizeMax

instance (page count total : Nat) : Decidable (PageFits page count total) :=
  inferInstanceAs (Decidable (_ ∨ _))

variable {page count total : Nat}

private theorem mul_pred (h : 1 ≤ page) : page * count = (page - 1) * count + count := by
  rw [← Nat.succ_mul, Nat.succ_eq_add_one, Nat.sub_add_cancel h]

theorem pageRange_none (hp : 1 ≤ page) (h : total ≤ (page - 1) * count % sizeMax) :
    pageRange page count total = none := by
  simp [pageRange, Nat.not_lt.mpr hp, h]

theorem pageRange_some (hp : 1 ≤ page) (h : (page - 1) * count % sizeMax < total) :
    pageRange page count total = some ((page - 1) * count % sizeMax,
      min (((page - 1) * count % sizeMax + count) % sizeMax) total) := by
  simp [pageRange, Nat.not_lt.mpr hp, Nat.not_le.mpr h]

/-- A page that wraps into the list cannot end where it should. -/
theorem wrapped_page {start : Nat} (hp : 1 ≤ page) (hc : 1 ≤ count) (hc64 : count < sizeMax)
    (htotal : total < sizeMax) (hwrap : sizeMax ≤ page * count) (hs : start = (page - 1) * count % sizeMax)
    (hin : start < total) :
    min ((start + count) % sizeMax) total < start ∨
      (start < min ((start + count) % sizeMax) total ∧ total ≤ (page - 1) * count) := by
  rw [mul_pred hp] at hwrap
  by_cases hover : sizeMax ≤ start + count
  · left
    have : (start + count) % sizeMax = start + count - sizeMax := by
      rw [Nat.mod_eq_sub_mod hover, Nat.mod_eq_of_lt]
      omega
    omega
  · right
    rw [Nat.mod_eq_of_lt (Nat.not_le.mp hover)]
    refine ⟨by omega, ?_⟩
    -- the start has wrapped: otherwise it would be the exact one, and so would the end
    by_contra hlt
    rw [Nat.mod_eq_of_lt (by omega)] at hs
    omega

section
variable (order : MapOrder) (now : Int) (role worker : Bytes) (r : Registry)

theorem matched_length_le : (matched order now role worker r).length ≤ r.nodes.entries.length := by
  rw [matched, List.length_map]
  apply (List.length_filter_le _ _).trans
  rw [List.length_map, Table.iterate, (order.perm _).length_eq, Table.pairs, List.length_map]

/-- The answer to a query in exact arithmetic. -/
def ExactAnswer (page count : Nat) : Prop :=
  queryRegistry order now page count role worker r =
    some ((matched order now role worker r).length, exactPage page count (matched order now role worker r))

theorem exactAnswer_iff (hr : r.nodes.entries.length < sizeMax) (hp : 1 ≤ page) (hc : 1 ≤ count)
    (hc64 : count < sizeMax) :
    ExactAnswer order now role worker r page count ↔
      PageFits page count (matched order now role worker r).length := by
  have htotal := Nat.lt_of_le_of_lt (matched_length_le order now role worker r) hr
  unfold ExactAnswer queryRegistry PageFits
  generalize matched order now role worker r = nodes at htotal ⊢
  dsimp only
  by_cases hpast : nodes.length ≤ (page - 1) * count % sizeMax
  · have hle : nodes.length ≤ (page - 1) * count := hpast.trans (Nat.mod_le _ _)
    simp [pageRange_none hp hpast, exactPage_past hle, hpast]
  · have hin := Nat.not_le.mp hpast
    rw [pageRange_some hp hin]
    by_cases hfit : page * count < sizeMax
    · have hexact : (page - 1) * count % sizeMax = (page - 1) * count := by
        apply Nat.mod_eq_of_lt
        rw [mul_pred hp] at hfit
        omega
      rw [hexact] at hin ⊢
      have hend : ((page - 1) * count + count) % sizeMax = page * count := by
        rw [← mul_pred hp, Nat.mod_eq_of_lt hfit]
      simp only [hend, hfit, true_or, iff_true]
      rw [if_neg (by rw [mul_pred hp]; omega), exactPage]
    · simp only [hfit, hpast, or_self, iff_false]
      generalize hs : (page - 1) * count % sizeMax = start at hin ⊢
      rcases wrapped_page hp hc hc64 htotal (Nat.not_lt.mp hfit) hs.symm hin with hlt | ⟨hlt, hle⟩
      · simp [hlt]
      · rw [if_neg (by omega), exactPage_past hle]
        intro h
        have h := congrArg List.length (Prod.mk.inj (Option.some.inj h)).2
        simp only [List.length_drop, List.length_take, List.length_nil] at h
        omega

/-- **A query answers with the number of matching nodes and exactly the page asked for if
and only if the page fits; and as long as the pages fit, the pages 1, 2, 3, … lay out the
matched list, each node once.** -/
theorem queryRegistry_pages (hr : r.nodes.entries.length < sizeMax) :
    (∀ page count, 1 ≤ page → page < sizeMax → 1 ≤ count → count < sizeMax →
      (ExactAnswer order now role worker r page count ↔
        PageFits page count (matched order now role worker r).length)) ∧
    ∀ pages count, pages < sizeMax → 1 ≤ count → count < sizeMax →
      (∀ i < pages, PageFits (i + 1) count (matched order now role worker r).length) →
        ((List.range pages).flatMap fun i =>
          ((queryRegistry order now (i + 1) count role worker r).map Prod.snd).getD []) =
        (matched order now role worker r).take (pages * count) := by
  refine ⟨fun page count hp _ hc hc64 => exactAnswer_iff order now role worker r hr hp hc hc64, ?_⟩
  intro pages count _ hc hc64 hfits
  rw [← exactPages]
  apply List.flatMap_congr
  intro i hi
  have h := (exactAnswer_iff order now role worker r hr (Nat.le_add_left 1 i) hc hc64).mpr
    (hfits i (List.mem_range.mp hi))
  rw [h]
  rfl

end

/-- One node, stored under its id. -/
private def single : Registry :=
  (empty.registerOrUpdateNode (.ofDocuments []) 5 (ascii "web") [] none [] [] (.obj [])).1

theorem queryRegistry_single : ExactAnswer .written 6 [] [] single 1 2 :=
  ((queryRegistry_pages .written 6 [] [] single (by decide +kernel)).1 1 2 (by decide) (by decide) (by decide)
    (by decide)).mpr (by decide +kernel)

/-- Page `2 ^ 32 + 1` of `2 ^ 32` nodes starts at position 0 again. -/
theorem queryRegistry_wrapped : ¬ ExactAnswer .written 6 [] [] single 4294967297 4294967296 := by
  intro h
  have h := congrArg (fun answer => (answer.map fun p => p.2.length).getD 0) h
  exact absurd h (by decide +kernel)

end LightApr.Core.Registry
