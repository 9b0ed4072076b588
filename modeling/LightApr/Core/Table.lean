import LightApr.Core.Bytes
import Mathlib.Algebra.BigOperators.Group.List.Basic
import Mathlib.Data.List.AList
import Mathlib.Tactic.Abel

/-! Hash maps keyed by strings. What `std::unordered_map` leaves open is only the
order in which a range-for visits the entries, so that order is a parameter. -/
namespace LightApr.Core

abbrev Table (β : Type) := AList fun _ : Bytes => β

/-- The order in which an unordered container is enumerated: some permutation,
the same one as long as the contents stay the same. -/
structure MapOrder where
  order : {α : Type} → List α → List α
  perm : ∀ {α : Type} (l : List α), (order l).Perm l

/-- Most recently written key first. -/
def MapOrder.written : MapOrder := ⟨fun l => l, fun _ => .refl _⟩

namespace Table
variable {β : Type}

def pairs (t : Table β) : List (Bytes × β) := t.entries.map fun e => (e.1, e.2)

/-- The entries as a range-for visits them. -/
def iterate (o : MapOrder) (t : Table β) : List (Bytes × β) := o.order t.pairs

theorem mem_pairs {t : Table β} {k : Bytes} {v : β} : (k, v) ∈ t.pairs ↔ t.lookup k = some v := by
  rw [← Option.mem_def, AList.mem_lookup_iff, pairs, List.mem_map]
  constructor
  · rintro ⟨⟨k', v'⟩, hm, he⟩
    obtain ⟨rfl, rfl⟩ := Prod.mk.inj he
    exact hm
  · exact fun h => ⟨⟨k, v⟩, h, rfl⟩

theorem pairs_keys_nodup (t : Table β) : (t.pairs.map Prod.fst).Nodup := by
  have h := t.keys_nodup
  rwa [pairs, List.map_map]

theorem mem_iterate {o : MapOrder} {t : Table β} {k : Bytes} {v : β} :
    (k, v) ∈ t.iterate o ↔ t.lookup k = some v :=
  (o.perm _).mem_iff.trans mem_pairs

theorem iterate_keys_nodup (o : MapOrder) (t : Table β) : ((t.iterate o).map Prod.fst).Nodup :=
  ((o.perm _).map _).nodup_iff.mpr t.pairs_keys_nodup

theorem length_iterate (o : MapOrder) (t : Table β) : (t.iterate o).length = t.entries.length := by
  rw [iterate, (o.perm _).length_eq, pairs, List.length_map]

theorem lookup_erase_eq_some {t : Table β} {k id : Bytes} {v : β} :
    (t.erase k).lookup id = some v ↔ id ≠ k ∧ t.lookup id = some v := by
  by_cases hk : id = k
  · subst hk
    simp [AList.lookup_erase]
  · rw [AList.lookup_erase_ne hk, and_iff_right hk]

/-- What is found after an assignment: the value assigned, or one from before. -/
theorem lookup_insert_eq_some {t : Table β} {k id : Bytes} {v v' : β} :
    (t.insert k v').lookup id = some v ↔ id = k ∧ v' = v ∨ id ≠ k ∧ t.lookup id = some v := by
  by_cases hk : id = k
  · subst hk
    simp [AList.lookup_insert]
  · rw [AList.lookup_insert_ne hk]
    simp [hk]

/-- A key without an entry reads as `d`. -/
theorem getD_lookup_insert (t : Table β) (k id : Bytes) (v d : β) :
    ((t.insert k v).lookup id).getD d = if id = k then v else (t.lookup id).getD d := by
  by_cases hk : id = k
  · subst hk
    rw [AList.lookup_insert, if_pos rfl, Option.getD_some]
  · rw [AList.lookup_insert_ne hk, if_neg hk]

/-- The sum of a quantity over all entries. -/
def total {M : Type} [AddCommMonoid M] (f : β → M) (t : Table β) : M := (t.pairs.map fun e => f e.2).sum

section
variable {M : Type} [AddCommMonoid M] (f : β → M) {t : Table β} {k : Bytes} {v : β}

theorem total_empty : total f ∅ = 0 := rfl

theorem total_insert (t : Table β) (k : Bytes) (v : β) : total f (t.insert k v) = f v + total f (t.erase k) := by
  rw [total, pairs, AList.entries_insert, List.map_cons, List.map_cons, List.sum_cons]
  rfl

theorem total_of_lookup (h : t.lookup k = some v) : total f t = f v + total f (t.erase k) := by
  have hk : k ∈ t.entries.keys := AList.lookup_isSome.mp (by rw [h]; rfl)
  obtain ⟨v', front, back, -, hsplit, herase⟩ := List.exists_of_kerase hk
  have hv : t.lookup k = some v' := by
    rw [← Option.mem_def, AList.mem_lookup_iff, hsplit]
    simp
  obtain rfl := Option.some.inj (h.symm.trans hv)
  have he : (t.erase k).entries = front ++ back := herase
  rw [total, total, pairs, pairs, he, hsplit]
  simp [add_left_comm]

theorem erase_of_lookup_none (h : t.lookup k = none) : t.erase k = t := by
  apply AList.ext
  exact List.kerase_of_notMem_keys (AList.lookup_eq_none.mp h)

/-- A new value in the place of another. -/
theorem total_replace {M : Type} [AddCommGroup M] (f : β → M) {v' : β} (h : t.lookup k = some v) :
    total f (t.insert k v') = total f t + (f v' - f v) := by
  rw [total_insert, total_of_lookup f h]
  abel

end

/-! A table seen through a function of its values. -/

section
variable {γ : Type} (f : β → γ) (t : Table β) (k : Bytes)

theorem lookup_map_insert (v : β) :
    (fun id => ((t.insert k v).lookup id).map f) =
      Function.update (fun id => (t.lookup id).map f) k (some (f v)) := by
  funext id
  by_cases hk : id = k
  · subst hk
    rw [AList.lookup_insert, Function.update_self, Option.map_some]
  · rw [AList.lookup_insert_ne hk, Function.update_of_ne hk]

theorem lookup_map_erase :
    (fun id => ((t.erase k).lookup id).map f) =
      Function.update (fun id => (t.lookup id).map f) k none := by
  funext id
  by_cases hk : id = k
  · subst hk
    rw [AList.lookup_erase, Function.update_self, Option.map_none]
  · rw [AList.lookup_erase_ne hk, Function.update_of_ne hk]

end

/-- What a loop of assignments leaves at a key: nothing new, or with distinct keys the
value assigned to it. -/
theorem lookup_foldl_insert {items : List (Bytes × β)} (hn : (items.map Prod.fst).Nodup) (t : Table β) (k : Bytes) :
    (k ∉ items.map Prod.fst → (items.foldl (fun t x => t.insert x.1 x.2) t).lookup k = t.lookup k) ∧
      ∀ v, (k, v) ∈ items → (items.foldl (fun t x => t.insert x.1 x.2) t).lookup k = some v := by
  induction items generalizing t with
  | nil => exact ⟨fun _ => rfl, nofun⟩
  | cons x items ih =>
    obtain ⟨hx, hitems⟩ := List.nodup_cons.mp hn
    obtain ⟨hother, hmem⟩ := ih hitems (t.insert x.1 x.2)
    rw [List.foldl_cons]
    refine ⟨fun hk => ?_, fun v hv => ?_⟩
    · rw [List.map_cons, List.mem_cons, not_or] at hk
      rw [hother hk.2, AList.lookup_insert_ne hk.1]
    · rcases List.mem_cons.mp hv with rfl | hv
      · rw [hother hx, AList.lookup_insert]
      · exact hmem v hv

end Table
end LightApr.Core
