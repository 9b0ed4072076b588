import Mathlib.Data.List.Nodup
import Mathlib.Data.List.Flatten
import Mathlib.Logic.Function.Basic

/-! Several writers on one byte sink. Every writer owns a buffer and moves it to
the sink piece by piece; nothing but the order of the transfers decides whether
the sink receives whole buffers or a mixture. -/
namespace LightApr.Lib.Writers
variable {α : Type*}

/-- `buffers` are the buffers handed over so far, the writer of each being its
position; `sent` is how much of each was transferred; `wire` is what the sink
received, each symbol with its writer. -/
structure Channel (α : Type*) where
  buffers : List (List α)
  sent : Nat → Nat
  wire : List (Nat × α)

namespace Channel

def empty : Channel α := ⟨[], fun _ => 0, []⟩

/-- A new writer takes over `buf`. -/
def start (c : Channel α) (buf : List α) : Channel α := { c with buffers := c.buffers ++ [buf] }

def buffer (c : Channel α) (k : Nat) : List α := c.buffers.getD k []

/-- Writer `k` moves its next `n` symbols. -/
def transfer (c : Channel α) (k n : Nat) : Channel α :=
  { c with
    sent := Function.update c.sent k (c.sent k + n)
    wire := c.wire ++ (((c.buffer k).drop (c.sent k)).take n).map (k, ·) }

/-- Writer `k` has `n` symbols left to move, and moves at least one. -/
def CanTransfer (c : Channel α) (k n : Nat) : Prop := 0 < n ∧ c.sent k + n ≤ (c.buffer k).length

instance (c : Channel α) (k n : Nat) : Decidable (c.CanTransfer k n) :=
  inferInstanceAs (Decidable (_ ∧ _))

/-- Writer `k` is between its first and its last symbol. -/
def Partial (c : Channel α) (k : Nat) : Prop := 0 < c.sent k ∧ c.sent k < (c.buffer k).length

instance (c : Channel α) (k : Nat) : Decidable (c.Partial k) := inferInstanceAs (Decidable (_ ∧ _))

/-- No writer but `k` is in the middle of its buffer. -/
def Exclusive (c : Channel α) (k : Nat) : Prop := ∀ j, j ≠ k → ¬ c.Partial j

/-- Buffer `k` as it looks on the wire. -/
def block (c : Channel α) (k : Nat) : List (Nat × α) := (c.buffer k).map (k, ·)

/-- The wire holds the whole buffers of the writers `done`, one after the other,
and then an initial piece of one more buffer. -/
def Whole (c : Channel α) : Prop :=
  ∃ done : List Nat, done.Nodup ∧ (∀ j ∈ done, j < c.buffers.length) ∧
    ∃ k, k ∉ done ∧ ∃ m, c.wire = (done.map c.block).flatten ++ (c.block k).take m

/-- What exclusive transfers keep: the writers in `done` are finished, at most the
writer `open?` is in the middle of its buffer, and no other has begun. -/
structure Tidy (c : Channel α) (done : List Nat) (open? : Option Nat) : Prop where
  nodup : done.Nodup
  finished : ∀ j ∈ done, j < c.buffers.length ∧ 0 < c.sent j ∧ c.sent j = (c.buffer j).length
  inside : ∀ k ∈ open?, c.Partial k
  fresh : ∀ j, j ∉ done → j ∉ open? → c.sent j = 0
  wire : c.wire = (done.map c.block).flatten ++
    (open?.elim [] fun k => (c.block k).take (c.sent k))

theorem tidy_empty : (empty : Channel α).Tidy [] none where
  nodup := List.nodup_nil
  finished := by simp
  inside := by simp
  fresh := by simp [empty]
  wire := rfl

theorem buffer_start (c : Channel α) (buf : List α) (k : Nat) (h : k < c.buffers.length) :
    (c.start buf).buffer k = c.buffer k := by
  simp [start, buffer, List.getElem?_append_left h]

theorem Partial.lt_length {c : Channel α} {k : Nat} (h : c.Partial k) : k < c.buffers.length := by
  by_contra hk
  have : c.buffer k = [] := by simp [buffer, List.getElem?_eq_none (Nat.le_of_not_lt hk)]
  have := h.2
  simp_all

instance (c : Channel α) (k : Nat) : Decidable (c.Exclusive k) :=
  decidable_of_iff (∀ j < c.buffers.length, j ≠ k → ¬ c.Partial j)
    ⟨fun h j hj hp => h j hp.lt_length hj hp, fun h j _ => h j⟩

theorem Tidy.start {c : Channel α} {done : List Nat} {open? : Option Nat}
    (h : c.Tidy done open?) (buf : List α) : (c.start buf).Tidy done open? where
  nodup := h.nodup
  finished j hj := by
    obtain ⟨hl, h0, hs⟩ := h.finished j hj
    rw [buffer_start c buf j hl]
    exact ⟨by simp only [Channel.start, List.length_append]; omega, h0, hs⟩
  inside k hk := by
    have hp := h.inside k hk
    rw [Partial, buffer_start c buf k hp.lt_length]
    exact hp
  fresh := h.fresh
  wire := by
    have hd : done.map (c.start buf).block = done.map c.block := by
      apply List.map_congr_left
      intro j hj
      rw [block, buffer_start c buf j (h.finished j hj).1, block]
    rw [hd]
    refine (h.wire : (c.start buf).wire = _).trans (congrArg _ ?_)
    cases open? with
    | none => rfl
    | some k =>
      have hb : (c.start buf).block k = c.block k := by
        rw [block, buffer_start c buf k (h.inside k rfl).lt_length, block]
      rw [Option.elim, Option.elim, hb]
      rfl

private theorem take_block (c : Channel α) (k n : Nat) :
    (c.block k).take (c.sent k) ++ (((c.buffer k).drop (c.sent k)).take n).map (k, ·) =
      (c.block k).take (c.sent k + n) := by
  simp only [block, ← List.map_take, ← List.map_append]
  rw [List.take_add]

/-- An exclusive transfer continues the open buffer or begins a fresh one. -/
theorem Tidy.transfer {c : Channel α} {done : List Nat} {open? : Option Nat}
    (h : c.Tidy done open?) {k n : Nat} (hn : c.CanTransfer k n) (hx : c.Exclusive k) :
    ∃ done' open', (c.transfer k n).Tidy done' open' := by
  obtain ⟨hn0, hlen⟩ := hn
  have hk : k ∉ done := by
    intro hk
    have := (h.finished k hk).2.2
    omega
  have hklen : k < c.buffers.length := by
    by_contra hc
    have : c.buffer k = [] := by simp [buffer, List.getElem?_eq_none (Nat.le_of_not_lt hc)]
    simp only [this, List.length_nil] at hlen
    omega
  have hopen : ∀ j ∈ open?, j = k := by
    intro j hj
    by_contra hne
    exact hx j hne (h.inside j hj)
  have hfresh : ∀ j, j ∉ done → j ≠ k → c.sent j = 0 := fun j hj hne =>
    h.fresh j hj fun ho => hne (hopen j ho)
  have hwire : (c.transfer k n).wire =
      (done.map c.block).flatten ++ (c.block k).take (c.sent k + n) := by
    have hw : c.wire = (done.map c.block).flatten ++ (c.block k).take (c.sent k) := by
      cases ho : open? with
      | none =>
        have h0 : c.sent k = 0 := h.fresh k hk (by simp [ho])
        simpa [h0, ho] using h.wire
      | some j =>
        obtain rfl := hopen j ho
        simpa [ho] using h.wire
    rw [Channel.transfer, hw, List.append_assoc, take_block]
  have hother : ∀ j, j ≠ k → (c.transfer k n).sent j = c.sent j := fun j hne =>
    Function.update_of_ne hne ..
  have hself : (c.transfer k n).sent k = c.sent k + n := Function.update_self ..
  have hfin : ∀ j ∈ done, j < c.buffers.length ∧ 0 < (c.transfer k n).sent j ∧
      (c.transfer k n).sent j = (c.buffer j).length := by
    intro j hj
    rw [hother j fun he => hk (he ▸ hj)]
    exact h.finished j hj
  by_cases hall : c.sent k + n = (c.buffer k).length
  · refine ⟨done ++ [k], none, ?_, ?_, by simp, ?_, ?_⟩
    · exact List.nodup_append.mpr ⟨h.nodup, List.nodup_singleton k, by
        intro a ha b hb
        obtain rfl := List.mem_singleton.mp hb
        exact fun he => hk (he ▸ ha)⟩
    · intro j hj
      rcases List.mem_append.mp hj with hj | hj
      · exact hfin j hj
      · obtain rfl := List.mem_singleton.mp hj
        exact ⟨hklen, by omega, by rw [hself, hall]; rfl⟩
    · intro j hj _
      simp only [List.mem_append, List.mem_singleton, not_or] at hj
      rw [hother j hj.2, hfresh j hj.1 hj.2]
    · have hb : (c.block k).take (c.sent k + n) = c.block k :=
        List.take_of_length_le (by simp [block, hall])
      rw [hwire, hb]
      simp only [List.map_append, List.map_cons, List.map_nil, List.flatten_append,
        List.flatten_singleton, Option.elim, List.append_nil]
      rfl
  · refine ⟨done, some k, h.nodup, hfin, ?_, ?_, ?_⟩
    · rintro j ⟨⟩
      refine ⟨by rw [hself]; omega, ?_⟩
      rw [hself]
      change c.sent k + n < (c.buffer k).length
      omega
    · intro j hj hne
      have hne : j ≠ k := fun he => hne (he ▸ rfl)
      rw [hother j hne, hfresh j hj hne]
    · rw [hwire, Option.elim, hself]
      rfl

theorem Tidy.whole {c : Channel α} {done : List Nat} {open? : Option Nat}
    (h : c.Tidy done open?) : c.Whole := by
  refine ⟨done, h.nodup, fun j hj => (h.finished j hj).1, ?_⟩
  cases ho : open? with
  | none =>
    refine ⟨c.buffers.length, fun hk => ?_, 0, by simpa [ho] using h.wire⟩
    exact absurd (h.finished _ hk).1 (Nat.lt_irrefl _)
  | some k =>
    refine ⟨k, ?_, c.sent k, by simpa [ho] using h.wire⟩
    intro hk
    have h1 := (h.finished k hk).2.2
    have h2 := (h.inside k (by simp [ho])).2
    omega

/-! A transfer beside an open buffer spoils the wire for good. -/

/-- How many symbols of writer `j` there are on a piece of wire. -/
def moved (j : Nat) (wire : List (Nat × α)) : Nat := wire.countP fun e => e.1 = j

/-- Somewhere the wire goes on to another buffer before buffer `j` is at its end. -/
def Broken (c : Channel α) : Prop :=
  ∃ p j x k y q, c.wire = p ++ (j, x) :: (k, y) :: q ∧ j ≠ k ∧ moved j (p ++ [(j, x)]) < (c.buffer j).length

@[simp] theorem moved_append (j : Nat) (s t : List (Nat × α)) : moved j (s ++ t) = moved j s + moved j t :=
  List.countP_append

theorem moved_same {j : Nat} {s : List (Nat × α)} (h : ∀ e ∈ s, e.1 = j) : moved j s = s.length :=
  List.countP_eq_length.mpr fun e he => by simpa using h e he

theorem moved_none {j : Nat} {s : List (Nat × α)} (h : ∀ e ∈ s, e.1 ≠ j) : moved j s = 0 :=
  List.countP_eq_zero.mpr fun e he => by simpa using h e he

theorem fst_of_mem_block {c : Channel α} {k : Nat} {e : Nat × α} (h : e ∈ c.block k) : e.1 = k := by
  obtain ⟨_, -, rfl⟩ := List.mem_map.mp h
  rfl

private theorem fst_of_mem_blocks {c : Channel α} {done : List Nat} {e : Nat × α}
    (h : e ∈ (done.map c.block).flatten) : e.1 ∈ done := by
  obtain ⟨b, hb, he⟩ := List.mem_flatten.mp h
  obtain ⟨k, hk, rfl⟩ := List.mem_map.mp hb
  exact (fst_of_mem_block he).symm ▸ hk

theorem Broken.start {c : Channel α} (h : c.Broken) (buf : List α) : (c.start buf).Broken := by
  obtain ⟨p, j, x, k, y, q, hw, hne, hm⟩ := h
  refine ⟨p, j, x, k, y, q, hw, hne, ?_⟩
  rwa [buffer_start]
  by_contra hj
  have hb : c.buffer j = [] := by simp [buffer, List.getElem?_eq_none (Nat.le_of_not_lt hj)]
  rw [hb] at hm
  exact Nat.not_lt_zero _ hm

theorem Broken.transfer {c : Channel α} (h : c.Broken) (k n : Nat) : (c.transfer k n).Broken := by
  obtain ⟨p, j, x, k', y, q, hw, hne, hm⟩ := h
  refine ⟨p, j, x, k', y, q ++ (((c.buffer k).drop (c.sent k)).take n).map (k, ·), ?_, hne, hm⟩
  rw [Channel.transfer, hw, List.append_assoc, List.cons_append, List.cons_append]

/-- A transfer that is not exclusive leaves the open buffer before its end. -/
theorem Tidy.broken {c : Channel α} {done : List Nat} {open? : Option Nat} (h : c.Tidy done open?) {k n : Nat}
    (hn : c.CanTransfer k n) (hx : ¬ c.Exclusive k) : (c.transfer k n).Broken := by
  obtain ⟨j, hne, hp⟩ : ∃ j, j ≠ k ∧ c.Partial j := by
    by_contra hc
    exact hx fun j hne hp => hc ⟨j, hne, hp⟩
  have hdone : j ∉ done := fun hd => Nat.ne_of_lt hp.2 (h.finished j hd).2.2
  obtain rfl : open? = some j := by
    by_contra ho
    exact Nat.ne_of_gt hp.1 (h.fresh j hdone fun hj => ho (Option.mem_def.mp hj))
  -- the last symbol on the wire belongs to `j`, the next to `k`
  obtain ⟨p, x, hlast⟩ : ∃ p x, (c.block j).take (c.sent j) = p ++ [(j, x)] := by
    rcases List.eq_nil_or_concat ((c.block j).take (c.sent j)) with hnil | ⟨p, ⟨j', x⟩, hl⟩
    · have hlen := congrArg List.length hnil
      simp only [block, List.length_take, List.length_map, List.length_nil] at hlen
      have := hp.1
      have := hp.2
      omega
    · have hm : (j', x) ∈ (c.block j).take (c.sent j) := by simp [hl]
      obtain rfl : j' = j := fst_of_mem_block (List.mem_of_mem_take hm)
      exact ⟨p, x, by simpa using hl⟩
  obtain ⟨y, q, hnext⟩ : ∃ y q, (((c.buffer k).drop (c.sent k)).take n).map (k, ·) = (k, y) :: q := by
    cases hd : ((c.buffer k).drop (c.sent k)).take n with
    | nil =>
      have hl := congrArg List.length hd
      simp only [List.length_take, List.length_drop, List.length_nil] at hl
      have := hn.1
      have := hn.2
      omega
    | cons y q => exact ⟨y, _, rfl⟩
  refine ⟨(done.map c.block).flatten ++ p, j, x, k, y, q, ?_, hne, ?_⟩
  · rw [Channel.transfer, h.wire, hnext, Option.elim, hlast]
    simp
  · have hblocks : moved j (done.map c.block).flatten = 0 :=
      moved_none fun e he hj => hdone (hj ▸ fst_of_mem_blocks he)
    have htake : moved j (p ++ [(j, x)]) = c.sent j := by
      rw [← hlast, moved_same fun e he => fst_of_mem_block (List.mem_of_mem_take he), List.length_take, block,
        List.length_map, Nat.min_eq_left (Nat.le_of_lt hp.2)]
    rw [List.append_assoc, moved_append, hblocks, htake, Nat.zero_add]
    exact hp.2

/-- Where a wire of whole buffers goes on to another buffer, the one before is complete. -/
theorem complete_at_switch (c : Channel α) {done : List Nat} {k₀ m : Nat} (hn : done.Nodup) (hk₀ : k₀ ∉ done)
    {p q : List (Nat × α)} {j k : Nat} {x y : α} (hjk : j ≠ k)
    (h : (done.map c.block).flatten ++ (c.block k₀).take m = p ++ (j, x) :: (k, y) :: q) :
    moved j (p ++ [(j, x)]) = (c.buffer j).length := by
  induction done generalizing p with
  | nil =>
    have htag : ∀ e ∈ p ++ (j, x) :: (k, y) :: q, e.1 = k₀ := by
      rw [← h]
      exact fun e he => fst_of_mem_block (List.mem_of_mem_take (by simpa using he))
    exact absurd ((htag (j, x) (by simp)).trans (htag (k, y) (by simp)).symm) hjk
  | cons d done ih =>
    obtain ⟨hd, hn⟩ := List.nodup_cons.mp hn
    simp only [List.mem_cons, not_or] at hk₀
    rw [List.map_cons, List.flatten_cons, List.append_assoc] at h
    -- everything behind the first block has another tag
    have hrest : ∀ e ∈ (done.map c.block).flatten ++ (c.block k₀).take m, e.1 ≠ d := by
      intro e he htag
      rcases List.mem_append.mp he with he | he
      · exact hd (htag ▸ fst_of_mem_blocks he)
      · exact hk₀.1 ((fst_of_mem_block (List.mem_of_mem_take he)).symm.trans htag)
    have behind (p' : List (Nat × α)) (hp : p = c.block d ++ p')
        (hr : (done.map c.block).flatten ++ (c.block k₀).take m = p' ++ (j, x) :: (k, y) :: q) :
        moved j (p ++ [(j, x)]) = (c.buffer j).length := by
      have hj : j ≠ d := hrest (j, x) (by rw [hr]; simp)
      have h0 : moved j (c.block d) = 0 := moved_none fun e he htag => hj (htag.symm.trans (fst_of_mem_block he))
      rw [hp, List.append_assoc, moved_append, h0, Nat.zero_add]
      exact ih hn hk₀.2 hr
    rcases List.append_eq_append_iff.mp h with ⟨p', hp, hr⟩ | ⟨a, hb, hr⟩
    · exact behind p' hp hr
    · match a with
      | [] => exact behind [] (by simpa using hb.symm) (by simpa using hr.symm)
      | [e] =>
        obtain rfl : (j, x) = e := (List.cons.inj hr).1
        have htag : ∀ e ∈ p ++ [(j, x)], e.1 = d := hb ▸ fun e he => fst_of_mem_block he
        obtain rfl : j = d := htag (j, x) (by simp)
        rw [moved_same htag, ← hb]
        simp [block]
      | e :: e' :: a =>
        obtain ⟨he, hr⟩ := List.cons.inj hr
        obtain ⟨he', -⟩ := List.cons.inj hr
        subst he he'
        have htag : ∀ e ∈ p ++ (j, x) :: (k, y) :: a, e.1 = d := hb ▸ fun e he => fst_of_mem_block he
        exact absurd ((htag (j, x) (by simp)).trans (htag (k, y) (by simp)).symm) hjk

theorem Broken.not_whole {c : Channel α} (h : c.Broken) : ¬ c.Whole := by
  obtain ⟨p, j, x, k, y, q, hw, hne, hm⟩ := h
  rintro ⟨done, hn, -, k₀, hk₀, m, hwhole⟩
  rw [complete_at_switch c hn hk₀ hne (hwhole.symm.trans hw)] at hm
  exact Nat.lt_irrefl _ hm

end Channel
end LightApr.Lib.Writers
