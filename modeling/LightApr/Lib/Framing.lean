import Mathlib.Data.List.Infix
import Mathlib.Data.List.TakeDrop

/-! Stream framing over an arbitrary alphabet. A framer looks at the front of a
buffer and either cuts off one frame or asks for more input. When a decision
once made is never revised by further input, the frames of a stream do not
depend on how the stream is divided into reads. -/
namespace LightApr.Lib.Framing
variable {α : Type*}

/-- `cut s = some n`: the first `n` symbols of `s` are one complete frame. -/
structure Framer (α : Type*) where
  cut : List α → Option Nat
  within : ∀ {s n}, cut s = some n → n ≤ s.length
  stable : ∀ {s n} (t), cut s = some n → cut (s ++ t) = some n

namespace Framer
variable (F : Framer α)

/-- `F.Peels s fs r`: cutting frames off the front of `s` yields `fs` and leaves `r`. -/
inductive Peels : List α → List (List α) → List α → Prop
  | done (s : List α) : Peels s [] s
  | next {s r : List α} {n : Nat} {fs : List (List α)} :
      F.cut s = some n → Peels (s.drop n) fs r → Peels s (s.take n :: fs) r

/-- The first `k` frames of a stream, or all of them when there are fewer. -/
def frames : Nat → List α → List (List α)
  | 0, _ => []
  | k + 1, s =>
    match F.cut s with
    | none => []
    | some n => s.take n :: frames k (s.drop n)

/-- No complete frame is left in the buffer. -/
def Stuck (s : List α) : Prop := F.cut s = none

instance (s : List α) : Decidable (F.Stuck s) := inferInstanceAs (Decidable (_ = _))

variable {F}

theorem Peels.flatten {s r : List α} {fs : List (List α)} (h : F.Peels s fs r) :
    s = fs.flatten ++ r := by
  induction h with
  | done s => rfl
  | next hc _ ih => rw [List.flatten_cons, List.append_assoc, ← ih, List.take_append_drop]

/-- More input only lengthens what is left over. -/
theorem Peels.extend {s r : List α} {fs : List (List α)} (t : List α) (h : F.Peels s fs r) :
    F.Peels (s ++ t) fs (r ++ t) := by
  induction h with
  | done s => exact .done _
  | @next s r n fs hc _ ih =>
    have hn := F.within hc
    rw [← List.drop_append_of_le_length hn] at ih
    rw [← show (s ++ t).take n = s.take n from List.take_append_of_le_length hn]
    exact .next (F.stable t hc) ih

theorem Peels.trans {s r q : List α} {fs gs : List (List α)} (h : F.Peels s fs r)
    (h' : F.Peels r gs q) : F.Peels s (fs ++ gs) q := by
  induction h with
  | done s => exact h'
  | next hc _ ih => exact .next hc (ih h')

/-- Reads accumulate: what a buffer held before a read, then what the read completes. -/
theorem Peels.feed {s r t q : List α} {fs gs : List (List α)} (h : F.Peels s fs r)
    (h' : F.Peels (r ++ t) gs q) : F.Peels (s ++ t) (fs ++ gs) q :=
  (h.extend t).trans h'

theorem Peels.eq_frames {s r : List α} {fs : List (List α)} (h : F.Peels s fs r) :
    fs = F.frames fs.length s := by
  induction h with
  | done s => rfl
  | next hc _ ih =>
    simp only [List.length_cons, frames, hc]
    rw [← ih]

theorem frames_mono (j k : Nat) (s : List α) (h : j ≤ k) : F.frames j s <+: F.frames k s := by
  induction j generalizing k s with
  | zero => exact List.nil_prefix
  | succ j ih =>
    obtain ⟨k, rfl⟩ : ∃ m, k = m + 1 := ⟨k - 1, by omega⟩
    cases hc : F.cut s with
    | none => simp [frames, hc]
    | some n =>
      simp only [frames, hc]
      exact List.cons_prefix_cons.mpr ⟨rfl, ih k _ (by omega)⟩

/-- Two ways of cutting one stream agree as far as both go. -/
theorem Peels.comparable {s r q : List α} {fs gs : List (List α)} (h : F.Peels s fs r)
    (h' : F.Peels s gs q) (hl : fs.length ≤ gs.length) : fs <+: gs := by
  rw [h.eq_frames, h'.eq_frames]
  exact frames_mono _ _ s hl

theorem Peels.rest_eq {s r q : List α} {fs : List (List α)} (h : F.Peels s fs r) (h' : F.Peels s fs q) : r = q :=
  List.append_cancel_left (h.flatten.symm.trans h'.flatten)

/-- A complete cutting is the longest one. -/
theorem Peels.le_stuck {s r q : List α} {fs gs : List (List α)} (h : F.Peels s fs r)
    (h' : F.Peels s gs q) (hq : F.Stuck q) : fs <+: gs := by
  induction h generalizing gs with
  | done s => exact List.nil_prefix
  | next hc _ ih =>
    cases h' with
    | done => exact absurd hc (by simp [Stuck] at hq; simp [hq])
    | next hc' t' =>
      obtain rfl := Option.some.inj (hc.symm.trans hc')
      exact List.cons_prefix_cons.mpr ⟨rfl, ih t'⟩

theorem Peels.unique {s r q : List α} {fs gs : List (List α)} (h : F.Peels s fs r)
    (h' : F.Peels s gs q) (hr : F.Stuck r) (hq : F.Stuck q) : fs = gs ∧ r = q := by
  have he : fs = gs := (h.le_stuck h' hq).eq_of_length_le (h'.le_stuck h hr).length_le
  subst he
  exact ⟨rfl, h.rest_eq h'⟩

/-- A complete cutting is what the framer finds, if it may look for that many frames. -/
theorem Peels.frames_eq {s r : List α} {fs : List (List α)} (h : F.Peels s fs r) (hr : F.Stuck r) {k : Nat}
    (hk : fs.length ≤ k) : F.frames k s = fs := by
  induction h generalizing k with
  | done s =>
    cases k with
    | zero => rfl
    | succ k =>
      rw [Stuck] at hr
      simp only [frames, hr]
  | next hc _ ih =>
    obtain ⟨k, rfl⟩ : ∃ m, k = m + 1 := ⟨k - 1, by rw [List.length_cons] at hk; omega⟩
    simp only [frames, hc]
    rw [ih hr (by simpa using hk)]

/-- A framer that never cuts off an empty frame exhausts every buffer. -/
theorem exists_peels_stuck (hpos : ∀ {s n}, F.cut s = some n → 0 < n) (s : List α) :
    ∃ fs r, F.Peels s fs r ∧ F.Stuck r := by
  generalize hl : s.length = l
  induction l using Nat.strong_induction_on generalizing s with
  | _ l ih =>
    cases hc : F.cut s with
    | none => exact ⟨[], s, .done s, hc⟩
    | some n =>
      have hn := hpos hc
      have hle := F.within hc
      obtain ⟨fs, r, hp, hr⟩ := ih (s.drop n).length (by rw [List.length_drop]; omega) _ rfl
      exact ⟨_, r, .next hc hp, hr⟩

/-- A word the framer recognises whatever follows it. -/
def Word (F : Framer α) (w : List α) : Prop := F.cut w = some w.length

theorem Word.cut_append {w : List α} (h : F.Word w) (t : List α) :
    F.cut (w ++ t) = some w.length := F.stable t h

/-- A stream of words peels into those words. -/
theorem peels_words (ws : List (List α)) (t : List α) (h : ∀ w ∈ ws, F.Word w) :
    F.Peels (ws.flatten ++ t) ws t := by
  induction ws with
  | nil => exact .done t
  | cons w ws ih =>
    have hc : F.cut ((w :: ws).flatten ++ t) = some w.length := by
      rw [List.flatten_cons, List.append_assoc]
      exact (h w (by simp)).cut_append _
    have hrest : F.Peels (((w :: ws).flatten ++ t).drop w.length) ws t := by
      simpa [List.append_assoc] using ih fun v hv => h v (by simp [hv])
    simpa [List.append_assoc] using Peels.next hc hrest

/-- What has arrived of a stream of words: some of them, and the beginning of the next. -/
theorem exists_words (hnil : F.Stuck []) {ws : List (List α)} (h : ∀ w ∈ ws, F.Word w) {part : List α}
    (hp : part <+: ws.flatten) : ∃ done pending rest, ws = done ++ pending ∧ part = done.flatten ++ rest ∧
      F.Stuck rest ∧ ∀ w ∈ pending.head?, ¬ w <+: rest := by
  induction ws generalizing part with
  | nil =>
    obtain rfl := List.prefix_nil.mp hp
    exact ⟨[], [], [], rfl, rfl, hnil, nofun⟩
  | cons w ws ih =>
    by_cases hw : w <+: part
    · obtain ⟨part, rfl⟩ := hw
      rw [List.flatten_cons, List.prefix_append_right_inj] at hp
      obtain ⟨done, pending, rest, rfl, rfl, hstuck, hnext⟩ := ih (fun v hv => h v (List.mem_cons_of_mem _ hv)) hp
      exact ⟨w :: done, pending, rest, rfl, (List.append_assoc ..).symm, hstuck, hnext⟩
    · refine ⟨[], w :: ws, part, rfl, rfl, ?_, fun v hv => Option.some.inj hv ▸ hw⟩
      cases hc : F.cut part with
      | none => exact hc
      | some n =>
        -- a frame of the part would be the word
        obtain ⟨t, ht⟩ := hp
        have hcut := F.stable t hc
        rw [ht, List.flatten_cons, (h w List.mem_cons_self).cut_append] at hcut
        obtain rfl := Option.some.inj hcut
        rw [List.flatten_cons] at ht
        exact absurd (List.prefix_of_prefix_length_le (List.prefix_append ..) ⟨t, ht⟩ (F.within hc)) hw

end Framer
/-! Streams made of known pieces. -/

section
variable [DecidableEq α]

/-- The pieces of a known sequence that have arrived completely. -/
def complete : List (List α) → List α → List (List α)
  | [], _ => []
  | p :: pieces, s => if p <+: s then p :: complete pieces (s.drop p.length) else []

theorem complete_isPrefix (pieces : List (List α)) (s : List α) : complete pieces s <+: pieces := by
  induction pieces generalizing s with
  | nil => exact List.prefix_rfl
  | cons p pieces ih =>
    rw [complete]
    split
    · exact List.prefix_cons_inj p |>.mpr (ih _)
    · exact List.nil_prefix

/-- After whole pieces exactly these have arrived. -/
theorem complete_flatten {pieces reads : List (List α)} (hne : ∀ p ∈ pieces, p ≠ []) (h : reads <+: pieces) :
    complete pieces reads.flatten = reads := by
  induction pieces generalizing reads with
  | nil => rw [List.prefix_nil.mp h, complete]
  | cons p pieces ih =>
    rw [complete]
    cases reads with
    | nil => exact if_neg fun hp => hne p (by simp) (List.prefix_nil.mp hp)
    | cons r reads =>
      obtain ⟨rfl, hrest⟩ := List.cons_prefix_cons.mp h
      rw [List.flatten_cons, if_pos (List.prefix_append _ _), List.drop_left,
        ih (fun p hp => hne p (List.mem_cons_of_mem _ hp)) hrest]

/-- Reads are the complete pieces of what they bring exactly if they are pieces. -/
theorem eq_complete_iff {pieces reads : List (List α)} (hne : ∀ p ∈ pieces, p ≠ []) :
    reads = complete pieces reads.flatten ↔ reads <+: pieces :=
  ⟨fun h => h ▸ complete_isPrefix pieces _, fun h => (complete_flatten hne h).symm⟩

/-- Some of what has arrived was taken for pieces. It is the complete pieces exactly if it
begins the sequence, and the rest is too short for the piece that comes next. -/
theorem taken_eq_complete_iff {pieces taken : List (List α)} {s : List α} (hs : s <+: pieces.flatten)
    (hle : taken.flatten.length ≤ s.length) : taken = complete pieces s ↔ taken <+: pieces ∧
      ∀ p, pieces[taken.length]? = some p → s.length < taken.flatten.length + p.length := by
  induction pieces generalizing taken s with
  | nil =>
    rw [complete, List.prefix_nil]
    simp
  | cons p pieces ih =>
    rw [complete]
    have hp : p <+: s ↔ p.length ≤ s.length :=
      ⟨List.IsPrefix.length_le, fun h => List.prefix_of_prefix_length_le (List.prefix_append _ _) hs h⟩
    cases taken with
    | nil =>
      have hnext : (∀ q, (p :: pieces)[0]? = some q → s.length < ([] : List α).length + q.length) ↔
          s.length < p.length := by simp
      rw [List.length_nil, List.flatten_nil, hnext]
      split
      · rename_i hfull
        have hlong := hp.mp hfull
        exact ⟨fun h => (by cases h), fun h => by omega⟩
      · rename_i hpart
        exact ⟨fun _ => ⟨List.nil_prefix, by rw [hp] at hpart; omega⟩, fun _ => rfl⟩
    | cons t taken =>
      rw [List.flatten_cons, List.length_append] at hle
      have hcons : t = p → p <+: s := by
        rintro rfl
        exact hp.mpr (by omega)
      rw [List.cons_prefix_cons, List.length_cons, List.getElem?_cons_succ, List.flatten_cons, List.length_append]
      by_cases hfull : p <+: s
      · rw [if_pos hfull, List.cons_eq_cons]
        obtain ⟨rest, rfl⟩ := hfull
        rw [List.drop_left, List.length_append]
        rw [List.flatten_cons, List.prefix_append_right_inj] at hs
        rw [List.length_append] at hle
        constructor
        · rintro ⟨rfl, h⟩
          obtain ⟨hpre, hnext⟩ := (ih hs (by omega)).mp h
          exact ⟨⟨rfl, hpre⟩, fun q hq => by have := hnext q hq; omega⟩
        · rintro ⟨⟨rfl, hpre⟩, hnext⟩
          exact ⟨rfl, (ih hs (by omega)).mpr ⟨hpre, fun q hq => by have := hnext q hq; omega⟩⟩
      · rw [if_neg hfull]
        exact ⟨fun h => (by cases h), fun h => absurd (hcons h.1.1) hfull⟩

end

end LightApr.Lib.Framing
