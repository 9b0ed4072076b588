import LightApr.Core.Bytes

/-! MQTT topic-filter matching: the two-cursor walk of the broker, the level-wise
definition it is meant to compute, and exactly where the two disagree. -/
namespace LightApr.Mqtt.Topic
open LightApr.Core

def plus : UInt8 := 43
def hash : UInt8 := 35

/-- Moves a cursor behind the rest of its level and the '/' that ends it. -/
def skipLevel (s : Bytes) : Bytes := (s.dropWhile (· ≠ slash)).drop 1

private theorem skipLevel_length_le (s : Bytes) : (skipLevel s).length ≤ s.length - 1 := by
  have h := (List.dropWhile_suffix (· ≠ slash) (l := s)).length_le
  simp only [skipLevel, List.length_drop]
  omega

/-- The loop on what is left of the pattern and of the topic. -/
def walk (pattern topic : Bytes) : Bool :=
  match pattern, topic with
  | p :: pattern', t :: topic' =>
    if p = hash then true
    else if p = plus then walk (skipLevel (p :: pattern')) (skipLevel (t :: topic'))
    else if p ≠ t then false
    else walk pattern' topic'
  | p, t => (p = [] && t = []) || p = [hash]
termination_by pattern.length
decreasing_by
  · have := skipLevel_length_le (p :: pattern')
    simp only [List.length_cons] at this ⊢
    omega
  · simp

def topicMatches (pattern topic : Bytes) : Bool :=
  pattern = [hash] || pattern = topic || walk pattern topic

/-- Split at '/'. -/
def levels (s : Bytes) : List Bytes := s.splitOn slash

/-- A filter level is '+' alone or free of wildcards. -/
def FilterLevel (l : Bytes) : Prop := l = [plus] ∨ (plus ∉ l ∧ hash ∉ l)

/-- '#' stands alone and last. -/
def FilterLevels : List Bytes → Prop
  | [] => False
  | [l] => l = [hash] ∨ FilterLevel l
  | l :: ls => FilterLevel l ∧ FilterLevels ls

def ValidFilter (f : Bytes) : Prop := f ≠ [] ∧ FilterLevels (levels f)

def ValidTopic (t : Bytes) : Prop := t ≠ [] ∧ plus ∉ t ∧ hash ∉ t

instance (l : Bytes) : Decidable (FilterLevel l) := inferInstanceAs (Decidable (_ ∨ _))

instance decidableFilterLevels : (ls : List Bytes) → Decidable (FilterLevels ls)
  | [] => inferInstanceAs (Decidable False)
  | [l] => inferInstanceAs (Decidable (l = [hash] ∨ FilterLevel l))
  | l :: m :: ls =>
    have := decidableFilterLevels (m :: ls)
    inferInstanceAs (Decidable (FilterLevel l ∧ FilterLevels (m :: ls)))

instance (f : Bytes) : Decidable (ValidFilter f) := inferInstanceAs (Decidable (_ ∧ _))
instance (t : Bytes) : Decidable (ValidTopic t) := inferInstanceAs (Decidable (_ ∧ _))

/-- The MQTT definition: '+' matches one level, a final '#' the parent level and
all further ones, any other level itself. -/
def levelsMatch : List Bytes → List Bytes → Bool
  | [], [] => true
  | [], _ :: _ => false
  | f :: fs, ts =>
    if f = [hash] ∧ fs = [] then true
    else match ts with
      | [] => false
      | t :: ts => (f = [plus] || f = t) && levelsMatch fs ts

/-- The last levels of a filter and of a topic on which the walk goes wrong, the
levels before them agreeing one by one. -/
inductive Misjudged : List Bytes → List Bytes → Prop
  /-- a final '+' against a final empty level is refused -/
  | emptyLast : Misjudged [[plus]] [[]]
  /-- a final '+' swallows one extra empty level -/
  | extraEmpty (t : Bytes) : Misjudged [[plus]] [t, []]
  /-- '+' and a final empty level are satisfied by one level that is not empty -/
  | missingEmpty (t : Bytes) : t ≠ [] → Misjudged [[plus], []] [t]
  /-- '#' does not match its parent when that is '+' against an empty level -/
  | parentPlus : Misjudged [[plus], [hash]] [[]]
  /-- '#' does not match its parent when that is a literal level -/
  | parent (l : Bytes) : l ≠ [plus] → Misjudged [l, [hash]] [l]
  | step (f t : Bytes) (fs ts : List Bytes) :
      f = [plus] ∨ f = t → Misjudged fs ts → Misjudged (f :: fs) (t :: ts)

/-- Levels joined by '/', as they stand in a string. -/
abbrev join (ls : List Bytes) : Bytes := [slash].intercalate ls

private theorem join_levels (s : Bytes) : join (levels s) = s := List.intercalate_splitOn slash

private theorem slash_not_mem_levels (s : Bytes) : ∀ l ∈ levels s, slash ∉ l := by
  unfold levels
  induction s with
  | nil => simp
  | cons b s ih =>
    rw [List.splitOn_cons_eq_if_modifyHead]
    split
    · intro l hl
      rcases List.mem_cons.mp hl with rfl | hl
      · simp
      · exact ih l hl
    · rename_i hb
      obtain ⟨m, ms, hm⟩ := List.exists_cons_of_ne_nil (List.splitOn_ne_nil slash s)
      rw [hm] at ih ⊢
      intro l hl
      rcases List.mem_cons.mp hl with rfl | hl
      · have := ih m (by simp)
        simp only [List.mem_cons, not_or]
        exact ⟨fun he => hb (by simp [he]), this⟩
      · exact ih l (by simp [hl])

/-- What follows a level in a string: nothing, or a '/' and the next levels. -/
private def tailOf : List Bytes → Bytes
  | [] => []
  | l :: ls => slash :: join (l :: ls)

private theorem join_cons (l : Bytes) (ls : List Bytes) : join (l :: ls) = l ++ tailOf ls := by
  cases ls <;> simp [tailOf]

private theorem skipLevel_join {l : Bytes} (h : slash ∉ l) (ls : List Bytes) :
    skipLevel (join (l :: ls)) = join ls := by
  have hd : (l ++ tailOf ls).dropWhile (· ≠ slash) = tailOf ls := by
    have hl : ∀ b ∈ l, decide (b ≠ slash) = true := fun b hb => by
      simpa using fun he : b = slash => h (he ▸ hb)
    rw [List.dropWhile_append_of_pos hl]
    cases ls <;> simp [tailOf]
  rw [join_cons, skipLevel, hd]
  cases ls <;> simp [tailOf]

private theorem walk_nil_left (t : Bytes) : walk [] t = decide (t = []) := by
  rw [walk]
  · simp
  · simp

private theorem walk_nil_right (p : Bytes) : walk p [] = (decide (p = []) || decide (p = [hash])) := by
  rw [walk]
  · simp
  · simp

private theorem walk_hash (p t : Bytes) (ht : t ≠ []) : walk (hash :: p) t = true := by
  obtain ⟨b, t, rfl⟩ := List.exists_cons_of_ne_nil ht
  rw [walk]
  simp

private theorem walk_plus {fs : List Bytes} {t : Bytes} {ts : List Bytes} (ht : slash ∉ t)
    (hne : join (t :: ts) ≠ []) : walk (join ([plus] :: fs)) (join (t :: ts)) = walk (join fs) (join ts) := by
  have hp : skipLevel (join ([plus] :: fs)) = join fs := skipLevel_join (by decide) fs
  have hs := skipLevel_join ht ts
  obtain ⟨b, t', he⟩ := List.exists_cons_of_ne_nil hne
  rw [join_cons] at hp ⊢
  rw [he] at hs ⊢
  rw [List.singleton_append] at hp ⊢
  rw [walk, if_neg (by decide), if_pos rfl, hp, hs]

private theorem walk_slash (p t : Bytes) : walk (slash :: p) (slash :: t) = walk p t := by
  rw [walk]
  simp [slash, hash, plus]

/-- Two literal levels: equal ones are passed over, others end the walk. -/
private theorem walk_literal {f t : Bytes} (fs ts : List Bytes) (hf : slash ∉ f) (ht : slash ∉ t)
    (hp : plus ∉ f) (hh : hash ∉ f) :
    walk (f ++ tailOf fs) (t ++ tailOf ts) = (decide (f = t) && walk (tailOf fs) (tailOf ts)) := by
  induction f generalizing t with
  | nil =>
    cases t with
    | nil => simp
    | cons b t =>
      simp only [List.mem_cons, not_or] at ht
      cases fs with
      | nil => simp [tailOf, walk_nil_left]
      | cons l ls =>
        simp only [tailOf, List.nil_append, List.cons_append]
        rw [walk, if_neg (by decide), if_neg (by decide), if_pos ht.1]
        simp
  | cons a f ih =>
    simp only [List.mem_cons, not_or] at hf hp hh
    cases t with
    | nil =>
      cases ts with
      | nil => simp [tailOf, walk_nil_right, Ne.symm hh.1]
      | cons l ls =>
        simp only [tailOf, List.nil_append, List.cons_append]
        rw [walk, if_neg (Ne.symm hh.1), if_neg (Ne.symm hp.1), if_pos (Ne.symm hf.1)]
        simp
    | cons b t =>
      simp only [List.mem_cons, not_or] at ht
      simp only [List.cons_append]
      rw [walk, if_neg (Ne.symm hh.1), if_neg (Ne.symm hp.1)]
      by_cases hab : a = b
      · rw [if_neg (by simpa using hab), ih hf.2 ht.2 hp.2 hh.2]
        simp [hab]
      · rw [if_pos hab]
        simp [hab]

private theorem not_misjudged_nil (fs : List Bytes) : ¬ Misjudged fs [] := nofun
private theorem not_misjudged_of_nil (ts : List Bytes) : ¬ Misjudged [] ts := nofun

private theorem join_eq_nil {ls : List Bytes} (h : join ls = []) : ls = [] ∨ ls = [[]] := by
  match ls with
  | [] => exact .inl rfl
  | [l] => exact .inr (by simpa using h)
  | l :: m :: ls => simp at h

private theorem FilterLevels.tail {f g : Bytes} {fs : List Bytes} (h : FilterLevels (f :: g :: fs)) :
    FilterLevels (g :: fs) := h.2

private theorem filterLevels_hash {fs : List Bytes} (h : FilterLevels ([hash] :: fs)) : fs = [] := by
  cases fs with
  | nil => rfl
  | cons g fs =>
    rcases h.1 with h | h
    · exact absurd h (by decide)
    · exact absurd (List.mem_singleton.mpr rfl) h.2

private theorem levelsMatch_cons {f t : Bytes} (fs ts : List Bytes) (hh : f ≠ [hash])
    (h : f = [plus] ∨ f = t) : levelsMatch (f :: fs) (t :: ts) = levelsMatch fs ts := by
  rcases h with rfl | rfl <;> simp [levelsMatch, hh]

/-- Both cursors stand behind a whole level and both strings go on. -/
private theorem misjudged_cons {f t g u : Bytes} {fs ts : List Bytes} (h : f = [plus] ∨ f = t) :
    Misjudged (f :: g :: fs) (t :: u :: ts) ↔ Misjudged (g :: fs) (u :: ts) := by
  refine ⟨fun hm => ?_, .step f t _ _ h⟩
  cases hm with
  | step _ _ _ _ _ hm => exact hm

private theorem misjudged_ne {f t : Bytes} {fs ts : List Bytes} (hp : f ≠ [plus]) (h : f ≠ t) :
    ¬ Misjudged (f :: fs) (t :: ts) := by
  intro hm
  cases hm with
  | parent => exact h rfl
  | step _ _ _ _ he _ => exact he.elim hp h
  | _ => exact hp rfl

/-- What holds of the strings from the start of a level on. -/
private def Judged (fs ts : List Bytes) : Prop :=
  walk (join fs) (join ts) = levelsMatch fs ts ↔ ¬ Misjudged fs ts

/-- '+' against the empty level that ends the topic: the walk always refuses. -/
private theorem judged_plus_end (fs : List Bytes) : Judged ([plus] :: fs) [[]] := by
  have hw : walk (join ([plus] :: fs)) (join [[]]) = false := by
    rw [join_cons]
    simp [walk_nil_right, plus, hash]
  rw [Judged, hw]
  match fs with
  | [] => exact iff_of_false (by decide) (not_not.mpr .emptyLast)
  | [g] =>
    by_cases hg : g = [hash]
    · subst hg
      exact iff_of_false (by decide) (not_not.mpr .parentPlus)
    · refine iff_of_true (by simp [levelsMatch, hg]) fun hm => ?_
      cases hm with
      | missingEmpty _ h => exact h rfl
      | parentPlus => exact hg rfl
      | step _ _ _ _ _ hm => exact not_misjudged_nil _ hm
  | g :: g' :: fs =>
    refine iff_of_true (by simp [levelsMatch, plus, hash]) fun hm => ?_
    cases hm with
    | step _ _ _ _ _ hm => exact not_misjudged_nil _ hm

/-- '+' last: the walk skips one level, and an empty level behind it as well. -/
private theorem judged_plus_last {t : Bytes} {ts : List Bytes} (ht : slash ∉ t)
    (hne : join (t :: ts) ≠ []) : Judged [[plus]] (t :: ts) := by
  have hw : walk (join [[plus]]) (join (t :: ts)) = decide (join ts = []) := by
    rw [walk_plus ht hne]
    exact walk_nil_left _
  rw [Judged, hw]
  match ts with
  | [] =>
    refine iff_of_true (by simp [levelsMatch, plus, hash]) fun hm => ?_
    cases hm with
    | emptyLast => exact hne rfl
    | step _ _ _ _ _ hm => exact not_misjudged_nil _ hm
  | [[]] => exact iff_of_false (by simp [levelsMatch, plus, hash]) (not_not.mpr (.extraEmpty t))
  | [b :: u] =>
    refine iff_of_true (by simp [levelsMatch, plus, hash]) fun hm => ?_
    cases hm with
    | step _ _ _ _ _ hm => exact not_misjudged_of_nil _ hm
  | u :: v :: ts =>
    refine iff_of_true (by simp [levelsMatch, plus, hash]) fun hm => ?_
    cases hm with
    | step _ _ _ _ _ hm => exact not_misjudged_of_nil _ hm

/-- '+' against the level that ends the topic, the filter going on. -/
private theorem judged_plus_more {t : Bytes} (g : Bytes) (fs : List Bytes) (ht : slash ∉ t)
    (hne : t ≠ []) : Judged ([plus] :: g :: fs) [t] := by
  have hw : walk (join ([plus] :: g :: fs)) (join [t]) =
      (decide (join (g :: fs) = []) || decide (join (g :: fs) = [hash])) := by
    rw [walk_plus ht (by simpa using hne)]
    exact walk_nil_right _
  rw [Judged, hw]
  match fs with
  | [] =>
    by_cases hg : g = []
    · subst hg
      exact iff_of_false (by simp [levelsMatch, plus, hash]) (not_not.mpr (.missingEmpty t hne))
    · refine iff_of_true ?_ fun hm => ?_
      · by_cases hh : g = [hash] <;> simp [levelsMatch, hg, hh]
      · cases hm with
        | missingEmpty => exact hg rfl
        | parentPlus => exact hne rfl
        | parent _ h => exact h rfl
        | step _ _ _ _ _ hm => exact not_misjudged_nil _ hm
  | g' :: fs =>
    refine iff_of_true ?_ fun hm => ?_
    · have hj : join (g :: g' :: fs) = g ++ slash :: join (g' :: fs) := join_cons _ _
      have h1 : join (g :: g' :: fs) ≠ [hash] := by
        rw [hj]
        cases g <;> simp [slash, hash]
      simp only [h1, decide_false, Bool.or_false]
      simp [levelsMatch, plus, hash]
    · cases hm with
      | step _ _ _ _ _ hm => exact not_misjudged_nil _ hm

/-- The walk and the level-wise definition, from the start of a level on. The
induction is on the filter's levels; both strings lose one level at a time. -/
private theorem judged (fs : List Bytes) (hf : FilterLevels fs) (hfs : ∀ l ∈ fs, slash ∉ l)
    (ts : List Bytes) (hts : ts ≠ []) (ht : ∀ l ∈ ts, slash ∉ l) : Judged fs ts := by
  induction fs generalizing ts with
  | nil => exact hf.elim
  | cons f fs ih =>
    obtain ⟨t, ts, rfl⟩ := List.exists_cons_of_ne_nil hts
    have hts' : slash ∉ t := ht t (by simp)
    have hnext : ∀ g fs' u ts', fs = g :: fs' → ts = u :: ts' → Judged (g :: fs') (u :: ts') := by
      rintro g fs' u ts' rfl rfl
      exact ih hf.tail (fun l hl => hfs l (by simp [hl])) (u :: ts') (by simp)
        fun l hl => ht l (by simp [hl])
    by_cases hh : f = [hash]
    · subst hh
      obtain rfl := filterLevels_hash hf
      have hm : ¬ Misjudged [[hash]] (t :: ts) := by
        intro hm
        cases hm with
        | step _ _ _ _ _ hm => exact not_misjudged_of_nil _ hm
      refine iff_of_true ?_ hm
      by_cases hj : join (t :: ts) = []
      · simp [hj, walk_nil_right, levelsMatch]
      · simp [walk_hash [] _ hj, levelsMatch]
    by_cases hp : f = [plus]
    · subst hp
      by_cases hj : join (t :: ts) = []
      · obtain ⟨rfl, rfl⟩ : t = [] ∧ ts = [] := by simpa using join_eq_nil hj
        exact judged_plus_end fs
      · cases fs with
        | nil => exact judged_plus_last hts' hj
        | cons g fs =>
          cases ts with
          | nil => exact judged_plus_more g fs hts' (by simpa using hj)
          | cons u ts =>
            rw [Judged, walk_plus hts' hj, misjudged_cons (.inl rfl),
              levelsMatch_cons _ _ (by decide) (.inl rfl)]
            exact hnext g fs u ts rfl rfl
    · have hl : plus ∉ f ∧ hash ∉ f := by
        cases fs with
        | nil => exact (hf.resolve_left hh).resolve_left hp
        | cons g fs => exact hf.1.resolve_left hp
      have hw := walk_literal fs ts (hfs f (by simp)) hts' hl.1 hl.2
      rw [← join_cons, ← join_cons] at hw
      by_cases hft : f = t
      · subst hft
        rw [Judged, hw]
        match fs, ts, hnext with
        | [], [], _ =>
          refine iff_of_true (by simp [tailOf, walk_nil_left, levelsMatch]) fun hm => ?_
          cases hm with
          | step _ _ _ _ _ hm => exact not_misjudged_nil _ hm
        | [], u :: ts, _ =>
          refine iff_of_true (by simp [tailOf, walk_nil_left, levelsMatch, hh]) fun hm => ?_
          cases hm with
          | extraEmpty => exact hp rfl
          | step _ _ _ _ _ hm => exact not_misjudged_of_nil _ hm
        | g :: fs, [], _ =>
          have hs : ∀ s : Bytes, slash :: s ≠ [hash] := fun s => by simp [slash, hash]
          by_cases hg : g = [hash] ∧ fs = []
          · obtain ⟨rfl, rfl⟩ := hg
            refine iff_of_false ?_ (not_not.mpr (.parent f hp))
            simp [tailOf, walk_nil_right, levelsMatch, hs]
          · refine iff_of_true (by simp [tailOf, walk_nil_right, levelsMatch, hs, hg]) fun hm => ?_
            cases hm with
            | missingEmpty => exact hp rfl
            | parent => exact hg ⟨rfl, rfl⟩
            | step _ _ _ _ _ hm => exact not_misjudged_nil _ hm
        | g :: fs, u :: ts, hnext =>
          rw [misjudged_cons (.inr rfl), tailOf, tailOf, walk_slash,
            levelsMatch_cons _ _ hh (.inr rfl), decide_eq_true rfl, Bool.true_and]
          exact hnext g fs u ts rfl rfl
      · refine iff_of_true ?_ (misjudged_ne hp hft)
        rw [hw]
        simp [levelsMatch, hft, hp, hh]

private theorem levels_ne_nil (s : Bytes) : levels s ≠ [] := List.splitOn_ne_nil slash s

private theorem mem_of_mem_levels {s l : Bytes} {b : UInt8} (hl : l ∈ levels s) (hb : b ∈ l) : b ∈ s := by
  induction s generalizing l with
  | nil =>
    obtain rfl : l = [] := by simpa [levels] using hl
    exact nomatch hb
  | cons c s ih =>
    obtain ⟨m, ms, hm⟩ := List.exists_cons_of_ne_nil (levels_ne_nil s)
    rw [levels, List.splitOn_cons_eq_if_modifyHead] at hl
    rw [hm] at ih
    split at hl
    · rcases List.mem_cons.mp hl with rfl | hl
      · exact nomatch hb
      · exact List.mem_cons_of_mem _ (ih (hm ▸ hl) hb)
    · rw [show List.splitOn slash s = m :: ms from hm] at hl
      rcases List.mem_cons.mp hl with rfl | hl
      · rcases List.mem_cons.mp hb with rfl | hb
        · simp
        · exact List.mem_cons_of_mem _ (ih (by simp) hb)
      · exact List.mem_cons_of_mem _ (ih (by simp [hl]) hb)

/-- Without wildcards a filter matches itself and nothing goes wrong. -/
private theorem literal_self (ls : List Bytes) (hp : ∀ l ∈ ls, plus ∉ l) (hh : ∀ l ∈ ls, hash ∉ l) :
    levelsMatch ls ls = true ∧ ¬ Misjudged ls ls := by
  induction ls with
  | nil => exact ⟨rfl, nofun⟩
  | cons l ls ih =>
    obtain ⟨hm, hj⟩ := ih (fun m hm => hp m (by simp [hm])) fun m hm => hh m (by simp [hm])
    refine ⟨by simp [levelsMatch, hm], fun h => ?_⟩
    cases h with
    | step _ _ _ _ _ h => exact hj h

/-- For every valid filter and topic the matcher computes the MQTT definition
unless the last levels are of one of the five kinds it misjudges. -/
theorem topicMatches_eq_levelsMatch_iff (f t : Bytes) (hf : ValidFilter f) (ht : ValidTopic t) :
    topicMatches f t = levelsMatch (levels f) (levels t) ↔ ¬ Misjudged (levels f) (levels t) := by
  by_cases hh : f = [hash]
  · subst hh
    have hl : levels [hash] = [[hash]] := by decide
    refine iff_of_true ?_ ?_
    · rw [hl, topicMatches, levelsMatch.eq_def]
      simp
    · obtain ⟨u, us, hu⟩ := List.exists_cons_of_ne_nil (levels_ne_nil t)
      rw [hl, hu]
      intro hm
      cases hm with
      | step _ _ _ _ _ hm => exact not_misjudged_of_nil _ hm
  by_cases he : f = t
  · subst he
    obtain ⟨hm, hj⟩ := literal_self (levels f) (fun l hl hb => ht.2.1 (mem_of_mem_levels hl hb))
      fun l hl hb => ht.2.2 (mem_of_mem_levels hl hb)
    exact iff_of_true (by simp [topicMatches, hm]) hj
  have hj := judged (levels f) hf.2 (slash_not_mem_levels f) (levels t) (levels_ne_nil t)
    (slash_not_mem_levels t)
  rw [Judged, join_levels, join_levels] at hj
  simpa [topicMatches, hh, he] using hj

/-! A filter that ends with a single-level wildcard. -/

/-- A literal prefix that pattern and topic share is passed over. -/
theorem walk_common {l : Bytes} (hp : plus ∉ l) (hh : hash ∉ l) (p t : Bytes) :
    walk (l ++ p) (l ++ t) = walk p t := by
  induction l with
  | nil => rfl
  | cons b l ih =>
    simp only [List.mem_cons, not_or] at hp hh
    rw [List.cons_append, List.cons_append, walk, if_neg (Ne.symm hh.1), if_neg (Ne.symm hp.1), if_neg (by simp),
      ih hp.2 hh.2]

/-- What the wildcard can take up: something, in which a '/' can only come last. -/
def OneLevel (s : Bytes) : Prop := s ≠ [] ∧ slash ∉ s.dropLast

instance (s : Bytes) : Decidable (OneLevel s) := inferInstanceAs (Decidable (_ ∧ _))

theorem skipLevel_eq_nil (s : Bytes) : skipLevel s = [] ↔ slash ∉ s.dropLast := by
  induction s with
  | nil => simp [skipLevel]
  | cons b s ih =>
    by_cases hb : b = slash
    · subst hb
      cases s with
      | nil => simp [skipLevel]
      | cons c s => simp [skipLevel]
    · have hstep : skipLevel (b :: s) = skipLevel s := by simp [skipLevel, hb]
      rw [hstep, ih]
      cases s with
      | nil => simp
      | cons c s => simp [Ne.symm hb]

theorem walk_plus_last (t : Bytes) : walk [plus] t = true ↔ OneLevel t := by
  cases t with
  | nil => simp [walk_nil_right, OneLevel, plus, hash]
  | cons b t =>
    rw [walk, if_neg (by decide), if_pos rfl]
    have hnil : skipLevel [plus] = [] := by decide
    rw [hnil, walk_nil_left, decide_eq_true_iff, skipLevel_eq_nil]
    simp [OneLevel]

/-- The filter of all topics one level below `l`. -/
theorem topicMatches_plus_last {l : Bytes} (hp : plus ∉ l) (hh : hash ∉ l) (t : Bytes) :
    topicMatches (l ++ [plus]) (l ++ t) = true ↔ OneLevel t := by
  have hne : l ++ [plus] ≠ [hash] := by
    intro he
    have hmem : plus ∈ [hash] := he ▸ List.mem_append_right l (List.mem_singleton_self plus)
    exact absurd hmem (by decide)
  rw [topicMatches, walk_common hp hh, Bool.or_eq_true, Bool.or_eq_true, walk_plus_last]
  simp only [hne, decide_false, Bool.false_eq_true, false_or, decide_eq_true_eq, List.append_cancel_left_eq]
  refine ⟨fun h => h.elim (fun h => ?_) id, .inr⟩
  rw [← h]
  decide

/-- The filter every subscriber of one application channel uses, on a topic of it. -/
theorem topicMatches_sport_plus :
    topicMatches (ascii "sport/+/score") (ascii "sport/golf/score") =
      levelsMatch (levels (ascii "sport/+/score")) (levels (ascii "sport/golf/score")) :=
  (topicMatches_eq_levelsMatch_iff _ _ (by decide) (by decide)).mpr (by
    have hf : levels (ascii "sport/+/score") = [ascii "sport", [plus], ascii "score"] := by decide
    have ht : levels (ascii "sport/golf/score") = [ascii "sport", ascii "golf", ascii "score"] := by decide
    rw [hf, ht]
    intro hm
    cases hm with
    | step _ _ _ _ _ hm =>
      cases hm with
      | step _ _ _ _ _ hm =>
        cases hm with
        | step _ _ _ _ _ hm => exact not_misjudged_nil _ hm)

/-- "sport/#" has to match its parent level "sport", and the matcher refuses it. -/
theorem topicMatches_refuses_parent :
    ValidFilter (ascii "sport/#") ∧ ValidTopic (ascii "sport") ∧
      levelsMatch (levels (ascii "sport/#")) (levels (ascii "sport")) = true ∧
      topicMatches (ascii "sport/#") (ascii "sport") = false := by
  decide +kernel

end LightApr.Mqtt.Topic
