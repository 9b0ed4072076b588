import Mathlib.Logic.Function.Basic
import Mathlib.Data.List.Induction
import Mathlib.Data.List.Perm.Basic

/-! A log of changes to a keyed store, replayed over a snapshot that was taken
somewhere along the same log. A change replaces a value, deletes it, or touches a
value that is there; touching twice is touching once. -/
namespace LightApr.Lib.Replay
variable {κ ν : Type*} [DecidableEq κ]

inductive Change (ν : Type*) where
  | put (v : ν)
  | touch
  | delete

def Change.apply (g : ν → ν) : Change ν → Option ν → Option ν
  | put v, _ => some v
  | touch, old => old.map g
  | delete, _ => none

/-- One entry of the log. -/
def applyAt (g : ν → ν) (m : κ → Option ν) (e : κ × Change ν) : κ → Option ν :=
  Function.update m e.1 (e.2.apply g (m e.1))

def replay (g : ν → ν) (log : List (κ × Change ν)) (m : κ → Option ν) : κ → Option ν :=
  log.foldl (applyAt g) m

variable {g : ν → ν}

theorem replay_append (l l' : List (κ × Change ν)) (m : κ → Option ν) :
    replay g (l ++ l') m = replay g l' (replay g l m) :=
  List.foldl_append

/-- What a log leaves at a key depends on what was there. -/
theorem replay_congr (log : List (κ × Change ν)) {m n : κ → Option ν} {k : κ} (h : m k = n k) :
    replay g log m k = replay g log n k := by
  induction log generalizing m n with
  | nil => exact h
  | cons e log ih =>
    refine ih ?_
    by_cases hk : k = e.1
    · subst hk
      rw [applyAt, applyAt, Function.update_self, Function.update_self, h]
    · rw [applyAt, applyAt, Function.update_of_ne hk, Function.update_of_ne hk, h]

/-- What a log leaves at a key depends on the entries about it alone. -/
theorem replay_at (g : ν → ν) (log : List (κ × Change ν)) (m : κ → Option ν) (k : κ) :
    replay g log m k = replay g (log.filter fun c => c.1 = k) m k := by
  induction log using List.reverseRecOn with
  | nil => rfl
  | append_singleton log e ih =>
    rw [List.filter_append, replay_append, replay_append]
    by_cases hk : e.1 = k
    · subst hk
      simp only [decide_true, List.filter_cons_of_pos, List.filter_nil]
      simp only [replay, List.foldl_cons, List.foldl_nil, applyAt, Function.update_self] at ih ⊢
      rw [ih]
    · have hne : ∀ m, replay g [e] m k = m k := fun m => Function.update_of_ne (fun h => hk h.symm) ..
      simp only [hk, decide_false, hne, ih, Bool.false_eq_true, not_false_eq_true, List.filter_cons_of_neg,
        List.filter_nil]
      rfl

/-- At one key a log overwrites, touches, or does nothing. -/
private theorem replay_cases (hg : ∀ v, g (g v) = g v) (log : List (κ × Change ν)) (k : κ) :
    (∃ c, ∀ m, replay g log m k = c) ∨ (∀ m, replay g log m k = (m k).map g) ∨
      ∀ m, replay g log m k = m k := by
  induction log using List.reverseRecOn with
  | nil => exact .inr (.inr fun _ => rfl)
  | append_singleton log e ih =>
    obtain ⟨k', c⟩ := e
    simp only [replay_append]
    by_cases hk : k = k'
    · subst hk
      have hself : ∀ m, replay g [(k, c)] m k = c.apply g (m k) := fun m => Function.update_self ..
      simp only [hself]
      cases c with
      | put v => exact .inl ⟨some v, fun _ => rfl⟩
      | delete => exact .inl ⟨none, fun _ => rfl⟩
      | touch =>
        rcases ih with ⟨c, hc⟩ | ht | hn
        · exact .inl ⟨c.map g, fun m => by rw [hc]; rfl⟩
        · refine .inr (.inl fun m => ?_)
          rw [ht]
          cases m k with
          | none => rfl
          | some v => simp [Change.apply, hg]
        · exact .inr (.inl fun m => by rw [hn]; rfl)
    · have hne : ∀ m, replay g [(k', c)] m k = m k := fun m => Function.update_of_ne hk ..
      simpa only [hne] using ih

theorem replay_idem (hg : ∀ v, g (g v) = g v) (log : List (κ × Change ν)) (m : κ → Option ν) :
    replay g log (replay g log m) = replay g log m := by
  funext k
  rcases replay_cases hg log k with ⟨c, hc⟩ | ht | hn
  · rw [hc, hc]
  · rw [ht, ht]
    cases m k with
    | none => rfl
    | some v => simp [hg]
  · rw [hn]

/-- Where there was something, a log leaves something if it leaves something anywhere. -/
theorem replay_ne_none (hg : ∀ v, g (g v) = g v) (log : List (κ × Change ν)) {m m' : κ → Option ν} {k : κ}
    (h : m k ≠ none → m' k ≠ none) (hm : replay g log m k ≠ none) : replay g log m' k ≠ none := by
  rcases replay_cases hg log k with ⟨c, hc⟩ | ht | hn
  · rw [hc] at hm ⊢
    exact hm
  · rw [ht] at hm ⊢
    intro hnone
    have hm' : m' k ≠ none := h fun hk => hm (by rw [hk]; rfl)
    exact hm' (Option.map_eq_none_iff.mp hnone)
  · rw [hn] at hm ⊢
    exact h hm

/-- Changes at one key: no two different ones, unless neither replaces the value. -/
private theorem applyAt_comm {e e' : κ × Change ν} (h : e.1 = e'.1 → ∀ v, e.2 = .put v → e'.2 = .put v)
    (h' : e'.1 = e.1 → ∀ v, e'.2 = .put v → e.2 = .put v) (m : κ → Option ν) :
    applyAt g (applyAt g m e) e' = applyAt g (applyAt g m e') e := by
  obtain ⟨k, c⟩ := e
  obtain ⟨k', c'⟩ := e'
  by_cases hk : k = k'
  · subst hk
    have hc : c'.apply g (c.apply g (m k)) = c.apply g (c'.apply g (m k)) := by
      cases c with
      | put v =>
        obtain rfl : c' = .put v := h rfl v rfl
        rfl
      | touch =>
        cases c' with
        | put v => exact nomatch h' rfl v rfl
        | touch => rfl
        | delete => rfl
      | delete =>
        cases c' with
        | put v => exact nomatch h' rfl v rfl
        | touch => rfl
        | delete => rfl
    simp only [applyAt, Function.update_self, Function.update_idem, hc]
  · have hne : k' ≠ k := fun he => hk he.symm
    simp only [applyAt, Function.update_of_ne hk, Function.update_of_ne hne]
    exact (Function.update_comm hne ..).symm

/-- **All orders of a log leave the same store if and only if no change at a key competes
with a replacement of the value there.** -/
theorem replay_perm_iff {ε : Type*} (f : ε → κ × Change ν) (log : List ε) (m : κ → Option ν)
    (hg : ∀ e ∈ log, ∀ v, (f e).2 = .put v → g v ≠ v) :
    (∀ log' : List ε, log'.Perm log → replay g (log'.map f) m = replay g (log.map f) m) ↔
      ∀ e ∈ log, ∀ e' ∈ log, (f e).1 = (f e').1 → ∀ v, (f e).2 = .put v → (f e').2 = .put v := by
  constructor
  · intro h e he e' he' hk v hv
    by_contra hne
    classical
    have hee : e' ≠ e := fun heq => hne (heq ▸ hv)
    have hperm : log.Perm (((log.erase e).erase e') ++ [e, e']) := by
      have he'' : e' ∈ log.erase e := (List.mem_erase_of_ne hee).mpr he'
      have hfront : log.Perm ([e, e'] ++ (log.erase e).erase e') :=
        (List.perm_cons_erase he).trans ((List.perm_cons_erase he'').cons e)
      exact hfront.trans List.perm_append_comm
    have hswap : (((log.erase e).erase e') ++ [e', e]).Perm log :=
      ((List.Perm.swap e e' []).append_left _).trans hperm.symm
    -- with `e` last its value stands, with `e'` last it does not
    have hboth := congrFun ((h _ hperm.symm).trans (h _ hswap).symm) (f e).1
    rw [List.map_append, List.map_append, replay_append, replay_append] at hboth
    generalize replay g (((log.erase e).erase e').map f) m = m' at hboth
    simp only [List.map_cons, List.map_nil, replay, List.foldl_cons, List.foldl_nil, applyAt, hk, hv,
      Function.update_self, Change.apply] at hboth
    cases hc : (f e').2 with
    | put v' =>
      rw [hc] at hboth
      exact hne (hc.trans (congrArg Change.put (Option.some.inj hboth)))
    | touch =>
      rw [hc] at hboth
      exact hg e he v hv (Option.some.inj hboth)
    | delete =>
      rw [hc] at hboth
      cases hboth
  · intro h log' hp
    rw [replay, replay, List.foldl_map, List.foldl_map]
    apply hp.foldl_eq'
    intro e he e' he' m
    have hmem : e ∈ log := hp.mem_iff.mp he
    have hmem' : e' ∈ log := hp.mem_iff.mp he'
    exact applyAt_comm (h e hmem e' hmem') (h e' hmem' e hmem) m

/-- Replaying the whole log over a snapshot taken along it gives the final store. -/
theorem replay_snapshot (hg : ∀ v, g (g v) = g v) (before later : List (κ × Change ν)) (m : κ → Option ν) :
    replay g (before ++ later) (replay g before m) = replay g (before ++ later) m := by
  rw [replay_append, replay_idem hg, replay_append]

/-- A snapshot taken after `p` changes, with the changes after `a`: the final value at a key
that the changes between `p` and `a` leave alone. -/
theorem replay_resume (hg : ∀ v, g (g v) = g v) (log : List (κ × Change ν)) (m : κ → Option ν) {a p : ℕ} {k : κ}
    (hkept : replay g ((log.take a).drop p) (replay g (log.take p) m) k = replay g (log.take p) m k) :
    replay g (log.drop a) (replay g (log.take p) m) k = replay g log m k := by
  rcases Nat.le_total a p with hap | hpa
  · have hfront : log.take p = log.take a ++ (log.drop a).take (p - a) := by
      rw [← List.take_add, Nat.add_sub_cancel' hap]
    have hback : log = log.take p ++ log.drop p := (List.take_append_drop p log).symm
    have hdrop : log.drop a = (log.drop a).take (p - a) ++ log.drop p := by
      rw [← Nat.add_sub_cancel' hap, ← List.drop_drop, Nat.add_sub_cancel_left, List.take_append_drop]
    have hstays : replay g ((log.drop a).take (p - a)) (replay g (log.take p) m) = replay g (log.take p) m := by
      rw [hfront, replay_append, replay_idem hg]
    conv_rhs => rw [hback, replay_append]
    rw [hdrop, replay_append, hstays]
  · have htake : log.take a = log.take p ++ (log.take a).drop p := by
      rw [List.drop_take, ← List.take_add, Nat.add_sub_cancel' hpa]
    have hsame : replay g (log.take p) m k = replay g (log.take a) m k := by
      rw [← hkept, htake, replay_append, ← htake]
    conv_rhs => rw [← List.take_append_drop a log, replay_append]
    exact replay_congr _ hsame

/-! Less of every value. -/

section
variable {μ : Type*} {g' : μ → μ} {f : ν → μ}

def Change.map (f : ν → μ) : Change ν → Change μ
  | put v => put (f v)
  | touch => touch
  | delete => delete

theorem Change.apply_map (hf : ∀ v, f (g v) = g' (f v)) (c : Change ν) (old : Option ν) :
    (c.apply g old).map f = (c.map f).apply g' (old.map f) := by
  cases c with
  | put v => rfl
  | touch =>
    cases old with
    | none => rfl
    | some v => exact congrArg some (hf v)
  | delete => rfl

theorem replay_map (hf : ∀ v, f (g v) = g' (f v)) (log : List (κ × Change ν)) (m : κ → Option ν) (k : κ) :
    (replay g log m k).map f = replay g' (log.map fun e => (e.1, e.2.map f)) (fun k => (m k).map f) k := by
  induction log generalizing m with
  | nil => rfl
  | cons e log ih =>
    have hstep : (fun k => (applyAt g m e k).map f) = applyAt g' (fun k => (m k).map f) (e.1, e.2.map f) := by
      funext k
      by_cases hk : k = e.1
      · subst hk
        rw [applyAt, applyAt, Function.update_self, Function.update_self, Change.apply_map hf]
      · rw [applyAt, applyAt, Function.update_of_ne hk, Function.update_of_ne hk]
    rw [List.map_cons]
    exact (ih _).trans (congrFun (congrArg _ hstep) k)

end

end LightApr.Lib.Replay
