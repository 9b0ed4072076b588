import LightApr.Lib.Replay

/-! A change is committed first and told to an observer later, by whoever committed it.
Messages about different keys may overtake each other. As long as no key is changed
while a message about it is on its way, those about one key arrive in the order of the
changes, and the observer ends with what the store holds. -/
namespace LightApr.Lib.Outbox
variable {ε κ ν : Type*} [DecidableEq κ]

/-- The changes made so far, and their messages: on the way, and arrived. -/
structure State (ε : Type*) where
  committed : List ε
  pending : List ε
  delivered : List ε

def State.commit (e : ε) (s : State ε) : State ε :=
  { s with committed := s.committed ++ [e], pending := s.pending ++ [e] }

/-- The messages about one key. -/
def about (key : ε → κ) (k : κ) (l : List ε) : List ε := l.filter fun e => key e = k

/-- At most one message about a key is on its way, and it is the latest. -/
structure InOrder (key : ε → κ) (s : State ε) : Prop where
  single : (s.pending.map key).Nodup
  order : ∀ k, about key k s.committed = about key k s.delivered ++ about key k s.pending

variable {key : ε → κ} {s : State ε} {e : ε}

theorem about_append (k : κ) (l l' : List ε) : about key k (l ++ l') = about key k l ++ about key k l' :=
  List.filter_append ..

theorem about_eq_nil {k : κ} {l : List ε} (h : k ∉ l.map key) : about key k l = [] := by
  apply List.filter_eq_nil_iff.mpr
  intro e he hk
  exact h (List.mem_map.mpr ⟨e, he, of_decide_eq_true hk⟩)

theorem InOrder.commit (h : InOrder key s) (hfree : key e ∉ s.pending.map key) : InOrder key (s.commit e) where
  single := by
    rw [State.commit, List.map_append, List.map_singleton]
    exact List.nodup_append.mpr ⟨h.single, by simp,
      fun a ha b hb hab => hfree (List.mem_singleton.mp hb ▸ hab ▸ ha)⟩
  order k := by
    simp only [State.commit, about_append, h.order k, List.append_assoc]

theorem InOrder.deliver {before after : List ε} (h : InOrder key s) (hp : s.pending = before ++ e :: after) :
    InOrder key { s with pending := before ++ after, delivered := s.delivered ++ [e] } := by
  have hs := h.single
  rw [hp, List.map_append, List.map_cons] at hs
  refine ⟨?_, fun k => ?_⟩
  · rw [List.map_append]
    exact hs.sublist ((List.sublist_cons_self _ _).append_left _)
  · have hk := h.order k
    rw [hp, ← List.singleton_append, about_append, about_append] at hk
    simp only [about_append, List.append_assoc]
    rw [hk]
    by_cases he : key e = k
    · -- nothing else on the way is about this key
      have hbefore : about key k before = [] := by
        apply about_eq_nil
        intro hm
        exact (List.nodup_append.mp hs).2.2 k hm (key e) (List.mem_cons_self ..) he.symm
      rw [hbefore, List.nil_append, List.nil_append]
    · have hnone : about key k [e] = [] := about_eq_nil (by simpa using fun h => he h.symm)
      rw [hnone, List.nil_append, List.nil_append]

/-- No older message about a key arrives after a newer one. -/
theorem InOrder.isPrefix (h : InOrder key s) (k : κ) : about key k s.delivered <+: about key k s.committed :=
  ⟨_, (h.order k).symm⟩

/-- When nothing is on its way, replaying what arrived gives what was committed. -/
theorem InOrder.settled {change : ε → Replay.Change ν} (h : InOrder key s) (hp : s.pending = []) (g : ν → ν)
    (m : κ → Option ν) :
    Replay.replay g (s.delivered.map fun e => (key e, change e)) m =
      Replay.replay g (s.committed.map fun e => (key e, change e)) m := by
  funext k
  have hk := h.order k
  rw [hp] at hk
  have hkeys (l : List ε) : ((l.map fun e => (key e, change e)).filter fun c => c.1 = k) =
      (about key k l).map fun e => (key e, change e) := by
    rw [List.filter_map]
    rfl
  rw [Replay.replay_at, Replay.replay_at g (s.committed.map _), hkeys, hkeys, hk]
  simp [about]

end LightApr.Lib.Outbox
