import LightApr.Core.ConnectionGuardRuns

/-! The addresses for which the connection guard keeps state. -/
namespace LightApr.Core.ConnectionGuard
open Lib Lib.Window

/-- One of the two maps has an entry for the address. -/
def Tracks (g : ConnectionGuard) (ip : Bytes) : Prop :=
  (g.perIpCount.lookup ip).isSome = true ∨ (g.perIpRecent.lookup ip).isSome = true

/-- The address had a connection admitted within the window that ends now. -/
def Recently (limits : ConnectionLimits) (now : Int) (ip : Bytes) (s : Record) : Prop :=
  ∃ x ∈ s.admitted, x.2 = ip ∧ now - x.1 ≤ limits.rateWindow

/-- After a call the guard keeps state only for addresses that were connected when it came, are connected now, or
had a connection admitted within the window. -/
def Contained (limits : ConnectionLimits) (s t : Record) : Prop :=
  ∀ ip, t.guard.Tracks ip → ip ∈ s.live ∨ ip ∈ t.live ∨ Recently limits t.clock ip t

/-- As many connections as there may be. -/
def Full (limits : ConnectionLimits) (s : Record) : Prop :=
  limits.maxTotalConnections > 0 ∧ s.guard.total ≥ limits.maxTotalConnections

/-- When the call comes, every address that was ever admitted is connected, or was admitted within the window, or is
the one that asks, while there is room. -/
def NoneAway (limits : ConnectionLimits) (s : Record) : Event → Prop
  | .tryAcquire now ip => ∀ x ∈ s.admitted,
      x.2 ∈ s.live ∨ Recently limits now x.2 s ∨ (x.2 = ip ∧ ¬ Full limits s)
  | .release _ => ∀ x ∈ s.admitted, x.2 ∈ s.live ∨ Recently limits s.clock x.2 s

section
variable {limits : ConnectionLimits} {now : Int} {ip k : Bytes} {g g' : ConnectionGuard} {s t : Record}

/-- There is a deque for every address that was ever admitted, and for no other. -/
structure Entered (limits : ConnectionLimits) (s : Record) : Prop where
  counted : Counted limits s
  paced : Paced limits s
  recent : ∀ ip, (s.guard.perIpRecent.lookup ip).isSome = true ↔ ∃ x ∈ s.admitted, x.2 = ip
  live : ∀ ip ∈ s.live, ∃ x ∈ s.admitted, x.2 = ip

theorem isSome_lookup_insert {β : Type} (t : Table β) (ip k : Bytes) (v : β) :
    ((t.insert ip v).lookup k).isSome = true ↔ k = ip ∨ (t.lookup k).isSome = true := by
  by_cases hk : k = ip
  · subst hk
    simp [AList.lookup_insert]
  · simp [AList.lookup_insert_ne hk, hk]

/-- The guard never forgets an address. -/
theorem Entered.tracks_iff (h : Entered limits s) (ip : Bytes) : s.guard.Tracks ip ↔ ∃ x ∈ s.admitted, x.2 = ip := by
  constructor
  · rintro (hcount | hrecent)
    · obtain ⟨n, hn⟩ := Option.isSome_iff_exists.mp hcount
      have hlive := h.counted.count ip
      rw [count, hn, Option.getD_some] at hlive
      have hpos : 0 < s.live.count ip := hlive ▸ Nat.pos_of_ne_zero (h.counted.stored ip n hn)
      exact h.live ip (List.count_pos_iff.mp hpos)
    · exact (h.recent ip).mp hrecent
  · exact fun hx => .inr ((h.recent ip).mpr hx)

/-- A time within the window is that of an admission. -/
theorem Entered.recently (h : Entered limits s) (hclock : s.clock ≤ now) (hw : window limits now ip s.guard ≠ []) :
    Recently limits now ip s := by
  rw [h.paced.window now hclock, prune_sorted (h.paced.timesOf_sorted ip)] at hw
  obtain ⟨time, htime⟩ := List.exists_mem_of_ne_nil _ hw
  obtain ⟨hmem, hwithin⟩ := List.mem_filter.mp htime
  obtain ⟨x, hx, rfl⟩ := List.mem_map.mp hmem
  obtain ⟨hx, hip⟩ := List.mem_filter.mp hx
  exact ⟨x, hx, of_decide_eq_true hip, of_decide_eq_true hwithin⟩

theorem exists_mem_snoc {s : Record} {x : Int × Bytes} :
    (∃ y ∈ s.admitted ++ [x], y.2 = k) ↔ k = x.2 ∨ ∃ y ∈ s.admitted, y.2 = k := by
  constructor
  · rintro ⟨y, hy, rfl⟩
    rcases List.mem_append.mp hy with hy | hy
    · exact .inr ⟨y, hy, rfl⟩
    · exact .inl (congrArg Prod.snd (List.mem_singleton.mp hy))
  · rintro (rfl | ⟨y, hy, rfl⟩)
    · exact ⟨x, List.mem_append_right _ (List.mem_singleton.mpr rfl), rfl⟩
    · exact ⟨y, List.mem_append_left _ hy, rfl⟩

theorem entered_step {e : Event} (hm : 0 < limits.maxNewConnectionsPerIp) (hs : Entered limits s)
    (h : step limits s e = some t) : Entered limits t := by
  refine ⟨counted_step hs.counted h, paced_step (Nat.ne_of_gt hm) hs.paced h, ?_, ?_⟩
  · intro k
    cases step_cases h with
    | acquired _ ha ht =>
      subst ht
      cases ha with
      | unlimited _ h0 => exact absurd h0 (Nat.ne_of_gt hm)
      | admitted =>
        rw [isSome_lookup_insert, exists_mem_snoc, hs.recent]
    | rejected hclock ha ht =>
      subst ht
      cases ha with
      | full => exact hs.recent k
      | tooFast _ _ hroom =>
        rw [isSome_lookup_insert, hs.recent]
        refine ⟨?_, .inr⟩
        rintro (rfl | hx)
        · obtain ⟨x, hx, hip, -⟩ := hs.recently hclock (List.ne_nil_of_length_pos (Nat.lt_of_lt_of_le hm hroom))
          exact ⟨x, hx, hip⟩
        · exact hx
    | released _ ht =>
      subst ht
      exact hs.recent k
  · intro k hk
    cases step_cases h with
    | acquired _ _ ht =>
      subst ht
      rw [exists_mem_snoc]
      rcases List.mem_cons.mp hk with rfl | hk
      · exact .inl rfl
      · exact .inr (hs.live k hk)
    | rejected _ _ ht =>
      subst ht
      exact hs.live k hk
    | released _ ht =>
      subst ht
      exact hs.live k (List.mem_of_mem_erase hk)

theorem entered_start (limits : ConnectionLimits) (clock : Int) : Entered limits (start clock) := by
  refine ⟨counted_start limits clock, paced_start limits clock, fun ip => ?_, fun ip hip => ?_⟩
  · rw [start, empty, AList.lookup_empty]
    refine iff_of_false (by decide) ?_
    rintro ⟨x, hx, -⟩
    exact List.not_mem_nil hx
  · cases hip

/-- What is asked of a call speaks of the addresses that were ever admitted. -/
theorem contained_iff_admitted (ht : Entered limits t) :
    Contained limits s t ↔ ∀ x ∈ t.admitted, x.2 ∈ s.live ∨ x.2 ∈ t.live ∨ Recently limits t.clock x.2 t := by
  constructor
  · exact fun h x hx => h x.2 ((ht.tracks_iff x.2).mpr ⟨x, hx, rfl⟩)
  · rintro h ip htracks
    obtain ⟨x, hx, rfl⟩ := (ht.tracks_iff ip).mp htracks
    exact h x hx

theorem contained_acquired {guard : ConnectionGuard} (hu : Under limits ip s.guard) :
    (∀ x ∈ s.admitted ++ [(now, ip)], x.2 ∈ s.live ∨ x.2 ∈ ip :: s.live ∨
        Recently limits now x.2 ⟨guard, now, s.admitted ++ [(now, ip)], ip :: s.live⟩) ↔
      NoneAway limits s (.tryAcquire now ip) := by
  constructor
  · intro h x hx
    rcases h x (List.mem_append_left _ hx) with hlive | hlive | ⟨y, hy, hip, hwithin⟩
    · exact .inl hlive
    · rcases List.mem_cons.mp hlive with hip | hlive
      · exact .inr (.inr ⟨hip, hu.1⟩)
      · exact .inl hlive
    · rcases List.mem_append.mp hy with hy | hy
      · exact .inr (.inl ⟨y, hy, hip, hwithin⟩)
      · obtain rfl := List.mem_singleton.mp hy
        exact .inr (.inr ⟨hip.symm, hu.1⟩)
  · intro h x hx
    rcases List.mem_append.mp hx with hx | hx
    · rcases h x hx with hlive | ⟨y, hy, hrecent⟩ | ⟨hip, -⟩
      · exact .inl hlive
      · exact .inr (.inr ⟨y, List.mem_append_left _ hy, hrecent⟩)
      · exact .inr (.inl (hip ▸ List.mem_cons_self))
    · obtain rfl := List.mem_singleton.mp hx
      exact .inr (.inl List.mem_cons_self)

/-- An address that is refused for itself is connected, or was admitted within the window. -/
theorem refused_in_use {guard : ConnectionGuard} (hs : Entered limits s) (hclock : s.clock ≤ now)
    (ha : Attempt limits now ip s.guard (false, guard)) (hroom : ¬ Full limits s) :
    ip ∈ s.live ∨ Recently limits now ip s := by
  cases ha with
  | full hnot =>
    have hmany : limits.maxConnectionsPerIp > 0 ∧ s.guard.count ip ≥ limits.maxConnectionsPerIp := by
      by_contra hfew
      exact hnot ⟨hroom, hfew⟩
    refine .inl (List.count_pos_iff.mp ?_)
    rw [← hs.counted.count ip]
    exact Nat.lt_of_lt_of_le hmany.1 hmany.2
  | tooFast _ hpos hfull =>
    exact .inr (hs.recently hclock (List.ne_nil_of_length_pos (Nat.lt_of_lt_of_le hpos hfull)))

theorem contained_step_iff {e : Event} (hm : 0 < limits.maxNewConnectionsPerIp) (hs : Entered limits s)
    (h : step limits s e = some t) : Contained limits s t ↔ NoneAway limits s e := by
  rw [contained_iff_admitted (entered_step hm hs h)]
  cases step_cases h with
  | acquired hclock ha ht =>
    subst ht
    cases ha with
    | unlimited hu => exact contained_acquired hu
    | admitted hu => exact contained_acquired hu
  | rejected hclock ha ht =>
    subst ht
    refine forall₂_congr fun x hx => ⟨?_, ?_⟩
    · rintro (hlive | hlive | hrecent)
      · exact .inl hlive
      · exact .inl hlive
      · exact .inr (.inl hrecent)
    · rintro (hlive | hrecent | ⟨hip, hroom⟩)
      · exact .inl hlive
      · exact .inr (.inr hrecent)
      · rw [hip]
        exact (refused_in_use hs hclock ha hroom).imp_right .inr
  | released hmem ht =>
    subst ht
    refine forall₂_congr fun x hx => ⟨?_, ?_⟩
    · rintro (hlive | hlive | hrecent)
      · exact .inl hlive
      · exact .inl (List.mem_of_mem_erase hlive)
      · exact .inr hrecent
    · rintro (hlive | hrecent)
      · exact .inl hlive
      · exact .inr (.inr hrecent)

/-- After every call of the run the guard keeps state only for addresses in use. -/
abbrev Contains (limits : ConnectionLimits) (s : Record) (e : Event) : Prop :=
  ∀ t, step limits s e = some t → Contained limits s t

/-- **With a rate limit the guard keeps state only for addresses in use after each call of a run, exactly if at each
of them no address that was ever admitted has stayed away for longer than the window.** -/
theorem entries_in_use_iff (limits : ConnectionLimits) (hm : 0 < limits.maxNewConnectionsPerIp) (clock : Int)
    (es : List Event) (u : Record) :
    (machine limits).Run (Contains limits) (start clock) es u ↔
      (machine limits).Run (NoneAway limits) (start clock) es u := by
  have hentered {fs : List Event} {s : Record} (h : (machine limits).Reaches (start clock) fs s) : Entered limits s :=
    h.invariant (Entered limits) (entered_start limits clock) fun _ _ _ hs _ hstep => entered_step hm hs hstep
  constructor
  · intro h
    exact h.imp fun hreach hstep hcontains => (contained_step_iff hm (hentered hreach) hstep).mp (hcontains _ hstep)
  · intro h
    refine h.imp fun {_ s e t} hreach hstep hnone t' hstep' => ?_
    exact (contained_step_iff hm (hentered hreach) hstep').mpr hnone

end

/-- One connection from an address in ten seconds. -/
private def onePerTen : ConnectionLimits := ⟨0, 0, 1, 10⟩

instance (limits : ConnectionLimits) (now : Int) (ip : Bytes) (s : Record) : Decidable (Recently limits now ip s) :=
  inferInstanceAs (Decidable (∃ x ∈ s.admitted, _))

instance (limits : ConnectionLimits) (s : Record) : Decidable (Full limits s) := inferInstanceAs (Decidable (_ ∧ _))

instance (limits : ConnectionLimits) (s : Record) : (e : Event) → Decidable (NoneAway limits s e)
  | .tryAcquire _ _ => inferInstanceAs (Decidable (∀ x ∈ s.admitted, _))
  | .release _ => inferInstanceAs (Decidable (∀ x ∈ s.admitted, _))

/-- A client that comes back within the window, and another one that stays connected. -/
private def busy : List Event :=
  [.tryAcquire 0 [97], .tryAcquire 1 [98], .release [97], .tryAcquire 9 [99], .tryAcquire 11 [97]]

private theorem busy_runs : ((machine onePerTen).execIf (NoneAway onePerTen) (start 0) busy).isSome = true := by
  decide +kernel

theorem entries_in_use_busy : (machine onePerTen).Run (Contains onePerTen) (start 0) busy
    (((machine onePerTen).execIf (NoneAway onePerTen) (start 0) busy).getD (start 0)) :=
  (entries_in_use_iff onePerTen (by decide) 0 busy _).mpr ((machine onePerTen).run_execIf _ busy_runs)

/-- The first client leaves, and is still on record when another one comes long after. -/
private def gone : List Event := [.tryAcquire 0 [97], .release [97]]

private def afterGone : Record := ((machine onePerTen).exec (start 0) gone).getD (start 0)

private def nextClient : Record := (step onePerTen afterGone (.tryAcquire 1000 [98])).getD afterGone

private theorem gone_recorded : (machine onePerTen).exec (start 0) gone = some afterGone ∧
    (machine onePerTen).step afterGone (.tryAcquire 1000 [98]) = some nextClient ∧
    (nextClient.guard.perIpRecent.lookup [97]).isSome = true ∧ [97] ∉ afterGone.live ∧ [97] ∉ nextClient.live ∧
    ¬ Recently onePerTen nextClient.clock [97] nextClient :=
  ⟨rfl, rfl, by decide +kernel, by decide +kernel, by decide +kernel, by decide +kernel⟩

theorem entry_left_behind : ¬ ∀ (limits : ConnectionLimits), 0 < limits.maxNewConnectionsPerIp → ∀ (clock : Int)
    (es : List Event) (u : Record), (machine limits).Reaches (start clock) es u →
    (machine limits).Run (Contains limits) (start clock) es u := by
  intro h
  obtain ⟨hfront, hnext, htracked, hbefore, hafter, hlong⟩ := gone_recorded
  have hrun := h onePerTen (by decide) 0 (gone ++ [.tryAcquire 1000 [98]]) nextClient
    (.snoc (Machine.reaches_of_exec hfront) trivial hnext)
  obtain ⟨s, hs, hcontains, -⟩ := hrun.last
  obtain rfl := Option.some.inj (hfront.symm.trans hs.exec_eq)
  rcases hcontains nextClient hnext [97] (.inr htracked) with hlive | hlive | hrecent
  · exact hbefore hlive
  · exact hafter hlive
  · exact hlong hrecent

end LightApr.Core.ConnectionGuard
