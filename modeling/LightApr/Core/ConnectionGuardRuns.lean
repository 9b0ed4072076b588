import LightApr.Core.ConnectionGuard
import LightApr.Lib.Machine
import LightApr.Lib.Window
import Mathlib.Algebra.GroupWithZero.Nat
import Mathlib.Algebra.Order.Group.Int

/-! Runs of the connection guard: its counts, its limits and its rate window. -/
namespace LightApr.Core.ConnectionGuard
open Lib Lib.Window

/-- The times in the deque of an address. -/
def recent (ip : Bytes) (g : ConnectionGuard) : List Int := (g.perIpRecent.lookup ip).getD []

/-- The connection passes the limits on the total and on its address. -/
def Under (limits : ConnectionLimits) (ip : Bytes) (g : ConnectionGuard) : Prop :=
  ¬ (limits.maxTotalConnections > 0 ∧ g.total ≥ limits.maxTotalConnections) ∧
    ¬ (limits.maxConnectionsPerIp > 0 ∧ g.count ip ≥ limits.maxConnectionsPerIp)

instance (limits : ConnectionLimits) (ip : Bytes) (g : ConnectionGuard) : Decidable (Under limits ip g) :=
  inferInstanceAs (Decidable (_ ∧ _))

/-- The guard, the last time read off its clock and, as history, the connections admitted
so far and the addresses of those that have not been released. -/
structure Record where
  guard : ConnectionGuard
  clock : Int
  admitted : List (Int × Bytes)
  live : List Bytes

inductive Event where
  | tryAcquire (now : Int) (ip : Bytes)
  | release (ip : Bytes)

/-- The clock does not run backwards, and only what was acquired is released. -/
def step (limits : ConnectionLimits) (s : Record) : Event → Option Record
  | .tryAcquire now ip =>
    if now < s.clock then none
    else
      match s.guard.tryAcquire limits now ip with
      | (true, guard) => some ⟨guard, now, s.admitted ++ [(now, ip)], ip :: s.live⟩
      | (false, guard) => some { s with guard, clock := now }
  | .release ip =>
    if s.live.contains ip then some { s with guard := s.guard.release ip, live := s.live.erase ip } else none

def machine (limits : ConnectionLimits) : Machine Record Event := ⟨step limits⟩

def start (clock : Int) : Record := ⟨empty, clock, [], []⟩

/-! One call. -/

section
variable {limits : ConnectionLimits} {now later : Int} {ip k : Bytes} {g g' : ConnectionGuard} {s t : Record}

/-- The times of an address that are still within the window. -/
def window (limits : ConnectionLimits) (now : Int) (ip : Bytes) (g : ConnectionGuard) : List Int :=
  prune limits.rateWindow now (g.recent ip)

/-- How an attempt ends, and what it leaves. -/
inductive Attempt (limits : ConnectionLimits) (now : Int) (ip : Bytes) (g : ConnectionGuard) :
    Bool × ConnectionGuard → Prop
  | full : ¬ Under limits ip g → Attempt limits now ip g (false, g)
  | tooFast : Under limits ip g → 0 < limits.maxNewConnectionsPerIp →
      limits.maxNewConnectionsPerIp ≤ (window limits now ip g).length →
      Attempt limits now ip g (false, { g with perIpRecent := g.perIpRecent.insert ip (window limits now ip g) })
  | unlimited : Under limits ip g → limits.maxNewConnectionsPerIp = 0 →
      Attempt limits now ip g
        (true, { g with total := g.total + 1, perIpCount := g.perIpCount.insert ip (g.count ip + 1) })
  | admitted : Under limits ip g → (window limits now ip g).length < limits.maxNewConnectionsPerIp →
      Attempt limits now ip g (true,
        { total := g.total + 1
          perIpCount := g.perIpCount.insert ip (g.count ip + 1)
          perIpRecent := g.perIpRecent.insert ip (window limits now ip g ++ [now]) })

private theorem admitRecent_eq (limits : ConnectionLimits) (now : Int) (ip : Bytes) (g : ConnectionGuard) :
    g.admitRecent limits now ip =
      if limits.maxNewConnectionsPerIp = 0 then (true, g)
      else if limits.maxNewConnectionsPerIp ≤ (window limits now ip g).length then
        (false, { g with perIpRecent := g.perIpRecent.insert ip (window limits now ip g) })
      else (true, { g with perIpRecent := g.perIpRecent.insert ip (window limits now ip g ++ [now]) }) := rfl

theorem tryAcquire_eq (limits : ConnectionLimits) (now : Int) (ip : Bytes) (g : ConnectionGuard) :
    g.tryAcquire limits now ip =
      if Under limits ip g then
        if limits.maxNewConnectionsPerIp = 0 then
          (true, { g with total := g.total + 1, perIpCount := g.perIpCount.insert ip (g.count ip + 1) })
        else if limits.maxNewConnectionsPerIp ≤ (window limits now ip g).length then
          (false, { g with perIpRecent := g.perIpRecent.insert ip (window limits now ip g) })
        else
          (true, {
            total := g.total + 1
            perIpCount := g.perIpCount.insert ip (g.count ip + 1)
            perIpRecent := g.perIpRecent.insert ip (window limits now ip g ++ [now]) })
      else (false, g) := by
  by_cases hu : Under limits ip g
  · rw [if_pos hu, tryAcquire, if_neg hu.1, if_neg hu.2]
    rw [admitRecent_eq]
    by_cases h0 : limits.maxNewConnectionsPerIp = 0
    · rw [if_pos h0, if_pos h0]
      rfl
    · rw [if_neg h0, if_neg h0]
      by_cases hroom : limits.maxNewConnectionsPerIp ≤ (window limits now ip g).length
      · rw [if_pos hroom, if_pos hroom]
        rfl
      · rw [if_neg hroom, if_neg hroom]
        rfl
  · rw [if_neg hu, tryAcquire]
    by_cases h1 : limits.maxTotalConnections > 0 ∧ g.total ≥ limits.maxTotalConnections
    · rw [if_pos h1]
    · rw [if_neg h1]
      by_cases h2 : limits.maxConnectionsPerIp > 0 ∧ g.count ip ≥ limits.maxConnectionsPerIp
      · rw [if_pos h2]
      · exact absurd ⟨h1, h2⟩ hu

theorem tryAcquire_cases (limits : ConnectionLimits) (now : Int) (ip : Bytes) (g : ConnectionGuard) :
    Attempt limits now ip g (g.tryAcquire limits now ip) := by
  rw [tryAcquire_eq]
  split
  · rename_i hu
    split
    · rename_i h0
      exact .unlimited hu h0
    · rename_i h0
      split
      · rename_i hroom
        exact .tooFast hu (Nat.pos_of_ne_zero h0) hroom
      · rename_i hroom
        exact .admitted hu (Nat.not_le.mp hroom)
  · rename_i hu
    exact .full hu

/-- One step of a run. -/
inductive Stepped (limits : ConnectionLimits) (s t : Record) : Event → Prop
  | acquired {now : Int} {ip : Bytes} {guard : ConnectionGuard} : s.clock ≤ now →
      Attempt limits now ip s.guard (true, guard) →
      t = ⟨guard, now, s.admitted ++ [(now, ip)], ip :: s.live⟩ → Stepped limits s t (.tryAcquire now ip)
  | rejected {now : Int} {ip : Bytes} {guard : ConnectionGuard} : s.clock ≤ now →
      Attempt limits now ip s.guard (false, guard) → t = { s with guard, clock := now } →
      Stepped limits s t (.tryAcquire now ip)
  | released {ip : Bytes} : ip ∈ s.live → t = { s with guard := s.guard.release ip, live := s.live.erase ip } →
      Stepped limits s t (.release ip)

theorem step_cases {e : Event} (h : step limits s e = some t) : Stepped limits s t e := by
  cases e with
  | tryAcquire now ip =>
    have ha := tryAcquire_cases limits now ip s.guard
    simp only [step] at h
    split at h
    · cases h
    · rename_i hclock
      split at h
      · rename_i he
        rw [he] at ha
        exact .acquired (Int.not_lt.mp hclock) ha (Option.some.inj h).symm
      · rename_i he
        rw [he] at ha
        exact .rejected (Int.not_lt.mp hclock) ha (Option.some.inj h).symm
  | release ip =>
    simp only [step] at h
    split at h
    · rename_i hm
      exact .released (List.contains_iff_mem.mp hm) (Option.some.inj h).symm
    · cases h

/-! The counts. -/

/-- The counts are those of the live connections, none of them is kept at zero, and the
two limits hold. -/
structure Counted (limits : ConnectionLimits) (s : Record) : Prop where
  total : s.guard.total = s.live.length
  count : ∀ ip, s.guard.count ip = s.live.count ip
  sum : s.guard.total = Table.total id s.guard.perIpCount
  stored : ∀ ip n, s.guard.perIpCount.lookup ip = some n → n ≠ 0
  maxTotal : limits.maxTotalConnections ≠ 0 → s.guard.total ≤ limits.maxTotalConnections
  maxPerIp : limits.maxConnectionsPerIp ≠ 0 → ∀ ip, s.guard.count ip ≤ limits.maxConnectionsPerIp

/-- The share of one address in the sum. -/
theorem total_perIpCount (ip : Bytes) (g : ConnectionGuard) :
    Table.total id g.perIpCount = g.count ip + Table.total id (g.perIpCount.erase ip) := by
  unfold count
  cases hl : g.perIpCount.lookup ip with
  | none => rw [Table.erase_of_lookup_none hl, Option.getD_none, Nat.zero_add]
  | some n => exact Table.total_of_lookup id hl

theorem count_insert (ip k : Bytes) (n : Nat) (g : ConnectionGuard) :
    (({ g with perIpCount := g.perIpCount.insert ip n }) : ConnectionGuard).count k =
      if k = ip then n else g.count k := by
  apply Table.getD_lookup_insert

theorem counted_acquired {guard : ConnectionGuard} (hs : Counted limits s)
    (ha : Attempt limits now ip s.guard (true, guard)) :
    Counted limits ⟨guard, now, s.admitted ++ [(now, ip)], ip :: s.live⟩ := by
  have hunder : Under limits ip s.guard := by
    cases ha with
    | unlimited hu => exact hu
    | admitted hu => exact hu
  have htotal : guard.total = s.guard.total + 1 := by
    cases ha with
    | unlimited => rfl
    | admitted => rfl
  have hcounts : guard.perIpCount = s.guard.perIpCount.insert ip (s.guard.count ip + 1) := by
    cases ha with
    | unlimited => rfl
    | admitted => rfl
  have hcount (k : Bytes) : guard.count k = if k = ip then s.guard.count ip + 1 else s.guard.count k := by
    rw [← count_insert, count, count, hcounts]
  refine ⟨?_, fun k => ?_, ?_, fun k n hk => ?_, fun h0 => ?_, fun h0 k => ?_⟩
  · rw [htotal, hs.total, List.length_cons]
  · rw [hcount, List.count_cons, ← hs.count]
    by_cases hk : k = ip
    · subst hk
      simp
    · simp [hk, Ne.symm hk]
  · have hsplit := total_perIpCount ip s.guard
    rw [← hs.sum] at hsplit
    rw [htotal, hcounts, Table.total_insert, hsplit, id_eq, Nat.add_right_comm]
  · rw [hcounts, Table.lookup_insert_eq_some] at hk
    rcases hk with ⟨-, rfl⟩ | ⟨-, hk⟩
    · exact Nat.succ_ne_zero _
    · exact hs.stored k n hk
  · have hlt := hunder.1
    rw [htotal]
    omega
  · have hlt := hunder.2
    have hle := hs.maxPerIp h0 k
    rw [hcount]
    split <;> omega

/-- A refused attempt leaves the counts alone. -/
theorem counts_rejected {guard : ConnectionGuard} (ha : Attempt limits now ip g (false, guard)) :
    guard.total = g.total ∧ guard.perIpCount = g.perIpCount := by
  cases ha with
  | full => exact ⟨rfl, rfl⟩
  | tooFast => exact ⟨rfl, rfl⟩

theorem counted_released (hs : Counted limits s) (hm : ip ∈ s.live) :
    Counted limits { s with guard := s.guard.release ip, live := s.live.erase ip } := by
  obtain ⟨htotal, hcount⟩ := release_counts ip s.guard
  have hpos : 0 < s.guard.count ip := by
    rw [hs.count]
    exact List.count_pos_iff.mpr hm
  obtain ⟨n, hl⟩ : ∃ n, s.guard.perIpCount.lookup ip = some n := by
    cases hl : s.guard.perIpCount.lookup ip with
    | none =>
      rw [count, hl] at hpos
      cases hpos
    | some n => exact ⟨n, rfl⟩
  have hn : s.guard.count ip = n := by
    rw [count, hl]
    rfl
  have hstored : (s.guard.release ip).perIpCount =
      if n - 1 = 0 then s.guard.perIpCount.erase ip else s.guard.perIpCount.insert ip (n - 1) := by
    rw [release, hl]
  refine ⟨?_, fun k => ?_, ?_, fun k m hk => ?_, fun h0 => ?_, fun h0 k => ?_⟩
  · rw [htotal, hs.total, List.length_erase_of_mem hm]
  · rw [hcount, List.count_erase, ← hs.count]
    by_cases hk : k = ip
    · subst hk
      simp
    · simp [hk, Ne.symm hk]
  · have hsplit := total_perIpCount ip s.guard
    rw [← hs.sum, hn] at hsplit
    rw [htotal, hstored]
    split
    · omega
    · rw [Table.total_insert, id_eq]
      omega
  · rw [hstored] at hk
    split at hk
    · exact hs.stored k m (Table.lookup_erase_eq_some.mp hk).2
    · rename_i hne
      rcases Table.lookup_insert_eq_some.mp hk with ⟨-, rfl⟩ | ⟨-, hk⟩
      · exact hne
      · exact hs.stored k m hk
  · rw [htotal]
    exact (Nat.sub_le _ _).trans (hs.maxTotal h0)
  · rw [hcount]
    exact (Nat.sub_le _ _).trans (hs.maxPerIp h0 k)

theorem counted_step {e : Event} (hs : Counted limits s) (h : step limits s e = some t) : Counted limits t := by
  cases step_cases h with
  | acquired _ ha ht =>
    subst ht
    exact counted_acquired hs ha
  | @rejected _ _ guard _ ha ht =>
    subst ht
    obtain ⟨htotal, hcounts⟩ := counts_rejected ha
    have hcount (k : Bytes) : guard.count k = s.guard.count k := by
      rw [count, hcounts, ← count]
    refine ⟨htotal.trans hs.total, fun k => (hcount k).trans (hs.count k), ?_, ?_, fun h0 => ?_, fun h0 k => ?_⟩
    · rw [htotal, hcounts, hs.sum]
    · rw [hcounts]
      exact hs.stored
    · rw [htotal]
      exact hs.maxTotal h0
    · rw [hcount]
      exact hs.maxPerIp h0 k
  | released hm ht =>
    subst ht
    exact counted_released hs hm

theorem counted_start (limits : ConnectionLimits) (clock : Int) : Counted limits (start clock) := by
  refine ⟨rfl, fun ip => ?_, rfl, fun ip n h => ?_, fun _ => Nat.zero_le _, fun _ ip => ?_⟩
  · rw [count, start, empty, AList.lookup_empty]
    rfl
  · rw [start, empty, AList.lookup_empty] at h
    cases h
  · rw [count, start, empty, AList.lookup_empty]
    exact Nat.zero_le _

/-! A rejected attempt. -/

/-- The answers to a sequence of calls. -/
def replies (limits : ConnectionLimits) (g : ConnectionGuard) : List Event → List Bool
  | [] => []
  | .tryAcquire now ip :: later =>
    (g.tryAcquire limits now ip).1 :: replies limits (g.tryAcquire limits now ip).2 later
  | .release ip :: later => replies limits (g.release ip) later

/-- The clock shows `now` or more, and does not run backwards. -/
def ClockFrom (now : Int) : List Event → Prop
  | [] => True
  | .tryAcquire t _ :: later => now ≤ t ∧ ClockFrom t later
  | .release _ :: later => ClockFrom now later

/-- From `now` on the two guards cannot be told apart. -/
structure SameFrom (limits : ConnectionLimits) (now : Int) (g g' : ConnectionGuard) : Prop where
  total : g'.total = g.total
  perIpCount : g'.perIpCount = g.perIpCount
  window : ∀ t, now ≤ t → ∀ ip, window limits t ip g' = window limits t ip g

theorem recent_insert (ip k : Bytes) (times : List Int) (g : ConnectionGuard) :
    ({ g with perIpRecent := g.perIpRecent.insert ip times } : ConnectionGuard).recent k =
      if k = ip then times else g.recent k := by
  apply Table.getD_lookup_insert

theorem same_rejected (ha : Attempt limits now ip g (false, g')) : SameFrom limits now g g' := by
  obtain ⟨htotal, hcounts⟩ := counts_rejected ha
  refine ⟨htotal, hcounts, fun t ht k => ?_⟩
  cases ha with
  | full => rfl
  | tooFast =>
    rw [window, recent_insert]
    split
    · rename_i hk
      rw [hk, window, prune_prune ht, ← window]
    · rfl

theorem SameFrom.count (h : SameFrom limits now g g') (ip : Bytes) : g'.count ip = g.count ip := by
  rw [ConnectionGuard.count, h.perIpCount, ← ConnectionGuard.count]

/-- Times entered in equal windows leave windows that stay equal. -/
theorem SameFrom.insert (h : SameFrom limits now g g') {t : Int} (ht : now ≤ t) (ip : Bytes) (times : List Int)
    (total : Nat) (counts : Table Nat) :
    SameFrom limits t ⟨total, counts, g.perIpRecent.insert ip times⟩
      ⟨total, counts, g'.perIpRecent.insert ip times⟩ := by
  refine ⟨rfl, rfl, fun u hu k => ?_⟩
  have hk := h.window u (ht.trans hu) k
  have hg := recent_insert ip k times ⟨total, counts, g.perIpRecent⟩
  have hg' := recent_insert ip k times ⟨total, counts, g'.perIpRecent⟩
  rw [ConnectionGuard.window, ConnectionGuard.window, hg, hg']
  split
  · rfl
  · exact hk

/-- The same attempt has the same answer, and the guards stay the same. -/
theorem SameFrom.tryAcquire (h : SameFrom limits now g g') {t : Int} (ht : now ≤ t) (ip : Bytes) :
    (g'.tryAcquire limits t ip).1 = (g.tryAcquire limits t ip).1 ∧
      SameFrom limits t (g.tryAcquire limits t ip).2 (g'.tryAcquire limits t ip).2 := by
  have hunder : Under limits ip g' ↔ Under limits ip g := by rw [Under, Under, h.total, h.count]
  have hwindow := h.window t ht ip
  have hlater : ∀ u, t ≤ u → ∀ k, ConnectionGuard.window limits u k g' = ConnectionGuard.window limits u k g :=
    fun u hu => h.window u (ht.trans hu)
  rw [tryAcquire_eq, tryAcquire_eq, hwindow, h.total, h.count, h.perIpCount]
  by_cases hu : Under limits ip g
  · rw [if_pos hu, if_pos (hunder.mpr hu)]
    by_cases h0 : limits.maxNewConnectionsPerIp = 0
    · rw [if_pos h0, if_pos h0]
      exact ⟨rfl, rfl, rfl, hlater⟩
    · rw [if_neg h0, if_neg h0]
      split
      · refine ⟨rfl, ?_⟩
        have hin := h.insert ht ip (ConnectionGuard.window limits t ip g) g.total g.perIpCount
        rwa [← h.total, ← h.perIpCount] at hin ⊢
      · exact ⟨rfl, h.insert ht ip _ _ _⟩
  · rw [if_neg hu, if_neg fun h' => hu (hunder.mp h')]
    exact ⟨rfl, h.total, h.perIpCount, hlater⟩

theorem SameFrom.release (h : SameFrom limits now g g') (ip : Bytes) :
    SameFrom limits now (g.release ip) (g'.release ip) := by
  refine ⟨?_, ?_, h.window⟩
  · rw [ConnectionGuard.release, ConnectionGuard.release, h.total]
  · rw [ConnectionGuard.release, ConnectionGuard.release, h.perIpCount]

theorem SameFrom.replies (h : SameFrom limits now g g') {later : List Event} (hc : ClockFrom now later) :
    g'.replies limits later = g.replies limits later := by
  induction later generalizing now g g' with
  | nil => rfl
  | cons e later ih =>
    cases e with
    | tryAcquire t ip =>
      obtain ⟨hanswer, hsame⟩ := h.tryAcquire hc.1 ip
      rw [ConnectionGuard.replies, ConnectionGuard.replies, hanswer, ih hsame hc.2]
    | release ip =>
      rw [ConnectionGuard.replies, ConnectionGuard.replies]
      exact ih (h.release ip) hc

/-- **In every run the counts are those of the connections admitted and not yet released,
within the limits; and a rejected attempt changes neither them nor any later answer.** -/
theorem guard_counts (limits : ConnectionLimits) (clock : Int) {es : List Event} {s : Record}
    (hrun : (machine limits).Reaches (start clock) es s) :
    Counted limits s ∧ ∀ (now : Int) (ip : Bytes) (g' : ConnectionGuard), s.clock ≤ now →
      s.guard.tryAcquire limits now ip = (false, g') →
        g'.total = s.guard.total ∧ g'.perIpCount = s.guard.perIpCount ∧
          ∀ later, ClockFrom now later → g'.replies limits later = s.guard.replies limits later := by
  refine ⟨hrun.invariant (Counted limits) (counted_start limits clock)
    fun _ _ _ hm _ hstep => counted_step hm hstep, fun now ip g' _ hrej => ?_⟩
  have hattempt := tryAcquire_cases limits now ip s.guard
  rw [hrej] at hattempt
  have hsame := same_rejected hattempt
  exact ⟨hsame.total, hsame.perIpCount, fun later hc => hsame.replies hc⟩

/-- One connection from an address in ten seconds, three in all. -/
private def onePerWindow : ConnectionLimits := ⟨3, 0, 1, 10⟩

/-- The second attempt comes within the window of the first, the third one after it. -/
private def threeAttempts : List Event :=
  [.tryAcquire 0 [97], .tryAcquire 4 [97], .release [97], .tryAcquire 11 [97]]

private def afterThree : Record := ((machine onePerWindow).exec (start 0) threeAttempts).getD (start 0)

private theorem three_attempts :
    ((machine onePerWindow).exec (start 0) threeAttempts).isSome = true ∧ afterThree.clock = 11 ∧
      afterThree.live = [[97]] ∧ (afterThree.guard.tryAcquire onePerWindow 15 [97]).1 = false ∧
      Under onePerWindow [97] afterThree.guard := by
  decide +kernel

theorem guard_counts_third : Counted onePerWindow afterThree ∧
    (afterThree.guard.tryAcquire onePerWindow 15 [97]).2.replies onePerWindow [.tryAcquire 22 [97]] =
      afterThree.guard.replies onePerWindow [.tryAcquire 22 [97]] := by
  obtain ⟨hrun, hclock, -, hrej, -⟩ := three_attempts
  obtain ⟨hs, h⟩ := guard_counts onePerWindow 0 ((machine onePerWindow).reaches_exec hrun)
  refine ⟨hs, (h 15 [97] _ ?_ (Prod.ext hrej rfl)).2.2 [.tryAcquire 22 [97]] ⟨by decide, trivial⟩⟩
  exact hclock.trans_le (by decide)

/-! The rate window. -/

/-- When connections from an address were admitted. -/
def timesOf (ip : Bytes) (s : Record) : List Int := (s.admitted.filter fun x => x.2 = ip).map Prod.fst

/-- The connections from an address that were admitted from `a` to `a + w`. -/
def admittedIn (w a : Int) (ip : Bytes) (s : Record) : Nat :=
  s.admitted.countP fun x => x.2 = ip ∧ a ≤ x.1 ∧ x.1 ≤ a + w

theorem admittedIn_eq (w a : Int) (ip : Bytes) (s : Record) :
    admittedIn w a ip s = inWindow w a (timesOf ip s) := by
  rw [admittedIn, inWindow, timesOf, List.countP_map, List.countP_filter]
  apply List.countP_congr
  intro x _
  simp [and_comm]

/-- Admissions come in the order of their times, the deques hold what the window needs of
them, and no window holds more than the limit. -/
structure Paced (limits : ConnectionLimits) (s : Record) : Prop where
  sorted : (s.admitted.map Prod.fst).Pairwise (· ≤ ·)
  past : ∀ x ∈ s.admitted, x.1 ≤ s.clock
  window : ∀ t, s.clock ≤ t → ∀ ip, window limits t ip s.guard = prune limits.rateWindow t (timesOf ip s)
  spaced : ∀ ip a, inWindow limits.rateWindow a (timesOf ip s) ≤ limits.maxNewConnectionsPerIp

theorem Paced.timesOf_sorted (h : Paced limits s) (ip : Bytes) : (timesOf ip s).Pairwise (· ≤ ·) :=
  h.sorted.sublist (List.filter_sublist.map _)

theorem Paced.timesOf_past (h : Paced limits s) (ip : Bytes) : ∀ t ∈ timesOf ip s, t ≤ s.clock := by
  intro t ht
  obtain ⟨x, hx, rfl⟩ := List.mem_map.mp ht
  exact h.past x (List.mem_filter.mp hx).1

theorem timesOf_snoc (g : ConnectionGuard) (now : Int) (ip k : Bytes) (s : Record) (live : List Bytes) :
    timesOf k ⟨g, now, s.admitted ++ [(now, ip)], live⟩ = timesOf k s ++ if k = ip then [now] else [] := by
  rw [timesOf, List.filter_append, List.map_append, ← timesOf]
  by_cases hk : k = ip
  · subst hk
    simp
  · simp [hk, Ne.symm hk]

/-- What the deque holds is what lies in the window that ends now. -/
theorem Paced.window_length (h : Paced limits s) (hclock : s.clock ≤ now) (ip : Bytes) :
    (ConnectionGuard.window limits now ip s.guard).length =
      admittedIn limits.rateWindow (now - limits.rateWindow) ip s := by
  rw [h.window now hclock, length_prune (h.timesOf_sorted ip) fun t ht => (h.timesOf_past ip t ht).trans hclock,
    admittedIn_eq, inWindow, sub_add_cancel]

theorem paced_acquired {guard : ConnectionGuard} (hs : Paced limits s) (hm : limits.maxNewConnectionsPerIp ≠ 0)
    (hclock : s.clock ≤ now) (ha : Attempt limits now ip s.guard (true, guard)) :
    Paced limits ⟨guard, now, s.admitted ++ [(now, ip)], ip :: s.live⟩ := by
  cases ha with
  | unlimited _ h0 => exact absurd h0 hm
  | admitted _ hroom =>
    refine ⟨?_, fun x hx => ?_, fun t ht k => ?_, fun k a => ?_⟩
    · rw [List.map_append, List.pairwise_append]
      refine ⟨hs.sorted, List.pairwise_singleton _ _, fun t ht u hu => ?_⟩
      obtain ⟨x, hx, rfl⟩ := List.mem_map.mp ht
      obtain rfl := List.mem_singleton.mp hu
      exact (hs.past x hx).trans hclock
    · rcases List.mem_append.mp hx with hx | hx
      · exact (hs.past x hx).trans hclock
      · obtain rfl := List.mem_singleton.mp hx
        exact Int.le_refl _
    · have hbefore := hs.window t (hclock.trans ht) k
      have hnew := recent_insert ip k (ConnectionGuard.window limits now ip s.guard ++ [now])
        ⟨s.guard.total + 1, s.guard.perIpCount.insert ip (s.guard.count ip + 1), s.guard.perIpRecent⟩
      rw [timesOf_snoc, ConnectionGuard.window, hnew]
      by_cases hk : k = ip
      · subst hk
        rw [if_pos rfl, if_pos rfl]
        apply prune_append_congr
        rw [ConnectionGuard.window, prune_prune ht, ← ConnectionGuard.window, hbefore]
      · rw [if_neg hk, if_neg hk, List.append_nil]
        exact hbefore
    · rw [timesOf_snoc]
      by_cases hk : k = ip
      · subst hk
        rw [if_pos rfl]
        apply inWindow_snoc (hs.spaced k) (hs.timesOf_sorted k) fun t ht => (hs.timesOf_past k t ht).trans hclock
        rwa [← hs.window now hclock]
      · rw [if_neg hk, List.append_nil]
        exact hs.spaced k a

theorem paced_step {e : Event} (hm : limits.maxNewConnectionsPerIp ≠ 0) (hs : Paced limits s)
    (h : step limits s e = some t) : Paced limits t := by
  cases step_cases h with
  | acquired hclock ha ht =>
    subst ht
    exact paced_acquired hs hm hclock ha
  | rejected hclock ha ht =>
    subst ht
    have hsame := same_rejected ha
    refine ⟨hs.sorted, fun x hx => (hs.past x hx).trans hclock, fun t ht k => ?_, hs.spaced⟩
    exact (hsame.window t ht k).trans (hs.window t (hclock.trans ht) k)
  | released _ ht =>
    subst ht
    exact ⟨hs.sorted, hs.past, hs.window, hs.spaced⟩

theorem paced_start (limits : ConnectionLimits) (clock : Int) : Paced limits (start clock) := by
  refine ⟨List.Pairwise.nil, fun x hx => ?_, fun t _ ip => ?_, fun ip a => Nat.zero_le _⟩
  · cases hx
  · rw [window, recent, start, empty, AList.lookup_empty]
    rfl

end
end LightApr.Core.ConnectionGuard
