import LightApr.Core.Table

/-! Connection limits shared by all listeners. -/
namespace LightApr.Core

structure ConnectionLimits where
  /-- 0 means unlimited in each of the three -/
  maxTotalConnections : Nat
  maxConnectionsPerIp : Nat
  maxNewConnectionsPerIp : Nat
  rateWindow : Int

structure ConnectionGuard where
  total : Nat
  perIpCount : Table Nat
  perIpRecent : Table (List Int)

namespace ConnectionGuard

def empty : ConnectionGuard := ⟨0, ∅, ∅⟩

/-- `per_ip_count_[ip]`, 0 when the address has no entry. -/
def count (g : ConnectionGuard) (ip : Bytes) : Nat := (g.perIpCount.lookup ip).getD 0

/-- The rate limit: old entries leave the deque; none: the limit is reached. The
deque is stored either way. -/
def admitRecent (limits : ConnectionLimits) (now : Int) (ip : Bytes) (g : ConnectionGuard) :
    Bool × ConnectionGuard :=
  if limits.maxNewConnectionsPerIp = 0 then (true, g)
  else
    let recent := ((g.perIpRecent.lookup ip).getD []).dropWhile fun t => now - t > limits.rateWindow
    if limits.maxNewConnectionsPerIp ≤ recent.length then
      (false, { g with perIpRecent := g.perIpRecent.insert ip recent })
    else (true, { g with perIpRecent := g.perIpRecent.insert ip (recent ++ [now]) })

def tryAcquire (limits : ConnectionLimits) (now : Int) (ip : Bytes) (g : ConnectionGuard) :
    Bool × ConnectionGuard :=
  if limits.maxTotalConnections > 0 ∧ g.total ≥ limits.maxTotalConnections then (false, g)
  else if limits.maxConnectionsPerIp > 0 ∧ g.count ip ≥ limits.maxConnectionsPerIp then (false, g)
  else
    let (admitted, g) := g.admitRecent limits now ip
    if admitted then
      (true, { g with total := g.total + 1, perIpCount := g.perIpCount.insert ip (g.count ip + 1) })
    else (false, g)

def release (ip : Bytes) (g : ConnectionGuard) : ConnectionGuard :=
  { g with
    total := g.total - 1
    perIpCount :=
      match g.perIpCount.lookup ip with
      | none => g.perIpCount
      | some n => if n - 1 = 0 then g.perIpCount.erase ip else g.perIpCount.insert ip (n - 1) }

private theorem admitRecent_same (limits : ConnectionLimits) (now : Int) (ip : Bytes) (g : ConnectionGuard) :
    (g.admitRecent limits now ip).2.total = g.total ∧
      (g.admitRecent limits now ip).2.perIpCount = g.perIpCount := by
  unfold admitRecent
  dsimp only
  split
  · exact ⟨rfl, rfl⟩
  · split <;> exact ⟨rfl, rfl⟩

/-- An admitted connection is counted once, in total and under its address. -/
theorem tryAcquire_admitted {limits : ConnectionLimits} {now : Int} {ip : Bytes} {g g' : ConnectionGuard}
    (h : g.tryAcquire limits now ip = (true, g')) :
    g'.total = g.total + 1 ∧ ∀ k, g'.count k = g.count k + if k = ip then 1 else 0 := by
  obtain ⟨ht, hc⟩ := admitRecent_same limits now ip g
  unfold tryAcquire at h
  split at h
  · exact nomatch h
  · split at h
    · exact nomatch h
    · dsimp only at h
      split at h
      · obtain ⟨-, rfl⟩ := Prod.mk.inj h
        refine ⟨by simp [ht], fun k => ?_⟩
        by_cases hk : k = ip
        · subst hk
          simp [count, hc]
        · simp [count, hc, hk, AList.lookup_insert_ne hk]
      · exact nomatch h

/-- A refused connection is not counted. -/
theorem tryAcquire_refused {limits : ConnectionLimits} {now : Int} {ip : Bytes} {g g' : ConnectionGuard}
    (h : g.tryAcquire limits now ip = (false, g')) : g'.total = g.total ∧ ∀ k, g'.count k = g.count k := by
  obtain ⟨ht, hc⟩ := admitRecent_same limits now ip g
  unfold tryAcquire at h
  split at h
  · obtain ⟨-, rfl⟩ := Prod.mk.inj h
    exact ⟨rfl, fun _ => rfl⟩
  · split at h
    · obtain ⟨-, rfl⟩ := Prod.mk.inj h
      exact ⟨rfl, fun _ => rfl⟩
    · dsimp only at h
      split at h
      · exact nomatch h
      · obtain ⟨-, rfl⟩ := Prod.mk.inj h
        exact ⟨ht, fun k => by simp [count, hc]⟩

/-- A release takes one off the total and one off the count of its address. -/
theorem release_counts (ip : Bytes) (g : ConnectionGuard) :
    (g.release ip).total = g.total - 1 ∧
      ∀ k, (g.release ip).count k = g.count k - if k = ip then 1 else 0 := by
  refine ⟨rfl, fun k => ?_⟩
  unfold release count
  dsimp only
  cases hl : g.perIpCount.lookup ip with
  | none =>
    by_cases hk : k = ip
    · subst hk
      simp [hl]
    · simp [hk]
  | some n =>
    by_cases hk : k = ip
    · subst hk
      by_cases hn : n - 1 = 0
      · simp [hn, hl, AList.lookup_erase]
      · simp [hn, hl, AList.lookup_insert]
    · by_cases hn : n - 1 = 0
      · simp [hn, hk, AList.lookup_erase_ne hk]
      · simp [hn, hk, AList.lookup_insert_ne hk]

end ConnectionGuard
end LightApr.Core
