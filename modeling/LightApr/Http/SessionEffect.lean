import LightApr.Http.RouteTotality
import LightApr.Http.Session

/-! What a completion on an HTTP session does to the shared state, and to the place that
the session holds in the connection guard. -/
namespace LightApr.Http.HttpSession
open LightApr.Core

/-- The session is closed, or a completion is still to come. -/
def Busy (s : HttpSession) : Prop := s.tcp.closed = true ∨ s.tcp.reads ≠ [] ∨ s.writes ≠ []

structure HandleEffect (cfg : RegistryConfig) (s : HttpSession) (sh : Shared) (s' : HttpSession) (sh' : Shared)
    (flow : Flow) : Prop where
  registry : Resolves cfg sh.registry sh'.registry
  admitted : s'.tcp.admitted = s.tcp.admitted
  peerIp : s'.tcp.peerIp = s.tcp.peerIp
  gone : s'.tcp.gone = s.tcp.gone
  /-- the place is kept, or released in this very step -/
  place : (s'.tcp.closed = s.tcp.closed ∧ s'.tcp.released = s.tcp.released ∧ sh'.guard = sh.guard) ∨
    (s.tcp.closed = false ∧ s'.tcp.closed = true ∧ s'.tcp.released = s.tcp.released ++ [s.tcp.peerIp] ∧
      sh'.guard = sh.guard.release s.tcp.peerIp)
  busy : flow = .done → Busy s → Busy s'

variable {cfg : HttpConfig} {limits : HttpLimits} {env : Readings} {s : HttpSession} {sh : Shared}

/-- Two sessions that differ in nothing the guard sees. -/
structure SamePlace (s t : HttpSession) : Prop where
  admitted : t.tcp.admitted = s.tcp.admitted
  peerIp : t.tcp.peerIp = s.tcp.peerIp
  gone : t.tcp.gone = s.tcp.gone
  closed : t.tcp.closed = s.tcp.closed
  released : t.tcp.released = s.tcp.released

private theorem effect_kept {t : HttpSession} (h : SamePlace s t) (registry : Registry)
    (hn : Resolves cfg.registry sh.registry registry) {flow : Flow} (hb : flow = .done → Busy s → Busy t) :
    HandleEffect cfg.registry s sh t { sh with registry } flow :=
  ⟨hn, h.admitted, h.peerIp, h.gone, .inl ⟨h.closed, h.released, rfl⟩, hb⟩

private theorem effect_close {t s' : HttpSession} {sh' : Shared} {flow : Flow} (h : SamePlace s t)
    (hc : t.close sh = (s', sh', flow)) : HandleEffect cfg.registry s sh s' sh' flow := by
  obtain ⟨rfl, rfl, rfl⟩ : (t.closeSession sh).1 = s' ∧ (t.closeSession sh).2 = sh' ∧ .done = flow := by
    simpa [close] using hc
  unfold closeSession
  split
  · rename_i hc
    exact effect_kept h sh.registry (.inl rfl) fun _ _ => .inl hc
  · rename_i hc
    have hopen : s.tcp.closed = false := by
      rw [← h.closed]
      simpa using hc
    refine ⟨.inl rfl, h.admitted, h.peerIp, h.gone, .inr ⟨hopen, rfl, ?_, ?_⟩, fun _ _ => .inl rfl⟩
    · exact congrArg₂ (fun l x => l ++ [x]) h.released h.peerIp
    · exact congrArg (fun ip => sh.guard.release ip) h.peerIp

private theorem effect_process {t s' : HttpSession} {sh' : Shared} {flow : Flow} (h : SamePlace s t)
    (hp : t.tryProcessNextRequest cfg limits env sh = (s', sh', flow)) :
    HandleEffect cfg.registry s sh s' sh' flow := by
  obtain ⟨h1, h2, h3, h4, h5⟩ := h
  unfold tryProcessNextRequest at hp
  split at hp
  · obtain ⟨rfl, rfl, rfl⟩ : _ = s' ∧ sh = sh' ∧ .done = flow := by simpa using hp
    refine effect_kept ?_ sh.registry (.inl rfl) fun _ _ => .inr (.inl ?_)
    · exact ⟨h1, h2, h3, h4, h5⟩
    · simp [TcpSession.startReadLoop]
  · rename_i boundary hb
    have hn := resolves_routeRequest cfg { env with connections := sh.guard.total }
      (parseRawHttp cfg.registry.order (t.requestAcc.data.take boundary)) sh.registry
    dsimp only at hp
    split at hp
    · rename_i registry hr
      obtain ⟨rfl, rfl, rfl⟩ : _ = s' ∧ _ = sh' ∧ .threw = flow := by simpa using hp
      rw [hr] at hn
      refine effect_kept ?_ _ hn fun ht => nomatch ht
      exact ⟨h1, h2, h3, h4, h5⟩
    · rename_i res registry hr
      obtain ⟨rfl, rfl, rfl⟩ : _ = s' ∧ _ = sh' ∧ .done = flow := by simpa using hp
      rw [hr] at hn
      refine effect_kept ?_ _ hn fun _ _ => .inr (.inr ?_)
      · exact ⟨h1, h2, h3, h4, h5⟩
      · simp

theorem handle_effect {e : Event} {s' : HttpSession} {sh' : Shared} {flow : Flow}
    (h : s.handle cfg limits sh e = some (s', sh', flow)) : HandleEffect cfg.registry s sh s' sh' flow := by
  cases e with
  | read env data =>
    simp only [handle] at h
    split at h
    · replace h := Option.some.inj h
      unfold onBytesRead at h
      dsimp only at h
      split at h
      · exact effect_close (by exact ⟨rfl, rfl, rfl, rfl, rfl⟩) h
      · exact effect_process (by exact ⟨rfl, rfl, rfl, rfl, rfl⟩) h
    · exact nomatch h
  | readFailed =>
    simp only [handle] at h
    split at h
    · exact nomatch h
    · exact effect_close (by exact ⟨rfl, rfl, rfl, rfl, rfl⟩) (Option.some.inj h)
  | idleExpired =>
    simp only [handle] at h
    split at h
    · exact nomatch h
    · exact effect_close (by exact ⟨rfl, rfl, rfl, rfl, rfl⟩) (Option.some.inj h)
  | waitCanceled =>
    simp only [handle] at h
    split at h
    · exact nomatch h
    · obtain ⟨rfl, rfl, rfl⟩ : _ = s' ∧ sh = sh' ∧ .done = flow := by simpa using h
      exact effect_kept (by exact ⟨rfl, rfl, rfl, rfl, rfl⟩) sh.registry (.inl rfl) fun _ hb => hb
  | written env ok =>
    simp only [handle] at h
    split at h
    · exact nomatch h
    · replace h := Option.some.inj h
      unfold onWritten at h
      split at h
      · exact effect_close (by exact ⟨rfl, rfl, rfl, rfl, rfl⟩) h
      · exact effect_process (by exact ⟨rfl, rfl, rfl, rfl, rfl⟩) h

end LightApr.Http.HttpSession
