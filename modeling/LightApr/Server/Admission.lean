import LightApr.Http.SessionEffect
import LightApr.Server.Step

/-! The connection guard against the sessions that exist: when its counters are the
numbers of live sessions. -/
namespace LightApr.Server.Admission
open LightApr.Core Lib Mqtt MqttSession World

variable {cfg : ServerConfig} {now : Int} {i : Nat} {w w' : World} {s : MqttSession}
  {msgs : List (Nat × Bytes × Bytes)} {shared : Shared} {p : TcpSession → Bool} {t t' : TcpSession}

/-- How many sessions of both kinds have the property. -/
def held (p : TcpSession → Bool) (w : World) : Nat :=
  w.mqtt.countP (fun s => p s.tcp) + w.http.countP fun s => p s.tcp

/-- A live session that was admitted for the address. -/
def liveFor (ip : Bytes) (t : TcpSession) : Bool := t.live && decide (t.admitted = ip)

/-- The session releases what it was admitted for, once, when it is closed. -/
structure Place (t : TcpSession) : Prop where
  same : t.peerIp = t.admitted
  released : t.released = if t.closed then [t.admitted] else []
  gone : t.gone = true → t.closed = true

theorem Place.live (h : Place t) : t.live = !t.closed := by
  unfold TcpSession.live
  cases hc : t.closed with
  | true => rfl
  | false =>
    cases hg : t.gone with
    | true => exact nomatch hc.symm.trans (h.gone hg)
    | false => rfl

theorem Place.close (h : Place t) (hopen : t.closed = false) : Place t.close := by
  refine ⟨h.same, ?_, fun _ => rfl⟩
  change t.released ++ [t.peerIp] = [t.admitted]
  rw [h.released, hopen, h.same]
  rfl

/-- The same as far as admission goes. -/
structure Same (t t' : TcpSession) : Prop where
  peerIp : t'.peerIp = t.peerIp
  admitted : t'.admitted = t.admitted
  closed : t'.closed = t.closed
  released : t'.released = t.released
  gone : t'.gone = t.gone

theorem Same.refl (t : TcpSession) : Same t t := ⟨rfl, rfl, rfl, rfl, rfl⟩

theorem Same.place (h : Same t t') (ht : Place t) : Place t' :=
  ⟨by rw [h.peerIp, h.admitted, ht.same], by rw [h.released, h.closed, h.admitted, ht.released],
    fun hg => h.closed.trans (ht.gone (h.gone.symm.trans hg))⟩

theorem Same.live (h : Same t t') : t'.live = t.live := by rw [TcpSession.live, h.closed, h.gone, TcpSession.live]

theorem Same.liveFor (h : Same t t') (ip : Bytes) : liveFor ip t' = liveFor ip t := by
  rw [Admission.liveFor, h.live, h.admitted, Admission.liveFor]

theorem tcp_deliverAll (msgs : List (Nat × Bytes × Bytes)) (s : MqttSession) : (deliverAll msgs s).tcp = s.tcp := by
  obtain ⟨_, _, _, h⟩ := deliverAll_same msgs s
  rw [h]

/-! Counting. -/

/-- One element of a list exchanged, without subtraction. -/
private theorem countP_exchange {α : Type} (p : α → Bool) {l : List α} {i : Nat} {a b : α} (h : l[i]? = some a) :
    (l.set i b).countP p + (if p a then 1 else 0) = l.countP p + if p b then 1 else 0 := by
  obtain ⟨hi, rfl⟩ := List.getElem?_eq_some_iff.mp h
  rw [List.countP_set hi]
  have hle : (if p l[i] then 1 else 0) ≤ l.countP p := by
    split
    · rename_i hp
      exact List.countP_pos_iff.mpr ⟨_, List.getElem_mem hi, hp⟩
    · exact Nat.zero_le _
  omega

theorem held_effect (e : Effect w w' i s msgs shared) (hi : i < w.mqtt.length) (p : TcpSession → Bool) :
    held p w' + (if p (w.session i).tcp then 1 else 0) = held p w + if p s.tcp then 1 else 0 := by
  have hm : (w'.mqtt.countP fun s => p s.tcp) = (w.mqtt.set i s).countP fun s => p s.tcp := by
    rw [e.mqtt, List.countP_map]
    refine List.countP_congr fun t _ => ?_
    rw [Function.comp_apply, tcp_deliverAll]
  have hx := countP_exchange (fun s : MqttSession => p s.tcp) (b := s) (session_eq hi)
  rw [held, held, hm, e.http]
  omega

theorem held_announced {registry : Registry} (ha : w.Announced w' registry msgs) (p : TcpSession → Bool) :
    held p w' = held p w := by
  have hm : (w'.mqtt.countP fun s => p s.tcp) = w.mqtt.countP fun s => p s.tcp := by
    rw [ha.mqtt, List.countP_map]
    refine List.countP_congr fun t _ => ?_
    rw [Function.comp_apply, tcp_deliverAll]
  rw [held, held, hm, ha.http]

theorem held_http {j : Nat} {a b : Http.HttpSession} (h : w.http[j]? = some a) (shared : Shared)
    (p : TcpSession → Bool) :
    held p { w with shared, http := w.http.set j b } + (if p a.tcp then 1 else 0) =
      held p w + if p b.tcp then 1 else 0 := by
  have hx := countP_exchange (fun s : Http.HttpSession => p s.tcp) (b := b) h
  rw [held, held]
  dsimp only
  omega

/-- A live session in a count for its address, replaced by one that is not live. -/
private theorem count_released {a b : TcpSession} (hlive : a.live = true) (hdead : b.live = false) {ip : Bytes}
    {before after : Nat} (h : after + (if liveFor ip a then 1 else 0) = before + if liveFor ip b then 1 else 0) :
    before - (if ip = a.admitted then 1 else 0) = after := by
  rw [liveFor, liveFor, hlive, hdead] at h
  by_cases hip : ip = a.admitted
  · rw [if_pos hip]
    simp only [hip.symm, Bool.true_and, decide_true, if_true, Bool.false_and, Bool.false_eq_true, if_false] at h
    omega
  · rw [if_neg hip]
    simp only [Ne.symm hip, Bool.true_and, decide_false, Bool.false_and, Bool.false_eq_true, if_false] at h
    omega

/-! The invariant. -/

/-- Every session has its place, an open HTTP session has an operation pending, and the
counters of the guard are the numbers of live sessions. -/
structure Ledger (w : World) : Prop where
  mqtt : All (fun _ s => Place s.tcp) w
  http : ∀ (j : Nat) (s : Http.HttpSession), w.http[j]? = some s → Place s.tcp ∧ s.Busy
  total : w.shared.guard.total = held TcpSession.live w
  perIp : ∀ ip, w.shared.guard.count ip = held (liveFor ip) w

/-- A step of session `i` that leaves its place and the guard alone. -/
theorem Ledger.same (hw : Ledger w) (hi : i < w.mqtt.length) (e : Effect w w' i s msgs shared)
    (hg : shared.guard = w.shared.guard) (hs : Same (w.session i).tcp s.tcp) : Ledger w' where
  mqtt := hw.mqtt.effect e (fun _ t h => (tcp_deliverAll msgs t).symm ▸ h) fun _ => hs.place (hw.mqtt.session hi)
  http := e.http ▸ hw.http
  total := by
    have h := held_effect e hi TcpSession.live
    rw [hs.live] at h
    rw [e.shared, hg, hw.total]
    omega
  perIp ip := by
    have h := held_effect e hi (liveFor ip)
    rw [hs.liveFor] at h
    rw [e.shared, hg, hw.perIp]
    omega

/-- An open session that closes releases its place. -/
theorem Ledger.close (hw : Ledger w) (hi : i < w.mqtt.length) (hopen : (w.session i).tcp.closed = false)
    {registry : Registry} (e : Effect w w' i (w.session i).markClosed msgs
      ⟨registry, w.shared.guard.release (w.session i).tcp.peerIp⟩) : Ledger w' := by
  have hp := hw.mqtt.session hi
  have hlive : (w.session i).tcp.live = true := by rw [hp.live, hopen]; rfl
  have hdead : (w.session i).markClosed.tcp.live = false := rfl
  obtain ⟨htotal, hcount⟩ := ConnectionGuard.release_counts (w.session i).tcp.peerIp w.shared.guard
  refine ⟨?_, e.http ▸ hw.http, ?_, fun ip => ?_⟩
  · exact hw.mqtt.effect e (fun _ t h => (tcp_deliverAll msgs t).symm ▸ h) fun _ => hp.close hopen
  · have h := held_effect e hi TcpSession.live
    rw [hlive, hdead] at h
    rw [e.shared, htotal, hw.total]
    simp only [if_true, Bool.false_eq_true, if_false] at h
    omega
  · have h := held_effect e hi (liveFor ip)
    rw [e.shared, hcount, hw.perIp, hp.same]
    exact count_released hlive hdead h

theorem ledger_act (hi : i < w.mqtt.length) (hw : Ledger w) (h : Act cfg now i w w') : Ledger w' := by
  cases h with
  | own ho e =>
    refine hw.same hi e rfl ?_
    cases ho <;> exact .refl _
  | relay _ e | publishMeta _ _ _ e | publishExtra _ _ _ e => exact hw.same hi e rfl ⟨rfl, rfl, rfl, rfl, rfl⟩
  | close hopen _ e => exact hw.close hi hopen e

/-- A new session takes the place that the guard has just given out. -/
theorem Ledger.accepted {guard : ConnectionGuard} {ip : Bytes} (hw : Ledger w)
    (hg : w.shared.guard.total + 1 = guard.total ∧
      ∀ k, guard.count k = w.shared.guard.count k + if k = ip then 1 else 0)
    (hw' : w'.shared.guard = guard) (hheld : ∀ p, held p w' = held p w + if p t then 1 else 0)
    (hlive : t.live = true) (hip : t.admitted = ip) (hm : All (fun _ s => Place s.tcp) w')
    (hh : ∀ (j : Nat) (s : Http.HttpSession), w'.http[j]? = some s → Place s.tcp ∧ s.Busy) : Ledger w' where
  mqtt := hm
  http := hh
  total := by rw [hw', ← hg.1, hw.total, hheld, hlive, if_pos rfl]
  perIp k := by
    rw [hw', hg.2, hw.perIp, hheld, liveFor, hlive, hip]
    by_cases hk : k = ip
    · simp [hk]
    · simp [hk, Ne.symm hk]

/-- A handler of an HTTP session. -/
theorem Ledger.handled {j : Nat} {a b : Http.HttpSession} {flow : Flow} (hw : Ledger w) (ha : w.http[j]? = some a)
    (he : Http.HttpSession.HandleEffect cfg.registry a w.shared b shared flow)
    (hdone : a.tcp.closed = false → flow = .done) :
    Ledger { w with shared, http := w.http.set j b } := by
  obtain ⟨hp, hb⟩ := hw.http j a ha
  have hbusy : b.Busy := by
    cases hc : a.tcp.closed with
    | false => exact he.busy (hdone hc) hb
    | true =>
      rcases he.place with ⟨hcl, -, -⟩ | ⟨hopen, -⟩
      · exact .inl (hcl.trans hc)
      · exact nomatch hc.symm.trans hopen
  have hhttp (hplace : Place b.tcp) (k : Nat) (s : Http.HttpSession) (hs : (w.http.set j b)[k]? = some s) :
      Place s.tcp ∧ s.Busy := by
    obtain ⟨-, rfl, -⟩ | ⟨-, hs⟩ := getElem?_set_some hs
    · exact ⟨hplace, hbusy⟩
    · exact hw.http k s hs
  rcases he.place with ⟨hcl, hrel, hguard⟩ | ⟨hopen, hcl, hrel, hguard⟩
  · have hs : Same a.tcp b.tcp := ⟨he.peerIp, he.admitted, hcl, hrel, he.gone⟩
    refine ⟨hw.mqtt, hhttp (hs.place hp), ?_, fun ip => ?_⟩
    · have h := held_http (b := b) ha shared TcpSession.live
      rw [hs.live] at h
      change shared.guard.total = _
      rw [hguard, hw.total]
      omega
    · have h := held_http (b := b) ha shared (liveFor ip)
      rw [hs.liveFor] at h
      change shared.guard.count ip = _
      rw [hguard, hw.perIp]
      omega
  · have hplace : Place b.tcp := by
      refine ⟨by rw [he.peerIp, he.admitted, hp.same], ?_, fun _ => hcl⟩
      rw [hrel, hp.released, hopen, hcl, he.admitted, hp.same]
      rfl
    have hlive : a.tcp.live = true := by rw [hp.live, hopen]; rfl
    have hdead : b.tcp.live = false := by rw [hplace.live, hcl]; rfl
    obtain ⟨htotal, hcount⟩ := ConnectionGuard.release_counts a.tcp.peerIp w.shared.guard
    refine ⟨hw.mqtt, hhttp hplace, ?_, fun ip => ?_⟩
    · have h := held_http (b := b) ha shared TcpSession.live
      rw [hlive, hdead] at h
      change shared.guard.total = _
      rw [hguard, htotal, hw.total]
      simp only [if_true, Bool.false_eq_true, if_false] at h
      omega
    · have h := held_http (b := b) ha shared (liveFor ip)
      change shared.guard.count ip = _
      rw [hguard, hcount, hw.perIp, hp.same]
      exact count_released hlive hdead h

/-! Runs. -/

/-- The second query of a connection's address answers like the first. -/
def SameAddress (remote : Option Address) (again : Bool) : Prop :=
  (if again then remote.map Address.text else none).getD [] = (remote.map Address.text).getD []

/-- The guard lets the connection in. -/
def Admits (cfg : ServerConfig) (w : World) (steady : Int) (remote : Option Address) : Prop :=
  (w.shared.guard.tryAcquire cfg.limits steady ((remote.map Address.text).getD [])).1 = true

/-- A step in which no admitted connection loses its address between the two queries,
and no handler of an open HTTP session is left by an exception. -/
def Safe (cfg : ServerConfig) (w : World) : World.Event → Prop
  | .acceptMqtt _ steady remote again | .acceptHttp steady remote again =>
    Admits cfg w steady remote → SameAddress remote again
  | .http i e => ∀ s ∈ w.http[i]?, s.tcp.closed = false →
    ∀ x ∈ s.handle cfg.http cfg.httpLimits w.shared e, x.2.2 = .done
  | _ => True

/-- What the listeners construct. -/
def newPlace (remote : Option Address) (again : Bool) : TcpSession :=
  (TcpSession.new ((remote.map Address.text).getD []) (if again then remote.map Address.text else none)).startReadLoop

theorem place_new {remote : Option Address} {again : Bool} (h : SameAddress remote again) :
    Place (newPlace remote again) := ⟨h, rfl, fun hg => Bool.noConfusion hg⟩

theorem gone_dead (h : t.closed = true) : { t with gone := true : TcpSession }.live = false ∧ t.live = false := by
  simp [TcpSession.live, h]

theorem Place.markGone (ht : Place t) (h : t.closed = true) : Place { t with gone := true } :=
  ⟨ht.same, ht.released, fun _ => h⟩

theorem ledger_preserved (cfg : ServerConfig) : Preserved cfg (Safe cfg) Ledger where
  rejected {w _ _ _} hw hg := by
    obtain ⟨ht, hc⟩ := ConnectionGuard.tryAcquire_refused hg
    exact ⟨hw.mqtt, hw.http, ht.trans hw.total, fun ip => (hc ip).trans (hw.perIp ip)⟩
  acceptedMqtt {w _ _ remote again _} hw hc hg := by
    have hadmits := congrArg Prod.fst hg
    obtain ⟨ht, hcount⟩ := ConnectionGuard.tryAcquire_admitted hg
    refine hw.accepted (t := newPlace remote again) ⟨ht.symm, hcount⟩ rfl (fun p => ?_) rfl rfl ?_ hw.http
    · simp only [held, List.countP_append, List.countP_singleton]
      rw [Nat.add_right_comm]
      rfl
    · exact hw.mqtt.append rfl (place_new (hc hadmits)) rfl
  acceptedHttp {w _ remote again _} hw hc hg := by
    have hadmits := congrArg Prod.fst hg
    obtain ⟨ht, hcount⟩ := ConnectionGuard.tryAcquire_admitted hg
    refine hw.accepted (t := newPlace remote again) ⟨ht.symm, hcount⟩ rfl (fun p => ?_) rfl rfl hw.mqtt
      fun j s hs => ?_
    · simp only [held, List.countP_append, List.countP_singleton]
      rw [Nat.add_assoc]
      rfl
    · rcases getElem?_snoc hs with hs | ⟨rfl, rfl⟩
      · exact hw.http j s hs
      · exact ⟨place_new (hc hadmits), .inr (.inl (List.cons_ne_nil _ _))⟩
  act hi hw h := ledger_act hi hw h
  input hi hw hin e := by
    obtain ⟨_, _, _, _, _, _, _, rfl, -⟩ := hin
    exact hw.same hi e rfl ⟨rfl, rfl, rfl, rfl, rfl⟩
  packet hi hw e := hw.same hi e rfl ⟨rfl, rfl, rfl, rfl, rfl⟩
  transferred _ hi hw _ _ _ := hw.same hi (.ofUpdate _) rfl ⟨rfl, rfl, rfl, rfl, rfl⟩
  http ha hw hc h := hw.handled ha (Http.HttpSession.handle_effect h) fun hopen => hc _ ha hopen _ h
  destroyedMqtt {w i} hi hw hcl := by
    have e : Effect w (w.update i markGone) i (markGone (w.session i)) [] w.shared := .ofUpdate markGone
    obtain ⟨hdead', hdead⟩ := gone_dead hcl
    refine ⟨?_, hw.http, ?_, fun ip => ?_⟩
    · exact hw.mqtt.effect e (fun _ t h => (tcp_deliverAll _ t).symm ▸ h) fun _ => (hw.mqtt.session hi).markGone hcl
    · have h := held_effect e hi TcpSession.live
      rw [hdead, markGone, hdead'] at h
      exact hw.total.trans (Nat.add_right_cancel h).symm
    · have h := held_effect e hi (liveFor ip)
      rw [liveFor, liveFor, hdead, markGone, hdead'] at h
      exact (hw.perIp ip).trans (Nat.add_right_cancel h).symm
  destroyedHttp {w i s} hs hw hu := by
    obtain ⟨hp, hb⟩ := hw.http i s hs
    -- nothing is pending, so the session is closed
    have hcl : s.tcp.closed = true := by
      simp only [unreferenced, Bool.and_eq_true, beq_iff_eq, List.isEmpty_iff, List.length_eq_zero_iff] at hu
      rcases hb with hcl | hr | hwr
      · exact hcl
      · exact absurd hu.1.1.2 hr
      · exact absurd hu.2 hwr
    obtain ⟨hdead', hdead⟩ := gone_dead hcl
    refine ⟨hw.mqtt, fun j t ht => ?_, ?_, fun ip => ?_⟩
    · obtain ⟨-, rfl, -⟩ | ⟨-, ht⟩ := getElem?_set_some ht
      · exact ⟨hp.markGone hcl, .inl hcl⟩
      · exact hw.http j t ht
    · have h := held_http (b := { s with tcp := { s.tcp with gone := true } }) hs w.shared TcpSession.live
      rw [hdead, hdead'] at h
      exact hw.total.trans (Nat.add_right_cancel h).symm
    · have h := held_http (b := { s with tcp := { s.tcp with gone := true } }) hs w.shared (liveFor ip)
      rw [liveFor, liveFor, hdead, hdead'] at h
      exact (hw.perIp ip).trans (Nat.add_right_cancel h).symm
  removed {w w' _} hw ha := by
    refine ⟨hw.mqtt.announced ha fun _ t h => (tcp_deliverAll _ t).symm ▸ h, ha.http ▸ hw.http, ?_, fun ip => ?_⟩
    · rw [ha.shared, held_announced ha]
      exact hw.total
    · rw [ha.shared, held_announced ha]
      exact hw.perIp ip

theorem ledger_init (cfg : ServerConfig) : Ledger (init cfg) :=
  ⟨fun _ _ h => (nomatch h), fun _ _ h => (nomatch h), rfl, fun _ => rfl⟩

/-- The sockets of all sessions, of both kinds. -/
def sockets (w : World) : List TcpSession := w.mqtt.map MqttSession.tcp ++ w.http.map Http.HttpSession.tcp

/-- The counters of the guard are the numbers of live sessions, and a session that is gone
has released the address it was admitted for, once. -/
structure Matched (w : World) : Prop where
  total : w.shared.guard.total = (sockets w).countP TcpSession.live
  perIp : ∀ ip, w.shared.guard.count ip = (sockets w).countP (liveFor ip)
  released : ∀ t ∈ sockets w, t.gone = true → t.released = [t.admitted]

theorem countP_sockets (p : TcpSession → Bool) (w : World) : (sockets w).countP p = held p w := by
  rw [sockets, List.countP_append, List.countP_map, List.countP_map]
  rfl

theorem Ledger.matched (h : Ledger w) : Matched w where
  total := by rw [countP_sockets, h.total]
  perIp ip := by rw [countP_sockets, h.perIp]
  released t ht hg := by
    have hp : Place t := by
      rcases List.mem_append.mp ht with hm | hm
      · obtain ⟨s, hs, rfl⟩ := List.mem_map.mp hm
        obtain ⟨j, hj⟩ := List.getElem?_of_mem hs
        exact h.mqtt j s hj
      · obtain ⟨s, hs, rfl⟩ := List.mem_map.mp hm
        obtain ⟨j, hj⟩ := List.getElem?_of_mem hs
        exact (h.http j s hj).1
    rw [hp.released, hp.gone hg]
    rfl

/-- **In every run of safe steps each admitted connection is released exactly once and for
its own address, and the counters of the guard are the numbers of live sessions.** -/
theorem guard_matches_sessions (cfg : ServerConfig) {es : List World.Event} {w : World}
    (hrun : (machine cfg).Run (Safe cfg) (init cfg) es w) : Matched w :=
  ((ledger_preserved cfg).run (ledger_init cfg) hrun).matched

private def limited : ServerConfig := { oneListener with httpLimits := ⟨1048576, 0⟩, limits := ⟨100, 10, 0, 0⟩ }

private def loopback : Address := ⟨ascii "127.0.0.1", by decide +kernel⟩

private def visits : List World.Event :=
  [.acceptMqtt 0 0 (some loopback) true, .acceptHttp 0 (some loopback) true, .mqtt 0 0 .readFailed]

theorem guard_matches_visits :
    Matched (((machine limited).exec (init limited) visits).getD (init limited)) := by
  have hreaches : (machine limited).Reaches (init limited) visits _ :=
    (machine limited).reaches_exec (by decide +kernel)
  refine guard_matches_sessions limited (.of_events hreaches fun e he m => ?_)
  simp only [visits, List.mem_cons, List.not_mem_nil, or_false] at he
  rcases he with rfl | rfl | rfl
  · exact fun _ => rfl
  · exact fun _ => rfl
  · exact trivial

/-- The peer has gone before the session is constructed. -/
private def resetVisit : List World.Event := [.acceptMqtt 0 0 (some loopback) false, .mqtt 0 0 .readFailed]

/-- The address stays counted for good. -/
theorem address_counted_after_reset : ¬ ∀ (cfg : ServerConfig) (es : List World.Event) (w : World),
    (machine cfg).Reaches (init cfg) es w → Matched w := by
  intro h
  have hm := h limited resetVisit _ ((machine limited).reaches_exec (by decide +kernel))
  have hcount : (((machine limited).exec (init limited) resetVisit).getD
      (init limited)).shared.guard.count (ascii "127.0.0.1") = 1 := by decide +kernel
  have hlive : (sockets (((machine limited).exec (init limited) resetVisit).getD
      (init limited))).countP (liveFor (ascii "127.0.0.1")) = 0 := by decide +kernel
  exact nomatch hcount.symm.trans ((hm.perIp _).trans hlive)

end LightApr.Server.Admission
