import LightApr.Server.Handlers

/-! One event of the process, taken apart, and rules for properties of all sessions. -/
namespace LightApr.Server
open LightApr.Core Lib Mqtt MqttSession World

/-- The removals of a sweep, each announced. -/
inductive Sweep (cfg : ServerConfig) : World → World → Prop
  | none (w : World) : Sweep cfg w w
  | remove {w w₁ w₂ : World} {id : Bytes} :
      w.Announced w₁ (w.shared.registry.removeNodePermanently cfg.registry id).1
        (eventMessages cfg (w.shared.registry.removeNodePermanently cfg.registry id)) → Sweep cfg w₁ w₂ →
      Sweep cfg w w₂

theorem sweep_removeExpired (cfg : ServerConfig) (ids : List Bytes) (w : World) :
    Sweep cfg w (w.removeExpired cfg ids) := by
  induction ids generalizing w with
  | nil => exact .none w
  | cons id rest ih =>
    rw [removeExpired]
    obtain ⟨⟨w1, flow⟩, hw⟩ : ∃ x, w.mutate cfg (w.shared.registry.removeNodePermanently cfg.registry id) = x :=
      ⟨_, rfl⟩
    obtain ⟨hm, -⟩ := mutate_effect hw
    rw [hw]
    cases flow with
    | threw => exact .remove hm (.none _)
    | done => exact .remove hm (ih w1)

/-- The session a listener creates. -/
def accepted (server : Nat) (remote : Option Address) (again : Bool) : MqttSession :=
  (MqttSession.new server ((remote.map Address.text).getD [])
    (if again then remote.map Address.text else none)).startReadLoop

def acceptedHttp (remote : Option Address) (again : Bool) : Http.HttpSession :=
  (Http.HttpSession.new ((remote.map Address.text).getD [])
    (if again then remote.map Address.text else none)).start

def markGone (s : MqttSession) : MqttSession := { s with tcp := { s.tcp with gone := true } }

/-- What each event does. -/
inductive Stepped (cfg : ServerConfig) (w w' : World) : World.Event → Prop
  | rejected {e : World.Event} {steady : Int} {ip : Bytes} {guard : ConnectionGuard} :
      (∃ server remote again, e = .acceptMqtt server steady remote again) ∨
        (∃ remote again, e = .acceptHttp steady remote again) →
      w.shared.guard.tryAcquire cfg.limits steady ip = (false, guard) → w' = w.setGuard guard →
      Stepped cfg w w' e
  | acceptedMqtt {server : Nat} {steady : Int} {remote : Option Address} {again : Bool} {guard : ConnectionGuard} :
      w.shared.guard.tryAcquire cfg.limits steady ((remote.map Address.text).getD []) = (true, guard) →
      w' = { w.setGuard guard with mqtt := w.mqtt ++ [accepted server remote again] } →
      Stepped cfg w w' (.acceptMqtt server steady remote again)
  | acceptedHttp {steady : Int} {remote : Option Address} {again : Bool} {guard : ConnectionGuard} :
      w.shared.guard.tryAcquire cfg.limits steady ((remote.map Address.text).getD []) = (true, guard) →
      w' = { w.setGuard guard with http := w.http ++ [acceptedHttp remote again] } →
      Stepped cfg w w' (.acceptHttp steady remote again)
  | moved {now : Int} {i : Nat} {e : MqttEvent} : i < w.mqtt.length → Trace cfg now i w w' →
      Stepped cfg w w' (.mqtt now i e)
  | transferred {now : Int} {i k n : Nat} : i < w.mqtt.length → (w.session i).tcp.closed = false →
      (w.session i).out.CanTransfer k n →
      w' = w.setSession i { w.session i with out := (w.session i).out.transfer k n } →
      Stepped cfg w w' (.mqtt now i (.transferred k n))
  | http {i : Nat} {e : Http.HttpSession.Event} {s s' : Http.HttpSession} {shared : Shared} {flow : Flow} :
      w.http[i]? = some s → s.handle cfg.http cfg.httpLimits w.shared e = some (s', shared, flow) →
      w' = { w with shared, http := w.http.set i s' } → Stepped cfg w w' (.http i e)
  | destroyedMqtt {now : Int} {i : Nat} {w₁ : World} : i < w.mqtt.length → w₁ = (w.closeSession cfg now i).1 →
      w' = w₁.update i markGone → Stepped cfg w w' (.destroyMqtt now i)
  | destroyedHttp {i : Nat} {s : Http.HttpSession} : w.http[i]? = some s →
      unreferenced s.tcp s.writes.length = true →
      w' = { w with http := w.http.set i { s with tcp := { s.tcp with gone := true } } } →
      Stepped cfg w w' (.destroyHttp i)
  | swept {now : Int} : Sweep cfg w w' → Stepped cfg w w' (.sweep now)

variable {cfg : ServerConfig} {w w' : World}

theorem step_cases {e : World.Event} (h : w.step cfg e = some w') : Stepped cfg w w' e := by
  cases e with
  | acceptMqtt server steady remote again =>
    simp only [step] at h
    split at h
    · obtain rfl := Option.some.inj h
      unfold World.acceptMqtt
      dsimp only
      split
      · rename_i guard hg
        exact .rejected (.inl ⟨_, _, _, rfl⟩) hg rfl
      · rename_i guard hg
        exact .acceptedMqtt hg rfl
    · exact nomatch h
  | acceptHttp steady remote again =>
    obtain rfl := Option.some.inj h
    unfold World.acceptHttp
    dsimp only
    split
    · rename_i guard hg
      exact .rejected (.inr ⟨_, _, rfl⟩) hg rfl
    · rename_i guard hg
      exact .acceptedHttp hg rfl
  | mqtt now i e =>
    obtain ⟨s, hs, h⟩ := Option.bind_eq_some_iff.mp h
    obtain ⟨rfl, hi⟩ := session_of_get hs
    rcases trace_onMqtt hs h with ht | ⟨k, n, rfl, hc, hn, he⟩
    · exact .moved hi ht
    · exact .transferred hi hc hn he
  | http i e =>
    obtain ⟨s, hs, h⟩ := Option.bind_eq_some_iff.mp h
    obtain ⟨⟨s', shared, flow⟩, hx, rfl⟩ := Option.map_eq_some_iff.mp h
    exact .http hs hx rfl
  | destroyMqtt now i =>
    obtain ⟨s, hs, h⟩ := Option.bind_eq_some_iff.mp h
    obtain ⟨rfl, hi⟩ := session_of_get hs
    split at h
    · obtain rfl := Option.some.inj h
      exact .destroyedMqtt hi rfl rfl
    · exact nomatch h
  | destroyHttp i =>
    obtain ⟨s, hs, h⟩ := Option.bind_eq_some_iff.mp h
    split at h
    · rename_i hu
      obtain rfl := Option.some.inj h
      exact .destroyedHttp hs hu rfl
    · exact nomatch h
  | sweep now =>
    obtain rfl := Option.some.inj h
    exact .swept (sweep_removeExpired cfg _ w)

/-! Properties of all sessions. -/

variable {i : Nat} {s : MqttSession} {msgs : List (Nat × Bytes × Bytes)} {shared : Shared}
  {P : Nat → MqttSession → Prop}

/-- Every session object has the property. -/
def All (P : Nat → MqttSession → Prop) (w : World) : Prop := ∀ j s, w.mqtt[j]? = some s → P j s

theorem all_init (P : Nat → MqttSession → Prop) (cfg : ServerConfig) : All P (init cfg) := fun _ _ h => nomatch h

theorem All.session (h : All P w) (hi : i < w.mqtt.length) : P i (w.session i) := h i _ (session_eq hi)

theorem All.effect (h : All P w) (he : Effect w w' i s msgs shared)
    (hdeliver : ∀ j t, P j t → P j (deliverAll msgs t)) (hs : i < w.mqtt.length → P i s) : All P w' := by
  intro j t ht
  by_cases hj : i = j
  · subst hj
    have hi : i < w.mqtt.length := by
      rw [← he.length]
      exact (List.getElem?_eq_some_iff.mp ht).1
    rw [he.get_self hi] at ht
    obtain rfl := Option.some.inj ht
    exact hdeliver i s (hs hi)
  · rw [he.get_ne hj] at ht
    obtain ⟨t', ht', rfl⟩ := Option.map_eq_some_iff.mp ht
    exact hdeliver j t' (h j t' ht')

theorem All.announced {registry : Registry} (h : All P w) (ha : w.Announced w' registry msgs)
    (hdeliver : ∀ j t, P j t → P j (deliverAll msgs t)) : All P w' := by
  intro j t ht
  rw [ha.mqtt, List.getElem?_map] at ht
  obtain ⟨t', ht', rfl⟩ := Option.map_eq_some_iff.mp ht
  exact hdeliver j t' (h j t' ht')

theorem All.append (h : All P w) {mqtt : List MqttSession} (hm : mqtt = w.mqtt ++ [s]) (hs : P w.mqtt.length s)
    (hw : w'.mqtt = mqtt) : All P w' := by
  intro j t ht
  rw [hw, hm] at ht
  rcases getElem?_snoc ht with ht | ⟨rfl, rfl⟩
  · exact h j t ht
  · exact hs

/-! Relations between a session and its later self. -/

/-- The relation holds through the messages of others, the end of the session and its destruction. -/
structure Passive (R : MqttSession → MqttSession → Prop) : Prop where
  refl (s : MqttSession) : R s s
  trans {s s' s'' : MqttSession} : R s s' → R s' s'' → R s s''
  messages (msgs : List (Nat × Bytes × Bytes)) (s : MqttSession) : R s (deliverAll msgs s)
  closed (s : MqttSession) : R s s.markClosed
  unlisted (s : MqttSession) : R s s.unlist
  gone (s : MqttSession) : R s (markGone s)

section
variable {R : MqttSession → MqttSession → Prop} {j : Nat} {now : Int}

theorem Passive.effect_ne (hR : Passive R) (e : Effect w w' j s msgs shared) (hj : j ≠ i) (hi : i < w.mqtt.length) :
    R (w.session i) (w'.session i) := by
  have hg : w'.mqtt[i]? = some (deliverAll msgs (w.session i)) := by
    rw [e.get_ne hj, session_eq hi]
    rfl
  rw [(session_of_get hg).1]
  exact hR.messages msgs _

theorem Passive.trace_ne (hR : Passive R) (hj : j ≠ i) (hi : i < w.mqtt.length) (h : Trace cfg now j w w') :
    R (w.session i) (w'.session i) := by
  induction h with
  | refl => exact hR.refl _
  | tail hpre h ih =>
    have hi' := Trace.length hpre ▸ hi
    refine hR.trans ih ?_
    cases h with
    | act h =>
      cases h with
      | own _ e | relay _ e | publishMeta _ _ _ e | publishExtra _ _ _ e | close _ _ e => exact hR.effect_ne e hj hi'
    | input _ e | packet _ e => exact hR.effect_ne e hj hi'

theorem Passive.announced (hR : Passive R) {registry : Registry} (ha : w.Announced w' registry msgs)
    (hi : i < w.mqtt.length) : R (w.session i) (w'.session i) := by
  have hg : w'.mqtt[i]? = some (deliverAll msgs (w.session i)) := by
    rw [ha.mqtt, List.getElem?_map, session_eq hi]
    rfl
  rw [(session_of_get hg).1]
  exact hR.messages msgs _

theorem Passive.sweep (hR : Passive R) (hi : i < w.mqtt.length) (h : Sweep cfg w w') :
    R (w.session i) (w'.session i) := by
  induction h with
  | none => exact hR.refl _
  | @remove w w₁ _ _ ha _ ih =>
    have hlen : w₁.mqtt.length = w.mqtt.length := by rw [ha.mqtt, List.length_map]
    exact hR.trans (hR.announced ha hi) (ih (hlen ▸ hi))

theorem Passive.append (hR : Passive R) (hi : i < w.mqtt.length) (h : w'.mqtt = w.mqtt ++ [s]) :
    R (w.session i) (w'.session i) := by
  have hg : w'.mqtt[i]? = some (w.session i) := by rw [h, List.getElem?_append_left hi, session_eq hi]
  rw [(session_of_get hg).1]
  exact hR.refl _

theorem Passive.closeSession (hR : Passive R) (cfg : ServerConfig) (now : Int) (hi : i < w.mqtt.length) :
    R (w.session i) ((w.closeSession cfg now i).1.session i) := by
  rcases closeSession_effect cfg now i w with ⟨-, he⟩ | ⟨-, registry, msgs, -, he⟩
  · rw [he]
    exact hR.refl _
  · rw [he.session_self hi]
    exact hR.trans (hR.closed _) (hR.messages msgs _)

theorem Passive.endSession (hR : Passive R) (cfg : ServerConfig) (now : Int) (hi : i < w.mqtt.length) :
    R (w.session i) ((w.endSession cfg now i).1.session i) := by
  have hclose := hR.closeSession cfg now hi
  rcases endSession_cases cfg now i w with he | he
  · rwa [he]
  · rw [he, session_update (by simpa using hi)]
    exact hR.trans hclose (hR.unlisted _)

/-- The rule for one step: what is left is to look at the completions of the session itself. -/
theorem Passive.step (hR : Passive R) {e : World.Event} (hi : i < w.mqtt.length)
    (hown : ∀ now e', e = .mqtt now i e' → w.onMqtt cfg now i (w.session i) e' = some w' → R (w.session i)
      (w'.session i))
    (h : w.step cfg e = some w') : R (w.session i) (w'.session i) := by
  have completes (now : Int) (e' : MqttEvent) (he : e = .mqtt now i e') : R (w.session i) (w'.session i) := by
    refine hown now e' he ?_
    rw [he, World.step, session_eq hi] at h
    exact h
  cases step_cases h with
  | rejected _ _ hw | acceptedHttp _ hw | http _ _ hw | destroyedHttp _ _ hw =>
    subst hw
    exact hR.refl _
  | acceptedMqtt _ hw =>
    subst hw
    exact hR.append hi rfl
  | @moved now j e hj ht =>
    by_cases hji : j = i
    · exact completes now e (by rw [hji])
    · exact hR.trace_ne hji hi ht
  | @transferred now j k n hj _ _ hw =>
    by_cases hji : j = i
    · exact completes now _ (by rw [hji])
    · subst hw
      exact hR.effect_ne (.ofUpdate fun s => { s with out := s.out.transfer k n }) hji hi
  | @destroyedMqtt now j w₁ hj hc hw =>
    subst hc hw
    have hlen : i < (w.closeSession cfg now j).1.mqtt.length := by simpa using hi
    by_cases hji : j = i
    · subst hji
      rw [session_update hlen]
      exact hR.trans (hR.closeSession cfg now hi) (hR.gone _)
    · exact hR.trans (hR.trace_ne hji hi (acts_trace (acts_closeSession cfg now j w)))
        (hR.effect_ne (.ofUpdate markGone) hji hlen)
  | swept hs => exact hR.sweep hi hs

end

/-! The rule for invariants of the whole process. -/

/-- What has to be shown of an invariant of the runs whose steps meet `C`. -/
structure Preserved (cfg : ServerConfig) (C : World → World.Event → Prop) (I : World → Prop) : Prop where
  rejected {w : World} {steady : Int} {ip : Bytes} {guard : ConnectionGuard} : I w →
    w.shared.guard.tryAcquire cfg.limits steady ip = (false, guard) → I (w.setGuard guard)
  acceptedMqtt {w : World} {server : Nat} {steady : Int} {remote : Option Address} {again : Bool}
    {guard : ConnectionGuard} : I w → C w (.acceptMqtt server steady remote again) →
    w.shared.guard.tryAcquire cfg.limits steady ((remote.map Address.text).getD []) = (true, guard) →
    I { w.setGuard guard with mqtt := w.mqtt ++ [accepted server remote again] }
  acceptedHttp {w : World} {steady : Int} {remote : Option Address} {again : Bool}
    {guard : ConnectionGuard} : I w → C w (.acceptHttp steady remote again) →
    w.shared.guard.tryAcquire cfg.limits steady ((remote.map Address.text).getD []) = (true, guard) →
    I { w.setGuard guard with http := w.http ++ [acceptedHttp remote again] }
  act {w w' : World} {now : Int} {i : Nat} : i < w.mqtt.length → I w → Act cfg now i w w' → I w'
  input {w w' : World} {i : Nat} {s : MqttSession} : i < w.mqtt.length → I w → Input (w.session i) s →
    Effect w w' i s [] w.shared → I w'
  packet {w w' : World} {i : Nat} {data : Bytes} : i < w.mqtt.length → I w →
    Effect w w' i ((w.session i).recordPacket data) [] w.shared → I w'
  transferred {w : World} {i k n : Nat} (now : Int) : i < w.mqtt.length → I w →
    C w (.mqtt now i (.transferred k n)) → (w.session i).tcp.closed = false → (w.session i).out.CanTransfer k n →
    I (w.update i fun s => { s with out := s.out.transfer k n })
  http {w : World} {i : Nat} {e : Http.HttpSession.Event} {s s' : Http.HttpSession} {shared : Shared}
    {flow : Flow} : w.http[i]? = some s → I w → C w (.http i e) →
    s.handle cfg.http cfg.httpLimits w.shared e = some (s', shared, flow) →
    I { w with shared, http := w.http.set i s' }
  destroyedMqtt {w : World} {i : Nat} : i < w.mqtt.length → I w → (w.session i).tcp.closed = true →
    I (w.update i markGone)
  destroyedHttp {w : World} {i : Nat} {s : Http.HttpSession} : w.http[i]? = some s → I w →
    unreferenced s.tcp s.writes.length = true →
    I { w with http := w.http.set i { s with tcp := { s.tcp with gone := true } } }
  removed {w w' : World} {id : Bytes} : I w →
    w.Announced w' (w.shared.registry.removeNodePermanently cfg.registry id).1
      (eventMessages cfg (w.shared.registry.removeNodePermanently cfg.registry id)) → I w'

variable {C : World → World.Event → Prop} {I : World → Prop} {now : Int}

theorem Preserved.move (hI : Preserved cfg C I) (hi : i < w.mqtt.length) (hw : I w) (h : Move cfg now i w w') :
    I w' := by
  cases h with
  | act h => exact hI.act hi hw h
  | input hin e => exact hI.input hi hw hin e
  | packet data e => exact hI.packet hi hw e

theorem Preserved.trace (hI : Preserved cfg C I) (hi : i < w.mqtt.length) (hw : I w) (h : Trace cfg now i w w') :
    I w' := by
  induction h with
  | refl => exact hw
  | tail hpre h ih => exact hI.move (Trace.length hpre ▸ hi) ih h

theorem Preserved.sweep (hI : Preserved cfg C I) (hw : I w) (h : Sweep cfg w w') : I w' := by
  induction h with
  | none => exact hw
  | remove ha _ ih => exact ih (hI.removed hw ha)

theorem Preserved.step {e : World.Event} (hI : Preserved cfg C I) (hw : I w) (hc : C w e)
    (h : w.step cfg e = some w') : I w' := by
  cases step_cases h with
  | rejected _ hg he => exact he ▸ hI.rejected hw hg
  | acceptedMqtt hg he => exact he ▸ hI.acceptedMqtt hw hc hg
  | acceptedHttp hg he => exact he ▸ hI.acceptedHttp hw hc hg
  | moved hi ht => exact hI.trace hi hw ht
  | transferred hi hopen hn he => exact he ▸ hI.transferred _ hi hw hc hopen hn
  | http hs hh he => exact he ▸ hI.http hs hw hc hh
  | @destroyedMqtt now i _ hi hcl he =>
    subst hcl
    have ht := acts_closeSession cfg now i w
    exact he ▸ hI.destroyedMqtt (Acts.length ht ▸ hi) (hI.trace hi hw (acts_trace ht)) (closed_closeSession cfg now hi)
  | destroyedHttp hs hu he => exact he ▸ hI.destroyedHttp hs hw hu
  | swept hsw => exact hI.sweep hw hsw

theorem Preserved.run {es : List World.Event} (hI : Preserved cfg C I) (h0 : I (init cfg))
    (h : (machine cfg).Run C (init cfg) es w) : I w :=
  h.invariant I h0 fun _ _ _ hm hc hs => hI.step hm hc hs

end LightApr.Server
