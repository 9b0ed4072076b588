import LightApr.Server.Step

/-! What reaches the wire of a session: whole units, exactly as long as no write makes
progress beside one that is half done. -/
namespace LightApr.Server.Wire
open LightApr.Core Lib Lib.Writers Mqtt MqttSession World

variable {cfg : ServerConfig} {now : Int} {i : Nat} {w w' : World} {s s' : MqttSession}
  {msgs : List (Nat × Bytes × Bytes)} {shared : Shared}

/-! Every buffer handed to a write is a whole unit of the session's transport. -/

/-- Before the transport is settled nothing is written, and nobody can subscribe. -/
structure Fits (s : MqttSession) : Prop where
  units : ∀ buf ∈ s.out.buffers, IsUnit s.isWebsocket buf
  unsettled : s.wsHandshakeDone = false → s.out.buffers = [] ∧ s.subscriptions = []

theorem Fits.asyncWrite (h : Fits s) (hd : s.wsHandshakeDone = true) {buf : Bytes} (hb : IsUnit s.isWebsocket buf)
    (kind : WriteKind) : Fits (s.asyncWrite buf kind) := by
  refine ⟨fun b hm => ?_, fun hn => nomatch hd.symm.trans hn⟩
  rcases List.mem_append.mp hm with hm | hm
  · exact h.units b hm
  · obtain rfl := List.mem_singleton.mp hm
    exact hb

theorem Fits.deliver (h : Fits s) (server : Nat) (topic payload : Bytes) : Fits (s.deliver server topic payload) := by
  unfold MqttSession.deliver
  split
  · rename_i hm
    have hd : s.wsHandshakeDone = true := by
      by_contra hd
      have hnone := (h.unsettled (by simpa using hd)).2
      simp [matchesTopic, hnone] at hm
    have h' : Fits { s with broadcasts := s.broadcasts ++ [(topic, payload)] } := ⟨h.units, h.unsettled⟩
    exact h'.asyncWrite hd (isUnit_framed s (.publish topic payload)) .reply
  · exact h

theorem Fits.deliverAll (h : Fits s) (msgs : List (Nat × Bytes × Bytes)) : Fits (deliverAll msgs s) := by
  induction msgs generalizing s with
  | nil => exact h
  | cons m msgs ih => exact ih (h.deliver m.1 m.2.1 m.2.2)

theorem fits_own (h : Fits s) (ho : Own cfg s s') : Fits s' := by
  cases ho with
  | write buf kind hd hb => exact h.asyncWrite hd hb.isUnit kind
  | startClosing | identify | authenticate | unlist => exact ⟨h.units, h.unsettled⟩
  | subscribe topics hd => exact ⟨h.units, fun hn => nomatch hd.symm.trans hn⟩

theorem fits_input (h : Fits s) (hin : Input s s') : Fits s' := by
  obtain ⟨reads, waits, rxAcc, isWebsocket, wsHandshakeDone, writes, received, rfl, hset, -⟩ := hin
  cases hd : s.wsHandshakeDone with
  | true =>
    obtain ⟨rfl, rfl⟩ := hset hd
    exact ⟨h.units, fun hn => Bool.noConfusion hn⟩
  | false =>
    obtain ⟨hnone, hsub⟩ := h.unsettled hd
    refine ⟨fun b hb => ?_, fun _ => ⟨hnone, hsub⟩⟩
    rw [show s.out.buffers = [] from hnone] at hb
    exact nomatch hb

theorem fits_effect (hw : All (fun _ => Fits) w) (e : Effect w w' i s msgs shared)
    (hs : i < w.mqtt.length → Fits s) : All (fun _ => Fits) w' :=
  hw.effect e (fun _ _ h => h.deliverAll msgs) hs

theorem fits_new (server : Nat) (remote : Option Address) (again : Bool) : Fits (accepted server remote again) :=
  ⟨fun _ h => (nomatch h), fun _ => ⟨rfl, rfl⟩⟩

theorem fits_act (hi : i < w.mqtt.length) (hw : All (fun _ => Fits) w) (h : Act cfg now i w w') :
    All (fun _ => Fits) w' := by
  have hs := hw.session hi
  cases h with
  | own ho e => exact fits_effect hw e fun _ => fits_own hs ho
  | relay _ e | publishMeta _ _ _ e | publishExtra _ _ _ e | close _ _ e =>
    exact fits_effect hw e fun _ => ⟨hs.units, hs.unsettled⟩

theorem fits_preserved (cfg : ServerConfig) : Preserved cfg (fun _ _ => True) (All fun _ => Fits) where
  rejected hw _ := hw
  acceptedMqtt hw _ _ := hw.append rfl (fits_new _ _ _) rfl
  acceptedHttp hw _ _ := hw
  act hi hw h := fits_act hi hw h
  input hi hw hin e := fits_effect hw e fun _ => fits_input (hw.session hi) hin
  packet hi hw e := fits_effect hw e fun _ => ⟨(hw.session hi).units, (hw.session hi).unsettled⟩
  transferred _ hi hw _ _ _ :=
    fits_effect hw (.ofUpdate _) fun _ => ⟨(hw.session hi).units, (hw.session hi).unsettled⟩
  http _ hw _ _ := hw
  destroyedMqtt hi hw _ :=
    fits_effect hw (.ofUpdate _) fun _ => ⟨(hw.session hi).units, (hw.session hi).unsettled⟩
  destroyedHttp _ hw _ := hw
  removed hw ha := hw.announced ha fun _ _ h => h.deliverAll _

theorem fits_run {es : List World.Event} (h : (machine cfg).Reaches (init cfg) es w) : All (fun _ => Fits) w :=
  (fits_preserved cfg).run (all_init _ cfg) h

/-! How the channels develop. -/

/-- The channel has taken over further buffers, and nothing has moved. -/
inductive Queued (c : Channel UInt8) : Channel UInt8 → Prop
  | same : Queued c c
  | more {c' : Channel UInt8} (buf : Bytes) : Queued c c' → Queued c (c'.start buf)

theorem Queued.trans {c c' c'' : Channel UInt8} (h : Queued c c') (h' : Queued c' c'') : Queued c c'' := by
  induction h' with
  | same => exact h
  | more buf _ ih => exact .more buf ih

theorem Queued.tidy {c c' : Channel UInt8} (h : Queued c c') {done : List Nat} {open? : Option Nat}
    (ht : c.Tidy done open?) : c'.Tidy done open? := by
  induction h with
  | same => exact ht
  | more buf _ ih => exact ih.start buf

theorem Queued.broken {c c' : Channel UInt8} (h : Queued c c') (hb : c.Broken) : c'.Broken := by
  induction h with
  | same => exact hb
  | more buf _ ih => exact ih.start buf

theorem queued_deliverAll (msgs : List (Nat × Bytes × Bytes)) (s : MqttSession) :
    Queued s.out (deliverAll msgs s).out := by
  induction msgs generalizing s with
  | nil => exact .same
  | cons m msgs ih =>
    refine Queued.trans ?_ (ih (s.deliver m.1 m.2.1 m.2.2))
    unfold MqttSession.deliver
    split
    · exact .more _ .same
    · exact .same

theorem queued_own (h : Own cfg s s') : Queued s.out s'.out := by
  cases h with
  | write buf kind => exact .more buf .same
  | startClosing | identify | authenticate | subscribe | unlist => exact .same

/-- From `w` to `w'` no byte has moved: the sessions there were are still there with
their channels, and new sessions start with an empty one. -/
structure Quiet (w w' : World) : Prop where
  keeps : ∀ (j : Nat) (s : MqttSession), w.mqtt[j]? = some s →
    ∃ s' : MqttSession, w'.mqtt[j]? = some s' ∧ Queued s.out s'.out
  comes : ∀ (j : Nat) (s' : MqttSession), w'.mqtt[j]? = some s' →
    Queued .empty s'.out ∨ ∃ s : MqttSession, w.mqtt[j]? = some s ∧ Queued s.out s'.out

theorem Quiet.refl (w : World) : Quiet w w :=
  ⟨fun _ s h => ⟨s, h, .same⟩, fun _ s h => .inr ⟨s, h, .same⟩⟩

theorem Quiet.trans {w'' : World} (h : Quiet w w') (h' : Quiet w' w'') : Quiet w w'' where
  keeps j s hs := by
    obtain ⟨s', hs', hq⟩ := h.keeps j s hs
    obtain ⟨s'', hs'', hq'⟩ := h'.keeps j s' hs'
    exact ⟨s'', hs'', hq.trans hq'⟩
  comes j s'' hs'' := by
    rcases h'.comes j s'' hs'' with he | ⟨s', hs', hq'⟩
    · exact .inl he
    · rcases h.comes j s' hs' with he | ⟨s, hs, hq⟩
      · exact .inl (he.trans hq')
      · exact .inr ⟨s, hs, hq.trans hq'⟩

theorem quiet_effect (he : Effect w w' i s msgs shared) (hs : i < w.mqtt.length → Queued (w.session i).out s.out) :
    Quiet w w' := by
  have other {j : Nat} (hj : i ≠ j) {t : MqttSession} (ht : w.mqtt[j]? = some t) :
      w'.mqtt[j]? = some (deliverAll msgs t) := by rw [he.get_ne hj, ht]; rfl
  refine ⟨fun j t ht => ?_, fun j t' ht' => ?_⟩
  · by_cases hj : i = j
    · subst hj
      obtain ⟨rfl, hi⟩ := session_of_get ht
      exact ⟨_, he.get_self hi, (hs hi).trans (queued_deliverAll msgs s)⟩
    · exact ⟨_, other hj ht, queued_deliverAll msgs t⟩
  · by_cases hj : i = j
    · subst hj
      have hi : i < w.mqtt.length := he.length ▸ (session_of_get ht').2
      obtain rfl := Option.some.inj ((he.get_self hi).symm.trans ht')
      exact .inr ⟨_, session_eq hi, (hs hi).trans (queued_deliverAll msgs s)⟩
    · rw [he.get_ne hj] at ht'
      obtain ⟨t, ht, rfl⟩ := Option.map_eq_some_iff.mp ht'
      exact .inr ⟨t, ht, queued_deliverAll msgs t⟩

theorem quiet_same (h : w'.mqtt = w.mqtt) : Quiet w w' :=
  ⟨fun _ s hs => ⟨s, h ▸ hs, .same⟩, fun _ s hs => .inr ⟨s, h ▸ hs, .same⟩⟩

theorem quiet_append (h : w'.mqtt = w.mqtt ++ [s]) (hs : s.out = .empty) : Quiet w w' := by
  refine ⟨fun j t ht => ⟨t, ?_, .same⟩, fun j t' ht' => ?_⟩
  · rw [h, List.getElem?_append_left (List.getElem?_eq_some_iff.mp ht).1, ht]
  · rw [h] at ht'
    rcases getElem?_snoc ht' with ht' | ⟨-, rfl⟩
    · exact .inr ⟨t', ht', .same⟩
    · exact .inl (hs ▸ .same)

theorem quiet_act (h : Act cfg now i w w') : Quiet w w' := by
  cases h with
  | own ho e => exact quiet_effect e fun _ => queued_own ho
  | relay _ e | publishMeta _ _ _ e | publishExtra _ _ _ e | close _ _ e => exact quiet_effect e fun _ => .same

/-- The step is not a transfer. -/
def NoTransfer (_ : World) : World.Event → Prop
  | .mqtt _ _ (.transferred _ _) => False
  | _ => True

theorem quiet_preserved (cfg : ServerConfig) (w₀ : World) : Preserved cfg NoTransfer (Quiet w₀) where
  rejected hw _ := hw.trans (quiet_same rfl)
  acceptedMqtt hw _ _ := hw.trans (quiet_append rfl rfl)
  acceptedHttp hw _ _ := hw.trans (quiet_same rfl)
  act _ hw h := hw.trans (quiet_act h)
  input _ hw hin e := by
    obtain ⟨_, _, _, _, _, _, _, rfl, -⟩ := hin
    exact hw.trans (quiet_effect e fun _ => .same)
  packet _ hw e := hw.trans (quiet_effect e fun _ => .same)
  transferred _ _ _ hc _ _ := hc.elim
  http _ hw _ _ := hw.trans (quiet_same rfl)
  destroyedMqtt _ hw _ := hw.trans (quiet_effect (.ofUpdate _) fun _ => .same)
  destroyedHttp _ hw _ := hw.trans (quiet_same rfl)
  removed {w _ _} hw ha := hw.trans (quiet_effect (.ofAnnounced (i := w.mqtt.length) ha) fun _ => .same)

/-- A step moves no byte, or it is one transfer on one session. -/
theorem step_wire {e : World.Event} (h : w.step cfg e = some w') :
    (NoTransfer w e ∧ Quiet w w') ∨ ∃ now i k n, e = .mqtt now i (.transferred k n) ∧ i < w.mqtt.length ∧
      (w.session i).out.CanTransfer k n ∧ w' = w.update i fun s => { s with out := s.out.transfer k n } := by
  have quiet (hn : NoTransfer w e) : NoTransfer w e ∧ Quiet w w' :=
    ⟨hn, (quiet_preserved cfg w).step (.refl w) hn h⟩
  cases e with
  | acceptMqtt | acceptHttp | http | destroyMqtt | destroyHttp | sweep => exact .inl (quiet trivial)
  | mqtt now i e =>
    cases e with
    | read | readFailed | idleExpired | waitCanceled | written => exact .inl (quiet trivial)
    | transferred k n =>
      refine .inr ⟨now, i, k, n, rfl, ?_⟩
      obtain ⟨s, hs, h⟩ := Option.bind_eq_some_iff.mp h
      obtain ⟨rfl, hi⟩ := session_of_get hs
      cases onMqtt_cases h with
      | transferred _ hn => exact ⟨hi, hn, rfl⟩

/-! Runs. -/

/-- No byte moves on a session beside a write of it that is half done. -/
def ExclusiveTransfers (w : World) : World.Event → Prop
  | .mqtt _ i (.transferred k _) => (w.session i).out.Exclusive k
  | _ => True

instance : (w : World) → (e : World.Event) → Decidable (ExclusiveTransfers w e)
  | w, .mqtt _ i (.transferred k _) => inferInstanceAs (Decidable ((w.session i).out.Exclusive k))
  | _, .mqtt _ _ (.read _) | _, .mqtt _ _ .readFailed | _, .mqtt _ _ .idleExpired | _, .mqtt _ _ .waitCanceled
  | _, .mqtt _ _ (.written _ _) | _, .acceptMqtt .. | _, .acceptHttp .. | _, .http .. | _, .destroyMqtt .. | _, .destroyHttp ..
  | _, .sweep .. => .isTrue trivial

abbrev AllTidy : World → Prop := All fun _ s => ∃ done open?, s.out.Tidy done open?

def SomeBroken (w : World) : Prop := ∃ (j : Nat) (s : MqttSession), w.mqtt[j]? = some s ∧ s.out.Broken

theorem get_update (hi : i < w.mqtt.length) (f : MqttSession → MqttSession) (j : Nat) :
    (w.update i f).mqtt[j]? = if i = j then some (f (w.session i)) else w.mqtt[j]? := get_setSession _ hi j

theorem tidy_step {e : World.Event} (hw : AllTidy w) (hc : ExclusiveTransfers w e) (h : w.step cfg e = some w') :
    AllTidy w' := by
  rcases step_wire h with ⟨-, hq⟩ | ⟨now, i, k, n, rfl, hi, hn, rfl⟩
  · intro j s' hs'
    rcases hq.comes j s' hs' with he | ⟨s, hs, hq⟩
    · exact ⟨[], none, he.tidy Channel.tidy_empty⟩
    · obtain ⟨done, open?, ht⟩ := hw j s hs
      exact ⟨done, open?, hq.tidy ht⟩
  · intro j s' hs'
    rw [get_update hi] at hs'
    split at hs'
    · obtain rfl := Option.some.inj hs'
      obtain ⟨done, open?, ht⟩ := hw.session hi
      exact ht.transfer hn hc
    · exact hw j s' hs'

theorem broken_step {e : World.Event} (hw : SomeBroken w) (h : w.step cfg e = some w') : SomeBroken w' := by
  obtain ⟨j, s, hs, hb⟩ := hw
  rcases step_wire h with ⟨-, hq⟩ | ⟨now, i, k, n, rfl, hi, hn, rfl⟩
  · obtain ⟨s', hs', hq⟩ := hq.keeps j s hs
    exact ⟨j, s', hs', hq.broken hb⟩
  · by_cases hj : i = j
    · subst hj
      obtain ⟨rfl, -⟩ := session_of_get hs
      exact ⟨i, _, by rw [get_update hi, if_pos rfl], hb.transfer k n⟩
    · exact ⟨j, s, by rw [get_update hi, if_neg hj, hs], hb⟩

theorem broken_of_not_exclusive {e : World.Event} (hw : AllTidy w) (hc : ¬ ExclusiveTransfers w e)
    (h : w.step cfg e = some w') : SomeBroken w' := by
  rcases step_wire h with ⟨hn, -⟩ | ⟨now, i, k, n, rfl, hi, hn, rfl⟩
  · refine absurd ?_ hc
    unfold NoTransfer at hn
    unfold ExclusiveTransfers
    split
    · exact hn.elim
    · trivial
  · obtain ⟨done, open?, ht⟩ := hw.session hi
    exact ⟨i, _, by rw [get_update hi, if_pos rfl], ht.broken hn hc⟩

theorem tidy_run {es : List World.Event} (h : (machine cfg).Run ExclusiveTransfers (init cfg) es w) : AllTidy w :=
  h.invariant AllTidy (all_init _ cfg) fun _ _ _ hm hc hs => tidy_step hm hc hs

/-- A run is exclusive, or a wire is spoilt. -/
theorem exclusive_or_broken {es : List World.Event} (h : (machine cfg).Reaches (init cfg) es w) :
    (machine cfg).Run ExclusiveTransfers (init cfg) es w ∨ SomeBroken w := by
  induction h with
  | start => exact .inl .start
  | @snoc _ m _ e _ _ hs ih =>
    rcases ih with hrun | hb
    · by_cases hc : ExclusiveTransfers m e
      · exact .inl (hrun.snoc hc hs)
      · exact .inr (broken_of_not_exclusive (tidy_run hrun) hc hs)
    · exact .inr (broken_step hb hs)

/-- **In every run the bytes on the wire of every session are whole units of its
transport, one after the other, exactly if no write made progress while another write of
the same session was half done.** -/
theorem wire_whole_iff (cfg : ServerConfig) {es : List World.Event} {w : World}
    (hrun : (machine cfg).Reaches (init cfg) es w) :
    (∀ (i : Nat) (s : MqttSession), w.mqtt[i]? = some s →
      s.out.Whole ∧ ∀ buf ∈ s.out.buffers, IsUnit s.isWebsocket buf) ↔
      (machine cfg).Run ExclusiveTransfers (init cfg) es w := by
  constructor
  · intro h
    refine (exclusive_or_broken hrun).resolve_right ?_
    rintro ⟨j, s, hs, hb⟩
    exact hb.not_whole (h j s hs).1
  · intro h i s hs
    obtain ⟨done, open?, ht⟩ := tidy_run h i s hs
    exact ⟨ht.whole, (fits_run hrun i s hs).units⟩

/-- The CONNACK goes out. -/
private def connected : List World.Event := clientSends [connectPacket] ++ clientGets [4]

private def afterConnack : World :=
  ((machine oneListener).execIf ExclusiveTransfers (init oneListener) connected).getD (init oneListener)

/-- The CONNACK alone goes out whole. -/
theorem connack_whole : (afterConnack.session 0).out.Whole := by
  have hrun : (machine oneListener).Run ExclusiveTransfers (init oneListener) connected afterConnack :=
    (machine oneListener).run_execIf ExclusiveTransfers (by decide +kernel)
  exact ((wire_whole_iff oneListener hrun.reaches).mpr hrun 0 _ (session_eq (by decide +kernel))).1

private def interleaved : List World.Event :=
  clientSends [connectPacket, [0xC0, 0x00]] ++
    [.mqtt 0 0 (.transferred 0 1), .mqtt 0 0 (.transferred 1 2), .mqtt 0 0 (.transferred 0 3)]

/-- The PINGRESP goes out inside the CONNACK. -/
theorem pingresp_inside_connack : ¬ ∀ (cfg : ServerConfig) (es : List World.Event) (w : World),
    (machine cfg).Reaches (init cfg) es w →
      ∀ (i : Nat) (s : MqttSession), w.mqtt[i]? = some s → s.out.Whole := by
  intro h
  have hwhole := h oneListener interleaved _ ((machine oneListener).reaches_exec (by decide +kernel)) 0 _
    (session_eq (by decide +kernel))
  refine Channel.Broken.not_whole ?_ hwhole
  refine ⟨[], 0, 0x20, 1, 0xD0, [(1, 0x00), (0, 0x02), (0, 0x00), (0, 0x00)], ?_, by decide, ?_⟩
  · decide +kernel
  · decide +kernel

end LightApr.Server.Wire
