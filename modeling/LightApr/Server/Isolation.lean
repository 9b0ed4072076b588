import LightApr.Server.Trail
import Mathlib.Algebra.GroupWithZero.Nat

/-! Node ids are not shared: every session has its own, and what arrives on a session
changes the record under that id alone. -/
namespace LightApr.Server.Isolation
open LightApr.Core Lib Mqtt MqttSession World Registry

/-! The calls of one session. -/

variable {cfg : ServerConfig} {now : Int} {i : Nat} {u v w : World} {s : MqttSession} {r : Registry}
  {msgs : List (Nat × Bytes × Bytes)} {ops more : List Operation} {op : Operation}

/-- The ids that registrations were given from `r` on. -/
abbrev issued (cfg : ServerConfig) (r : Registry) (ops : List Operation) : List Bytes := issuedBy cfg.registry r ops

theorem calls_about (h : Calls now s op) (r : Registry) : op.about? r = some (targetId now s.nodeId r) := by
  cases h with
  | registerOrUpdateNode => rfl
  | updateNodeExtra _ _ hn => rw [targetId, if_neg hn, Operation.about?]
  | markNodeGrace hn => rw [targetId, if_neg hn, Operation.about?]

/-- A session without an id can only register, and that issues the id. -/
theorem calls_issues (h : Calls now s op) (hid : s.nodeId = []) (r : Registry) :
    issued cfg r [op] = [targetId now s.nodeId r] := by
  cases h with
  | registerOrUpdateNode => simp [issued, issuedBy, along, Operation.issued?, targetId, hid]
  | updateNodeExtra _ _ hn => exact absurd hid hn
  | markNodeGrace hn => exact absurd hid hn

theorem registered_of_issued {id : Bytes} (h : op.issued? r = some id) : (registered? op).isSome = true := by
  unfold Operation.issued? at h
  split at h
  · rfl
  · cases h

theorem length_issued (cfg : ServerConfig) (r : Registry) (ops : List Operation) :
    (issued cfg r ops).length ≤ (ops.filterMap registered?).length := by
  induction ops generalizing r with
  | nil => exact Nat.le_refl _
  | cons op ops ih =>
    have hrest := ih (op.run cfg.registry r).1
    change ((op.issued? r).toList ++ issued cfg (op.run cfg.registry r).1 ops).length ≤ _
    cases hi : op.issued? r with
    | none =>
      refine Nat.le_trans hrest ?_
      rw [List.filterMap_cons]
      split
      · exact Nat.le_refl _
      · exact Nat.le_succ _
    | some id =>
      obtain ⟨x, hx⟩ := Option.isSome_iff_exists.mp (registered_of_issued hi)
      rw [List.filterMap_cons, hx]
      exact Nat.succ_le_succ hrest

theorem length_registrations (w : World) :
    (w.mqtt.flatMap registeredBy).length = (w.mqtt.map fun s => s.registrations.length).sum := by
  rw [List.length_flatMap]
  simp [registeredBy]

/-- Fewer than `2 ^ 64` registrations are given different ids. -/
theorem issued_nodup (ht : Trail cfg ops w) (hfew : (w.mqtt.map fun s => s.registrations.length).sum < sizeMax) :
    (issued cfg .empty ops).Nodup := by
  refine issuedBy_nodup (by decide) ?_
  have hlen := length_issued cfg .empty ops
  rw [ht.registrations.length_eq, length_registrations] at hlen
  exact Nat.le_trans hlen (Nat.le_of_lt hfew)

/-! The ids the sessions hold. -/

/-- Every id held was issued, and as far as the ids issued differ, those held do. -/
structure Owning (cfg : ServerConfig) (ops : List Operation) (w : World) : Prop where
  trail : Trail cfg ops w
  held : All (fun _ s => s.nodeId = [] ∨ s.nodeId ∈ issued cfg .empty ops) w
  distinct : (issued cfg .empty ops).Nodup → ∀ (j k : Nat) (s t : MqttSession), w.mqtt[j]? = some s →
    w.mqtt[k]? = some t → j ≠ k → s.nodeId ≠ [] → s.nodeId ≠ t.nodeId

/-- What `more` operations may have done to the ids of the sessions. -/
structure Grows (cfg : ServerConfig) (v w : World) (more : List Operation) : Prop where
  registry : w.shared.registry = after cfg.registry v.shared.registry more
  /-- an id is kept, and a first one is issued -/
  sessions : ∀ (j : Nat) (s : MqttSession), v.mqtt[j]? = some s → ∃ s', w.mqtt[j]? = some s' ∧
    (s'.nodeId = s.nodeId ∨ (s.nodeId = [] ∧ s'.nodeId ∈ issued cfg v.shared.registry more))
  owning : ∀ {ops : List Operation}, Owning cfg ops v → Owning cfg (ops ++ more) w

theorem Grows.refl (cfg : ServerConfig) (w : World) : Grows cfg w w [] :=
  ⟨rfl, fun _ s hs => ⟨s, hs, .inl rfl⟩, fun {ops} h => (List.append_nil ops).symm ▸ h⟩

theorem Grows.trans {more' : List Operation} (h : Grows cfg u v more) (h' : Grows cfg v w more') :
    Grows cfg u w (more ++ more') := by
  refine ⟨?_, fun j s hs => ?_, fun ho => ?_⟩
  · rw [h'.registry, h.registry, after_append]
  · obtain ⟨t, ht, hid⟩ := h.sessions j s hs
    obtain ⟨t', ht', hid'⟩ := h'.sessions j t ht
    refine ⟨t', ht', ?_⟩
    rw [issued, issuedBy_append, ← h.registry]
    rcases hid with hid | ⟨hnone, hid⟩
    · rcases hid' with hid' | ⟨hnone, hid'⟩
      · exact .inl (hid'.trans hid)
      · exact .inr ⟨hid ▸ hnone, List.mem_append_right _ hid'⟩
    · rcases hid' with hid' | ⟨hnone', -⟩
      · exact .inr ⟨hnone, List.mem_append_left _ (hid' ▸ hid)⟩
      · exact absurd hnone' (ne_nil_of_mem_issuedBy hid)
  · rw [← List.append_assoc]
    exact h'.owning (h.owning ho)

/-- A change of one session, and deliveries to all. -/
theorem grows_delivered (hm : w.mqtt = (v.mqtt.set i s).map (deliverAll msgs))
    (hr : w.shared.registry = after cfg.registry v.shared.registry more)
    (ht : ∀ {ops : List Operation}, Trail cfg ops v → Trail cfg (ops ++ more) w)
    (hlearn : s.nodeId = (v.session i).nodeId ∨
      ((v.session i).nodeId = [] ∧ s.nodeId ∈ issued cfg v.shared.registry more)) : Grows cfg v w more := by
  have hsame (t : MqttSession) : (deliverAll msgs t).nodeId = t.nodeId := by
    obtain ⟨_, _, _, h⟩ := deliverAll_same msgs t
    rw [h]
  -- only session `i` can have a new id
  have hback {j : Nat} {t : MqttSession} (h : w.mqtt[j]? = some t) : ∃ t₀, v.mqtt[j]? = some t₀ ∧
      (t.nodeId = t₀.nodeId ∨ (j = i ∧ t.nodeId ∈ issued cfg v.shared.registry more)) := by
    rw [hm, List.getElem?_map] at h
    obtain ⟨t', ht', rfl⟩ := Option.map_eq_some_iff.mp h
    rw [hsame]
    obtain ⟨rfl, rfl, hi⟩ | ⟨-, ht'⟩ := getElem?_set_some ht'
    · exact ⟨_, session_eq hi, hlearn.imp_right fun h => ⟨rfl, h.2⟩⟩
    · exact ⟨t', ht', .inl rfl⟩
  refine ⟨hr, fun j t h => ?_, fun {ops} ho => ⟨ht ho.trail, fun j t h => ?_, fun hnodup j k t t' h h' hjk hne => ?_⟩⟩
  · rw [hm, List.getElem?_map]
    obtain ⟨rfl, rfl, hset⟩ | ⟨-, hset⟩ := get_set_session i s h
    · refine ⟨deliverAll msgs s, by rw [hset, Option.map_some], ?_⟩
      rw [hsame]
      exact hlearn
    · exact ⟨deliverAll msgs t, by rw [hset, Option.map_some], .inl (hsame t)⟩
  · rw [issued, issuedBy_append, ← ho.trail.registry]
    obtain ⟨t₀, ht₀, hid | ⟨-, hid⟩⟩ := hback h
    · rw [hid]
      exact (ho.held j t₀ ht₀).imp_right (List.mem_append_left _)
    · exact .inr (List.mem_append_right _ hid)
  · rw [issued, issuedBy_append, ← ho.trail.registry] at hnodup
    obtain ⟨hold, -, hdisj⟩ := List.nodup_append.mp hnodup
    obtain ⟨t₀, ht₀, hid⟩ := hback h
    obtain ⟨t₀', ht₀', hid'⟩ := hback h'
    rcases hid with hid | ⟨rfl, hid⟩ <;> rcases hid' with hid' | ⟨rfl, hid'⟩
    · rw [hid, hid']
      rw [hid] at hne
      exact ho.distinct hold j k t₀ t₀' ht₀ ht₀' hjk hne
    · rw [hid] at hne ⊢
      exact hdisj _ ((ho.held j t₀ ht₀).resolve_left hne) _ hid'
    · rw [hid']
      rcases ho.held k t₀' ht₀' with hnone | hmem
      · rw [hnone]
        exact hne
      · exact fun he => hdisj _ hmem _ hid he.symm
    · exact absurd rfl hjk

theorem grows_performed (hi : i < v.mqtt.length) {op? : Option Operation}
    (hwell : Stored (WellFormed cfg.registry) v.shared.registry) (hp : Performed cfg now v w i s op? msgs) :
    Grows cfg v w op?.toList := by
  refine grows_delivered hp.mqtt hp.registry (fun ht => ht.performed hi hp) ?_
  by_cases hsame : s.nodeId = (v.session i).nodeId
  · exact .inl hsame
  · obtain ⟨op, rfl, node, hev, hid⟩ := hp.nodeId.resolve_left hsame
    have hcall := hp.calls op rfl
    have htarget : targetId now (v.session i).nodeId v.shared.registry = node.id := by
      have habout := about_event hwell (show op.run cfg.registry v.shared.registry = (_, .event node) from
        Prod.ext rfl hev)
      rw [calls_about hcall] at habout
      exact Option.some.inj habout
    have hnone : (v.session i).nodeId = [] := by
      by_contra hne
      rw [targetId, if_neg hne] at htarget
      exact hsame (hid.trans htarget.symm)
    refine .inr ⟨hnone, ?_⟩
    rw [hid, ← htarget, Option.toList_some, calls_issues hcall hnone]
    exact List.mem_singleton_self _

/-- Everything else leaves the ids alone. -/
theorem grows_same (hm : w.mqtt = v.mqtt) (hr : w.shared.registry = after cfg.registry v.shared.registry more)
    (ht : ∀ {ops : List Operation}, Trail cfg ops v → Trail cfg (ops ++ more) w) : Grows cfg v w more := by
  have hset : w.mqtt = (v.mqtt.set 0 (v.session 0)).map (deliverAll []) := by
    rw [set_session_self, hm]
    exact (List.map_id _).symm
  exact grows_delivered hset hr ht (.inl rfl)

theorem grows_shared (hm : w.mqtt = v.mqtt) (hr : w.shared.registry = v.shared.registry) : Grows cfg v w [] := by
  refine grows_same hm hr fun {ops} ht => ?_
  rw [List.append_nil]
  exact ht.same hr (by rw [hm])

theorem grows_quiet (hi : i < v.mqtt.length) {shared : Shared} (he : Effect v w i s [] shared)
    (hr : shared.registry = v.shared.registry) (hreg : registeredBy s = registeredBy (v.session i))
    (hid : s.nodeId = (v.session i).nodeId) : Grows cfg v w [] := by
  have hr' : w.shared.registry = v.shared.registry := he.shared ▸ hr
  refine grows_delivered he.mqtt hr' (fun ht => ?_) (.inl hid)
  rw [List.append_nil]
  exact ht.quiet hi he hr hreg

theorem grows_input (hi : i < v.mqtt.length) (hin : Input (v.session i) s) (he : Effect v w i s [] v.shared) :
    Grows cfg v w [] := by
  obtain ⟨_, _, _, _, _, _, _, rfl, -⟩ := hin
  exact grows_quiet hi he rfl rfl rfl

theorem grows_accepted {server : Nat} {remote : Option Address} {again : Bool}
    (hr : w.shared.registry = v.shared.registry) (hm : w.mqtt = v.mqtt ++ [accepted server remote again]) :
    Grows cfg v w [] := by
  have hnew : (accepted server remote again).nodeId = [] := rfl
  refine ⟨hr, fun j t ht => ⟨t, ?_, .inl rfl⟩, fun {ops} ho => ?_⟩
  · rw [hm, List.getElem?_append_left (session_of_get ht).2, ht]
  · rw [List.append_nil]
    refine ⟨ho.trail.accepted hr hm, ho.held.append hm (.inl hnew) rfl, fun hnodup j k t t' h h' hjk hne => ?_⟩
    rw [hm] at h h'
    rcases getElem?_snoc h with h | ⟨-, rfl⟩
    · rcases getElem?_snoc h' with h' | ⟨-, rfl⟩
      · exact ho.distinct hnodup j k t t' h h' hjk hne
      · rw [hnew]
        exact hne
    · exact absurd hnew hne

/-- Every step runs operations that may have grown the ids. -/
theorem grows_preserved (cfg : ServerConfig) {v : World} (hv : Stored (WellFormed cfg.registry) v.shared.registry) :
    Preserved cfg (fun _ _ => True) (fun w => ∃ more, Grows cfg v w more) where
  rejected := fun ⟨_, hw⟩ _ => ⟨_, hw.trans (grows_shared rfl rfl)⟩
  acceptedMqtt := fun ⟨_, hw⟩ _ _ => ⟨_, hw.trans (grows_accepted rfl rfl)⟩
  acceptedHttp := fun ⟨_, hw⟩ _ _ => ⟨_, hw.trans (grows_shared rfl rfl)⟩
  act := by
    rintro u w now i hi ⟨more, hw⟩ h
    obtain ⟨s, op?, msgs, hp⟩ := h.performed
    have hu : Stored (WellFormed cfg.registry) u.shared.registry := hw.registry ▸ wellFormed_after hv more
    exact ⟨_, hw.trans (grows_performed hi hu hp)⟩
  input := fun hi ⟨_, hw⟩ hin he => ⟨_, hw.trans (grows_input hi hin he)⟩
  packet := fun hi ⟨_, hw⟩ he => ⟨_, hw.trans (grows_quiet hi he rfl rfl rfl)⟩
  transferred := fun _ hi ⟨_, hw⟩ _ _ _ => ⟨_, hw.trans (grows_quiet hi (.ofUpdate _) rfl rfl rfl)⟩
  http := by
    rintro u i e s s' shared flow _ ⟨more, hw⟩ _ h
    obtain ⟨more', hr, ht⟩ := trail_resolves { u with shared, http := u.http.set i s' }
      (Http.HttpSession.handle_effect h).registry rfl
    exact ⟨_, hw.trans (grows_same rfl hr ht)⟩
  destroyedMqtt := fun hi ⟨_, hw⟩ _ => ⟨_, hw.trans (grows_quiet hi (.ofUpdate _) rfl rfl rfl)⟩
  destroyedHttp := fun _ ⟨_, hw⟩ _ => ⟨_, hw.trans (grows_shared rfl rfl)⟩
  removed := by
    rintro u w id ⟨more, hw⟩ ha
    have hm := ha.mqtt
    rw [← set_session_self u 0] at hm
    have hr : w.shared.registry = after cfg.registry u.shared.registry [.removeNodePermanently id] := by
      rw [ha.shared]
      rfl
    exact ⟨_, hw.trans (grows_delivered hm hr (fun ht => ht.removed ha) (.inl rfl))⟩

theorem owning_init (cfg : ServerConfig) : Owning cfg (subscriptionsOf cfg) (init cfg) :=
  ⟨trail_init cfg, fun _ _ h => (by cases h), fun _ _ _ _ _ h => (by cases h)⟩

theorem wellFormed_trail (ht : Trail cfg ops w) : Stored (WellFormed cfg.registry) w.shared.registry :=
  ht.registry ▸ wellFormed_after (stored_empty _) ops

theorem owning_run {es : List World.Event} (h : (machine cfg).Reaches (init cfg) es w) : ∃ ops, Owning cfg ops w := by
  obtain ⟨more, hg⟩ := (grows_preserved cfg (wellFormed_trail (trail_init cfg))).run ⟨[], .refl cfg _⟩ h
  exact ⟨_, hg.owning (owning_init cfg)⟩

/-! What one session changes. -/

/-- The records that a packet on session `i` may change: the one under the session's id,
or, as long as it has none, those under the ids it is given. -/
def Mine (cfg : ServerConfig) (v : World) (i : Nat) (more : List Operation) (k : Bytes) : Prop :=
  ((v.session i).nodeId ≠ [] ∧ k = (v.session i).nodeId) ∨
    ((v.session i).nodeId = [] ∧ k ∈ issued cfg v.shared.registry more)

/-- The ids have grown, and no other record has changed. -/
structure Private (cfg : ServerConfig) (i : Nat) (v w : World) (more : List Operation) : Prop where
  grows : Grows cfg v w more
  mine : ∀ k, w.shared.registry.nodes.lookup k ≠ v.shared.registry.nodes.lookup k → Mine cfg v i more k

theorem Private.refl (cfg : ServerConfig) (i : Nat) (w : World) : Private cfg i w w [] :=
  ⟨.refl cfg w, fun _ h => absurd rfl h⟩

theorem Private.trans (hi : i < u.mqtt.length) {more' : List Operation} (h : Private cfg i u v more)
    (h' : Private cfg i v w more') : Private cfg i u w (more ++ more') := by
  refine ⟨h.grows.trans h'.grows, fun k hk => ?_⟩
  obtain ⟨s, hs, hid⟩ := h.grows.sessions i _ (session_eq hi)
  obtain ⟨rfl, -⟩ := session_of_get hs
  rw [Mine, issued, issuedBy_append, ← h.grows.registry]
  by_cases hv : v.shared.registry.nodes.lookup k = u.shared.registry.nodes.lookup k
  · rw [← hv] at hk
    rcases h'.mine k hk with ⟨hne, rfl⟩ | ⟨hnone, hnew⟩
    · rcases hid with hid | ⟨hnone, hid⟩
      · exact .inl ⟨hid ▸ hne, hid⟩
      · exact .inr ⟨hnone, List.mem_append_left _ hid⟩
    · rcases hid with hid | ⟨-, hid⟩
      · exact .inr ⟨hid ▸ hnone, List.mem_append_right _ hnew⟩
      · exact absurd hnone (ne_nil_of_mem_issuedBy hid)
  · rcases h.mine k hv with hmine | ⟨hnone, hnew⟩
    · exact .inl hmine
    · exact .inr ⟨hnone, List.mem_append_left _ hnew⟩

theorem private_quiet (hg : Grows cfg v w []) (i : Nat) : Private cfg i v w [] := by
  refine ⟨hg, fun k hk => absurd ?_ hk⟩
  rw [hg.registry]
  rfl

theorem private_performed (hi : i < v.mqtt.length) {op? : Option Operation}
    (hwell : Stored (WellFormed cfg.registry) v.shared.registry) (hp : Performed cfg now v w i s op? msgs) :
    Private cfg i v w op?.toList := by
  refine ⟨grows_performed hi hwell hp, fun k hk => ?_⟩
  cases op? with
  | none =>
    refine absurd ?_ hk
    rw [hp.registry]
    rfl
  | some op =>
    have hcall := hp.calls op rfl
    have hrun : op.run cfg.registry v.shared.registry =
      (w.shared.registry, (op.run cfg.registry v.shared.registry).2) :=
      Prod.ext hp.registry.symm rfl
    have habout : k = targetId now (v.session i).nodeId v.shared.registry := by
      by_contra hne
      refine hk (lookup_run hrun ?_)
      rw [calls_about hcall]
      exact fun he => hne (Option.some.inj he).symm
    by_cases hnone : (v.session i).nodeId = []
    · refine .inr ⟨hnone, ?_⟩
      rw [Option.toList_some, calls_issues hcall hnone, ← habout]
      exact List.mem_singleton_self k
    · rw [targetId, if_neg hnone] at habout
      exact .inl ⟨hnone, habout⟩

theorem private_trace (hi : i < v.mqtt.length) (hv : Stored (WellFormed cfg.registry) v.shared.registry)
    (h : Trace cfg now i v w) : ∃ more, Private cfg i v w more := by
  induction h with
  | refl => exact ⟨[], .refl cfg i v⟩
  | @tail u w hpre hmove ih =>
    obtain ⟨more, hu⟩ := ih
    have hi' : i < u.mqtt.length := Trace.length hpre ▸ hi
    cases hmove with
    | act h =>
      obtain ⟨s, op?, msgs, hp⟩ := h.performed
      have hwell : Stored (WellFormed cfg.registry) u.shared.registry := hu.grows.registry ▸ wellFormed_after hv more
      exact ⟨_, hu.trans hi (private_performed hi' hwell hp)⟩
    | input hin he => exact ⟨_, hu.trans hi (private_quiet (grows_input hi' hin he) i)⟩
    | packet data he => exact ⟨_, hu.trans hi (private_quiet (grows_quiet hi' he rfl rfl rfl) i)⟩

/-- A step on a session changes the session's own record alone. -/
theorem private_step {e : MqttEvent} (hv : Stored (WellFormed cfg.registry) v.shared.registry)
    (h : v.step cfg (.mqtt now i e) = some w) : ∃ more, Private cfg i v w more := by
  cases step_cases h with
  | moved hi ht => exact private_trace hi hv ht
  | @transferred _ _ k n hi _ _ he =>
    have heff : Effect v (v.update i fun s => { s with out := s.out.transfer k n }) i _ [] v.shared := .ofUpdate _
    exact ⟨[], he ▸ private_quiet (grows_quiet hi heff rfl rfl rfl) i⟩
  | rejected hacc =>
    rcases hacc with ⟨_, _, _, hacc⟩ | ⟨_, _, hacc⟩
    · cases hacc
    · cases hacc

theorem grows_step {e : World.Event} (hv : Stored (WellFormed cfg.registry) v.shared.registry)
    (h : v.step cfg e = some w) : ∃ more, Grows cfg v w more :=
  (grows_preserved cfg hv).step ⟨[], .refl cfg v⟩ trivial h

/-! The result. -/

/-- A step from `v` to `w`, by `more` operations after `ops`, hands out new ids only, each to one session, and changes
no record of another session. -/
structure Isolated (cfg : ServerConfig) (ops more : List Operation) (v : World) (e : World.Event) (w : World) :
    Prop where
  before : Trail cfg ops v
  trail : Trail cfg (ops ++ more) w
  nodup : (issued cfg .empty (ops ++ more)).Nodup
  /-- no two sessions hold the same id -/
  distinct : ∀ (j k : Nat) (s t : MqttSession), w.mqtt[j]? = some s → w.mqtt[k]? = some t → j ≠ k →
    s.nodeId ≠ [] → s.nodeId ≠ t.nodeId
  /-- a session keeps its id, and its first one is new -/
  first : ∀ (j : Nat) (s s' : MqttSession), v.mqtt[j]? = some s → w.mqtt[j]? = some s' →
    s'.nodeId = s.nodeId ∨ (s.nodeId = [] ∧ s'.nodeId ∈ issued cfg .empty (ops ++ more) ∧
      s'.nodeId ∉ issued cfg .empty ops)
  /-- what happens on a session changes its own record, or new ones -/
  own : ∀ (now : Int) (i : Nat) (me : MqttEvent), e = .mqtt now i me → ∀ k,
    w.shared.registry.nodes.lookup k ≠ v.shared.registry.nodes.lookup k →
      ((v.session i).nodeId ≠ [] ∧ k = (v.session i).nodeId) ∨
      ((v.session i).nodeId = [] ∧ k ∈ issued cfg .empty (ops ++ more) ∧ k ∉ issued cfg .empty ops)
  /-- and no record of another session -/
  others : ∀ (now : Int) (i : Nat) (me : MqttEvent), e = .mqtt now i me →
    ∀ (j : Nat) (s : MqttSession), v.mqtt[j]? = some s → j ≠ i → s.nodeId ≠ [] →
      w.shared.registry.nodes.lookup s.nodeId = v.shared.registry.nodes.lookup s.nodeId

theorem isolated {e : World.Event} (ho : Owning cfg ops v) (hg : Grows cfg v w more)
    (hmine : ∀ (now : Int) (i : Nat) (me : MqttEvent), e = .mqtt now i me →
      i < v.mqtt.length ∧ Private cfg i v w more)
    (hfew : (w.mqtt.map fun s => s.registrations.length).sum < sizeMax) : Isolated cfg ops more v e w := by
  have ho' := hg.owning ho
  have hnodup := issued_nodup ho'.trail hfew
  have hsplit := hnodup
  rw [issued, issuedBy_append, ← ho.trail.registry] at hsplit
  obtain ⟨hold, -, hdisj⟩ := List.nodup_append.mp hsplit
  have hnew {k : Bytes} (hk : k ∈ issued cfg v.shared.registry more) :
      k ∈ issued cfg .empty (ops ++ more) ∧ k ∉ issued cfg .empty ops := by
    rw [issued, issuedBy_append, ← ho.trail.registry]
    exact ⟨List.mem_append_right _ hk, fun hm => hdisj k hm k hk rfl⟩
  refine ⟨ho.trail, ho'.trail, hnodup, ho'.distinct hnodup, fun j s s' hs hs' => ?_, ?_, ?_⟩
  · obtain ⟨t, ht, hid⟩ := hg.sessions j s hs
    obtain rfl := Option.some.inj (hs'.symm.trans ht)
    exact hid.imp_right fun h => ⟨h.1, hnew h.2⟩
  · intro now i me he k hk
    exact ((hmine now i me he).2.mine k hk).imp_right fun h => ⟨h.1, hnew h.2⟩
  · intro now i me he j s hs hj hne
    obtain ⟨hi, hp⟩ := hmine now i me he
    by_contra hk
    rcases hp.mine s.nodeId hk with ⟨-, hid⟩ | ⟨-, hid⟩
    · exact ho.distinct hold j i s _ hs (session_eq hi) hj hne hid
    · exact (hnew hid).2 ((ho.held j s hs).resolve_left hne)

/-- **In every run with fewer than `2 ^ 64` registrations the sessions hold different ids,
a first id is one never issued before, and what arrives on a session changes no record
but the session's own.** -/
theorem sessions_isolated (cfg : ServerConfig) {es : List World.Event} {v w : World} {e : World.Event}
    (hrun : (machine cfg).Reaches (init cfg) es v) (hstep : v.step cfg e = some w)
    (hfew : (w.mqtt.map fun s => s.registrations.length).sum < 2 ^ 64) :
    ∃ ops more, Isolated cfg ops more v e w := by
  obtain ⟨ops, ho⟩ := owning_run hrun
  have hwell := wellFormed_trail ho.trail
  cases e with
  | mqtt now i me =>
    obtain ⟨more, hp⟩ := private_step hwell hstep
    have hi : i < v.mqtt.length := by
      obtain ⟨s, hs, -⟩ := Option.bind_eq_some_iff.mp hstep
      exact (session_of_get hs).2
    refine ⟨ops, more, isolated ho hp.grows (fun now' i' me' he => ?_) hfew⟩
    obtain ⟨-, rfl, -⟩ := World.Event.mqtt.inj he
    exact ⟨hi, hp⟩
  | acceptMqtt | acceptHttp | http | destroyMqtt | destroyHttp | sweep =>
    obtain ⟨more, hg⟩ := grows_step hwell hstep
    exact ⟨ops, more, isolated ho hg (fun _ _ _ he => (by cases he)) hfew⟩

/-! A second node registers beside the first. -/

private def registering : List World.Event :=
  [.acceptMqtt 0 0 none false, .acceptMqtt 1 0 none false, .mqtt 100 0 (.read connectPacket),
    .mqtt 100 1 (.read connectPacket), .mqtt 101 0 (.read jobPacket)]

private def oneNode : World := ((machine jobListeners).exec (init jobListeners) registering).getD (init jobListeners)

private def twoNodes : World := (oneNode.step jobListeners (.mqtt 101 1 (.read jobPacket))).getD oneNode

theorem second_node_isolated : (twoNodes.session 0).nodeId ≠ (twoNodes.session 1).nodeId ∧
    twoNodes.shared.registry.nodes.lookup (oneNode.session 0).nodeId =
      oneNode.shared.registry.nodes.lookup (oneNode.session 0).nodeId := by
  obtain ⟨w, hw⟩ := Option.isSome_iff_exists.mp
    (show (oneNode.step jobListeners (.mqtt 101 1 (.read jobPacket))).isSome = true by decide +kernel)
  have hlast : twoNodes = w := by rw [twoNodes, hw, Option.getD_some]
  have hfew : (twoNodes.mqtt.map fun s => s.registrations.length).sum < 2 ^ 64 := by decide +kernel
  obtain ⟨ops, more, h⟩ := sessions_isolated jobListeners ((machine jobListeners).reaches_exec (by decide +kernel))
    (e := .mqtt 101 1 (.read jobPacket)) (w := twoNodes) (hlast ▸ hw) hfew
  refine ⟨?_, ?_⟩
  · exact h.distinct 0 1 _ _ (session_eq (by decide +kernel)) (session_eq (by decide +kernel)) (by decide)
      (by decide +kernel)
  · exact h.others 101 1 _ rfl 0 _ (session_eq (by decide +kernel)) (by decide) (by decide +kernel)

end LightApr.Server.Isolation
