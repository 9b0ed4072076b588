import LightApr.Server.MetadataPublish
import LightApr.Sdk.Connect

/-! The role that a session takes from the user name of a client library. -/
namespace LightApr.Server.RoleRoundTrip
open LightApr.Core Mqtt MqttSession World Packet TopologyEvents MetadataPublish

/-- The user name that the client libraries build: the role, '_' and a decimal suffix. -/
def sdkUsername (role suffix : Bytes) : Bytes := role ++ ascii "_" ++ suffix

theorem roleOf_of_not_mem {front : Bytes} (h : 95 ∉ front) (rest : Bytes) : roleOf (front ++ 95 :: rest) = front := by
  rw [roleOf, findByte_append_cons rest h]
  exact List.take_left

theorem not_mem_roleOf (username : Bytes) : 95 ∉ roleOf username := by
  by_cases hmem : 95 ∈ username
  · obtain ⟨front, rest, rfl, hfront⟩ := List.eq_append_cons_of_mem hmem
    rw [roleOf_of_not_mem hfront]
    exact hfront
  · rw [roleOf, findByte_of_not_mem hmem]
    exact hmem

/-- The first '_' ends the role. -/
theorem roleOf_sdkUsername_iff (role suffix : Bytes) : roleOf (sdkUsername role suffix) = role ↔ 95 ∉ role := by
  constructor
  · intro h
    rw [← h]
    exact not_mem_roleOf _
  · intro h
    have hsep : ascii "_" = [95] := by decide
    rw [sdkUsername, hsep, List.append_assoc, List.singleton_append]
    exact roleOf_of_not_mem h suffix

/-- The session handles a CONNECT and grants access. -/
structure Authenticates (accessKey data username : Bytes) : Prop where
  decoded : ∃ conn, decodeConnect data = some conn ∧ conn.username = username ∧
    (conn.password = expectedPassword accessKey username ∨ accessKey = [])

theorem handleConnect_granted {accessKey data username : Bytes} (h : Authenticates accessKey data username)
    (s : MqttSession) : (s.handleConnect accessKey data).role = roleOf username ∧
      (s.handleConnect accessKey data).authenticated = true := by
  obtain ⟨conn, hconn, rfl, hpass⟩ := h.decoded
  have hgranted : ¬ (conn.password ≠ expectedPassword accessKey conn.username ∧ accessKey ≠ []) := by
    rintro ⟨hne, hkey⟩
    exact hpass.elim hne hkey
  unfold handleConnect
  rw [hconn]
  dsimp only
  rw [if_neg hgranted]
  exact ⟨rfl, rfl⟩

/-- Metadata that can be read and do not name a role. -/
structure Unnamed (lib : JsonLib) (role : Bytes) (data : Bytes) (pub : MqttPublish) : Prop where
  decoded : decodePublish data = some pub
  topic : pub.topic = ascii "apr/node/meta"
  read : (readMeta lib role pub.payload).isSome = true
  unnamed : ¬ NamesRole lib pub.payload

theorem role_of_unnamed {lib : JsonLib} {role data : Bytes} {pub : MqttPublish} {m : NodeMeta}
    (h : Unnamed lib role data pub) (hm : readMeta lib role pub.payload = some m) : m.role = role := by
  obtain ⟨j, hj, hm⟩ := Option.bind_eq_some_iff.mp hm
  obtain ⟨role', hrole, hm⟩ := Option.bind_eq_some_iff.mp hm
  obtain ⟨workers, -, hm⟩ := Option.bind_eq_some_iff.mp hm
  obtain ⟨endpoint, -, hm⟩ := Option.bind_eq_some_iff.mp hm
  obtain rfl := Option.some.inj hm
  have hnone : j.field? (ascii "role") = none := by
    rw [← Option.not_isSome_iff_eq_none]
    exact fun hsome => h.unnamed ⟨j, hj, hsome⟩
  cases j with
  | obj fields =>
    have hlookup : fields.lookup (ascii "role") = none := hnone
    unfold Json.valueString? at hrole
    dsimp only at hrole
    rw [hlookup] at hrole
    exact (Option.some.inj hrole).symm
  | null | bool _ | int _ | float _ _ | str _ | arr _ => cases hrole

variable {cfg : ServerConfig} {w : World} {i : Nat}

/-- The node is filed under the role of the session. -/
theorem publish_unnamed (hw : Visited cfg w) (now : Int) (hi : i < w.mqtt.length)
    (ha : (w.session i).authenticated = true) {data : Bytes} {pub : MqttPublish}
    (h : Unnamed cfg.registry.json (w.session i).role data pub) :
    ∃ m node, Records cfg now (w.session i) m w.shared.registry
      (w.handlePublish cfg now i data).shared.registry node ∧ node.role = (w.session i).role := by
  obtain ⟨m, hm⟩ := Option.isSome_iff_exists.mp h.read
  obtain ⟨node, hrecord⟩ := publish_record hw now hi ha h.decoded h.topic hm
  exact ⟨m, node, hrecord, hrecord.role.trans (role_of_unnamed h hm)⟩

/-- **A session that authenticates with the user name of a client library gets the client's role exactly if the role
has no '_' in it, and so does the node that its metadata register without naming a role.** -/
theorem role_round_trip_iff {accessKey data role suffix : Bytes}
    (h : Authenticates accessKey data (sdkUsername role suffix)) (s : MqttSession) :
    (s.handleConnect accessKey data).authenticated = true ∧
      ((s.handleConnect accessKey data).role = role ↔ 95 ∉ role) ∧
      ∀ (cfg : ServerConfig) (w : World), Visited cfg w → ∀ (now : Int) (i : Nat), i < w.mqtt.length →
        (w.session i).authenticated = true → (w.session i).role = (s.handleConnect accessKey data).role →
        ∀ (data' : Bytes) (pub : MqttPublish), Unnamed cfg.registry.json (w.session i).role data' pub →
        ∃ m node, Records cfg now (w.session i) m w.shared.registry
            (w.handlePublish cfg now i data').shared.registry node ∧ (node.role = role ↔ 95 ∉ role) := by
  obtain ⟨hrole, hauth⟩ := handleConnect_granted h s
  have hiff : (s.handleConnect accessKey data).role = role ↔ 95 ∉ role := by
    rw [hrole]
    exact roleOf_sdkUsername_iff role suffix
  refine ⟨hauth, hiff, ?_⟩
  intro cfg w hw now i hi ha hsame data' pub hpub
  obtain ⟨m, node, hrecord, hnode⟩ := publish_unnamed hw now hi ha hpub
  refine ⟨m, node, hrecord, ?_⟩
  rw [hnode, hsame]
  exact hiff

/-! A client of the C++ library. -/

private def hello (role : Bytes) : Bytes := Sdk.Connect.sendConnect [] role 42 7

private def connected (role : Bytes) : World :=
  ((machine rolelessListener).exec (init rolelessListener)
    [.acceptMqtt 0 0 none false, .mqtt 100 0 (.read (hello role))]).getD
    (init rolelessListener)

private theorem authenticates_hello {role : Bytes} (h : (hello role).length < 128) :
    Authenticates [] (hello role) (sdkUsername role (decimal 42)) := by
  have hlen := h
  obtain ⟨-, -, hrem, hpacket⟩ := Sdk.Connect.sendConnect_fields [] role 42 7
  rw [hello, hpacket, List.length_cons, List.length_cons, ← hrem] at hlen
  exact ⟨_, Sdk.Connect.connect_read (Nat.lt_trans h (by decide)) (by omega), rfl, .inr rfl⟩

/-- The session of the role is there, and the metadata do not name one. -/
private abbrev Connects (role : Bytes) : Prop :=
  ((machine rolelessListener).exec (init rolelessListener)
      [.acceptMqtt 0 0 none false, .mqtt 100 0 (.read (hello role))]).isSome = true ∧
    0 < (connected role).mqtt.length ∧ ((connected role).session 0).authenticated = true ∧
    (hello role).length < 128 ∧ ((connected role).session 0).role = roleOf (sdkUsername role (decimal 42)) ∧
    (decodePublish rolelessPacket).isSome = true ∧
    ∀ pub ∈ decodePublish rolelessPacket, pub.topic = ascii "apr/node/meta" ∧
      (readMeta rolelessListener.registry.json ((connected role).session 0).role pub.payload).isSome = true

private theorem connects_web : Connects (ascii "web") := by decide +kernel

/-- The role "web" arrives, and the node is filed under it. -/
theorem web_role_kept : ((MqttSession.new 0 [] none).handleConnect [] (hello (ascii "web"))).role = ascii "web" ∧
    ∃ node,
      ((connected (ascii "web")).handlePublish rolelessListener 101 0 rolelessPacket).shared.registry.nodes.lookup node.id =
        some node ∧ node.role = ascii "web" := by
  obtain ⟨hran, hi, ha, hlen, hsame, hdecoded, hmeta⟩ := connects_web
  have hno : (95 : UInt8) ∉ ascii "web" := by decide
  obtain ⟨-, hrole, hfiled⟩ := role_round_trip_iff (authenticates_hello hlen) (MqttSession.new 0 [] none)
  obtain ⟨pub, hpub⟩ := Option.isSome_iff_exists.mp hdecoded
  obtain ⟨htopic, hread⟩ := hmeta pub hpub
  have hunnamed : ¬ NamesRole rolelessListener.registry.json pub.payload := by
    rintro ⟨j, hj, hnamed⟩
    have hfind : [Json.obj []].find? (fun d => d.utf8 && decide (d.render = pub.payload)) = some j := hj
    obtain rfl := List.mem_singleton.mp (List.mem_of_find?_eq_some hfind)
    cases hnamed
  obtain ⟨_, node, hrecord, hnode⟩ :=
    hfiled rolelessListener _ (.reached ((machine rolelessListener).reaches_exec hran)) 101 0
    hi ha (hsame.trans (handleConnect_granted (authenticates_hello hlen) _).1.symm) rolelessPacket pub
    ⟨hpub, htopic, hread, hunnamed⟩
  exact ⟨hrole.mpr hno, node, hrecord.stored, hnode.mpr hno⟩

/-- The role "web_api" becomes "web". -/
theorem underscore_role_cut : ¬ ∀ (accessKey data role suffix : Bytes), suffix.all isDigit = true →
    Authenticates accessKey data (sdkUsername role suffix) → ∀ s : MqttSession,
      (s.handleConnect accessKey data).role = role := by
  intro h
  have hlen : (hello (ascii "web_api")).length < 128 := by decide +kernel
  have hrole := h [] _ (ascii "web_api") (decimal 42) (by decide) (authenticates_hello hlen) (MqttSession.new 0 [] none)
  rw [(handleConnect_granted (authenticates_hello hlen) _).1, roleOf_sdkUsername_iff] at hrole
  exact hrole (by decide)

end LightApr.Server.RoleRoundTrip
