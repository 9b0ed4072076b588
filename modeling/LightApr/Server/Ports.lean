import LightApr.Server.MetadataPublish
import LightApr.Core.CliPrecedence
import Mathlib.Data.List.TakeWhile

/-! The ports that come from outside: in the metadata of a node, on the command line, and in the configuration file. -/
namespace LightApr.Server.Ports
open LightApr.Core Core.CliOptions Mqtt MqttSession World Packet TopologyEvents MetadataPublish
open Reconnection (handlePublish_meta)

/-- Decimal digits, with or without a sign. -/
inductive DecimalText : Bytes → Int → Prop
  | plain {ds : Bytes} : ds ≠ [] → ds.all isDigit = true → DecimalText ds (digitsValue ds)
  | plus {ds : Bytes} : ds ≠ [] → ds.all isDigit = true → DecimalText (43 :: ds) (digitsValue ds)
  | minus {ds : Bytes} : ds ≠ [] → ds.all isDigit = true → DecimalText (45 :: ds) (-digitsValue ds)

/-- A port member that supplies a number. -/
inductive Supplies : Json → Int → Prop
  | number (n : Int) : Supplies (.int n) n
  | text {s : Bytes} {n : Int} : DecimalText s n → Supplies (.str s) n

/-- The numbers a port can be. -/
def IsPort (n : Int) : Prop := 0 ≤ n ∧ n < 65536

/-- What is left of a number in 16 bits. -/
def cut (n : Int) : UInt16 := UInt16.ofNat (n % 65536).toNat

theorem toNat_cut (n : Int) : ((cut n).toNat : Int) = n % 65536 := by
  have hlt : (n % 65536).toNat < 65536 := by omega
  have hcut : (cut n).toNat = (n % 65536).toNat := UInt16.toNat_ofNat_of_lt hlt
  rw [hcut]
  omega

theorem cut_eq_iff (n : Int) : ((cut n).toNat : Int) = n ↔ IsPort n := by
  rw [toNat_cut, IsPort]
  omega

theorem not_sign_of_isDigit {b : UInt8} (h : isDigit b = true) : isSpace b = false ∧ b ≠ 45 ∧ b ≠ 43 := by
  rw [isDigit, Bool.and_eq_true, decide_eq_true_eq, decide_eq_true_eq] at h
  obtain ⟨hlow, hhigh⟩ := h
  refine ⟨?_, ?_, ?_⟩
  · rw [isSpace, Bool.or_eq_false_iff, Bool.and_eq_false_iff]
    refine ⟨decide_eq_false ?_, .inr (decide_eq_false ?_)⟩
    · rintro rfl
      exact absurd hlow (by decide)
    · exact fun hle => absurd (UInt8.le_trans hlow hle) (by decide)
  · rintro rfl
    exact absurd hlow (by decide)
  · rintro rfl
    exact absurd hlow (by decide)

theorem read_plain (value : Nat) : (if sizeMax ≤ value then none else some value) =
    if (value : Int).natAbs < sizeMax then some ((value : Int) % sizeMax).toNat else none := by
  have hmax : sizeMax = 18446744073709551616 := rfl
  rw [hmax, Int.natAbs_natCast]
  by_cases hlt : value < 18446744073709551616
  · rw [if_neg (Nat.not_le.mpr hlt), if_pos hlt]
    congr 1
    omega
  · rw [if_pos (Nat.le_of_not_lt hlt), if_neg hlt]

theorem read_minus (value : Nat) : (if sizeMax ≤ value then none else some ((sizeMax - value) % sizeMax)) =
    if (-(value : Int)).natAbs < sizeMax then some (-(value : Int) % sizeMax).toNat else none := by
  have hmax : sizeMax = 18446744073709551616 := rfl
  rw [hmax, Int.natAbs_neg, Int.natAbs_natCast]
  by_cases hlt : value < 18446744073709551616
  · rw [if_neg (Nat.not_le.mpr hlt), if_pos hlt]
    congr 1
    omega
  · rw [if_pos (Nat.le_of_not_lt hlt), if_neg hlt]

/-- `stoul` wraps a number with a minus sign, and refuses one of more than 64 bits. -/
theorem stoul_decimalText {s : Bytes} {n : Int} (h : DecimalText s n) :
    stoul s = if n.natAbs < sizeMax then some (n % sizeMax).toNat else none := by
  cases h with
  | plain hne hdigits =>
    obtain ⟨d, rest, rfl⟩ := List.exists_cons_of_ne_nil hne
    obtain ⟨hspace, hminus, hplus⟩ := not_sign_of_isDigit (List.all_eq_true.mp hdigits d List.mem_cons_self)
    have hdrop : (d :: rest).dropWhile isSpace = d :: rest := List.dropWhile_cons_of_neg (by simp [hspace])
    simp only [stoul, hdrop, List.head?_cons, Option.some.injEq, hminus, hplus, or_self, if_false,
      List.takeWhile_eq_self_iff.mpr (List.all_eq_true.mp hdigits), hne]
    exact read_plain _
  | @plus ds hne hdigits =>
    have hdrop : (43 :: ds : Bytes).dropWhile isSpace = 43 :: ds := List.dropWhile_cons_of_neg (by decide)
    have hminus : (43 : UInt8) ≠ 45 := by decide
    simp only [stoul, hdrop, List.head?_cons, Option.some.injEq, hminus, or_true, if_true, if_false,
      List.drop_succ_cons, List.drop_zero, List.takeWhile_eq_self_iff.mpr (List.all_eq_true.mp hdigits), hne]
    exact read_plain _
  | @minus ds hne hdigits =>
    have hdrop : (45 :: ds : Bytes).dropWhile isSpace = 45 :: ds := List.dropWhile_cons_of_neg (by decide)
    simp only [stoul, hdrop, List.head?_cons, true_or, if_true, List.drop_succ_cons, List.drop_zero,
      List.takeWhile_eq_self_iff.mpr (List.all_eq_true.mp hdigits), hne, if_false]
    exact read_minus _

/-- In 16 bits the wrapping is not seen. -/
theorem ofNat_wrapped (n : Int) : UInt16.ofNat (n % sizeMax).toNat = cut n := by
  have hmax : sizeMax = 18446744073709551616 := rfl
  rw [cut, hmax]
  apply UInt16.toNat_inj.mp
  rw [UInt16.toNat_ofNat', UInt16.toNat_ofNat']
  omega

/-- A text whose number does not fit into 64 bits. -/
def Unreadable (p : Json) (n : Int) : Prop := (∃ s, p = .str s) ∧ sizeMax ≤ n.natAbs

theorem portFromJson_supplied {ep p : Json} {n : Int} (hp : ep.field? (ascii "port") = some p) (h : Supplies p n) :
    EndpointInfo.portFromJson ep = none ∧ Unreadable p n ∨
      EndpointInfo.portFromJson ep = some (cut n) ∧ ¬ Unreadable p n := by
  rw [EndpointInfo.portFromJson, hp]
  cases h with
  | number =>
    refine .inr ⟨rfl, ?_⟩
    rintro ⟨⟨_, he⟩, -⟩
    cases he
  | text htext =>
    dsimp only
    rw [stoul_decimalText htext]
    by_cases hlt : n.natAbs < sizeMax
    · refine .inr ⟨?_, fun h => absurd hlt (Nat.not_lt.mpr h.2)⟩
      rw [if_pos hlt, Option.map_some, ofNat_wrapped]
    · refine .inl ⟨?_, ⟨_, rfl⟩, Nat.le_of_not_lt hlt⟩
      rw [if_neg hlt]
      rfl

/-! In the metadata of a node. -/

/-- A payload with a port in its endpoint. -/
structure Names (lib : JsonLib) (payload : Bytes) (j p : Json) : Prop where
  parsed : lib.parse payload = some j
  port : ∃ ep, j.field? (ascii "endpoint") = some ep ∧ ep.field? (ascii "port") = some p

/-- Something else in the payload makes the handler refuse it. -/
def Malformed (role : Bytes) (j : Json) : Prop :=
  j.valueString? (ascii "role") role = none ∨ NodeInfo.workersFromJson j = none

variable {cfg : ServerConfig} {w : World} {i : Nat} {lib : JsonLib} {role payload : Bytes} {j p : Json} {n : Int}

theorem readMeta_supplied (role : Bytes) (h : Names lib payload j p) (hp : Supplies p n) :
    readMeta lib role payload = none ∧ (Malformed role j ∨ Unreadable p n) ∨
      ¬ Malformed role j ∧ ¬ Unreadable p n ∧
        ∃ m ep, readMeta lib role payload = some m ∧ m.endpoint = some ep ∧ ep.port = cut n := by
  obtain ⟨ep, hep, hport⟩ := h.port
  unfold readMeta
  rw [h.parsed, Option.bind_eq_bind, Option.bind_some]
  cases hrole : j.valueString? (ascii "role") role with
  | none => exact .inl ⟨rfl, .inl (.inl hrole)⟩
  | some r =>
    cases hworkers : NodeInfo.workersFromJson j with
    | none => exact .inl ⟨rfl, .inl (.inr hworkers)⟩
    | some workers =>
      have hfine : ¬ Malformed role j := by
        rintro (hnone | hnone)
        · cases hrole.symm.trans hnone
        · cases hworkers.symm.trans hnone
      have hendpoint : NodeInfo.endpointFromJson j = (EndpointInfo.fromJson ep).map some := by
        rw [NodeInfo.endpointFromJson, hep]
        cases ep with
        | null => cases hport
        | _ => rfl
      rcases portFromJson_supplied hport hp with ⟨hnone, hun⟩ | ⟨hsome, hread⟩
      · have hnone : EndpointInfo.fromJson ep = none := by
          unfold EndpointInfo.fromJson
          rw [hnone]
          rfl
        rw [hendpoint, hnone]
        exact .inl ⟨rfl, .inr hun⟩
      · obtain ⟨e, he, hcut⟩ : ∃ e, EndpointInfo.fromJson ep = some e ∧ e.port = cut n := by
          unfold EndpointInfo.fromJson
          rw [hsome]
          exact ⟨_, rfl, rfl⟩
        rw [hendpoint, he]
        exact .inr ⟨hfine, hread, _, e, rfl, rfl, hcut⟩

/-- The publish is refused and changes nothing in the registry, or the node is recorded with that port. -/
def PortKept (cfg : ServerConfig) (now : Int) (i : Nat) (payload : Bytes) (n : Int) (w w' : World) : Prop :=
  (readMeta cfg.registry.json (w.session i).role payload = none ∧ w'.shared.registry = w.shared.registry) ∨
    ∃ m node ep, readMeta cfg.registry.json (w.session i).role payload = some m ∧
      Records cfg now (w.session i) m w.shared.registry w'.shared.registry node ∧ node.endpoint = some ep ∧
      (ep.port.toNat : Int) = n

theorem published_port_iff (hw : Visited cfg w) (now : Int) (hi : i < w.mqtt.length)
    (ha : (w.session i).authenticated = true) {data : Bytes} {pub : MqttPublish} (hpub : decodePublish data = some pub)
    (ht : pub.topic = ascii "apr/node/meta") (h : Names cfg.registry.json pub.payload j p) (hp : Supplies p n) :
    PortKept cfg now i pub.payload n w (w.handlePublish cfg now i data) ↔
      Malformed (w.session i).role j ∨ Unreadable p n ∨ IsPort n := by
  rcases readMeta_supplied (w.session i).role h hp with ⟨hnone, hcond⟩ | ⟨hfine, hread, m, ep, hm, hep, hcut⟩
  · have hsame : w.handlePublish cfg now i data = w.update i (acknowledge pub) := by
      rw [handlePublish_meta cfg now ha hpub ht, hnone]
    refine iff_of_true (.inl ⟨hnone, ?_⟩) (hcond.imp_right .inl)
    rw [hsame, shared_update]
  · obtain ⟨node, hrecord⟩ := publish_record hw now hi ha hpub ht hm
    obtain ⟨e, he, hport⟩ : ∃ e, node.endpoint = some e ∧ e.port = cut n := by
      rw [hrecord.endpoint, hep]
      refine ⟨_, rfl, ?_⟩
      dsimp only
      split
      · exact hcut
      · exact hcut
    constructor
    · rintro (⟨hnone, -⟩ | ⟨m', node', e', hm', hrecord', he', hkept⟩)
      · cases hm.symm.trans hnone
      · obtain rfl := Option.some.inj (hm.symm.trans hm')
        obtain rfl := hrecord.unique hrecord'
        obtain rfl := Option.some.inj (he.symm.trans he')
        exact .inr (.inr ((cut_eq_iff n).mp (hport ▸ hkept)))
    · rintro (hbad | hbad | hn)
      · exact absurd hbad hfine
      · exact absurd hbad hread
      · exact .inr ⟨m, node, e, hm, hrecord, he, hport ▸ (cut_eq_iff n).mpr hn⟩

/-! On the command line and in the configuration file. -/

inductive Listener where
  | mqtt
  | ws
  | http
  deriving DecidableEq, Repr

namespace Listener

def field : Listener → Field
  | mqtt => .mqttPort
  | ws => .wsPort
  | http => .httpPort

def key : Listener → String
  | mqtt => "mqtt_port"
  | ws => "ws_port"
  | http => "http_port"

def port (opts : CliOptions) : Listener → UInt16
  | mqtt => opts.mqttPort
  | ws => opts.wsPort
  | http => opts.httpPort

end Listener

variable {files : ConfigFiles} {argv : List Bytes} {opts : CliOptions}

theorem port_parse (h : parse files argv = some opts) (l : Listener) : l.port opts =
    (((given (.field l.field) (argv.drop 1)).bind fun value => (stoul value).map UInt16.ofNat).or
      ((configured files (argv.drop 1)).bind (unsigned16? l.key))).getD (l.port {}) := by
  cases l with
  | mqtt => exact get_parse h .mqttPort
  | ws => exact get_parse h .wsPort
  | http => exact get_parse h .httpPort

/-- Where all numbers are read, so is the port's. -/
theorem read_of_given (l : Listener) {value : Bytes} (hgiven : given (.field l.field) (argv.drop 1) = some value)
    (hreads : ∀ token ∈ tokens (argv.drop 1), Reads token) : ∃ k, stoul value = some k := by
  have hread := hreads _ (mem_tokens_of_given hgiven)
  have hsome : ((stoul value).map UInt16.ofNat).isSome = true := by cases l <;> exact hread
  rw [Option.isSome_map] at hsome
  exact Option.isSome_iff_exists.mp hsome

theorem flag_port_iff (files : ConfigFiles) (argv : List Bytes) (l : Listener) {value : Bytes} {n : Int}
    (hgiven : given (.field l.field) (argv.drop 1) = some value) (hn : DecimalText value n) :
    (∀ opts, parse files argv = some opts → ((l.port opts).toNat : Int) = n) ↔
      IsPort n ∨ ∃ token ∈ tokens (argv.drop 1), ¬ Reads token := by
  by_cases hreads : ∀ token ∈ tokens (argv.drop 1), Reads token
  · obtain ⟨opts, hopts⟩ := Option.isSome_iff_exists.mp ((parse_isSome_iff files argv).mpr hreads)
    have hport : l.port opts = cut n := by
      obtain ⟨k, hk⟩ := read_of_given l hgiven hreads
      rw [port_parse hopts l, hgiven, Option.bind_some, hk]
      rw [stoul_decimalText hn, Option.ite_none_right_eq_some] at hk
      obtain ⟨-, hk⟩ := hk
      rw [← Option.some.inj hk, ← ofNat_wrapped]
      rfl
    constructor
    · exact fun h => .inl ((cut_eq_iff n).mp (hport ▸ h opts hopts))
    · rintro (h | ⟨token, htoken, h⟩) opts' hopts'
      · obtain rfl := Option.some.inj (hopts.symm.trans hopts')
        exact hport ▸ (cut_eq_iff n).mpr h
      · exact absurd (hreads token htoken) h
  · have hnone : parse files argv = none := by
      rw [← Option.not_isSome_iff_eq_none, parse_isSome_iff]
      exact hreads
    refine iff_of_true (fun opts hopts => nomatch hnone.symm.trans hopts) (.inr ?_)
    simpa using hreads

/-- The port, were it not for the file. -/
def portWithout (l : Listener) (args : List Bytes) : UInt16 :=
  ((given (.field l.field) args).bind fun value => (stoul value).map UInt16.ofNat).getD (l.port {})

theorem port_of_no_config (h : parse files argv = some opts) {l : Listener}
    (hno : (configured files (argv.drop 1)).bind (unsigned16? l.key) = none) :
    l.port opts = portWithout l (argv.drop 1) := by
  rw [port_parse h l, hno, Option.or_none, portWithout]

theorem port_of_flag (h : parse files argv = some opts) {l : Listener}
    (hgiven : given (.field l.field) (argv.drop 1) ≠ none) : l.port opts = portWithout l (argv.drop 1) := by
  obtain ⟨value, hvalue⟩ := Option.ne_none_iff_exists'.mp hgiven
  obtain ⟨k, hk⟩ := read_of_given l hvalue ((parse_isSome_iff files argv).mp (Option.isSome_of_eq_some h))
  rw [port_parse h l, portWithout, hvalue, Option.bind_some, hk]
  rfl

theorem file_port_iff (h : parse files argv = some opts) (l : Listener) {j : Json} {n : Int}
    (hj : configured files (argv.drop 1) = some j) (hn : j.field? (ascii l.key) = some (.int n)) :
    ((l.port opts).toNat : Int) = n ∨ l.port opts = portWithout l (argv.drop 1) ↔
      given (.field l.field) (argv.drop 1) ≠ none ∨ n < 65536 ∨ cut n = l.port {} := by
  by_cases hgiven : given (.field l.field) (argv.drop 1) = none
  · by_cases hneg : 0 ≤ n
    · have hport : l.port opts = cut n := by
        have hcut : UInt16.ofNat n.toNat = cut n := by
          rw [cut]
          apply UInt16.toNat_inj.mp
          rw [UInt16.toNat_ofNat', UInt16.toNat_ofNat']
          omega
        rw [port_parse h l, hgiven, hj, Option.bind_none, Option.none_or, Option.bind_some, unsigned16?, unsigned?, hn]
        dsimp only
        rw [if_pos hneg, Option.map_some, Option.getD_some, hcut]
      have hwithout : portWithout l (argv.drop 1) = l.port {} := by
        rw [portWithout, hgiven]
        rfl
      have hfits : IsPort n ↔ n < 65536 := and_iff_right hneg
      rw [hport, hwithout, cut_eq_iff, hfits]
      exact (or_iff_right (not_not_intro hgiven)).symm
    · refine iff_of_true (.inr (port_of_no_config h ?_)) (.inr (.inl (by omega)))
      rw [hj, Option.bind_some, unsigned16?, unsigned?, hn]
      dsimp only
      rw [if_neg hneg]
      rfl
  · exact iff_of_true (.inr (port_of_flag h hgiven)) (.inl hgiven)

theorem file_text_ignored (h : parse files argv = some opts) (l : Listener) {j : Json} {s : Bytes}
    (hj : configured files (argv.drop 1) = some j) (hs : j.field? (ascii l.key) = some (.str s)) :
    l.port opts = portWithout l (argv.drop 1) := by
  apply port_of_no_config h
  rw [hj, Option.bind_some, unsigned16?, unsigned?, hs]
  rfl

/-- **A port is recorded as it was supplied, or refused or ignored, exactly if it is below 65536 (and, but in the
file, not negative), or what supplies it is refused for another reason: a text of more than 64 bits, other members or
numbers that are refused, a flag over the file's port, or a port that is cut to the default.** -/
theorem port_kept_iff (cfg : ServerConfig) (files : ConfigFiles) (argv : List Bytes) :
    (∀ w : World, Visited cfg w → ∀ (now : Int) (i : Nat), i < w.mqtt.length → (w.session i).authenticated = true →
      ∀ (data : Bytes) (pub : MqttPublish), decodePublish data = some pub → pub.topic = ascii "apr/node/meta" →
      ∀ (j p : Json) (n : Int), Names cfg.registry.json pub.payload j p → Supplies p n →
        (PortKept cfg now i pub.payload n w (w.handlePublish cfg now i data) ↔
        Malformed (w.session i).role j ∨ Unreadable p n ∨ IsPort n)) ∧
    (∀ (l : Listener) (value : Bytes) (n : Int),
      given (.field l.field) (argv.drop 1) = some value → DecimalText value n →
      ((∀ opts, parse files argv = some opts → ((l.port opts).toNat : Int) = n) ↔
        IsPort n ∨ ∃ token ∈ tokens (argv.drop 1), ¬ Reads token)) ∧
    ∀ opts : CliOptions, parse files argv = some opts →
      ∀ (l : Listener) (j : Json), configured files (argv.drop 1) = some j →
      (∀ n, j.field? (ascii l.key) = some (.int n) →
        (((l.port opts).toNat : Int) = n ∨ l.port opts = portWithout l (argv.drop 1) ↔
          given (.field l.field) (argv.drop 1) ≠ none ∨ n < 65536 ∨ cut n = l.port {})) ∧
      ∀ s, j.field? (ascii l.key) = some (.str s) → l.port opts = portWithout l (argv.drop 1) :=
  ⟨fun _ hw now _ hi ha _ _ hpub ht _ _ _ h hp => published_port_iff hw now hi ha hpub ht h hp,
    fun l _ _ hgiven hn => flag_port_iff files argv l hgiven hn,
    fun _ h l _ hj => ⟨fun _ hn => file_port_iff h l hj hn, fun _ hs => file_text_ignored h l hj hs⟩⟩

/-! Metadata, a flag and a file with one port. -/

private def endpointDocument (n : Int) : Json := .obj [(ascii "endpoint", .obj [(ascii "port", .int n)])]

private def withPort (n : Int) : ServerConfig := .ofDocuments [endpointDocument n] 1

private def withSession (n : Int) : World :=
  ((machine (withPort n)).exec (init (withPort n))
    [.acceptMqtt 0 0 none false, .mqtt 100 0 (.read (connectAs (ascii "j")))]).getD
    (init (withPort n))

private def portMeta (n : Int) : Bytes := metaPacket (endpointDocument n)

private def portPublish (n : Int) : MqttPublish := ⟨ascii "apr/node/meta", (endpointDocument n).render, 0, 0, false⟩

/-- The session is there, and the metadata can be read. -/
private abbrev Ready (n : Int) : Prop :=
  ((machine (withPort n)).exec (init (withPort n))
      [.acceptMqtt 0 0 none false, .mqtt 100 0 (.read (connectAs (ascii "j")))]).isSome = true ∧
    0 < (withSession n).mqtt.length ∧ ((withSession n).session 0).authenticated = true ∧
    (endpointDocument n).render.length < 60000 ∧ (endpointDocument n).utf8 = true

private theorem ready_8080 : Ready 8080 := by decide +kernel

private theorem ready_65616 : Ready 65616 := by decide +kernel

private theorem names_portPublish {n : Int} (h : Ready n) :
    Names (withPort n).registry.json (portPublish n).payload (endpointDocument n) (.int n) := by
  refine ⟨?_, _, rfl, rfl⟩
  change [endpointDocument n].find? (fun d => d.utf8 && decide (d.render = (endpointDocument n).render)) = _
  exact List.find?_cons_of_pos (by simp [h.2.2.2.2])

private theorem visited_withSession {n : Int} (h : Ready n) : Visited (withPort n) (withSession n) :=
  .reached ((machine (withPort n)).reaches_exec h.1)

private theorem decodePublish_portMeta {n : Int} (h : Ready n) : decodePublish (portMeta n) = some (portPublish n) := by
  have hlen : (ascii "apr/node/meta").length = 13 := by decide
  exact decodePublish_encodePublish (by omega) (by have := h.2.2.2.1; omega)

private def httpPortFile (n : Int) : ConfigFiles :=
  ⟨fun _ => some [], fun _ => some (.obj [(ascii "http_port", .int n)])⟩

private def portFlag (value : String) : List Bytes :=
  [ascii "lightapr", ascii "-f", ascii "a", ascii "--port", ascii value]

private theorem configured_httpPortFile {n : Int} {value : String}
    (h : given .config ((portFlag value).drop 1) = some (ascii "a")) :
    configured (httpPortFile n) ((portFlag value).drop 1) = some (.obj [(ascii "http_port", .int n)]) := by
  rw [configured, h]
  rfl

/-- Ports in range: 8080 in the metadata and in the file, 1990 as a flag. -/
theorem port_kept_iff_8080 :
    PortKept (withPort 8080) 101 0 (portPublish 8080).payload 8080 (withSession 8080)
        ((withSession 8080).handlePublish (withPort 8080) 101 0 (portMeta 8080)) ∧
      ∃ opts, parse (httpPortFile 8080) (portFlag "1990") = some opts ∧ (opts.mqttPort.toNat : Int) = 1990 ∧
        ((opts.httpPort.toNat : Int) = 8080 ∨ opts.httpPort = portWithout .http ((portFlag "1990").drop 1)) := by
  obtain ⟨hmeta, hflag, hfile⟩ := port_kept_iff (withPort 8080) (httpPortFile 8080) (portFlag "1990")
  constructor
  · obtain ⟨-, hi, ha, -⟩ := ready_8080
    exact (hmeta _ (visited_withSession ready_8080) 101 0 hi ha _ _ (decodePublish_portMeta ready_8080) rfl _ _ _
      (names_portPublish ready_8080) (.number 8080)).mpr (.inr (.inr (by unfold IsPort; decide)))
  · have hrun : (parse (httpPortFile 8080) (portFlag "1990")).isSome = true := by decide +kernel
    obtain ⟨opts, hopts⟩ := Option.isSome_iff_exists.mp hrun
    have htext : DecimalText (ascii "1990") 1990 := .plain (by decide) (by decide)
    refine ⟨opts, hopts, ?_, ?_⟩
    · exact (hflag .mqtt _ _ (by decide +kernel) htext).mpr (.inl (by unfold IsPort; decide)) opts hopts
    · exact ((hfile _ hopts .http _ (configured_httpPortFile (by decide +kernel))).1 8080 rfl).mpr
        (.inr (.inl (by decide)))

/-- 65616 is recorded as 80, 65537 as 1. -/
theorem port_cut :
    (¬ ∀ (cfg : ServerConfig) (w : World), Visited cfg w → ∀ (now : Int) (i : Nat), i < w.mqtt.length →
      (w.session i).authenticated = true → ∀ (data : Bytes) (pub : MqttPublish), decodePublish data = some pub →
      pub.topic = ascii "apr/node/meta" → ∀ (j p : Json) (n : Int), Names cfg.registry.json pub.payload j p →
      Supplies p n → PortKept cfg now i pub.payload n w (w.handlePublish cfg now i data)) ∧
    (¬ ∀ (files : ConfigFiles) (argv : List Bytes) (l : Listener) (value : Bytes) (n : Int),
      given (.field l.field) (argv.drop 1) = some value → DecimalText value n →
      ∀ opts, parse files argv = some opts → ((l.port opts).toNat : Int) = n) ∧
    ¬ ∀ (files : ConfigFiles) (argv : List Bytes) (opts : CliOptions), parse files argv = some opts →
      ∀ (l : Listener) (j : Json), configured files (argv.drop 1) = some j →
      ∀ n, j.field? (ascii l.key) = some (.int n) →
        ((l.port opts).toNat : Int) = n ∨ l.port opts = portWithout l (argv.drop 1) := by
  have hno : ¬ IsPort 65616 ∧ ¬ IsPort 65537 := by
    unfold IsPort
    decide
  refine ⟨fun h => ?_, fun h => ?_, fun h => ?_⟩
  · obtain ⟨-, hi, ha, -⟩ := ready_65616
    have hkept := h _ _ (visited_withSession ready_65616) 101 0 hi ha _ _ (decodePublish_portMeta ready_65616) rfl _ _ _
      (names_portPublish ready_65616) (.number 65616)
    have hsupplies : Supplies (.int 65616) 65616 := .number 65616
    rcases (published_port_iff (visited_withSession ready_65616) 101 hi ha (decodePublish_portMeta ready_65616) rfl
      (names_portPublish ready_65616) hsupplies).mp hkept with hbad | ⟨⟨_, hbad⟩, -⟩ | hport
    · rcases hbad with hbad | hbad
      · cases hbad
      · cases hbad
    · cases hbad
    · exact hno.1 hport
  · have hrun : (parse (httpPortFile 1) (portFlag "65537")).map CliOptions.mqttPort = some 1 := by decide +kernel
    obtain ⟨opts, hopts, hport⟩ := Option.map_eq_some_iff.mp hrun
    have htext : DecimalText (ascii "65537") 65537 := .plain (by decide) (by decide)
    have hkept : (opts.mqttPort.toNat : Int) = 65537 := h _ _ .mqtt _ _ (by decide +kernel) htext opts hopts
    rw [hport] at hkept
    exact absurd hkept (by decide)
  · have hrun : (parse (httpPortFile 65537) (portFlag "80")).map CliOptions.httpPort = some 1 := by decide +kernel
    obtain ⟨opts, hopts, hport⟩ := Option.map_eq_some_iff.mp hrun
    rcases h _ _ opts hopts .http _ (configured_httpPortFile (by decide +kernel)) 65537 rfl with hkept | hkept
    · have hkept : (opts.httpPort.toNat : Int) = 65537 := hkept
      rw [hport] at hkept
      exact absurd hkept (by decide)
    · have hkept : opts.httpPort = portWithout .http ((portFlag "80").drop 1) := hkept
      rw [hport] at hkept
      exact absurd hkept (by decide +kernel)

end LightApr.Server.Ports
