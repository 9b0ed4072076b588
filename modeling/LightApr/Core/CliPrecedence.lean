import LightApr.Core.CliOptions
import Mathlib.Data.List.Basic

/-! Where each field of the options comes from: the last of its flags, the configuration file, or its default. -/
namespace LightApr.Core.CliOptions

/-- The flags of an argument list with their values, read from left to right. -/
def tokens : List Bytes → List (Flag × Bytes)
  | [] => []
  | arg :: rest =>
    match Flag.ofArg arg with
    | none => tokens rest
    | some flag =>
      if flag.takesValue then
        match rest with
        | [] => []
        | value :: rest => (flag, value) :: tokens rest
      else (flag, []) :: tokens rest

/-- The value of the last occurrence of a flag. -/
def given (flag : Flag) (args : List Bytes) : Option Bytes := (tokens args).reverse.lookup flag

/-- What the file of the last `--config` holds, if it parses. -/
def configured (files : ConfigFiles) (args : List Bytes) : Option Json :=
  (given .config args).bind fun path => (files.read path).bind files.parse

abbrev Field.Value : Field → Type
  | .standalone | .monitorEnabled | .testerEnabled => Bool
  | .cellId | .accessKey | .logFile | .logLevel => Bytes
  | .mqttPort | .wsPort | .httpPort => UInt16
  | .threads | .sessionIdleTimeoutSec | .maxSessionBufferBytes | .maxNodeExtraBytes | .maxConnections
  | .maxConnectionsPerIp | .maxNewConnectionsPerIp | .connectionRateWindowSec | .maxRequestsPerConnection => Nat

def Field.get : (f : Field) → CliOptions → f.Value
  | .standalone => CliOptions.standalone
  | .cellId => CliOptions.cellId
  | .accessKey => CliOptions.accessKey
  | .mqttPort => CliOptions.mqttPort
  | .wsPort => CliOptions.wsPort
  | .httpPort => CliOptions.httpPort
  | .threads => CliOptions.threads
  | .logFile => CliOptions.logFile
  | .logLevel => CliOptions.logLevel
  | .sessionIdleTimeoutSec => CliOptions.sessionIdleTimeoutSec
  | .maxSessionBufferBytes => CliOptions.maxSessionBufferBytes
  | .maxNodeExtraBytes => CliOptions.maxNodeExtraBytes
  | .maxConnections => CliOptions.maxConnections
  | .maxConnectionsPerIp => CliOptions.maxConnectionsPerIp
  | .maxNewConnectionsPerIp => CliOptions.maxNewConnectionsPerIp
  | .connectionRateWindowSec => CliOptions.connectionRateWindowSec
  | .maxRequestsPerConnection => CliOptions.maxRequestsPerConnection
  | .monitorEnabled => CliOptions.monitorEnabled
  | .testerEnabled => CliOptions.testerEnabled

def Field.isSet : Field → CliOverrides → Bool
  | .standalone => CliOverrides.standalone
  | .cellId => CliOverrides.cellId
  | .accessKey => CliOverrides.accessKey
  | .mqttPort => CliOverrides.mqttPort
  | .wsPort => CliOverrides.wsPort
  | .httpPort => CliOverrides.httpPort
  | .threads => CliOverrides.threads
  | .logFile => CliOverrides.logFile
  | .logLevel => CliOverrides.logLevel
  | .sessionIdleTimeoutSec => CliOverrides.sessionIdleTimeoutSec
  | .maxSessionBufferBytes => CliOverrides.maxSessionBufferBytes
  | .maxNodeExtraBytes => CliOverrides.maxNodeExtraBytes
  | .maxConnections => CliOverrides.maxConnections
  | .maxConnectionsPerIp => CliOverrides.maxConnectionsPerIp
  | .maxNewConnectionsPerIp => CliOverrides.maxNewConnectionsPerIp
  | .connectionRateWindowSec => CliOverrides.connectionRateWindowSec
  | .maxRequestsPerConnection => CliOverrides.maxRequestsPerConnection
  | .monitorEnabled => CliOverrides.monitorEnabled
  | .testerEnabled => CliOverrides.testerEnabled

/-- What the argument after a flag stands for. -/
def Field.ofFlag : (f : Field) → Bytes → Option f.Value
  | .standalone, _ | .monitorEnabled, _ | .testerEnabled, _ => some true
  | .cellId, value | .accessKey, value | .logFile, value | .logLevel, value => some value
  | .mqttPort, value | .wsPort, value | .httpPort, value => (stoul value).map UInt16.ofNat
  | .threads, value | .sessionIdleTimeoutSec, value | .maxSessionBufferBytes, value | .maxNodeExtraBytes, value
  | .maxConnections, value | .maxConnectionsPerIp, value | .maxNewConnectionsPerIp, value
  | .connectionRateWindowSec, value | .maxRequestsPerConnection, value => stoul value

/-- What the configuration file holds for a field, with the type that is accepted. -/
def Field.ofConfig : (f : Field) → Json → Option f.Value
  | .standalone => bool? "standalone"
  | .cellId => string? "cell_id"
  | .accessKey => string? "access_key"
  | .mqttPort => unsigned16? "mqtt_port"
  | .wsPort => unsigned16? "ws_port"
  | .httpPort => unsigned16? "http_port"
  | .threads => unsigned? "threads"
  | .logFile => string? "log_file"
  | .logLevel => string? "log_level"
  | .sessionIdleTimeoutSec => unsigned? "session_idle_timeout_sec"
  | .maxSessionBufferBytes => unsigned? "max_session_buffer_bytes"
  | .maxNodeExtraBytes => unsigned? "max_node_extra_bytes"
  | .maxConnections => unsigned? "max_connections"
  | .maxConnectionsPerIp => unsigned? "max_connections_per_ip"
  | .maxNewConnectionsPerIp => unsigned? "max_new_connections_per_ip"
  | .connectionRateWindowSec => unsigned? "connection_rate_window_sec"
  | .maxRequestsPerConnection => unsigned? "max_requests_per_connection"
  | .monitorEnabled => bool? "monitor"
  | .testerEnabled => bool? "tester"

/-- What the flags seen so far say about a field. -/
def Field.override (f : Field) (ov : CliOverrides) : Option f.Value :=
  if f.isSet ov then some (f.get ov.values) else none

section
variable {f g : Field} {ov ov' : CliOverrides} {value : Bytes} {st st' : CliOverrides × Option Bytes}
  {files : ConfigFiles} {args : List Bytes} {opts : CliOptions}

theorem get_load (f : Field) (j : Json) (opts : CliOptions) :
    f.get (load j opts) = (f.ofConfig j).getD (f.get opts) := by
  cases f <;> rfl

theorem get_applyOverrides (f : Field) (ov : CliOverrides) (opts : CliOptions) :
    f.get (applyOverrides ov opts) = (f.override ov).getD (f.get opts) := by
  have h : f.get (applyOverrides ov opts) = if f.isSet ov then f.get ov.values else f.get opts := by
    cases f <;> rfl
  rw [h, Field.override]
  split <;> rfl

theorem override_empty (f : Field) : f.override {} = none := by
  cases f <;> rfl

/-- A branch fails as its value does. -/
theorem isSome_set (ov : CliOverrides) (value : Bytes) (f : Field) :
    (ov.set value f).isSome = (f.ofFlag value).isSome := by
  cases f <;> simp [CliOverrides.set, Field.ofFlag]

theorem override_set (h : ov.set value f = some ov') : f.override ov' = f.ofFlag value := by
  cases f <;> simp only [CliOverrides.set, Option.some.injEq, Option.map_eq_some_iff] at h
  case standalone | cellId | accessKey | logFile | logLevel | monitorEnabled | testerEnabled => subst h; rfl
  all_goals
    obtain ⟨n, hn, rfl⟩ := h
    simp [Field.override, Field.isSet, Field.get, Field.ofFlag, hn]

/-- A branch leaves the other fields alone. -/
theorem override_set_of_ne (hne : f ≠ g) (h : ov.set value g = some ov') : f.override ov' = f.override ov := by
  have hsame : ∀ ov' ov'', f.isSet ov' = f.isSet ov'' → f.get ov'.values = f.get ov''.values →
      f.override ov' = f.override ov'' := fun _ _ hset hget => by rw [Field.override, hset, hget, ← Field.override]
  cases g <;> simp only [CliOverrides.set, Option.some.injEq, Option.map_eq_some_iff] at h
  case standalone | cellId | accessKey | logFile | logLevel | monitorEnabled | testerEnabled =>
    subst h
    cases f <;> first | exact absurd rfl hne | exact hsame _ _ rfl rfl
  all_goals
    obtain ⟨n, -, rfl⟩ := h
    cases f <;> first | exact absurd rfl hne | exact hsame _ _ rfl rfl

/-- The scan records the flags one by one. -/
theorem scan_eq (st : CliOverrides × Option Bytes) (args : List Bytes) :
    scan st args = (tokens args).foldlM record st := by
  fun_induction tokens args generalizing st with
  | case1 => rfl
  | case2 arg rest hnone ih => rw [scan, hnone, ih]
  | case3 arg flag hflag htakes =>
    simp only [scan, hflag, htakes, if_true]
    rfl
  | case4 arg flag hflag htakes value rest ih =>
    simp only [scan, hflag, htakes, if_true]
    rw [List.foldlM_cons]
    exact Option.bind_congr fun st' _ => ih st'
  | case5 arg rest flag hflag htakes ih =>
    simp only [scan, hflag]
    rw [if_neg htakes, List.foldlM_cons]
    exact Option.bind_congr fun st' _ => ih st'

/-- What a flag brings can be read. -/
def Reads (token : Flag × Bytes) : Prop :=
  match token.1 with
  | .field f => (f.ofFlag token.2).isSome = true
  | .config => True

theorem isSome_record (st : CliOverrides × Option Bytes) (token : Flag × Bytes) :
    (record st token).isSome = true ↔ Reads token := by
  obtain ⟨flag, value⟩ := token
  cases flag with
  | field f => rw [record, Option.isSome_map, isSome_set, Reads]
  | config => exact iff_of_true rfl trivial

theorem isSome_foldlM_record (st : CliOverrides × Option Bytes) (toks : List (Flag × Bytes)) :
    (toks.foldlM record st).isSome = true ↔ ∀ token ∈ toks, Reads token := by
  induction toks generalizing st with
  | nil => simp
  | cons token toks ih =>
    rw [List.foldlM_cons, List.forall_mem_cons, ← isSome_record st]
    cases hrecord : record st token with
    | none => simp
    | some st' => simpa using ih st'

/-- What has been recorded of a flag came with its last occurrence. -/
theorem recorded {toks : List (Flag × Bytes)} (h : toks.foldlM record ({}, none) = some st) :
    (∀ f : Field, f.override st.1 = (toks.reverse.lookup (.field f)).bind f.ofFlag) ∧
      st.2 = toks.reverse.lookup .config := by
  induction toks using List.reverseRecOn generalizing st with
  | nil =>
    obtain rfl := Option.some.inj h
    exact ⟨fun f => override_empty f, rfl⟩
  | append_singleton toks token ih =>
    rw [List.foldlM_append, Option.bind_eq_bind, Option.bind_eq_some_iff] at h
    obtain ⟨st', hst', h⟩ := h
    rw [List.foldlM_cons] at h
    replace h : record st' token = some st := by simpa using h
    obtain ⟨hfields, hconfig⟩ := ih hst'
    obtain ⟨flag, value⟩ := token
    rw [List.reverse_append, List.reverse_singleton, List.singleton_append]
    cases flag with
    | field g =>
      obtain ⟨ov, hset, rfl⟩ := Option.map_eq_some_iff.mp h
      refine ⟨fun f => ?_, ?_⟩
      · by_cases hfg : f = g
        · subst hfg
          rw [List.lookup_cons_self, Option.bind_some]
          exact override_set hset
        · have hne : (Flag.field f == Flag.field g) = false := by simp [hfg]
          rw [List.lookup_cons, hne]
          exact (override_set_of_ne hfg hset).trans (hfields f)
      · exact hconfig
    | config =>
      obtain rfl := Option.some.inj h
      exact ⟨fun f => hfields f, rfl⟩

/-- The scan succeeds exactly if every number can be read. -/
theorem parse_isSome_iff (files : ConfigFiles) (argv : List Bytes) :
    (parse files argv).isSome = true ↔ ∀ token ∈ tokens (argv.drop 1), Reads token := by
  rw [parse, Option.isSome_map, scan_eq, isSome_foldlM_record]

/-- **The law of precedence, for every field.** -/
theorem get_parse {argv : List Bytes} (h : parse files argv = some opts) (f : Field) :
    f.get opts = (((given (.field f) (argv.drop 1)).bind f.ofFlag).or
      ((configured files (argv.drop 1)).bind f.ofConfig)).getD (f.get {}) := by
  obtain ⟨⟨ov, config⟩, hscan, rfl⟩ := Option.map_eq_some_iff.mp h
  rw [scan_eq] at hscan
  obtain ⟨hfields, hconfig⟩ := recorded hscan
  have hconfig : config = given .config (argv.drop 1) := hconfig
  subst hconfig
  dsimp only
  rw [get_applyOverrides, hfields f, ← given, Option.getD_or]
  congr 1
  rw [configured]
  cases given .config (argv.drop 1) with
  | none => rfl
  | some path =>
    simp only [loadFromFile, Option.bind_some]
    cases (files.read path).bind files.parse with
    | none => rfl
    | some j => exact get_load f j {}

/-! The place of `--config`. -/

/-- The scan comes to the end of the arguments with every flag supplied: the next argument would be looked at as a
flag. -/
def atBoundary : List Bytes → Bool
  | [] => true
  | arg :: rest =>
    match Flag.ofArg arg with
    | none => atBoundary rest
    | some flag =>
      if flag.takesValue then
        match rest with
        | [] => false
        | _ :: rest => atBoundary rest
      else atBoundary rest

theorem tokens_append {xs : List Bytes} (h : atBoundary xs = true) (ys : List Bytes) :
    tokens (xs ++ ys) = tokens xs ++ tokens ys := by
  fun_induction tokens xs with
  | case1 => rfl
  | case2 arg rest hnone ih =>
    rw [atBoundary.eq_def] at h
    simp only [hnone] at h
    rw [List.cons_append, tokens, hnone]
    exact ih h
  | case3 arg flag hflag htakes =>
    simp only [atBoundary, hflag, htakes, if_true] at h
    cases h
  | case4 arg flag hflag htakes value rest ih =>
    simp only [atBoundary, hflag, htakes, if_true] at h
    simp only [List.cons_append, tokens, hflag, htakes, if_true]
    rw [ih h]
  | case5 arg rest flag hflag htakes ih =>
    rw [atBoundary.eq_def] at h
    simp only [hflag] at h
    rw [if_neg htakes] at h
    simp only [List.cons_append, tokens, hflag]
    rw [if_neg htakes, ih h]

theorem tokens_config {c : Bytes} (hc : c = ascii "-f" ∨ c = ascii "--config") (path : Bytes) (ys : List Bytes) :
    tokens (c :: path :: ys) = (.config, path) :: tokens ys := by
  have hflag : Flag.ofArg c = some .config := by
    rcases hc with rfl | rfl
    · decide
    · decide
  simp only [tokens, hflag]
  rfl

/-- A path remembered before other flags could as well have come after them. -/
theorem foldlM_config (path : Bytes) {toks : List (Flag × Bytes)} (h : ∀ token ∈ toks, token.1 ≠ .config)
    (st : CliOverrides × Option Bytes) :
    toks.foldlM record (st.1, some path) = (toks.foldlM record st).map fun st => (st.1, some path) := by
  induction toks generalizing st with
  | nil => rfl
  | cons token toks ih =>
    obtain ⟨htoken, htoks⟩ := List.forall_mem_cons.mp h
    obtain ⟨flag, value⟩ := token
    cases flag with
    | config => exact absurd rfl htoken
    | field f =>
      rw [List.foldlM_cons, List.foldlM_cons]
      simp only [record]
      cases st.1.set value f with
      | none => rfl
      | some ov => exact ih htoks (ov, st.2)

/-- With one `--config` the scan does not depend on where it stands. -/
theorem scan_config {c : Bytes} (hc : c = ascii "-f" ∨ c = ascii "--config") (path : Bytes) {xs ys : List Bytes}
    (hxs : atBoundary xs = true) (honly : given .config (xs ++ ys) = none) (st : CliOverrides × Option Bytes) :
    scan st (xs ++ c :: path :: ys) = (scan st (xs ++ ys)).map fun st => (st.1, some path) := by
  have hnone : ∀ token ∈ tokens ys, token.1 ≠ .config := by
    intro token htoken hconfig
    rw [given, tokens_append hxs, List.lookup_eq_none_iff] at honly
    have hmem : token ∈ (tokens xs ++ tokens ys).reverse := List.mem_reverse.mpr (List.mem_append_right _ htoken)
    exact bne_iff_ne.mp (honly token hmem) hconfig.symm
  rw [scan_eq, scan_eq, tokens_append hxs, tokens_append hxs, tokens_config hc, List.foldlM_append, List.foldlM_append]
  cases (tokens xs).foldlM record st with
  | none => rfl
  | some st' => exact foldlM_config path hnone st'

/-- Every field has the value of its last flag, else that of the file, else its default. -/
structure Merged (files : ConfigFiles) (args : List Bytes) (opts : CliOptions) : Prop where
  standalone : opts.standalone = (((given (.field .standalone) args).map fun _ => true).or
    ((configured files args).bind (bool? "standalone"))).getD false
  cellId : opts.cellId = ((given (.field .cellId) args).or
    ((configured files args).bind (string? "cell_id"))).getD (ascii "default_cell")
  accessKey : opts.accessKey = ((given (.field .accessKey) args).or
    ((configured files args).bind (string? "access_key"))).getD (ascii "lightapr_secret_key")
  mqttPort : opts.mqttPort.toNat = (((given (.field .mqttPort) args).bind stoul).or
    ((configured files args).bind (unsigned? "mqtt_port"))).getD 1883
  wsPort : opts.wsPort.toNat = (((given (.field .wsPort) args).bind stoul).or
    ((configured files args).bind (unsigned? "ws_port"))).getD 8083
  httpPort : opts.httpPort.toNat = (((given (.field .httpPort) args).bind stoul).or
    ((configured files args).bind (unsigned? "http_port"))).getD 8080
  threads : opts.threads = (((given (.field .threads) args).bind stoul).or
    ((configured files args).bind (unsigned? "threads"))).getD 0
  logFile : opts.logFile = ((given (.field .logFile) args).or
    ((configured files args).bind (string? "log_file"))).getD (ascii "lightapr.log")
  logLevel : opts.logLevel = ((given (.field .logLevel) args).or
    ((configured files args).bind (string? "log_level"))).getD (ascii "info")
  sessionIdleTimeoutSec : opts.sessionIdleTimeoutSec = (((given (.field .sessionIdleTimeoutSec) args).bind stoul).or
    ((configured files args).bind (unsigned? "session_idle_timeout_sec"))).getD 90
  maxSessionBufferBytes : opts.maxSessionBufferBytes = (((given (.field .maxSessionBufferBytes) args).bind stoul).or
    ((configured files args).bind (unsigned? "max_session_buffer_bytes"))).getD 262144
  maxNodeExtraBytes : opts.maxNodeExtraBytes = (((given (.field .maxNodeExtraBytes) args).bind stoul).or
    ((configured files args).bind (unsigned? "max_node_extra_bytes"))).getD 8192
  maxConnections : opts.maxConnections = (((given (.field .maxConnections) args).bind stoul).or
    ((configured files args).bind (unsigned? "max_connections"))).getD 10000
  maxConnectionsPerIp : opts.maxConnectionsPerIp = (((given (.field .maxConnectionsPerIp) args).bind stoul).or
    ((configured files args).bind (unsigned? "max_connections_per_ip"))).getD 100
  maxNewConnectionsPerIp : opts.maxNewConnectionsPerIp = (((given (.field .maxNewConnectionsPerIp) args).bind stoul).or
    ((configured files args).bind (unsigned? "max_new_connections_per_ip"))).getD 20
  connectionRateWindowSec : opts.connectionRateWindowSec =
    (((given (.field .connectionRateWindowSec) args).bind stoul).or
    ((configured files args).bind (unsigned? "connection_rate_window_sec"))).getD 10
  maxRequestsPerConnection : opts.maxRequestsPerConnection =
    (((given (.field .maxRequestsPerConnection) args).bind stoul).or
    ((configured files args).bind (unsigned? "max_requests_per_connection"))).getD 10000
  monitorEnabled : opts.monitorEnabled = (((given (.field .monitorEnabled) args).map fun _ => true).or
    ((configured files args).bind (bool? "monitor"))).getD false
  testerEnabled : opts.testerEnabled = (((given (.field .testerEnabled) args).map fun _ => true).or
    ((configured files args).bind (bool? "tester"))).getD false

/-- A number after a flag can be read and fits into the field. -/
def InRange (token : Flag × Bytes) : Prop :=
  match token.1 with
  | .field .mqttPort | .field .wsPort | .field .httpPort => ∃ n, stoul token.2 = some n ∧ n < 65536
  | .field f => (f.ofFlag token.2).isSome = true
  | .config => True

/-- So do the numbers of the file. -/
def ConfigInRange (j : Json) : Prop :=
  ∀ key ∈ ["mqtt_port", "ws_port", "http_port"], ∀ n, unsigned? key j = some n → n < 65536

theorem InRange.reads {token : Flag × Bytes} (h : InRange token) : Reads token := by
  obtain ⟨flag, value⟩ := token
  cases flag with
  | config => trivial
  | field f =>
    cases f
    case mqttPort | wsPort | httpPort =>
      obtain ⟨n, hn, -⟩ := h
      change ((stoul value).map UInt16.ofNat).isSome = true
      rw [hn]
      rfl
    all_goals exact h

theorem mem_tokens_of_given {flag : Flag} (h : given flag args = some value) : (flag, value) ∈ tokens args := by
  rw [given] at h
  obtain ⟨l, r, hsplit, -⟩ := List.lookup_eq_some_iff.mp h
  have hmem : (flag, value) ∈ (tokens args).reverse := hsplit ▸ List.mem_append_right _ List.mem_cons_self
  exact List.mem_reverse.mp hmem

/-- Numbers below 65536 survive the cut to 16 bits. -/
theorem toNat_getD_ofNat {x y : Option Nat} (hx : ∀ n, x = some n → n < 65536) (hy : ∀ n, y = some n → n < 65536)
    (d : UInt16) : (((x.map UInt16.ofNat).or (y.map UInt16.ofNat)).getD d).toNat = (x.or y).getD d.toNat := by
  have hcut : ∀ n, n < 65536 → (UInt16.ofNat n).toNat = n := fun n hn => UInt16.toNat_ofNat_of_lt hn
  cases x with
  | some n => exact hcut n (hx n rfl)
  | none => cases y with
    | some n => exact hcut n (hy n rfl)
    | none => rfl

theorem switch_getD {value : Option Bytes} {file : Option Bool} :
    ((value.bind fun _ => some true).or file).getD false = ((value.map fun _ => true).or file).getD false := by
  rw [Option.map_eq_bind]
  rfl

theorem text_getD {value file : Option Bytes} {d : Bytes} :
    ((value.bind some).or file).getD d = (value.or file).getD d := by
  rw [Option.bind_fun_some]

theorem port_getD {f : Field} (hrange : ∀ value, InRange (.field f, value) → ∃ n, stoul value = some n ∧ n < 65536)
    (hargs : ∀ token ∈ tokens args, InRange token) {key : String}
    (hkey : key ∈ ["mqtt_port", "ws_port", "http_port"])
    (hfile : ∀ j, configured files args = some j → ConfigInRange j) (d : UInt16) :
    (((((given (.field f) args).bind fun value => (stoul value).map UInt16.ofNat)).or
        ((configured files args).bind (unsigned16? key))).getD d).toNat =
      (((given (.field f) args).bind stoul).or ((configured files args).bind (unsigned? key))).getD d.toNat := by
  have hflag : (given (.field f) args).bind (fun value => (stoul value).map UInt16.ofNat) =
      ((given (.field f) args).bind stoul).map UInt16.ofNat := Option.map_bind.symm
  have hconfig : (configured files args).bind (unsigned16? key) =
      ((configured files args).bind (unsigned? key)).map UInt16.ofNat := Option.map_bind.symm
  rw [hflag, hconfig]
  refine toNat_getD_ofNat (fun n hn => ?_) (fun n hn => ?_) d
  · obtain ⟨value, hvalue, hread⟩ := Option.bind_eq_some_iff.mp hn
    obtain ⟨m, hm, hlt⟩ := hrange value (hargs _ (mem_tokens_of_given hvalue))
    obtain rfl := Option.some.inj (hread.symm.trans hm)
    exact hlt
  · obtain ⟨j, hj, hread⟩ := Option.bind_eq_some_iff.mp hn
    exact hfile j hj key hkey n hread

theorem parse_merged {argv : List Bytes} (h : parse files argv = some opts)
    (hargs : ∀ token ∈ tokens (argv.drop 1), InRange token)
    (hfile : ∀ j, configured files (argv.drop 1) = some j → ConfigInRange j) :
    Merged files (argv.drop 1) opts where
  standalone := (get_parse h .standalone).trans switch_getD
  cellId := (get_parse h .cellId).trans text_getD
  accessKey := (get_parse h .accessKey).trans text_getD
  mqttPort := (congrArg UInt16.toNat (get_parse h .mqttPort)).trans
    (port_getD (f := .mqttPort) (fun _ hrange => hrange) hargs (by simp) hfile 1883)
  wsPort := (congrArg UInt16.toNat (get_parse h .wsPort)).trans
    (port_getD (f := .wsPort) (fun _ hrange => hrange) hargs (by simp) hfile 8083)
  httpPort := (congrArg UInt16.toNat (get_parse h .httpPort)).trans
    (port_getD (f := .httpPort) (fun _ hrange => hrange) hargs (by simp) hfile 8080)
  threads := get_parse h .threads
  logFile := (get_parse h .logFile).trans text_getD
  logLevel := (get_parse h .logLevel).trans text_getD
  sessionIdleTimeoutSec := get_parse h .sessionIdleTimeoutSec
  maxSessionBufferBytes := get_parse h .maxSessionBufferBytes
  maxNodeExtraBytes := get_parse h .maxNodeExtraBytes
  maxConnections := get_parse h .maxConnections
  maxConnectionsPerIp := get_parse h .maxConnectionsPerIp
  maxNewConnectionsPerIp := get_parse h .maxNewConnectionsPerIp
  connectionRateWindowSec := get_parse h .connectionRateWindowSec
  maxRequestsPerConnection := get_parse h .maxRequestsPerConnection
  monitorEnabled := (get_parse h .monitorEnabled).trans switch_getD
  testerEnabled := (get_parse h .testerEnabled).trans switch_getD

/-- **With numbers in range every argument list is accepted, and each field has the value of its last flag, else of
the configuration file, else its default. A single `--config` may stand at any boundary between the flags.** -/
theorem fields_merged (files : ConfigFiles) :
    (∀ argv, (∀ token ∈ tokens (argv.drop 1), InRange token) →
        (∀ j, configured files (argv.drop 1) = some j → ConfigInRange j) →
        ∃ opts, parse files argv = some opts ∧ Merged files (argv.drop 1) opts) ∧
      ∀ (program c path : Bytes) (xs ys xs' ys' : List Bytes), c = ascii "-f" ∨ c = ascii "--config" →
        atBoundary xs = true → atBoundary xs' = true → xs ++ ys = xs' ++ ys' → given .config (xs ++ ys) = none →
        parse files (program :: (xs ++ c :: path :: ys)) = parse files (program :: (xs' ++ c :: path :: ys')) := by
  constructor
  · intro argv hargs hfile
    have hreads := (parse_isSome_iff files argv).mpr fun token htoken => (hargs token htoken).reads
    obtain ⟨opts, hopts⟩ := Option.isSome_iff_exists.mp hreads
    exact ⟨opts, hopts, parse_merged hopts hargs hfile⟩
  · intro program c path xs ys xs' ys' hc hxs hxs' hsame honly
    simp only [parse, List.drop_succ_cons, List.drop_zero]
    rw [scan_config hc path hxs honly, scan_config hc path hxs' (hsame ▸ honly), hsame]

end

private def oneFile : ConfigFiles where
  read path := if path = ascii "a.json" then some (ascii "\x7b\"cell_id\":\"b\",\"threads\":4\x7d") else none
  parse _ := some (.obj [(ascii "cell_id", .str (ascii "b")), (ascii "threads", .int 4)])

private def twoCells : List Bytes :=
  [ascii "-c", ascii "x", ascii "--port", ascii "1990", ascii "--cell-id", ascii "y", ascii "--threads"]

private def twoCellsAfter : List Bytes := ascii "lightapr" :: ascii "-f" :: ascii "a.json" :: twoCells

private theorem twoCells_inRange : ∀ token ∈ tokens (twoCellsAfter.drop 1), InRange token := by
  have htokens : tokens (twoCellsAfter.drop 1) = [(.config, ascii "a.json"), (.field .cellId, ascii "x"),
      (.field .mqttPort, ascii "1990"), (.field .cellId, ascii "y")] := by decide +kernel
  have hport : InRange (.field .mqttPort, ascii "1990") := ⟨1990, by decide, by decide⟩
  rw [htokens]
  simp only [List.forall_mem_cons]
  exact ⟨trivial, rfl, hport, rfl, nofun⟩

private theorem oneFile_inRange (args : List Bytes) : ∀ j, configured oneFile args = some j → ConfigInRange j := by
  intro j hj key hkey n hn
  obtain ⟨path, -, hparse⟩ := Option.bind_eq_some_iff.mp hj
  obtain ⟨text, -, hj⟩ := Option.bind_eq_some_iff.mp hparse
  obtain rfl := Option.some.inj hj
  simp only [List.mem_cons, List.not_mem_nil, or_false] at hkey
  rcases hkey with rfl | rfl | rfl <;> cases hn

/-- Two cell ids, a port, and the threads from the file: the last `--threads` has no value. -/
theorem two_cells_merged : ∃ opts, parse oneFile twoCellsAfter = some opts ∧ opts.cellId = ascii "y" ∧
    opts.mqttPort.toNat = 1990 ∧ opts.threads = 4 ∧
    parse oneFile (ascii "lightapr" :: (twoCells.take 4 ++ ascii "-f" :: ascii "a.json" :: twoCells.drop 4)) =
      some opts := by
  obtain ⟨hmerged, hmove⟩ := fields_merged oneFile
  obtain ⟨opts, hopts, h⟩ := hmerged twoCellsAfter twoCells_inRange (oneFile_inRange _)
  refine ⟨opts, hopts, h.cellId, h.mqttPort, h.threads, ?_⟩
  rw [← hopts]
  exact hmove (ascii "lightapr") (ascii "-f") (ascii "a.json") (twoCells.take 4) (twoCells.drop 4) [] twoCells
    (.inl rfl) (by decide) (by decide) (by decide) (by decide)

end LightApr.Core.CliOptions
