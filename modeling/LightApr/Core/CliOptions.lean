import LightApr.Core.Json

/-! The command line options: defaults, the configuration file over them, and the flags over both. -/
namespace LightApr.Core

structure CliOptions where
  standalone : Bool := false
  cellId : Bytes := ascii "default_cell"
  accessKey : Bytes := ascii "lightapr_secret_key"
  mqttPort : UInt16 := 1883
  wsPort : UInt16 := 8083
  httpPort : UInt16 := 8080
  threads : Nat := 0
  logFile : Bytes := ascii "lightapr.log"
  logLevel : Bytes := ascii "info"
  sessionIdleTimeoutSec : Nat := 90
  maxSessionBufferBytes : Nat := 262144
  maxNodeExtraBytes : Nat := 8192
  maxConnections : Nat := 10000
  maxConnectionsPerIp : Nat := 100
  maxNewConnectionsPerIp : Nat := 20
  connectionRateWindowSec : Nat := 10
  maxRequestsPerConnection : Nat := 10000
  monitorEnabled : Bool := false
  testerEnabled : Bool := false
  deriving DecidableEq, Repr

namespace CliOptions

/-- The file system and the JSON library, as `load_from_file` uses them. -/
structure ConfigFiles where
  /-- none: the file does not open -/
  read : Bytes → Option Bytes
  /-- `file >> j`, which leaves what follows the value unread; none: an exception is thrown. Numbers for which
  `is_number_unsigned` holds are the nonnegative integers; a `-0` is not among them, and counts as a float. -/
  parse : Bytes → Option Json

def bool? (key : String) (j : Json) : Option Bool :=
  match j.field? (ascii key) with
  | some (.bool b) => some b
  | _ => none

def string? (key : String) (j : Json) : Option Bytes :=
  match j.field? (ascii key) with
  | some (.str s) => some s
  | _ => none

def unsigned? (key : String) (j : Json) : Option Nat :=
  match j.field? (ascii key) with
  | some (.int n) => if 0 ≤ n then some n.toNat else none
  | _ => none

/-- `get<uint16_t>()` cuts to 16 bits. -/
def unsigned16? (key : String) (j : Json) : Option UInt16 := (unsigned? key j).map UInt16.ofNat

/-- The fields the file holds with the type that is accepted. -/
def load (j : Json) (opts : CliOptions) : CliOptions where
  standalone := (bool? "standalone" j).getD opts.standalone
  cellId := (string? "cell_id" j).getD opts.cellId
  accessKey := (string? "access_key" j).getD opts.accessKey
  mqttPort := (unsigned16? "mqtt_port" j).getD opts.mqttPort
  wsPort := (unsigned16? "ws_port" j).getD opts.wsPort
  httpPort := (unsigned16? "http_port" j).getD opts.httpPort
  threads := (unsigned? "threads" j).getD opts.threads
  logFile := (string? "log_file" j).getD opts.logFile
  logLevel := (string? "log_level" j).getD opts.logLevel
  sessionIdleTimeoutSec := (unsigned? "session_idle_timeout_sec" j).getD opts.sessionIdleTimeoutSec
  maxSessionBufferBytes := (unsigned? "max_session_buffer_bytes" j).getD opts.maxSessionBufferBytes
  maxNodeExtraBytes := (unsigned? "max_node_extra_bytes" j).getD opts.maxNodeExtraBytes
  maxConnections := (unsigned? "max_connections" j).getD opts.maxConnections
  maxConnectionsPerIp := (unsigned? "max_connections_per_ip" j).getD opts.maxConnectionsPerIp
  maxNewConnectionsPerIp := (unsigned? "max_new_connections_per_ip" j).getD opts.maxNewConnectionsPerIp
  connectionRateWindowSec := (unsigned? "connection_rate_window_sec" j).getD opts.connectionRateWindowSec
  maxRequestsPerConnection := (unsigned? "max_requests_per_connection" j).getD opts.maxRequestsPerConnection
  monitorEnabled := (bool? "monitor" j).getD opts.monitorEnabled
  testerEnabled := (bool? "tester" j).getD opts.testerEnabled

def loadFromFile (files : ConfigFiles) (path : Bytes) (opts : CliOptions) : Bool × CliOptions :=
  match (files.read path).bind files.parse with
  | none => (false, opts)
  | some j => (true, load j opts)

end CliOptions

/-- What the flags set, and which of the fields they set. -/
structure CliOverrides where
  values : CliOptions := {}
  standalone : Bool := false
  cellId : Bool := false
  accessKey : Bool := false
  mqttPort : Bool := false
  wsPort : Bool := false
  httpPort : Bool := false
  threads : Bool := false
  logFile : Bool := false
  logLevel : Bool := false
  sessionIdleTimeoutSec : Bool := false
  maxSessionBufferBytes : Bool := false
  maxNodeExtraBytes : Bool := false
  maxConnections : Bool := false
  maxConnectionsPerIp : Bool := false
  maxNewConnectionsPerIp : Bool := false
  connectionRateWindowSec : Bool := false
  maxRequestsPerConnection : Bool := false
  monitorEnabled : Bool := false
  testerEnabled : Bool := false

namespace CliOptions

def applyOverrides (ov : CliOverrides) (opts : CliOptions) : CliOptions where
  standalone := if ov.standalone then ov.values.standalone else opts.standalone
  cellId := if ov.cellId then ov.values.cellId else opts.cellId
  accessKey := if ov.accessKey then ov.values.accessKey else opts.accessKey
  mqttPort := if ov.mqttPort then ov.values.mqttPort else opts.mqttPort
  wsPort := if ov.wsPort then ov.values.wsPort else opts.wsPort
  httpPort := if ov.httpPort then ov.values.httpPort else opts.httpPort
  threads := if ov.threads then ov.values.threads else opts.threads
  logFile := if ov.logFile then ov.values.logFile else opts.logFile
  logLevel := if ov.logLevel then ov.values.logLevel else opts.logLevel
  sessionIdleTimeoutSec :=
    if ov.sessionIdleTimeoutSec then ov.values.sessionIdleTimeoutSec else opts.sessionIdleTimeoutSec
  maxSessionBufferBytes :=
    if ov.maxSessionBufferBytes then ov.values.maxSessionBufferBytes else opts.maxSessionBufferBytes
  maxNodeExtraBytes := if ov.maxNodeExtraBytes then ov.values.maxNodeExtraBytes else opts.maxNodeExtraBytes
  maxConnections := if ov.maxConnections then ov.values.maxConnections else opts.maxConnections
  maxConnectionsPerIp := if ov.maxConnectionsPerIp then ov.values.maxConnectionsPerIp else opts.maxConnectionsPerIp
  maxNewConnectionsPerIp :=
    if ov.maxNewConnectionsPerIp then ov.values.maxNewConnectionsPerIp else opts.maxNewConnectionsPerIp
  connectionRateWindowSec :=
    if ov.connectionRateWindowSec then ov.values.connectionRateWindowSec else opts.connectionRateWindowSec
  maxRequestsPerConnection :=
    if ov.maxRequestsPerConnection then ov.values.maxRequestsPerConnection else opts.maxRequestsPerConnection
  monitorEnabled := if ov.monitorEnabled then ov.values.monitorEnabled else opts.monitorEnabled
  testerEnabled := if ov.testerEnabled then ov.values.testerEnabled else opts.testerEnabled

/-- The fields, each with its own flag. -/
inductive Field where
  | standalone | cellId | accessKey | mqttPort | wsPort | httpPort | threads | logFile | logLevel
  | sessionIdleTimeoutSec | maxSessionBufferBytes | maxNodeExtraBytes | maxConnections | maxConnectionsPerIp
  | maxNewConnectionsPerIp | connectionRateWindowSec | maxRequestsPerConnection | monitorEnabled | testerEnabled
  deriving DecidableEq, Repr

inductive Flag where
  | field (f : Field)
  | config
  deriving DecidableEq, Repr

/-- The comparisons of the scan, in its order. -/
def Flag.ofArg (arg : Bytes) : Option Flag :=
  if arg = ascii "-s" ∨ arg = ascii "--standalone" then some (.field .standalone)
  else if arg = ascii "-c" ∨ arg = ascii "--cell-id" then some (.field .cellId)
  else if arg = ascii "-k" ∨ arg = ascii "--access-key" then some (.field .accessKey)
  else if arg = ascii "-p" ∨ arg = ascii "--port" then some (.field .mqttPort)
  else if arg = ascii "-w" ∨ arg = ascii "--ws-port" then some (.field .wsPort)
  else if arg = ascii "-h" ∨ arg = ascii "--http-port" then some (.field .httpPort)
  else if arg = ascii "-t" ∨ arg = ascii "--threads" then some (.field .threads)
  else if arg = ascii "-l" ∨ arg = ascii "--log-file" then some (.field .logFile)
  else if arg = ascii "-v" ∨ arg = ascii "--log-level" then some (.field .logLevel)
  else if arg = ascii "--idle-timeout" then some (.field .sessionIdleTimeoutSec)
  else if arg = ascii "--max-buffer-bytes" then some (.field .maxSessionBufferBytes)
  else if arg = ascii "--max-node-extra-bytes" then some (.field .maxNodeExtraBytes)
  else if arg = ascii "--max-connections" then some (.field .maxConnections)
  else if arg = ascii "--max-connections-per-ip" then some (.field .maxConnectionsPerIp)
  else if arg = ascii "--max-new-connections-per-ip" then some (.field .maxNewConnectionsPerIp)
  else if arg = ascii "--connection-rate-window-sec" then some (.field .connectionRateWindowSec)
  else if arg = ascii "--max-requests-per-connection" then some (.field .maxRequestsPerConnection)
  else if arg = ascii "--monitor" then some (.field .monitorEnabled)
  else if arg = ascii "--tester" then some (.field .testerEnabled)
  else if arg = ascii "-f" ∨ arg = ascii "--config" then some .config
  else none

/-- The next argument belongs to the flag. -/
def Flag.takesValue : Flag → Bool
  | .field .standalone | .field .monitorEnabled | .field .testerEnabled => false
  | _ => true

end CliOptions

namespace CliOverrides
open CliOptions

/-- The body of a field's branch; none: `stoul` throws. -/
def set (ov : CliOverrides) (value : Bytes) : Field → Option CliOverrides
  | .standalone => some { ov with values.standalone := true, standalone := true }
  | .cellId => some { ov with values.cellId := value, cellId := true }
  | .accessKey => some { ov with values.accessKey := value, accessKey := true }
  | .mqttPort => (stoul value).map fun n => { ov with values.mqttPort := UInt16.ofNat n, mqttPort := true }
  | .wsPort => (stoul value).map fun n => { ov with values.wsPort := UInt16.ofNat n, wsPort := true }
  | .httpPort => (stoul value).map fun n => { ov with values.httpPort := UInt16.ofNat n, httpPort := true }
  | .threads => (stoul value).map fun n => { ov with values.threads := n, threads := true }
  | .logFile => some { ov with values.logFile := value, logFile := true }
  | .logLevel => some { ov with values.logLevel := value, logLevel := true }
  | .sessionIdleTimeoutSec => (stoul value).map fun n =>
    { ov with values.sessionIdleTimeoutSec := n, sessionIdleTimeoutSec := true }
  | .maxSessionBufferBytes => (stoul value).map fun n =>
    { ov with values.maxSessionBufferBytes := n, maxSessionBufferBytes := true }
  | .maxNodeExtraBytes => (stoul value).map fun n =>
    { ov with values.maxNodeExtraBytes := n, maxNodeExtraBytes := true }
  | .maxConnections => (stoul value).map fun n => { ov with values.maxConnections := n, maxConnections := true }
  | .maxConnectionsPerIp => (stoul value).map fun n =>
    { ov with values.maxConnectionsPerIp := n, maxConnectionsPerIp := true }
  | .maxNewConnectionsPerIp => (stoul value).map fun n =>
    { ov with values.maxNewConnectionsPerIp := n, maxNewConnectionsPerIp := true }
  | .connectionRateWindowSec => (stoul value).map fun n =>
    { ov with values.connectionRateWindowSec := n, connectionRateWindowSec := true }
  | .maxRequestsPerConnection => (stoul value).map fun n =>
    { ov with values.maxRequestsPerConnection := n, maxRequestsPerConnection := true }
  | .monitorEnabled => some { ov with values.monitorEnabled := true, monitorEnabled := true }
  | .testerEnabled => some { ov with values.testerEnabled := true, testerEnabled := true }

end CliOverrides

namespace CliOptions

/-- One turn of the scan: the flag and its value are recorded, the path of `--config` only remembered. -/
def record (st : CliOverrides × Option Bytes) (token : Flag × Bytes) : Option (CliOverrides × Option Bytes) :=
  match token.1 with
  | .field f => (st.1.set token.2 f).map fun ov => (ov, st.2)
  | .config => some (st.1, some token.2)

/-- The loop over `argv`. A flag whose value is missing is ignored. -/
def scan (st : CliOverrides × Option Bytes) : List Bytes → Option (CliOverrides × Option Bytes)
  | [] => some st
  | arg :: rest =>
    match Flag.ofArg arg with
    | none => scan st rest
    | some flag =>
      if flag.takesValue then
        match rest with
        | [] => some st
        | value :: rest => (record st (flag, value)).bind fun st => scan st rest
      else (record st (flag, [])).bind fun st => scan st rest

/-- none: an exception leaves it. `argv[0]` is not looked at. -/
def parse (files : ConfigFiles) (argv : List Bytes) : Option CliOptions :=
  (scan ({}, none) (argv.drop 1)).map fun (ov, config) =>
    let opts : CliOptions := {}
    let opts := match config with
      | some path => (loadFromFile files path opts).2
      | none => opts
    applyOverrides ov opts

end CliOptions
end LightApr.Core
