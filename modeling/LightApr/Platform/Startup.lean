import LightApr.Core.CliOptions

/-! The options the server runs with: `main` puts the environment over them, and in a container the entrypoint makes
the command line out of the environment. -/
namespace LightApr.Platform.Startup
open LightApr.Core CliOptions

/-- `getenv`. -/
abbrev Env := Bytes → Option Bytes

/-- `main`, up to the logger; none: an exception leaves it. -/
def options (env : Env) (files : ConfigFiles) (argv : List Bytes) : Option CliOptions :=
  (parse files argv).bind fun opts =>
    let opts := match env (ascii "CELL_ID") with
      | some cell => { opts with cellId := cell }
      | none => opts
    let opts := match env (ascii "ACCESS_KEY") with
      | some key => { opts with accessKey := key }
      | none => opts
    if opts.threads = 0 then
      match env (ascii "WORKER_THREADS") with
      | some threads => (stoul threads).map fun n => { opts with threads := n }
      | none => match env (ascii "THREADS") with
        | some threads => (stoul threads).map fun n => { opts with threads := n }
        | none => some opts
    else some opts

/-! The entrypoint of the container. -/

/-- The script goes through the fields in this order. -/
def fields : List Field :=
  [.standalone, .cellId, .accessKey, .mqttPort, .wsPort, .httpPort, .threads, .logFile, .logLevel,
    .sessionIdleTimeoutSec, .maxSessionBufferBytes, .maxNodeExtraBytes, .maxConnections, .maxConnectionsPerIp,
    .maxNewConnectionsPerIp, .connectionRateWindowSec, .maxRequestsPerConnection, .monitorEnabled, .testerEnabled]

def variableOf : Field → Bytes
  | .standalone => ascii "STANDALONE"
  | .cellId => ascii "CELL_ID"
  | .accessKey => ascii "ACCESS_KEY"
  | .mqttPort => ascii "MQTT_PORT"
  | .wsPort => ascii "WS_PORT"
  | .httpPort => ascii "HTTP_PORT"
  | .threads => ascii "WORKER_THREADS"
  | .logFile => ascii "LOG_FILE"
  | .logLevel => ascii "LOG_LEVEL"
  | .sessionIdleTimeoutSec => ascii "IDLE_TIMEOUT"
  | .maxSessionBufferBytes => ascii "MAX_BUFFER_BYTES"
  | .maxNodeExtraBytes => ascii "MAX_NODE_EXTRA_BYTES"
  | .maxConnections => ascii "MAX_CONNECTIONS"
  | .maxConnectionsPerIp => ascii "MAX_CONNECTIONS_PER_IP"
  | .maxNewConnectionsPerIp => ascii "MAX_NEW_CONNECTIONS_PER_IP"
  | .connectionRateWindowSec => ascii "CONNECTION_RATE_WINDOW_SEC"
  | .maxRequestsPerConnection => ascii "MAX_REQUESTS_PER_CONNECTION"
  | .monitorEnabled => ascii "MONITOR"
  | .testerEnabled => ascii "TESTER"

/-- The defaults of the script; those of the image are the same. -/
def defaultOf : Field → Bytes
  | .standalone => ascii "true"
  | .cellId => ascii "default_cell"
  | .accessKey => ascii "lightapr_secret_key"
  | .mqttPort => ascii "1883"
  | .wsPort => ascii "8083"
  | .httpPort => ascii "8080"
  | .threads => ascii "0"
  | .logFile => ascii "/var/log/lightapr.log"
  | .logLevel => ascii "info"
  | .sessionIdleTimeoutSec => ascii "90"
  | .maxSessionBufferBytes => ascii "262144"
  | .maxNodeExtraBytes => ascii "8192"
  | .maxConnections => ascii "10000"
  | .maxConnectionsPerIp => ascii "100"
  | .maxNewConnectionsPerIp => ascii "20"
  | .connectionRateWindowSec => ascii "10"
  | .maxRequestsPerConnection => ascii "10000"
  | .monitorEnabled => ascii "false"
  | .testerEnabled => ascii "false"

def longFlag : Field → Bytes
  | .standalone => ascii "--standalone"
  | .cellId => ascii "--cell-id"
  | .accessKey => ascii "--access-key"
  | .mqttPort => ascii "--port"
  | .wsPort => ascii "--ws-port"
  | .httpPort => ascii "--http-port"
  | .threads => ascii "--threads"
  | .logFile => ascii "--log-file"
  | .logLevel => ascii "--log-level"
  | .sessionIdleTimeoutSec => ascii "--idle-timeout"
  | .maxSessionBufferBytes => ascii "--max-buffer-bytes"
  | .maxNodeExtraBytes => ascii "--max-node-extra-bytes"
  | .maxConnections => ascii "--max-connections"
  | .maxConnectionsPerIp => ascii "--max-connections-per-ip"
  | .maxNewConnectionsPerIp => ascii "--max-new-connections-per-ip"
  | .connectionRateWindowSec => ascii "--connection-rate-window-sec"
  | .maxRequestsPerConnection => ascii "--max-requests-per-connection"
  | .monitorEnabled => ascii "--monitor"
  | .testerEnabled => ascii "--tester"

/-- No character of a pattern. -/
def Literal (word : Bytes) : Prop := ∀ b ∈ word, b ∉ ascii "*?[\\"

/-- What the script leaves to the shell and the files it finds. -/
structure Shell where
  /-- pathname expansion of a word -/
  expand : Bytes → List Bytes
  /-- `[ word -gt 0 ]`, false also where the word is no number -/
  positive : Bytes → Bool
  expand_literal : ∀ word, Literal word → expand word = [word]
  positive_zero : positive (ascii "0") = false

/-- `${NAME:-fallback}`. -/
def valueOr (env : Env) (name fallback : Bytes) : Bytes :=
  match env name with
  | some (b :: rest) => b :: rest
  | _ => fallback

def setting (env : Env) (f : Field) : Bytes := valueOr env (variableOf f) (defaultOf f)

def configFile (env : Env) : Bytes := valueOr env (ascii "CONFIG_FILE") []

/-- What is appended to `ARGS` for a field. -/
def argument (shell : Shell) (f : Field) (value : Bytes) : Bytes :=
  match f with
  | .standalone | .monitorEnabled | .testerEnabled =>
    if value = ascii "true" ∨ value = ascii "1" then ascii " " ++ longFlag f else []
  | .threads =>
    if value ≠ [] ∧ shell.positive value = true then ascii " " ++ longFlag f ++ ascii " " ++ value else []
  | _ => if value ≠ [] then ascii " " ++ longFlag f ++ ascii " " ++ value else []

def configArgument (path : Bytes) : Bytes := if path ≠ [] then ascii " --config " ++ path else []

/-- `ARGS`. -/
def arguments (shell : Shell) (env : Env) : Bytes :=
  configArgument (configFile env) ++ (fields.map fun f => argument shell f (setting env f)).flatten

/-- A blank, a tab or a newline. -/
def isIfs (b : UInt8) : Bool := b = 32 || b = 9 || b = 10

/-- The words of an unquoted expansion. -/
def fieldSplit (text : Bytes) : List Bytes := (text.splitOnP isIfs).filter (· ≠ [])

/-- `exec /usr/local/bin/lightapr $ARGS "$@"`. -/
def commandLine (shell : Shell) (env : Env) (args : List Bytes) : List Bytes :=
  ascii "/usr/local/bin/lightapr" :: ((fieldSplit (arguments shell env)).flatMap shell.expand ++ args)

/-- A variable that came from the environment goes on to the server with the value the script gave it. -/
def exported (env : Env) : Env := fun name =>
  match fields.find? fun f => variableOf f = name with
  | some f => (env name).map fun _ => setting env f
  | none => env name

/-- The variables of the image. -/
def imageEnv : Env := fun name =>
  if name = ascii "CONFIG_FILE" then some [] else (fields.find? fun f => variableOf f = name).map defaultOf

/-- What the user sets comes over the variables of the image. -/
def container (user : Env) : Env := fun name => (user name).or (imageEnv name)

/-- The options of a server in a container. -/
def containerOptions (shell : Shell) (files : ConfigFiles) (user : Env) (args : List Bytes) : Option CliOptions :=
  options (exported (container user)) files (commandLine shell (container user) args)

end LightApr.Platform.Startup
