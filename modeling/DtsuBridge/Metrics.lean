import DtsuBridge.Accounting
import DtsuBridge.Gauges
import DtsuBridge.HubEquiv
import DtsuBridge.Lib.Exposition
import DtsuBridge.RtuActivity
import DtsuBridge.WireActivity

/-!
# The exporter

`render` writes the whole exposition : what identifies the process, each bridge under its name,
and the first bridge once more under the names that have no label. The two views of a bridge
have most of their families in common, which differ in name and help (`PollFamilies`,
`ServerFamilies`, `ReadFamilies`), and the measurements and registers are those of
`renderBridgeValues` and `renderAliasValues`.
-/

namespace DtsuBridge

/-! ## Families -/

/-- `__version__` -/
def VERSION : String := "0.2.0"

structure MetricFamily where
  name : String
  kind : String
  helpText : String

def gauge (name helpText : String) : MetricFamily where
  name := PREFIX ++ name
  kind := "gauge"
  helpText := helpText

def counter (name helpText : String) : MetricFamily where
  name := PREFIX ++ name
  kind := "counter"
  helpText := helpText

def buildInfo : MetricFamily :=
  gauge "_build_info" "Bridge build and mode identification."

def uptime : MetricFamily :=
  gauge "_uptime_seconds" "Seconds since the exporter started."

def watchdogAge : MetricFamily :=
  gauge "_watchdog_heartbeat_age_seconds"
    ("Seconds since the least-progressing poll loop in this process last " ++
      "advanced. Drives the systemd watchdog; supervise_poller tries an " ++
      "in-process rebuild first.")

def bridgeInfo : MetricFamily :=
  gauge "_bridge_info" "Per-bridge identification: source and output."

/-- The families of the polls of a bridge. -/
structure PollFamilies where
  connected : MetricFamily
  dataAge : MetricFamily
  dataFresh : MetricFamily
  maxDataAge : MetricFamily
  pollInterval : MetricFamily
  polls : MetricFamily
  consecutiveFailures : MetricFamily
  lastOkAge : MetricFamily
  lastErrorAge : MetricFamily
  lastErrorInfo : MetricFamily

def bridgePollFamilies : PollFamilies where
  connected := gauge "_bridge_source_connected"
    "1 if this bridge's upstream Modbus TCP link is up."
  dataAge := gauge "_bridge_data_age_seconds"
    "Age of this bridge's newest decoded sample. +Inf until the first poll."
  dataFresh := gauge "_bridge_data_fresh"
    ("1 while this bridge's data is within its own safety.max_data_age_s. " ++
      "0 means its output is silenced -- which affects only this bridge.")
  maxDataAge := gauge "_bridge_max_data_age_seconds"
    "This bridge's configured safety.max_data_age_s threshold."
  pollInterval := gauge "_bridge_poll_interval_seconds"
    "This bridge's configured source poll interval."
  polls := counter "_bridge_polls_total" "Poll attempts by outcome, per bridge."
  consecutiveFailures := gauge "_bridge_consecutive_poll_failures"
    "Failed polls since this bridge's last successful one."
  lastOkAge := gauge "_bridge_last_successful_poll_age_seconds"
    "Seconds since this bridge's last successful poll. +Inf if there was none."
  lastErrorAge := gauge "_bridge_last_poll_error_age_seconds"
    "Seconds since this bridge's last failed poll. +Inf if there was none."
  lastErrorInfo := gauge "_bridge_last_poll_error_info"
    "Exception type of this bridge's last failed poll (message stays in the journal)."

def aliasPollFamilies : PollFamilies where
  connected := gauge "_nd45_connected" "1 if the ND45 Modbus TCP link is up."
  dataAge := gauge "_nd45_data_age_seconds"
    "Age of the newest decoded ND45 sample. +Inf until the first poll."
  dataFresh := gauge "_nd45_data_fresh"
    "1 while ND45 data is within safety.max_data_age_s (fail-safe not tripped)."
  maxDataAge := gauge "_nd45_max_data_age_seconds"
    "Configured safety.max_data_age_s threshold."
  pollInterval := gauge "_nd45_poll_interval_seconds" "Configured ND45 poll interval."
  polls := counter "_nd45_polls_total" "ND45 poll attempts by outcome."
  consecutiveFailures := gauge "_nd45_consecutive_poll_failures"
    "Failed ND45 polls since the last successful one."
  lastOkAge := gauge "_nd45_last_successful_poll_age_seconds"
    "Seconds since the last successful ND45 poll. +Inf if there was none."
  lastErrorAge := gauge "_nd45_last_poll_error_age_seconds"
    "Seconds since the last failed ND45 poll. +Inf if there was none."
  lastErrorInfo := gauge "_nd45_last_poll_error_info"
    "Exception type of the last failed ND45 poll (message stays in the journal)."

def bridgeRestarts : MetricFamily :=
  counter "_bridge_poller_restarts_total"
    ("Times this bridge's poll loop was torn down and rebuilt after stalling. " ++
      "A rising value means in-process recovery is looping -- alert on it, since " ++
      "the systemd watchdog no longer covers a hung poller.")

def bridgeRestartAge : MetricFamily :=
  gauge "_bridge_last_poller_restart_age_seconds"
    "Seconds since this bridge's poll loop was last rebuilt. +Inf if never."

def bridgeHeartbeatAge : MetricFamily :=
  gauge "_bridge_heartbeat_age_seconds"
    ("Seconds since this bridge's poll loop last made progress (monotonic clock). " ++
      "Exceeding source.stall_timeout_s triggers an in-process rebuild.")

def bridgeStallTimeout : MetricFamily :=
  gauge "_bridge_stall_timeout_seconds"
    "Progress-free interval after which this bridge's poll loop is rebuilt."

/-- The families of the output server of a bridge. -/
structure ServerFamilies where
  up : MetricFamily
  starts : MetricFamily
  stops : MetricFamily
  lastStartAge : MetricFamily

def bridgeServerFamilies : ServerFamilies where
  up := gauge "_bridge_dtsu_server_up"
    ("1 while this bridge's DTSU666 output server is running " ++
      "(0 = fail-safe silence or transport down).")
  starts := counter "_bridge_dtsu_server_starts_total"
    "This bridge's DTSU output server starts."
  stops := counter "_bridge_dtsu_server_stops_total"
    "This bridge's DTSU output server stops (fail-safe silencing or transport failure)."
  lastStartAge := gauge "_bridge_dtsu_server_last_start_age_seconds"
    "Seconds since this bridge's output server was last started. +Inf if never."

def aliasServerFamilies : ServerFamilies where
  up := gauge "_dtsu_server_up"
    "1 while the DTSU666 output server is running (0 = fail-safe silence or transport down)."
  starts := counter "_dtsu_server_starts_total" "DTSU output server starts."
  stops := counter "_dtsu_server_stops_total"
    "DTSU output server stops (fail-safe silencing or transport failure)."
  lastStartAge := gauge "_dtsu_server_last_start_age_seconds"
    "Seconds since the DTSU output server was last started. +Inf if never."

/-- The families of the reads a bridge is asked for. -/
structure ReadFamilies where
  requests : MetricFamily
  rate : MetricFamily
  lastRequestAge : MetricFamily
  blockReads : MetricFamily

def bridgeReadFamilies : ReadFamilies where
  requests := counter "_bridge_dtsu_requests_total"
    "Modbus read requests received from Sigenergy on this bridge."
  rate := gauge "_bridge_dtsu_request_rate_per_second"
    "Sigenergy read requests per second on this bridge, over the sliding window."
  lastRequestAge := gauge "_bridge_dtsu_last_request_age_seconds"
    "Seconds since the last Sigenergy read on this bridge. +Inf if there was none."
  blockReads := counter "_bridge_dtsu_block_reads_total"
    "Sigenergy reads by register block on this bridge (capped at 64 distinct blocks)."

def aliasReadFamilies : ReadFamilies where
  requests := counter "_dtsu_requests_total" "Modbus read requests received from Sigenergy."
  rate := gauge "_dtsu_request_rate_per_second"
    "Sigenergy read requests per second over RtuActivity's sliding window."
  lastRequestAge := gauge "_dtsu_last_request_age_seconds"
    "Seconds since the last Sigenergy read request. +Inf if there was none."
  blockReads := counter "_dtsu_block_reads_total"
    "Sigenergy read requests by register block (capped at 64 distinct blocks)."

def bridgeBusBytes : MetricFamily :=
  counter "_bridge_dtsu_bus_bytes_total"
    "Bytes received on this bridge's RS-485 output port, whatever they address."

def bridgeBusFrames : MetricFamily :=
  counter "_bridge_dtsu_bus_frames_total"
    "Valid Modbus request frames seen on the bus, by the slave id they address."

/-! ## What is read -/

/-- What the exporter reads of one bridge, named by its spec. -/
structure ExportedBridge where
  spec : BridgeConf
  store : CanonicalStore := {}
  pollStats : PollStats := {}
  serverStatus : ServerStatus := {}
  recovery : RecoveryStats := {}
  activity : Option RtuActivity := none
  wire : Option WireActivity := none
  heartbeat : Option Heartbeat := none
  /-- `connected` of the client, if it has one. -/
  connected : Option Bool := none

/-- What the gauges of measurements and registers read. -/
def ExportedBridge.metrics (bridge : ExportedBridge) : BridgeMetrics where
  name := bridge.spec.name
  spec := bridge.spec
  store := bridge.store
  activity := bridge.activity.map fun activity fc addr => activity.lastSeen fc.code addr

/-- A `MetricsSource` of a process, with the bridges it selects. -/
structure Exporter where
  config : AppConfig
  registers : RegisterMap
  only : Option String := none
  bridges : List ExportedBridge
  selected : config.selectSpecs only = .ok (bridges.map (·.spec))
  /-- The poll loops of `SlowestHeartbeat`. -/
  watchdogHeartbeat : Option (List Heartbeat) := none
  mode : String := "run"
  startedAt : Time

def Exporter.metrics (source : Exporter) : MetricsSource where
  includeRegisters := source.config.prometheus.includeRegisters
  bridges := source.bridges.map (·.metrics)
  targets := source.registers.targets

/-- `SlowestHeartbeat.age` -/
def slowestAge (beats : List Heartbeat) (now : Time) : WithTop Time :=
  (beats.map (·.age now)).max?.getD ⊤

/-! ## Text -/

/-- `str.replace` of one character. -/
def replaceChar (c : Char) (text : String) (s : String) : String :=
  String.ofList (s.toList.flatMap fun d => if d = c then text.toList else [d])

/-- `_esc` -/
def esc (value : String) : String :=
  replaceChar '\n' "\\n" (replaceChar '"' "\\\"" (replaceChar '\\' "\\\\" value))

/-- `_labels` -/
def labelsText (pairs : MetricLabels) : String :=
  if pairs = [] then ""
  else
    let inner := ",".intercalate (pairs.map fun (name, value) => name ++ "=\"" ++ esc value ++ "\"")
    "\x7b" ++ inner ++ "\x7d"

section Float

variable [FloatArith]

/-- `_fmt` -/
def fmt : PyFloat → String
  | .nan => "NaN"
  | .inf false => "+Inf"
  | .inf true => "-Inf"
  | .fin neg m =>
    if m.den = 1 ∧ m < ((10 ^ 16 : ℕ) : ℚ≥0) then
      toString (if neg then -(m.num : ℤ) else m.num)
    else String.ofList (PyFloat.fin neg m).repr

/-- The float of a value, a duration rounded. -/
def MetricValue.toFloat : MetricValue → PyFloat
  | .float x => x
  | .seconds ⊤ => .inf false
  | .seconds (t : Time) => .ofSum t

/-- The text of the lines that are appended together. -/
def MetricLine.text : MetricLine → List String
  | .family name kind helpText => [s!"# HELP {name} {helpText}", s!"# TYPE {name} {kind}"]
  | .sample name value labels => [name ++ labelsText labels ++ " " ++ fmt value.toFloat]

/-- `_Out.text` -/
def MetricsOut.text (out : MetricsOut) : String :=
  "\n".intercalate (out.flatMap MetricLine.text) ++ "\n"

/-! ## Rendering -/

/-- A value that `_Out.sample` is given. -/
inductive SampleValue where
  | int (n : ℤ)
  | seconds (t : WithTop Time)

/-- The float that is formatted. -/
def SampleValue.toMetric : SampleValue → Except PyExc MetricValue
  | int n => do
    let x ← floatOfInt n
    return .float x
  | seconds t => .ok (.seconds t)

/-- A family and its samples. -/
structure MetricBlock where
  family : MetricFamily
  samples : List (SampleValue × MetricLabels)

/-- `_Out.family`, and `_Out.sample` for each of the samples. -/
def MetricsOut.emit (out : MetricsOut) (block : MetricBlock) : Except PyExc MetricsOut := do
  let out := out.family block.family.name block.family.kind block.family.helpText
  let lines ← block.samples.mapM fun (value, labels) => do
    let value ← value.toMetric
    return MetricLine.sample block.family.name value labels
  return out ++ lines

def MetricsOut.emitAll (out : MetricsOut) (blocks : List MetricBlock) :
    Except PyExc MetricsOut :=
  blocks.foldlM MetricsOut.emit out

/-- `1 if b else 0` -/
def flag (b : Bool) : SampleValue := .int (if b then 1 else 0)

/-- `_output_desc` -/
def outputDesc (dtsu : DtsuConf) : String :=
  match dtsu.rtuOutput, dtsu.tcp with
  | some rtu, _ => rtu.port
  | none, some tcp => s!"{tcp.host}:{tcp.port}"
  | none, none => "unknown"

def Transport.name : Transport → String
  | rtu => "rtu"
  | tcp => "tcp"

/-- The polls of a bridge in these families. -/
def pollBlocks (families : PollFamilies) (bridge : ExportedBridge) (label : MetricLabels)
    (loopNow monoNow : Time) : List MetricBlock :=
  let stats := bridge.pollStats
  let age := bridge.store.age loopNow
  (bridge.connected.toList.map fun connected =>
    ⟨families.connected, [(flag connected, label)]⟩) ++
  [⟨families.dataAge, [(.seconds age, label)]⟩,
    ⟨families.dataFresh, [(flag (age ≤ bridge.spec.safety.maxDataAgeS), label)]⟩,
    ⟨families.maxDataAge, [(.seconds bridge.spec.safety.maxDataAgeS, label)]⟩,
    ⟨families.pollInterval, [(.seconds bridge.spec.source.base.pollIntervalS, label)]⟩,
    ⟨families.polls, [(.int stats.pollsOk, label ++ [("result", "ok")]),
      (.int stats.pollsFailed, label ++ [("result", "error")])]⟩,
    ⟨families.consecutiveFailures, [(.int stats.consecutiveFailures, label)]⟩,
    ⟨families.lastOkAge, [(.seconds (metricAge stats.lastOkTs monoNow), label)]⟩,
    ⟨families.lastErrorAge, [(.seconds (metricAge stats.lastErrorTs monoNow), label)]⟩] ++
  (stats.lastErrorType.toList.map fun type =>
    ⟨families.lastErrorInfo, [(.int 1, label ++ [("type", type)])]⟩)

/-- `_render_bridge_source` -/
def bridgeSourceBlocks (bridge : ExportedBridge) (label : MetricLabels)
    (loopNow monoNow : Time) : List MetricBlock :=
  pollBlocks bridgePollFamilies bridge label loopNow monoNow ++
  [⟨bridgeRestarts, [(.int bridge.recovery.restarts, label)]⟩,
    ⟨bridgeRestartAge, [(.seconds (metricAge bridge.recovery.lastRestartTs monoNow), label)]⟩] ++
  (bridge.heartbeat.toList.flatMap fun beat =>
    [⟨bridgeHeartbeatAge, [(.seconds (beat.age monoNow), label)]⟩,
      ⟨bridgeStallTimeout, [(.seconds bridge.spec.source.base.stallTimeoutS, label)]⟩])

/-- The output server of a bridge in these families. -/
def serverBlocks (families : ServerFamilies) (status : ServerStatus) (label : MetricLabels)
    (monoNow : Time) : List MetricBlock :=
  [⟨families.up, [(flag status.running, label)]⟩,
    ⟨families.starts, [(.int status.starts, label)]⟩,
    ⟨families.stops, [(.int status.stops, label)]⟩,
    ⟨families.lastStartAge, [(.seconds (metricAge status.lastStartTs monoNow), label)]⟩]

/-- The reads of a bridge in these families. -/
def readBlocks (families : ReadFamilies) (summary : ActivitySummary) (label : MetricLabels) :
    List MetricBlock :=
  [⟨families.requests, [(.int summary.total, label)]⟩,
    ⟨families.rate, [(.seconds summary.rate, label)]⟩,
    ⟨families.lastRequestAge, [(.seconds (summary.lastSeenAge.elim ⊤ (↑·)), label)]⟩,
    ⟨families.blockReads, summary.blocks.map fun ((fc, addr, count), hits) =>
      (.int hits, label ++ [("fc", toString fc), ("addr", toString addr),
        ("count", toString count)])⟩]

/-- `summary["slave_ids"]` : `Counter.most_common`, equal counts in the order of insertion. -/
def WireActivity.slaveIds (wire : WireActivity) : List (ℕ × ℕ) :=
  wire.frames.entries.insertionSort fun a b => b.2 ≤ a.2

/-- The bus counters of a bridge. -/
def wireBlocks (wire : WireActivity) (label : MetricLabels) : List MetricBlock :=
  [⟨bridgeBusBytes, [(.int wire.bytesSeen, label)]⟩,
    ⟨bridgeBusFrames, wire.slaveIds.map fun (slaveId, hits) =>
      (.int hits, label ++ [("slave_id", toString slaveId)])⟩]

/-- `_render_bridge_dtsu` -/
def renderBridgeDtsu (bridge : ExportedBridge) (label : MetricLabels) (monoNow : Time)
    (out : MetricsOut) : Except PyExc MetricsOut := do
  let out ← out.emitAll (serverBlocks bridgeServerFamilies bridge.serverStatus label monoNow)
  match bridge.activity with
  | none => return out
  | some activity => do
    let summary ← activity.summary monoNow
    let out ← out.emitAll (readBlocks bridgeReadFamilies summary label)
    match bridge.wire with
    | none => return out
    | some wire => out.emitAll (wireBlocks wire label)

/-- The block of `_bridge_info`. -/
def bridgeInfoBlock (bridge : ExportedBridge) (label : MetricLabels) : MetricBlock :=
  let spec := bridge.spec
  ⟨bridgeInfo, [(.int 1, label ++ [("source_type", spec.source.type.name),
    ("register_map", spec.source.base.registerMap), ("transport", spec.dtsu.transport.name),
    ("slave_id", toString spec.dtsu.slaveId), ("output", outputDesc spec.dtsu)])]⟩

/-- `_render_bridge` -/
def renderBridge (source : Exporter) (loopNow monoNow : Time) (out : MetricsOut)
    (bridge : ExportedBridge) : Except PyExc MetricsOut := do
  let label := [("bridge", bridge.spec.name)]
  let out ← out.emitAll
    (bridgeInfoBlock bridge label :: bridgeSourceBlocks bridge label loopNow monoNow)
  let out ← renderBridgeDtsu bridge label monoNow out
  if source.config.prometheus.includeRegisters then
    renderBridgeValues source.metrics bridge.metrics label monoNow out
  else return out

/-- `_render_primary_aliases` -/
def renderPrimaryAliases (source : Exporter) (primary : ExportedBridge) (loopNow monoNow : Time)
    (out : MetricsOut) : Except PyExc MetricsOut := do
  let out ← out.emitAll (pollBlocks aliasPollFamilies primary [] loopNow monoNow ++
    serverBlocks aliasServerFamilies primary.serverStatus [] monoNow)
  match primary.activity with
  | none => return out
  | some activity => do
    let summary ← activity.summary monoNow
    let out ← out.emitAll (readBlocks aliasReadFamilies summary [])
    renderAliasValues source.metrics primary.metrics monoNow out

/-- What identifies the process. -/
def processBlocks (source : Exporter) (monoNow : Time) : List MetricBlock :=
  [⟨buildInfo, [(.int 1, [("version", VERSION), ("mode", source.mode),
      ("bridges", toString source.bridges.length)])]⟩,
    ⟨uptime, [(.seconds ((monoNow - source.startedAt : Time) : WithTop Time), [])]⟩] ++
  (source.watchdogHeartbeat.toList.map fun beats =>
    ⟨watchdogAge, [(.seconds (slowestAge beats monoNow), [])]⟩)

/-- What `render` passes to `_Out`. -/
def renderOut (source : Exporter) (loopNow monoNow : Time) : Except PyExc MetricsOut := do
  let out ← MetricsOut.emitAll [] (processBlocks source monoNow)
  let out ← source.bridges.foldlM (renderBridge source loopNow monoNow) out
  match source.bridges with
  | [] => return out
  | primary :: _ => renderPrimaryAliases source primary loopNow monoNow out

def render (source : Exporter) (loopNow monoNow : Time) : Except PyExc String := do
  let out ← renderOut source loopNow monoNow
  return out.text

end Float

end DtsuBridge
