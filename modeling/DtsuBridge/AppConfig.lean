import DtsuBridge.Config

/-!
# The process configuration

An `AppConfig` is its fields with its validators run over them, in the order of the
source : the bridges a process runs, the debug feed and the metrics endpoint. A
deployment runs all bridges in one process or each in a process of its own, and every
process serves its metrics.

`AppConfig.two_intervals_le` : the maximum age of a bridge is at least two poll intervals.
`listeners_apart_iff` : the listeners of both deployments are apart exactly when no two
bridges listen on one TCP port with a wildcard among their hosts, and no two bridges fall
back to the shared metrics port.
-/

namespace DtsuBridge

/-! ## Bridges -/

/-- A port that pydantic bounds. -/
abbrev Port := {p : ℤ // 1 ≤ p ∧ p ≤ 65535}

structure SafetyConf where
  maxDataAgeS : Time := 3
  checkIntervalS : Time := 1 / 2
  minRestartIntervalS : Time := 5

/-- `str.isspace` of one character. -/
def isSpace (c : Char) : Bool :=
  let n := c.toNat
  (9 ≤ n && n ≤ 13) || (28 ≤ n && n ≤ 32) || n = 133 || n = 160 || n = 5760 ||
    (8192 ≤ n && n ≤ 8202) || n = 8232 || n = 8233 || n = 8239 || n = 8287 || n = 12288

/-- Whether `strip` leaves anything. -/
def hasText (s : String) : Bool := s.toList.any (!isSpace ·)

structure BridgeFields where
  name : String
  enabled : Bool := true
  source : SourceConf
  dtsu : DtsuConf
  safety : SafetyConf := {}
  /-- The metrics port of the bridge in a process of its own. -/
  metricsPort : Option Port := none

/-- `BridgeConf._check_enabled_is_usable`, after the length of the name. -/
def BridgeFields.check (b : BridgeFields) : Except String Unit :=
  if b.name = "" then .error "String should have at least 1 character"
  else if !b.enabled then .ok ()
  else
    match b.source with
    | .etango c =>
      if c.devices.any fun d => d.aggregate && hasText d.host then .ok ()
      else .error (s!"bridge {strRepr b.name} is enabled but has no aggregating " ++
        "etango device with a non-empty host")
    | .nd45 c | .huawei c =>
      if hasText c.host then .ok ()
      else .error s!"bridge {strRepr b.name} is enabled but source.host is empty"

structure BridgeConf extends BridgeFields where
  usable : toBridgeFields.check = .ok ()

/-- Build a bridge, if it passes. -/
def BridgeFields.build (b : BridgeFields) : Except String BridgeConf :=
  match h : b.check with
  | .error e => .error e
  | .ok () => .ok ⟨b, h⟩

theorem BridgeFields.build_eq_ok {b : BridgeFields} {c : BridgeConf} (h : b.build = .ok c) :
    c.toBridgeFields = b := by
  unfold build at h
  split at h
  next => contradiction
  next => rw [← Except.ok.inj h]

/-- The serial line a bridge serves on. -/
def DtsuConf.rtuOutput (c : DtsuConf) : Option DtsuRtuConf :=
  if c.transport = .rtu then c.rtu else none

/-- The address a bridge listens on. -/
def DtsuConf.tcpOutput (c : DtsuConf) : Option DtsuTcpConf :=
  if c.transport = .tcp then c.tcp else none

/-! ## The fields of a process -/

/-- The older shape of an ND45 source. -/
structure Nd45Conf where
  host : String
  port : ℤ := 502
  unitId : ℤ := 1
  pollIntervalS : Time := 3 / 10
  timeoutS : Time := 1
  reconnectDelayS : Time := 1
  reconnectDelayMaxS : Time := 30

/-- `Nd45SourceConf.stall_timeout_s` -/
def nd45StallTimeout : Time := (30 : ℕ)

/-- The `Nd45SourceConf` of the older shape. -/
def Nd45Conf.sourceConf (c : Nd45Conf) : Except String SingleHostSourceConf :=
  if h : 0 < c.pollIntervalS ∧ 0 < c.timeoutS then
    let base : SourceConfBase :=
      { pollIntervalS := c.pollIntervalS
        timeoutS := c.timeoutS
        reconnectDelayS := c.reconnectDelayS
        reconnectDelayMaxS := c.reconnectDelayMaxS
        stallTimeoutS := nd45StallTimeout
        registerMap := "nd45_source"
        pollInterval_pos := h.1
        timeout_pos := h.2
        stallTimeout_pos := by norm_num [nd45StallTimeout] }
    match hok : base.check false with
    | .error e => .error e
    | .ok () => .ok { base with host := c.host, port := c.port, unitId := c.unitId, ok := hok }
  else .error "Input should be greater than 0"

structure StaticDebugConf where
  feedIntervalS : Time := 1 / 2
  feedInterval_pos : 0 < feedIntervalS

structure PrometheusConf where
  enabled : Bool := true
  host : String := "0.0.0.0"
  port : Port := ⟨9090, by norm_num⟩
  includeRegisters : Bool := true

def PRIMARY_BRIDGE_NAME : String := "nd45"

structure AppFields where
  bridges : List BridgeConf := []
  staticDebug : StaticDebugConf := { feedInterval_pos := by norm_num }
  prometheus : PrometheusConf := {}
  nd45 : Option Nd45Conf := none
  dtsu : Option DtsuConf := none
  safety : Option SafetyConf := none
  primaryMetricsPort : Option Port := none

namespace AppFields

/-- `AppConfig.legacy_bridge` -/
def legacyBridge (c : AppFields) : Except String (Option BridgeConf) :=
  match c.nd45, c.dtsu with
  | some nd45, some dtsu => do
    let source ← nd45.sourceConf
    let bridge ← BridgeFields.build
      { name := PRIMARY_BRIDGE_NAME
        source := .nd45 source
        dtsu := dtsu
        safety := c.safety.getD {}
        metricsPort := c.primaryMetricsPort }
    return some bridge
  | _, _ => .ok none

/-- `AppConfig.bridge_specs` -/
def bridgeSpecs (c : AppFields) : Except String (List BridgeConf) := do
  let legacy ← c.legacyBridge
  return legacy.toList ++ c.bridges.filter (·.enabled)

/-! ## The validators -/

/-- Raise what a loop found. -/
def raiseFound : Option String → Except String Unit
  | some msg => .error msg
  | none => .ok ()

/-- `_check_at_least_one_bridge` -/
def checkAtLeastOneBridge (c : AppFields) : Except String Unit :=
  if c.nd45.isNone ∧ c.dtsu.isNone ∧ c.bridges = [] then
    .error "config defines no bridges: add at least one entry to 'bridges'"
  else if c.nd45.isNone ≠ c.dtsu.isNone then
    .error ("legacy top-level 'nd45' and 'dtsu' must be set together " ++
      "(or dropped in favour of a 'bridges' entry)")
  else do
    let specs ← c.bridgeSpecs
    if specs = [] then .error "every configured bridge is disabled: enable at least one"
    else .ok ()

/-- `_check_static_debug_freshness`, of the first bridge. -/
def checkStaticDebugFreshness (c : AppFields) (specs : List BridgeConf) : Except String Unit :=
  if specs.head?.any fun spec => spec.safety.maxDataAgeS ≤ c.staticDebug.feedIntervalS then
    .error "static_debug.feed_interval_s must be shorter than safety.max_data_age_s"
  else .ok ()

/-- `_check_bridge_names_unique` -/
def checkBridgeNamesUnique (c : AppFields) (legacy : Option BridgeConf) : Except String Unit :=
  let names := c.bridges.map (·.name)
  let duplicates := sortedSet (names.filter fun n => 1 < names.count n)
  if legacy.isSome ∧ PRIMARY_BRIDGE_NAME ∈ names then
    .error (s!"bridge name '{PRIMARY_BRIDGE_NAME}' is reserved for the " ++
      "bridge built from the top-level nd45/dtsu/safety keys")
  else if duplicates ≠ [] then
    .error ("duplicate bridge name(s): " ++ ", ".intercalate duplicates)
  else .ok ()

/-- The key of a bridge in `serial_ports` or in `tcp_binds`. -/
inductive OutputKey where
  | serial (port : String)
  | tcp (host : String) (port : ℤ)
deriving DecidableEq

def outputKey (spec : BridgeConf) : Option OutputKey :=
  match spec.dtsu.rtuOutput, spec.dtsu.tcpOutput with
  | some rtu, _ => some (.serial rtu.port)
  | none, some tcp => some (.tcp tcp.host tcp.port)
  | none, none => none

/-- The error of two bridges with one key. -/
def outputClash (owner : String) (spec : BridgeConf) : String :=
  match outputKey spec with
  | some (.serial port) => s!"bridges {strRepr owner} and {strRepr spec.name} both serve RTU on " ++
      s!"{port}; each bridge needs its own serial port"
  | some (.tcp host port) => s!"bridges {strRepr owner} and {strRepr spec.name} both listen on " ++
      s!"{host}:{port}"
  | none => ""

/-- `_check_output_transports_do_not_collide` -/
def checkOutputTransports (specs : List BridgeConf) : Except String Unit := do
  let _ ← Dict.claimAll outputKey (·.name) outputClash specs .empty
  return ()

def wildcards : List String := ["0.0.0.0", "::"]

/-- The `overlap` of the metrics endpoint and a TCP output. -/
def overlaps (c : AppFields) (tcp : DtsuTcpConf) : Bool :=
  c.prometheus.host = tcp.host || c.prometheus.host ∈ wildcards || tcp.host ∈ wildcards

/-- `_check_metrics_port_free` -/
def checkMetricsPortFree (c : AppFields) (specs : List BridgeConf) : Except String Unit :=
  if !c.prometheus.enabled then .ok ()
  else raiseFound <| specs.findSome? fun spec => do
    let tcp ← spec.dtsu.tcpOutput
    if c.prometheus.port.1 = tcp.port ∧ c.overlaps tcp then
      some (s!"prometheus.port {c.prometheus.port.1} collides with " ++
        s!"bridge {strRepr spec.name} dtsu.tcp.port")
    else none

/-- The error of two bridges with one metrics port. -/
def metricsClash (owner : String) (spec : BridgeConf) : String :=
  s!"bridges {strRepr owner} and {strRepr spec.name} both use metrics_port " ++
    s!"{(spec.metricsPort.map (·.1)).getD 0}"

/-- `_check_per_bridge_metrics_ports` -/
def checkPerBridgeMetricsPorts (c : AppFields) (specs : List BridgeConf) : Except String Unit := do
  let seen ← Dict.claimAll (fun spec : BridgeConf => spec.metricsPort.map (·.1)) (·.name)
    metricsClash specs .empty
  raiseFound <| specs.findSome? fun spec => do
    let tcp ← spec.dtsu.tcpOutput
    let owner ← seen.get? tcp.port
    if c.overlaps tcp then
      some (s!"bridge {strRepr owner} metrics_port {tcp.port} collides with " ++
        s!"bridge {strRepr spec.name} dtsu.tcp.port")
    else none

/-- `_check_freshness_threshold_allows_polling` -/
def checkFreshnessThreshold (specs : List BridgeConf) : Except String Unit :=
  raiseFound <| specs.findSome? fun spec =>
    let pollIntervalS := spec.source.base.pollIntervalS
    if spec.safety.maxDataAgeS < pollIntervalS * 2 then
      some (s!"bridge {strRepr spec.name}: safety.max_data_age_s " ++
        s!"({timeRepr spec.safety.maxDataAgeS}) must be at least twice source.poll_interval_s " ++
        s!"({timeRepr pollIntervalS})")
    else none

/-- The model validators of `AppConfig`. -/
def check (c : AppFields) : Except String Unit := do
  c.checkAtLeastOneBridge
  let legacy ← c.legacyBridge
  let specs ← c.bridgeSpecs
  c.checkStaticDebugFreshness specs
  c.checkBridgeNamesUnique legacy
  checkOutputTransports specs
  c.checkMetricsPortFree specs
  c.checkPerBridgeMetricsPorts specs
  checkFreshnessThreshold specs

end AppFields

structure AppConfig extends AppFields where
  accepted : toAppFields.check = .ok ()

/-! ## What an accepted configuration has -/

namespace AppFields

theorem raiseFound_eq_ok {found : Option String} : raiseFound found = .ok () ↔ found = none := by
  rcases found with _ | msg <;> simp [raiseFound]

/-- Each check of an accepted configuration passed, in terms of its enabled bridges. -/
structure Accepted (c : AppFields) (legacy : Option BridgeConf) (specs : List BridgeConf) :
    Prop where
  legacyBridge : c.legacyBridge = .ok legacy
  specs_eq : specs = legacy.toList ++ c.bridges.filter (·.enabled)
  names : c.checkBridgeNamesUnique legacy = .ok ()
  outputs : checkOutputTransports specs = .ok ()
  metricsPort : c.checkMetricsPortFree specs = .ok ()
  ownPorts : c.checkPerBridgeMetricsPorts specs = .ok ()
  freshness : checkFreshnessThreshold specs = .ok ()

theorem accepted_of_check {c : AppFields} (h : c.check = .ok ()) :
    ∃ legacy specs, c.bridgeSpecs = .ok specs ∧ c.Accepted legacy specs := by
  unfold check at h
  obtain ⟨-, -, h⟩ := Except.bind_eq_ok.1 h
  obtain ⟨legacy, hlegacy, h⟩ := Except.bind_eq_ok.1 h
  obtain ⟨specs, hspecs, h⟩ := Except.bind_eq_ok.1 h
  obtain ⟨-, -, h⟩ := Except.bind_eq_ok.1 h
  obtain ⟨⟨⟩, hnames, h⟩ := Except.bind_eq_ok.1 h
  obtain ⟨⟨⟩, houtputs, h⟩ := Except.bind_eq_ok.1 h
  obtain ⟨⟨⟩, hport, h⟩ := Except.bind_eq_ok.1 h
  obtain ⟨⟨⟩, hown, hfresh⟩ := Except.bind_eq_ok.1 h
  obtain ⟨legacy', hlegacy', heq⟩ := Except.bind_eq_ok.1 hspecs
  obtain rfl := Except.ok.inj (hlegacy.symm.trans hlegacy')
  exact ⟨legacy, specs, hspecs, hlegacy, (Except.ok.inj heq).symm, hnames, houtputs, hport, hown,
    hfresh⟩

end AppFields

namespace AppConfig

/-- The enabled bridges. An accepted configuration has them. -/
def bridgeSpecs (c : AppConfig) : List BridgeConf := c.toAppFields.bridgeSpecs.toOption.getD []

theorem exists_accepted (c : AppConfig) :
    ∃ legacy, c.toAppFields.Accepted legacy c.bridgeSpecs := by
  obtain ⟨legacy, specs, hspecs, hacc⟩ := AppFields.accepted_of_check c.accepted
  refine ⟨legacy, ?_⟩
  unfold bridgeSpecs
  rw [hspecs]
  exact hacc

/-- Some bridge is enabled. -/
theorem bridgeSpecs_ne_nil (c : AppConfig) : c.bridgeSpecs ≠ [] := by
  have h := c.accepted
  unfold AppFields.check at h
  obtain ⟨⟨⟩, hone, -⟩ := Except.bind_eq_ok.1 h
  unfold AppFields.checkAtLeastOneBridge at hone
  split_ifs at hone
  obtain ⟨specs, hspecs, hone⟩ := Except.bind_eq_ok.1 hone
  split_ifs at hone with hempty
  unfold bridgeSpecs
  rw [hspecs]
  exact hempty

/-- The enabled bridges have distinct names. -/
theorem nodup_names (c : AppConfig) : (c.bridgeSpecs.map (·.name)).Nodup := by
  obtain ⟨legacy, hacc⟩ := c.exists_accepted
  have hnames := hacc.names
  unfold AppFields.checkBridgeNamesUnique at hnames
  dsimp only at hnames
  split_ifs at hnames with hreserved hdup
  have hnodup : (c.bridges.map (·.name)).Nodup := by
    rw [List.nodup_iff_count_le_one]
    intro n
    by_contra hcount
    have hmem : n ∈ c.bridges.map (·.name) := List.count_pos_iff.1 (by omega)
    have hfound : n ∈ sortedSet ((c.bridges.map (·.name)).filter fun n =>
        1 < (c.bridges.map (·.name)).count n) := by
      simp only [sortedSet, List.mem_insertionSort, List.mem_dedup, List.mem_filter]
      exact ⟨hmem, by simpa using hcount⟩
    rw [not_not.1 hdup] at hfound
    exact absurd hfound List.not_mem_nil
  have hsub : ((c.bridges.filter (·.enabled)).map (·.name)).Sublist (c.bridges.map (·.name)) :=
    List.filter_sublist.map _
  rw [hacc.specs_eq, List.map_append, List.nodup_append']
  refine ⟨?_, hnodup.sublist hsub, ?_⟩
  · rcases legacy with _ | b <;> simp
  · intro n hn hlisted
    obtain ⟨b, hb, rfl⟩ := List.mem_map.1 hn
    obtain rfl : legacy = some b := by simpa using hb
    have hname : b.name = PRIMARY_BRIDGE_NAME := by
      have hlegacy := hacc.legacyBridge
      unfold AppFields.legacyBridge at hlegacy
      split at hlegacy
      next nd45 dtsu _ _ =>
        obtain ⟨source, -, hlegacy⟩ := Except.bind_eq_ok.1 hlegacy
        obtain ⟨b', hbuild, hlegacy⟩ := Except.bind_eq_ok.1 hlegacy
        obtain rfl := Option.some.inj (Except.ok.inj hlegacy)
        rw [BridgeFields.build_eq_ok hbuild]
      next => cases hlegacy
    rw [hname] at hlisted
    exact hreserved ⟨rfl, hsub.subset hlisted⟩

/-- The maximum age of a bridge is at least two poll intervals. -/
theorem two_intervals_le (c : AppConfig) {spec : BridgeConf} (h : spec ∈ c.bridgeSpecs) :
    spec.source.base.pollIntervalS * 2 ≤ spec.safety.maxDataAgeS := by
  obtain ⟨legacy, hacc⟩ := c.exists_accepted
  have hnone := List.findSome?_eq_none_iff.1
    (AppFields.raiseFound_eq_ok.1 hacc.freshness) spec h
  by_contra hlt
  simp [not_le.1 hlt] at hnone

end AppConfig

/-! ## Deployments and their listeners -/

/-- An address a process listens on. -/
structure Endpoint where
  host : String
  port : ℤ
deriving DecidableEq

/-- Two endpoints that cannot be bound side by side. -/
def Endpoint.Conflicts (a b : Endpoint) : Prop :=
  a.port = b.port ∧
    (a.host = b.host ∨ a.host ∈ AppFields.wildcards ∨ b.host ∈ AppFields.wildcards)

instance : DecidableRel Endpoint.Conflicts := fun a b => inferInstanceAs
  (Decidable (a.port = b.port ∧
    (a.host = b.host ∨ a.host ∈ AppFields.wildcards ∨ b.host ∈ AppFields.wildcards)))

def DtsuConf.endpoint (c : DtsuConf) : Option Endpoint :=
  c.tcpOutput.map fun tcp => ⟨tcp.host, tcp.port⟩

namespace AppConfig

/-- `select_specs`. The error is a `SystemExit`. -/
def selectSpecs (c : AppConfig) (only : Option String) : Except String (List BridgeConf) :=
  match only with
  | none => .ok c.bridgeSpecs
  | some name =>
    let selected := c.bridgeSpecs.filter (·.name = name)
    if selected = [] then
      .error (s!"unknown bridge {strRepr name} (enabled bridges: " ++
        ", ".intercalate (c.bridgeSpecs.map (·.name)) ++ ")")
    else .ok selected

def metricsPortFor (c : AppConfig) (only : Option String) : Port :=
  match only with
  | none => c.prometheus.port
  | some name =>
    ((c.bridgeSpecs.find? fun spec => spec.name = name && spec.metricsPort.isSome).bind
      (·.metricsPort)).getD c.prometheus.port

/-- The endpoint of `metrics.start`. -/
def metricsEndpoint (c : AppConfig) (only : Option String) : Option Endpoint :=
  if c.prometheus.enabled then some ⟨c.prometheus.host, c.metricsPortFor only⟩ else none

/-- The TCP endpoints a process opens. -/
def endpoints (c : AppConfig) (only : Option String) : List Endpoint :=
  match c.selectSpecs only with
  | .error _ => []
  | .ok specs => specs.filterMap (·.dtsu.endpoint) ++ (c.metricsEndpoint only).toList

/-- The serial ports a process opens. -/
def serialPorts (c : AppConfig) (only : Option String) : List String :=
  match c.selectSpecs only with
  | .error _ => []
  | .ok specs => specs.filterMap fun spec => spec.dtsu.rtuOutput.map (·.port)

end AppConfig

/-- How the enabled bridges are spread over processes. -/
inductive Deployment where
  | oneProcess
  | perBridge

/-- What the processes of a deployment are started for. -/
def Deployment.processes (c : AppConfig) : Deployment → List (Option String)
  | oneProcess => [none]
  | perBridge => c.bridgeSpecs.map (some ·.name)

/-- No two listeners of a deployment are in each other's way. -/
structure Deployment.Apart (c : AppConfig) (d : Deployment) : Prop where
  serial : ((d.processes c).flatMap c.serialPorts).Nodup
  tcp : ((d.processes c).flatMap c.endpoints).Pairwise fun a b => ¬a.Conflicts b

/-- Two bridges on one TCP port, one of them on every address. -/
def BridgeConf.SharesWildcard (a b : BridgeConf) : Prop :=
  ∃ s t, a.dtsu.tcpOutput = some s ∧ b.dtsu.tcpOutput = some t ∧ s.port = t.port ∧
    (s.host ∈ AppFields.wildcards ∨ t.host ∈ AppFields.wildcards)

/-- Two bridges on the shared metrics port, one of them for want of its own. -/
def PrometheusConf.SharesPort (c : PrometheusConf) (a b : BridgeConf) : Prop :=
  a.metricsPort.getD c.port = c.port ∧ b.metricsPort.getD c.port = c.port ∧
    (a.metricsPort = none ∨ b.metricsPort = none)

theorem Endpoint.Conflicts.symm {a b : Endpoint} (h : a.Conflicts b) : b.Conflicts a := by
  obtain ⟨hport, hhost⟩ := h
  refine ⟨hport.symm, ?_⟩
  rcases hhost with h | h | h
  · exact Or.inl h.symm
  · exact Or.inr (Or.inr h)
  · exact Or.inr (Or.inl h)

namespace AppConfig

variable {c : AppConfig}

/-- The metrics port of a bridge in a process of its own. -/
theorem metricsPortFor_name {spec : BridgeConf} (h : spec ∈ c.bridgeSpecs) :
    c.metricsPortFor (some spec.name) = spec.metricsPort.getD c.prometheus.port := by
  have hinj := List.inj_on_of_nodup_map c.nodup_names
  unfold metricsPortFor
  dsimp only
  rcases hport : spec.metricsPort with _ | port
  · rw [List.find?_eq_none.2]
    · rfl
    · intro other hother hsame
      rw [Bool.and_eq_true, decide_eq_true_iff] at hsame
      rw [hinj hother h hsame.1, hport] at hsame
      exact absurd hsame.2 (by simp)
  · rcases hfind : c.bridgeSpecs.find? fun other => other.name = spec.name &&
        other.metricsPort.isSome with _ | other
    · have := List.find?_eq_none.1 hfind spec h
      simp [hport] at this
    · have hsame := List.find?_some hfind
      rw [Bool.and_eq_true, decide_eq_true_iff] at hsame
      obtain rfl := hinj (List.mem_of_find?_eq_some hfind) h hsame.1
      rw [hfind, Option.bind_some, hport]

/-- A process of its own runs its bridge. -/
theorem selectSpecs_name {spec : BridgeConf} (h : spec ∈ c.bridgeSpecs) :
    c.selectSpecs (some spec.name) = .ok [spec] := by
  have hfilter : ∀ {specs : List BridgeConf}, (specs.map (·.name)).Nodup → spec ∈ specs →
      specs.filter (·.name = spec.name) = [spec] := by
    intro specs hnodup hmem
    obtain ⟨pre, post, rfl⟩ := List.append_of_mem hmem
    rw [List.map_append, List.map_cons, List.nodup_middle, List.nodup_cons] at hnodup
    have hrest : ∀ other ∈ pre ++ post, other.name ≠ spec.name := by
      intro other hother heq
      rw [← List.map_append] at hnodup
      exact hnodup.1 (List.mem_map.2 ⟨other, hother, heq⟩)
    rw [List.filter_append, List.filter_cons_of_pos (by simp),
      List.filter_eq_nil_iff.2 fun o ho => by simpa using hrest o (by simp [ho]),
      List.filter_eq_nil_iff.2 fun o ho => by simpa using hrest o (by simp [ho])]
    rfl
  unfold selectSpecs
  dsimp only
  rw [hfilter c.nodup_names h, if_neg (by simp)]

/-- The endpoints of a bridge in a process of its own. -/
theorem endpoints_name (henabled : c.prometheus.enabled = true) {spec : BridgeConf}
    (h : spec ∈ c.bridgeSpecs) :
    c.endpoints (some spec.name) = spec.dtsu.endpoint.toList ++
      [⟨c.prometheus.host, (spec.metricsPort.getD c.prometheus.port).1⟩] := by
  unfold endpoints metricsEndpoint
  rw [selectSpecs_name h, if_pos henabled, metricsPortFor_name h]
  rcases hend : spec.dtsu.endpoint with _ | e <;> simp [hend]

/-- The serial ports of a bridge in a process of its own. -/
theorem serialPorts_name {spec : BridgeConf} (h : spec ∈ c.bridgeSpecs) :
    c.serialPorts (some spec.name) = (spec.dtsu.rtuOutput.map (·.port)).toList := by
  unfold serialPorts
  rw [selectSpecs_name h]
  rcases hport : spec.dtsu.rtuOutput with _ | rtu <;> simp [hport]

theorem endpoint_eq_some {spec : BridgeConf} {e : Endpoint} (h : spec.dtsu.endpoint = some e) :
    ∃ tcp, spec.dtsu.tcpOutput = some tcp ∧ e = ⟨tcp.host, tcp.port⟩ ∧
      AppFields.outputKey spec = some (.tcp tcp.host tcp.port) := by
  obtain ⟨tcp, htcp, rfl⟩ := Option.map_eq_some_iff.1 h
  refine ⟨tcp, htcp, rfl, ?_⟩
  have hrtu : spec.dtsu.rtuOutput = none := by
    unfold DtsuConf.tcpOutput at htcp
    unfold DtsuConf.rtuOutput
    split_ifs at htcp with ht
    rw [if_neg (by simp [ht])]
  unfold AppFields.outputKey
  rw [hrtu, htcp]

theorem outputKey_rtu {spec : BridgeConf} {rtu : DtsuRtuConf}
    (h : spec.dtsu.rtuOutput = some rtu) :
    AppFields.outputKey spec = some (.serial rtu.port) := by
  unfold AppFields.outputKey
  rw [h]

/-- Two enabled bridges do not claim one output. -/
theorem outputs_apart (c : AppConfig) : c.bridgeSpecs.Pairwise fun a b =>
    ∀ k, AppFields.outputKey a = some k → AppFields.outputKey b ≠ some k := by
  obtain ⟨legacy, hacc⟩ := c.exists_accepted
  obtain ⟨claimed, hclaim, -⟩ := Except.bind_eq_ok.1 hacc.outputs
  refine (List.pairwise_filterMap.1 (Dict.claimAll_ok hclaim).1).imp ?_
  exact fun h k hk hk' => h k hk k hk' rfl

/-- No two enabled bridges serve on one serial port. -/
theorem nodup_serialPorts (c : AppConfig) :
    (c.bridgeSpecs.filterMap fun spec => spec.dtsu.rtuOutput.map (·.port)).Nodup := by
  refine List.pairwise_filterMap.2 (c.outputs_apart.imp ?_)
  rintro a b hne p hp q hq rfl
  obtain ⟨r, hr, rfl⟩ := Option.map_eq_some_iff.1 hp
  obtain ⟨r', hr', hport⟩ := Option.map_eq_some_iff.1 hq
  refine hne _ (outputKey_rtu hr) ?_
  rw [outputKey_rtu hr', hport]

/-- Two enabled bridges on one TCP port are on different hosts. -/
theorem tcp_apart (c : AppConfig) : c.bridgeSpecs.Pairwise fun a b => ¬a.SharesWildcard b →
    ∀ s ∈ a.dtsu.endpoint, ∀ t ∈ b.dtsu.endpoint, ¬s.Conflicts t := by
  refine c.outputs_apart.imp ?_
  rintro a b hne hwild s hs t ht ⟨hport, hhost⟩
  obtain ⟨u, hu, rfl, hkey⟩ := endpoint_eq_some hs
  obtain ⟨v, hv, rfl, hkey'⟩ := endpoint_eq_some ht
  rcases hhost with hhost | hhost
  · refine hne _ hkey ?_
    dsimp only at hhost hport
    rw [hkey', hhost, hport]
  · exact hwild ⟨u, v, hu, hv, hport, hhost⟩

/-- No TCP output is in the way of a metrics endpoint. -/
theorem metrics_apart (henabled : c.prometheus.enabled = true) {a b : BridgeConf}
    (ha : a ∈ c.bridgeSpecs) (hb : b ∈ c.bridgeSpecs) {e : Endpoint}
    (he : a.dtsu.endpoint = some e) {port : Port}
    (hport : port = c.prometheus.port ∨ b.metricsPort = some port) :
    ¬e.Conflicts ⟨c.prometheus.host, port.1⟩ := by
  rintro ⟨hsame, hhost⟩
  obtain ⟨legacy, hacc⟩ := c.exists_accepted
  obtain ⟨tcp, htcp, rfl, -⟩ := endpoint_eq_some he
  have hover : c.toAppFields.overlaps tcp = true := by
    simp only [AppFields.overlaps, Bool.or_eq_true, decide_eq_true_iff]
    rcases hhost with h | h | h
    · exact Or.inl (Or.inl h.symm)
    · exact Or.inr h
    · exact Or.inl (Or.inr h)
  rcases hport with rfl | hport
  · have hfree := hacc.metricsPort
    unfold AppFields.checkMetricsPortFree at hfree
    rw [henabled] at hfree
    have hnone := List.findSome?_eq_none_iff.1 (AppFields.raiseFound_eq_ok.1 hfree) a ha
    simp only [htcp, hover, Option.bind_eq_bind, Option.bind_some, and_true] at hnone
    rw [if_pos hsame.symm] at hnone
    cases hnone
  · obtain ⟨seen, hclaim, hown⟩ := Except.bind_eq_ok.1 hacc.ownPorts
    have hseen : tcp.port ∈ seen.keys := by
      refine ((Dict.claimAll_ok hclaim).2.2 _).2 (Or.inl (List.mem_filterMap.2 ⟨b, hb, ?_⟩))
      rw [hport, Option.map_some]
      exact congrArg some hsame.symm
    obtain ⟨owner, howner⟩ := Option.isSome_iff_exists.1 (Dict.isSome_get?_iff.2 hseen)
    have hnone := List.findSome?_eq_none_iff.1 (AppFields.raiseFound_eq_ok.1 hown) a ha
    simp [htcp, howner, hover] at hnone

/-- The metrics ports of two enabled bridges differ, if both have their own. -/
theorem ownPorts_apart (c : AppConfig) : c.bridgeSpecs.Pairwise fun a b =>
    ¬c.prometheus.SharesPort a b →
      a.metricsPort.getD c.prometheus.port ≠ b.metricsPort.getD c.prometheus.port := by
  obtain ⟨legacy, hacc⟩ := c.exists_accepted
  obtain ⟨seen, hclaim, -⟩ := Except.bind_eq_ok.1 hacc.ownPorts
  refine (List.pairwise_filterMap.1 (Dict.claimAll_ok hclaim).1).imp ?_
  intro a b hne hshare heq
  rcases ha : a.metricsPort with _ | p
  · rw [ha, Option.getD_none] at heq
    exact hshare ⟨by rw [ha]; rfl, heq.symm, Or.inl ha⟩
  rcases hb : b.metricsPort with _ | q
  · rw [hb, Option.getD_none] at heq
    exact hshare ⟨heq, by rw [hb]; rfl, Or.inr hb⟩
  rw [ha, hb] at heq
  refine hne p.1 (by rw [ha]; rfl) q.1 (by rw [hb]; rfl) (congrArg Subtype.val heq)

end AppConfig

/-! ## When the listeners are apart -/

/-- One process for all bridges. -/
theorem oneProcess_apart {c : AppConfig} (henabled : c.prometheus.enabled = true)
    (hwild : c.bridgeSpecs.Pairwise fun a b => ¬a.SharesWildcard b) :
    Deployment.oneProcess.Apart c := by
  refine ⟨?_, ?_⟩
  · rw [Deployment.processes, List.flatMap_singleton]
    exact c.nodup_serialPorts
  rw [Deployment.processes, List.flatMap_singleton]
  unfold AppConfig.endpoints AppConfig.metricsEndpoint
  rw [AppConfig.selectSpecs, if_pos henabled]
  refine List.pairwise_append.2 ⟨List.pairwise_filterMap.2 ?_, List.pairwise_singleton _ _, ?_⟩
  · exact (c.tcp_apart.and hwild).imp fun h s hs t ht => h.1 h.2 s hs t ht
  · intro e he m hm
    obtain ⟨a, ha, he⟩ := List.mem_filterMap.1 he
    obtain rfl := List.mem_singleton.1 hm
    exact AppConfig.metrics_apart henabled ha ha he (Or.inl rfl)

/-- What a bridge listens on in a process of its own. -/
def AppConfig.bridgeEndpoints (c : AppConfig) (spec : BridgeConf) : List Endpoint :=
  spec.dtsu.endpoint.toList ++ [⟨c.prometheus.host, (spec.metricsPort.getD c.prometheus.port).1⟩]

theorem perBridge_endpoints {c : AppConfig} (henabled : c.prometheus.enabled = true) :
    (Deployment.perBridge.processes c).flatMap c.endpoints =
      c.bridgeSpecs.flatMap c.bridgeEndpoints := by
  rw [Deployment.processes, List.flatMap_map]
  exact List.flatMap_congr fun spec h => AppConfig.endpoints_name henabled h

theorem perBridge_serialPorts (c : AppConfig) :
    (Deployment.perBridge.processes c).flatMap c.serialPorts =
      c.bridgeSpecs.filterMap fun spec => spec.dtsu.rtuOutput.map (·.port) := by
  rw [Deployment.processes, List.flatMap_map, List.filterMap_eq_flatMap_toList]
  exact List.flatMap_congr fun spec h => AppConfig.serialPorts_name h

namespace AppConfig

/-- No TCP output is in the way of the metrics endpoint of a bridge. -/
theorem bridgeMetrics_apart {c : AppConfig} (henabled : c.prometheus.enabled = true)
    {a b : BridgeConf} (ha : a ∈ c.bridgeSpecs) (hb : b ∈ c.bridgeSpecs) {e : Endpoint}
    (he : a.dtsu.endpoint = some e) :
    ¬e.Conflicts ⟨c.prometheus.host, (b.metricsPort.getD c.prometheus.port).1⟩ := by
  refine metrics_apart henabled ha hb he ?_
  rcases b.metricsPort with _ | port
  · exact Or.inl rfl
  · exact Or.inr rfl

/-- The endpoints of one bridge are apart. -/
theorem bridgeEndpoints_pairwise {c : AppConfig} (henabled : c.prometheus.enabled = true)
    {a : BridgeConf} (ha : a ∈ c.bridgeSpecs) :
    (c.bridgeEndpoints a).Pairwise fun s t => ¬s.Conflicts t := by
  refine List.pairwise_append.2 ⟨?_, List.pairwise_singleton _ _, ?_⟩
  · rcases a.dtsu.endpoint with _ | e <;> simp
  · intro e he m hm
    obtain rfl := List.mem_singleton.1 hm
    exact bridgeMetrics_apart henabled ha ha (Option.mem_toList.1 he)

/-- The endpoints of two bridges are apart exactly where they share nothing. -/
theorem bridgeEndpoints_apart {c : AppConfig} (henabled : c.prometheus.enabled = true)
    {a b : BridgeConf} (ha : a ∈ c.bridgeSpecs) (hb : b ∈ c.bridgeSpecs)
    (htcp : ∀ s ∈ a.dtsu.endpoint, ∀ t ∈ b.dtsu.endpoint, ¬s.Conflicts t)
    (hport : a.metricsPort.getD c.prometheus.port ≠ b.metricsPort.getD c.prometheus.port) :
    ∀ s ∈ c.bridgeEndpoints a, ∀ t ∈ c.bridgeEndpoints b, ¬s.Conflicts t := by
  intro s hs t ht
  rcases List.mem_append.1 hs with hs | hs <;> rcases List.mem_append.1 ht with ht | ht
  · exact htcp s (Option.mem_toList.1 hs) t (Option.mem_toList.1 ht)
  · obtain rfl := List.mem_singleton.1 ht
    exact bridgeMetrics_apart henabled ha hb (Option.mem_toList.1 hs)
  · obtain rfl := List.mem_singleton.1 hs
    exact fun hc => bridgeMetrics_apart henabled hb ha (Option.mem_toList.1 ht) hc.symm
  · obtain rfl := List.mem_singleton.1 hs
    obtain rfl := List.mem_singleton.1 ht
    exact fun hc => hport (Subtype.ext hc.1)

/-- Two bridges whose endpoints are apart share nothing. -/
theorem not_shares_of_apart {c : AppConfig} {a b : BridgeConf}
    (h : ∀ s ∈ c.bridgeEndpoints a, ∀ t ∈ c.bridgeEndpoints b, ¬s.Conflicts t) :
    ¬a.SharesWildcard b ∧ ¬c.prometheus.SharesPort a b := by
  refine ⟨?_, ?_⟩
  · rintro ⟨s, t, hs, ht, hport, hwild⟩
    refine h ⟨s.host, s.port⟩ ?_ ⟨t.host, t.port⟩ ?_ ⟨hport, Or.inr hwild⟩
    · simp [bridgeEndpoints, DtsuConf.endpoint, hs]
    · simp [bridgeEndpoints, DtsuConf.endpoint, ht]
  · rintro ⟨ha, hb, -⟩
    refine h _ (List.mem_append_right _ (List.mem_singleton_self _)) _
      (List.mem_append_right _ (List.mem_singleton_self _)) ⟨?_, Or.inl rfl⟩
    rw [ha, hb]

end AppConfig

/-- The endpoints of two bridges, each in a process of its own. -/
theorem perBridge_apart_iff {c : AppConfig} (henabled : c.prometheus.enabled = true) :
    Deployment.perBridge.Apart c ↔ c.bridgeSpecs.Pairwise fun a b =>
      ¬a.SharesWildcard b ∧ ¬c.prometheus.SharesPort a b := by
  refine ⟨fun h => ?_, fun h => ⟨perBridge_serialPorts c ▸ c.nodup_serialPorts, ?_⟩⟩
  · have htcp := h.tcp
    rw [perBridge_endpoints henabled, List.pairwise_flatMap] at htcp
    exact htcp.2.imp AppConfig.not_shares_of_apart
  · rw [perBridge_endpoints henabled, List.pairwise_flatMap]
    refine ⟨fun a ha => AppConfig.bridgeEndpoints_pairwise henabled ha, ?_⟩
    refine ((c.tcp_apart.and c.ownPorts_apart).and h).imp_of_mem ?_
    rintro a b ha hb ⟨⟨htcp, hown⟩, hwild, hshare⟩
    exact AppConfig.bridgeEndpoints_apart henabled ha hb (htcp hwild) (hown hshare)

/-- The listeners of an accepted configuration are apart in every deployment exactly when no
two enabled bridges are on one TCP port with a wildcard among their hosts, and none has the
shared metrics port beside one that falls back to it. -/
theorem listeners_apart_iff (c : AppConfig) (henabled : c.prometheus.enabled = true) :
    (∀ d : Deployment, d.Apart c) ↔ c.bridgeSpecs.Pairwise fun a b =>
      ¬a.SharesWildcard b ∧ ¬c.prometheus.SharesPort a b := by
  refine ⟨fun h => (perBridge_apart_iff henabled).1 (h .perBridge), fun h d => ?_⟩
  match d with
  | .oneProcess => exact oneProcess_apart henabled (h.imp And.left)
  | .perBridge => exact (perBridge_apart_iff henabled).2 h

/-! ## Two bridges on one port -/

/-- An ND45 bridge that listens at a host. -/
def tcpBridge (name : String) (named : name ≠ "") (host : String) (metricsPort : Port) :
    BridgeConf where
  name := name
  source := nd45Conf
  dtsu := { tcpConf with tcp := some { host := host }, transportOk := rfl }
  metricsPort := some metricsPort
  usable := by
    unfold BridgeFields.check
    rw [if_neg named]
    rfl

/-- A bridge on port 502 of every address. -/
def mainBridge : BridgeConf := tcpBridge "main" (by decide) "0.0.0.0" ⟨8081, by decide⟩

/-- One bridge on every address, one on the loopback. -/
def wildcardApp : AppConfig where
  bridges := [mainBridge, tcpBridge "second" (by decide) "127.0.0.1" ⟨8082, by decide⟩]
  accepted := by decide +kernel

/-- Both are accepted, and no deployment can bind both. -/
theorem listeners_not_apart :
    wildcardApp.prometheus.enabled = true ∧ ∀ d : Deployment, ¬d.Apart wildcardApp := by
  refine ⟨rfl, fun d h => ?_⟩
  match d with
  | .oneProcess => exact absurd h.tcp (by decide +kernel)
  | .perBridge => exact absurd h.tcp (by decide +kernel)

/-- Two bridges on port 502 of two addresses. -/
def apartApp : AppConfig where
  bridges :=
    [tcpBridge "main" (by decide) "10.0.0.2" ⟨8081, by decide⟩,
      tcpBridge "second" (by decide) "10.0.0.3" ⟨8082, by decide⟩]
  accepted := by decide +kernel

theorem listeners_apart_iff_apartApp :
    Deployment.oneProcess.Apart apartApp ∧ Deployment.perBridge.Apart apartApp := by
  have h := (listeners_apart_iff apartApp rfl).2 (List.pairwise_pair.2 ⟨?_, ?_⟩)
  · exact ⟨h .oneProcess, h .perBridge⟩
  · rintro ⟨s, t, hs, ht, -, hwild⟩
    obtain rfl := Option.some.inj hs
    obtain rfl := Option.some.inj ht
    exact absurd hwild (by decide)
  · rintro ⟨-, -, h | h⟩
    · exact absurd h (by simp [tcpBridge])
    · exact absurd h (by simp [tcpBridge])

end DtsuBridge
