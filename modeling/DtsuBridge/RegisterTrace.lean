import DtsuBridge.HubCache
import DtsuBridge.Pollers
import DtsuBridge.AppConfig
import DtsuBridge.Datastore
import DtsuBridge.RtuActivity
import DtsuBridge.WireActivity

/-!
# The trace of a bridge

`runRtudebug` builds the pipeline with a recorder that logs, and names the bridge it watches. The
pipeline gives that recorder to its first bridge, and one that only counts to each of the others,
whichever bridge is watched.

`serveReads_lines` : what is logged of any reads are those of the first bridge.
`trace_iff` : the trace is that of the watched bridge exactly where it is the first, or neither
of the two is read.
-/

namespace DtsuBridge

/-! ## Register names -/

/-- A register under a function code, with its length in words. -/
structure RegisterSpan where
  fc : ℤ
  start : ℤ
  words : ℤ
  name : String

/-- `_MEASUREMENT_WORDS` -/
def MEASUREMENT_WORDS : ℤ := 2

/-- `_IDENTITY_WORDS` -/
def IDENTITY_WORDS : ℤ := 1

/-- The names of `_IDENTITY_REGISTER_ADDRS`, with the addresses. -/
def identityRegisterNames : List (String × ℤ) :=
  ["rev", "ucode", "clr_e", "net", "ir_at", "ur_at", "disp", "b_lcd", "endian", "protocol"].zip
    (identityRegisterAddrs.map Prod.snd)

/-- `_EXTRA_IDENTITY_ADDRS` -/
def EXTRA_IDENTITY_ADDRS : List (String × ℤ) := [("baud", 0x002D), ("addr", 0x002E)]

/-- The spans, sorted by function code and start. -/
structure RegisterNameIndex where
  spans : List RegisterSpan

namespace RegisterNameIndex

/-- `__init__` -/
def new (spans : List RegisterSpan) : RegisterNameIndex where
  spans := spans.insertionSort fun a b => a.fc < b.fc ∨ (a.fc = b.fc ∧ a.start ≤ b.start)

def build (targets : List TargetSide) (sigenIdentity : Option StaticIdentitySide) :
    RegisterNameIndex :=
  let measured := targets.flatMap fun side =>
    side.points.entries.map fun (name, pt) =>
      ⟨side.functionCode.code, pt.addr, MEASUREMENT_WORDS, name⟩
  let identity := (identityRegisterNames ++ EXTRA_IDENTITY_ADDRS).map fun (name, addr) =>
    ⟨3, addr, IDENTITY_WORDS, name⟩
  let static := sigenIdentity.elim [] fun side =>
    side.points.entries.map fun (name, point) => ⟨3, point.addr, point.registerCount, name⟩
  new (measured ++ identity ++ static)

/-- Names whose register range overlaps the block. -/
def lookup (index : RegisterNameIndex) (address count functionCode : ℤ) : List String :=
  let stop := address + count
  (index.spans.filter fun span => span.fc = functionCode &&
    (span.start < stop && address < span.start + span.words)).map (·.name)

end RegisterNameIndex

/-! ## Recorders -/

/-- `READ FC{fc:02d} addr={address} (0x{address:04X}) count={count} -> {names}`, where no name is
`(unmapped)`. -/
structure ReadLine where
  fc : ℤ
  address : ℤ
  count : ℤ
  names : List String
deriving DecidableEq

/-- An `RtuActivity`, or a `LoggingRtuActivity` with its index. -/
structure Recorder where
  activity : RtuActivity := .new
  index : Option RegisterNameIndex := none

/-- The line of a read. -/
def RegisterNameIndex.readLine (index : RegisterNameIndex) (call : ReadCall) : ReadLine where
  fc := call.fc
  address := call.address
  count := call.count
  names := index.lookup call.address call.count call.fc

/-- `record`, with what it logs. -/
def Recorder.record (recorder : Recorder) (call : ReadCall) : Recorder × List ReadLine :=
  ({ recorder with activity := recorder.activity.record call },
    recorder.index.toList.map (·.readLine call))

/-! ## The pipeline -/

/-- What serves the reads of a bridge. -/
structure BridgeRuntime where
  name : String
  spec : BridgeConf
  activity : Option Recorder
  wire : Option WireActivity

/-- `getValues` of the slave context, which records where there is an activity. -/
def BridgeRuntime.getValues (bridge : BridgeRuntime) (call : ReadCall) :
    BridgeRuntime × List ReadLine :=
  match bridge.activity with
  | some recorder =>
    let (recorder, lines) := recorder.record call
    ({ bridge with activity := some recorder }, lines)
  | none => (bridge, [])

/-- The section of a bridge, found and validated. -/
def checkSource (registers : RegisterMap) (spec : BridgeConf) : Except String Unit := do
  let side ← registers.sourceByName spec.source.base.registerMap
  validateCoverage spec.source.type side

def buildBridge (spec : BridgeConf) (activity : Option Recorder) (prometheusEnabled : Bool) :
    BridgeRuntime :=
  let activity := match activity with
    | some recorder => some recorder
    | none => if prometheusEnabled then some {} else none
  { name := spec.name
    spec := spec
    activity := activity
    wire := if activity.isSome && spec.dtsu.transport = .rtu then some {} else none }

/-- The bridges of `build_pipeline`, the sources of which are all checked first. -/
def buildPipeline (config : AppConfig) (registers : RegisterMap) (activity : Option Recorder)
    (only : Option String) : Except String (List BridgeRuntime) := do
  let specs ← config.selectSpecs only
  let _ ← specs.mapM (checkSource registers)
  return specs.zipIdx.map fun (spec, index) =>
    buildBridge spec (if index = 0 then activity else none)
      (config.prometheus.enabled || activity.isSome)

/-- `Pipeline.bridge`. The error is a `KeyError`. -/
def pipelineBridge (bridges : List BridgeRuntime) (name : String) : Except String BridgeRuntime :=
  match bridges.find? (·.name = name) with
  | some bridge => .ok bridge
  | none =>
    let available := ", ".intercalate (bridges.map (·.name))
    .error s!"no bridge named {strRepr name} (have: {available})"

/-- `Pipeline.primary`. The error is an `IndexError`. -/
def pipelinePrimary : List BridgeRuntime → Except String BridgeRuntime
  | bridge :: _ => .ok bridge
  | [] => .error "list index out of range"

/-- The bridge that is watched, the first unless one is named. -/
def watchedBridge (bridges : List BridgeRuntime) : Option String → Except String BridgeRuntime
  | none => pipelinePrimary bridges
  | some name => pipelineBridge bridges name

/-- The names of the registers that a process serves. -/
def registerIndex (registers : RegisterMap) : RegisterNameIndex :=
  .build registers.targetSides (some registers.dtsuSigenIdentity)

/-- `run_rtudebug` once the pipeline is built : its bridges, the one it says it traces and the
ones it says it does not. -/
structure RtudebugRun where
  bridges : List BridgeRuntime
  watched : BridgeRuntime
  others : List String

def runRtudebug (config : AppConfig) (registers : RegisterMap) (bridgeName : Option String) :
    Except String RtudebugRun := do
  let activity : Recorder := { index := some (registerIndex registers) }
  let bridges ← buildPipeline config registers (some activity) none
  let watched ← watchedBridge bridges bridgeName
  return {
    bridges := bridges
    watched := watched
    others := (bridges.map (·.name)).filter (· ≠ watched.name) }

/-! ## Reads -/

/-- A read that a bridge serves. -/
structure ServedRead where
  bridge : String
  call : ReadCall

/-- Serve a read, with what it logs. -/
def serveRead (read : ServedRead) : List BridgeRuntime → List BridgeRuntime × List ReadLine
  | [] => ([], [])
  | bridge :: bridges =>
    if bridge.name = read.bridge then
      let (bridge, lines) := bridge.getValues read.call
      (bridge :: bridges, lines)
    else
      let (bridges, lines) := serveRead read bridges
      (bridge :: bridges, lines)

/-- Serve reads in order, with what each of them logs. -/
def serveReads (bridges : List BridgeRuntime) : List ServedRead → List (List ReadLine)
  | [] => []
  | read :: reads =>
    let (bridges, lines) := serveRead read bridges
    lines :: serveReads bridges reads

/-- The lines of some reads when one bridge is traced. -/
def traceOf (index : RegisterNameIndex) (bridge : String) (reads : List ServedRead) :
    List (List ReadLine) :=
  reads.map fun read => if read.bridge = bridge then [index.readLine read.call] else []

/-! ## What is logged -/

/-- Only the first of the bridges logs, with the index. -/
structure FirstLogs (index : RegisterNameIndex) (bridge : BridgeRuntime)
    (bridges : List BridgeRuntime) : Prop where
  first : ∃ activity, bridge.activity = some ⟨activity, some index⟩
  rest : ∀ b ∈ bridges, ∀ recorder ∈ b.activity, recorder.index = none

theorem serveRead_silent {read : ServedRead} : ∀ {bridges : List BridgeRuntime},
    (∀ b ∈ bridges, ∀ recorder ∈ b.activity, recorder.index = none) →
      (serveRead read bridges).2 = [] ∧
        ∀ b ∈ (serveRead read bridges).1, ∀ recorder ∈ b.activity, recorder.index = none
  | [], _ => ⟨rfl, by simp [serveRead]⟩
  | bridge :: bridges, h => by
    obtain ⟨hbridge, hbridges⟩ := List.forall_mem_cons.1 h
    by_cases hname : bridge.name = read.bridge
    · rw [serveRead, if_pos hname]
      cases hactivity : bridge.activity with
      | none => simpa [BridgeRuntime.getValues, hactivity] using hbridges
      | some recorder =>
        have hindex := hbridge recorder hactivity
        simpa [BridgeRuntime.getValues, hactivity, Recorder.record, hindex] using hbridges
    · obtain ⟨hlines, hrest⟩ := @serveRead_silent read _ hbridges
      rw [serveRead, if_neg hname]
      exact ⟨hlines, List.forall_mem_cons.2 ⟨hbridge, hrest⟩⟩

/-- A read is logged where the first bridge serves it, and the first goes on logging. -/
theorem serveRead_first {index : RegisterNameIndex} {bridge : BridgeRuntime}
    {bridges : List BridgeRuntime} (h : FirstLogs index bridge bridges) (read : ServedRead) :
    ∃ bridge' bridges', serveRead read (bridge :: bridges) =
        (bridge' :: bridges',
          if read.bridge = bridge.name then [index.readLine read.call] else []) ∧
      bridge'.name = bridge.name ∧ FirstLogs index bridge' bridges' := by
  obtain ⟨⟨activity, hactivity⟩, hrest⟩ := h
  by_cases hname : bridge.name = read.bridge
  · refine ⟨{ bridge with activity := some ⟨activity.record read.call, some index⟩ }, bridges,
      ?_, rfl, ⟨⟨_, rfl⟩, hrest⟩⟩
    rw [serveRead, if_pos hname, if_pos hname.symm, BridgeRuntime.getValues, hactivity]
    rfl
  · obtain ⟨hlines, hsilent⟩ := @serveRead_silent read _ hrest
    refine ⟨bridge, (serveRead read bridges).1, ?_, rfl, ⟨⟨activity, hactivity⟩, hsilent⟩⟩
    rw [serveRead, if_neg hname, if_neg (Ne.symm hname), ← hlines]

/-- What is logged of any reads is the trace of the first bridge. -/
theorem serveReads_lines {index : RegisterNameIndex} : ∀ {reads : List ServedRead}
    {bridge : BridgeRuntime} {bridges : List BridgeRuntime}, FirstLogs index bridge bridges →
      serveReads (bridge :: bridges) reads = traceOf index bridge.name reads
  | [], _, _, _ => rfl
  | read :: reads, bridge, bridges, h => by
    obtain ⟨bridge', bridges', hserve, hname, h'⟩ := serveRead_first h read
    rw [serveReads, hserve, traceOf, List.map_cons, ← hname]
    exact congrArg _ (serveReads_lines h')

/-- The recorder of the caller goes to the first bridge, and the others count in silence. -/
theorem firstLogs_buildPipeline {config : AppConfig} {registers : RegisterMap}
    {activity : RtuActivity} {index : RegisterNameIndex} {bridges : List BridgeRuntime}
    (h : buildPipeline config registers (some ⟨activity, some index⟩) none = .ok bridges) :
    bridges.map (·.name) = config.bridgeSpecs.map (·.name) ∧
      ∃ bridge rest, bridges = bridge :: rest ∧ FirstLogs index bridge rest := by
  obtain ⟨specs, hspecs, h⟩ := Except.bind_eq_ok.1 h
  obtain ⟨units, -, h⟩ := Except.bind_eq_ok.1 h
  obtain rfl : config.bridgeSpecs = specs := Except.ok.inj hspecs
  obtain rfl := Except.ok.inj h
  obtain ⟨spec, specs, heq⟩ := List.exists_cons_of_ne_nil config.bridgeSpecs_ne_nil
  refine ⟨?_, ?_⟩
  · have hname : ∀ (l : List BridgeConf) (n : ℕ), (l.zipIdx n).map (fun e =>
        (buildBridge e.1 (if e.2 = 0 then some ⟨activity, some index⟩ else none)
          (config.prometheus.enabled || true)).name) = l.map (·.name) := by
      intro l
      induction l with
      | nil => exact fun _ => rfl
      | cons spec l ih => exact fun n => congrArg (spec.name :: ·) (ih (n + 1))
    rw [List.map_map]
    exact hname config.bridgeSpecs 0
  · rw [heq, List.zipIdx_cons, List.map_cons]
    refine ⟨_, _, rfl, ⟨activity, rfl⟩, fun b hb recorder hrecorder => ?_⟩
    obtain ⟨⟨spec', n⟩, hn, rfl⟩ := List.mem_map.1 hb
    have hpos : n ≠ 0 := by
      have hle := List.le_snd_of_mem_zipIdx hn
      simp only at hle
      omega
    simp only [buildBridge, if_neg hpos, Option.isSome_some, Bool.or_true, if_true] at hrecorder
    obtain rfl := Option.some.inj hrecorder
    rfl

/-- Every source that is found and validated lets the pipeline be built. -/
theorem buildPipeline_isOk {config : AppConfig} {registers : RegisterMap}
    (hsources : ∀ spec ∈ config.bridgeSpecs, checkSource registers spec = .ok ())
    (activity : Option Recorder) : ∃ bridges,
      buildPipeline config registers activity none = .ok bridges := by
  obtain ⟨units, hunits⟩ := Except.exists_mapM_eq_ok.2 fun spec hspec => ⟨(), hsources spec hspec⟩
  exact ⟨_, Except.bind_eq_ok.2 ⟨_, rfl, Except.bind_eq_ok.2 ⟨units, hunits, rfl⟩⟩⟩

/-- Of two bridges the reads have the same trace where the reads are of both or of neither. -/
theorem traceOf_eq_iff {index : RegisterNameIndex} {a b : String} {reads : List ServedRead} :
    traceOf index a reads = traceOf index b reads ↔
      a = b ∨ ∀ read ∈ reads, read.bridge ≠ a ∧ read.bridge ≠ b := by
  rw [traceOf, traceOf, List.map_inj_left]
  constructor
  · intro h
    by_cases hab : a = b
    · exact .inl hab
    · refine .inr fun read hread => ?_
      have hread := h read hread
      refine ⟨fun ha => ?_, fun hb => ?_⟩
      · rw [if_pos ha, if_neg (ha ▸ hab)] at hread
        cases hread
      · rw [if_pos hb, if_neg (hb ▸ Ne.symm hab)] at hread
        cases hread
  · rintro (rfl | h) read hread
    · rfl
    · obtain ⟨ha, hb⟩ := h read hread
      rw [if_neg ha, if_neg hb]

/-- With every source found, an enabled bridge or none named, and any reads : what is logged is
the trace of the watched bridge exactly where that is the first of the enabled bridges, or neither
of the two is read. -/
theorem trace_iff {config : AppConfig} {registers : RegisterMap}
    (hsources : ∀ spec ∈ config.bridgeSpecs, checkSource registers spec = .ok ())
    {bridgeName : Option String}
    (hname : ∀ name ∈ bridgeName, name ∈ config.bridgeSpecs.map (·.name)) :
    ∃ run first, runRtudebug config registers bridgeName = .ok run ∧
      (config.bridgeSpecs.map (·.name)).head? = some first ∧
      run.watched.name = bridgeName.getD first ∧
      ∀ reads, serveReads run.bridges reads =
          traceOf (registerIndex registers) run.watched.name reads ↔
        bridgeName.getD first = first ∨
          ∀ read ∈ reads, read.bridge ≠ bridgeName.getD first ∧ read.bridge ≠ first := by
  obtain ⟨bridges, hbuild⟩ := buildPipeline_isOk hsources
    (some { index := some (registerIndex registers) })
  obtain ⟨hnames, bridge, rest, rfl, hfirst⟩ := firstLogs_buildPipeline hbuild
  obtain ⟨watched, hwatched, hwname⟩ : ∃ watched,
      watchedBridge (bridge :: rest) bridgeName = .ok watched ∧
      watched.name = bridgeName.getD bridge.name := by
    cases bridgeName with
    | none => exact ⟨bridge, rfl, rfl⟩
    | some name =>
      have hmem := hname name rfl
      rw [← hnames] at hmem
      obtain ⟨b, hb, hbname⟩ := List.mem_map.1 hmem
      cases hfind : (bridge :: rest).find? (·.name = name) with
      | none => exact absurd (List.find?_eq_none.1 hfind b hb) (by simp [hbname])
      | some watched =>
        refine ⟨watched, ?_, by simpa using List.find?_some hfind⟩
        simp only [watchedBridge, pipelineBridge, hfind]
  have hrun : runRtudebug config registers bridgeName = .ok ⟨bridge :: rest, watched,
      ((bridge :: rest).map (·.name)).filter (· ≠ watched.name)⟩ :=
    Except.bind_eq_ok.2 ⟨_, hbuild, Except.bind_eq_ok.2 ⟨watched, hwatched, rfl⟩⟩
  refine ⟨_, bridge.name, hrun, by rw [← hnames]; rfl, hwname, fun reads => ?_⟩
  rw [serveReads_lines hfirst, hwname, traceOf_eq_iff, eq_comm, or_congr_right]
  exact forall₂_congr fun read _ => and_comm

/-- The first of two bridges is traced as it is read. -/
theorem trace_iff_first : ∃ run, runRtudebug apartApp (freqMap 102) (some "main") = .ok run ∧
    serveReads run.bridges [⟨"second", ⟨4, 102, 2, 0⟩⟩, ⟨"main", ⟨4, 100, 4, 1⟩⟩] =
      [[], [⟨4, 100, 4, ["freq", "freq"]⟩]] := by
  obtain ⟨run, first, hrun, hfirst, hwatched, htrace⟩ :=
    @trace_iff apartApp (freqMap 102) (by decide +kernel) (some "main") (by decide +kernel)
  obtain rfl : "main" = first := Option.some.inj ((by decide +kernel : _ = some "main").symm.trans
    hfirst)
  refine ⟨run, hrun, ((htrace _).2 (.inl rfl)).trans ?_⟩
  rw [hwatched]
  decide +kernel

/-- The second bridge is watched, and what is logged is a read of the first. -/
theorem trace_of_second : ¬∀ run, runRtudebug apartApp (freqMap 102) (some "second") = .ok run →
    ∀ reads, serveReads run.bridges reads =
      traceOf (registerIndex (freqMap 102)) "second" reads := by
  intro h
  have hrun : ((runRtudebug apartApp (freqMap 102) (some "second")).toOption.map fun run =>
      serveReads run.bridges [⟨"main", ⟨4, 100, 2, 0⟩⟩]) = some [[⟨4, 100, 2, ["freq"]⟩]] := by
    decide +kernel
  obtain ⟨run, hok, hlines⟩ := Option.map_eq_some_iff.1 hrun
  rw [h run (Except.toOption_eq_some.1 hok)] at hlines
  exact absurd hlines (by decide +kernel)

end DtsuBridge
