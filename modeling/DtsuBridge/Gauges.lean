import DtsuBridge.FailSafe

/-!
# The register gauges

The exporter does not read the registers. `_render_bridge_values` encodes the sample of the
store once more, point by point, and reads the encoding as a float. What it reports is what
is served as long as the store and the registers hold the same sample, which they do in
every reachable state (`reachable_store`), and as long as a point reads what was written
for it.

`register_gauges_served` : where every output point is `Placed`, the gauges of a live bridge
are the floats its registers are read as, one for each point once a sample is published
where they are enabled, and none before. A point at address -1 or -2 has no registers
to be read, and its gauge is there all the same.
-/

namespace DtsuBridge

/-! ## The exposition -/

def PREFIX : String := "nd45_dtsu666"

inductive MetricValue where
  | float (x : PyFloat)
  | seconds (t : WithTop Time)

/-- Names and values of the labels, in order. -/
abbrev MetricLabels := List (String × String)

inductive MetricLine where
  /-- The `HELP` and `TYPE` of a family. -/
  | family (name kind helpText : String)
  | sample (name : String) (value : MetricValue) (labels : MetricLabels)

/-- The lines of `_Out`. -/
abbrev MetricsOut := List MetricLine

namespace MetricLine

def declares (name : String) : MetricLine → Bool
  | .family n _ _ => n = name
  | .sample .. => false

/-- The sample of a line, if it is one of this family. -/
def sampleOf (name : String) : MetricLine → Option (MetricLabels × MetricValue)
  | .family .. => none
  | .sample n value labels => if n = name then some (labels, value) else none

end MetricLine

namespace MetricsOut

/-- `_Out.family` declares a family once. -/
def family (out : MetricsOut) (name kind helpText : String) : MetricsOut :=
  if out.any (·.declares name) then out else out ++ [.family name kind helpText]

/-- The samples of a family. -/
def samples (out : MetricsOut) (name : String) : List (MetricLabels × MetricValue) :=
  out.filterMap (·.sampleOf name)

end MetricsOut

/-- `_age` -/
def metricAge (last : Option Time) (now : Time) : WithTop Time :=
  match last with
  | none => ⊤
  | some last => ((now - last : Time) : WithTop Time)

/-- An output point with the names of its map and its own. -/
structure OutputPoint where
  map : String
  side : TargetSide
  name : String
  pt : TargetPoint

/-- The points of the maps in order, those of a map by address. -/
def outputPoints (targets : List (String × TargetSide)) : List OutputPoint :=
  targets.flatMap fun (map, side) =>
    (side.points.entries.insertionSort fun a b => a.2.addr ≤ b.2.addr).map fun (name, pt) =>
      ⟨map, side, name, pt⟩

/-- The labels of a point, after those of its bridge. -/
def OutputPoint.labels (label : MetricLabels) (p : OutputPoint) : MetricLabels :=
  label ++ [("map", p.map), ("point", p.name), ("fc", toString p.side.functionCode.code),
    ("addr", toString p.pt.addr)]

/-- The families of measurements and registers, by name and help text. -/
structure ValueFamilies where
  canonical : String × String
  register : String × String
  readAge : String × String

/-- Those of every bridge. -/
def bridgeFamilies : ValueFamilies where
  canonical := (PREFIX ++ "_bridge_canonical_value",
    "Latest canonical SI measurement by point name, per bridge " ++
      "(mixed units; see registers.json).")
  register := (PREFIX ++ "_bridge_dtsu_register_value",
    "Value currently encoded in each DTSU output register, in that register's own scale.")
  readAge := (PREFIX ++ "_bridge_dtsu_register_read_age_seconds",
    "Seconds since Sigenergy last read a register on this bridge. +Inf if it never has.")

/-- Those of the first bridge, under the names without a label. -/
def aliasFamilies : ValueFamilies where
  canonical := (PREFIX ++ "_canonical_value",
    "Latest canonical SI measurement by point name (mixed units; see registers.json).")
  register := (PREFIX ++ "_dtsu_register_value",
    "Value currently encoded in each DTSU output register, in that register's own scale.")
  readAge := (PREFIX ++ "_dtsu_register_read_age_seconds",
    "Seconds since Sigenergy last read a register. +Inf if it never has.")

/-- What the exporter reads of one bridge. -/
structure BridgeMetrics where
  name : String
  spec : BridgeConf
  store : CanonicalStore
  /-- `RtuActivity.last_seen`, where reads are recorded. -/
  activity : Option (FunctionCode → ℤ → Option Time) := none

structure MetricsSource where
  /-- `config.prometheus.include_registers` -/
  includeRegisters : Bool
  bridges : List BridgeMetrics
  targets : List (String × TargetSide)

section Float

variable [FloatArith]

/-! ## Rendering -/

/-- The age line of a point. -/
def ageLines (families : ValueFamilies) (activity : Option (FunctionCode → ℤ → Option Time))
    (label : MetricLabels) (monoNow : Time) (p : OutputPoint) : List MetricLine :=
  match activity with
  | none => []
  | some lastSeen =>
    [.sample families.readAge.1
      (.seconds (metricAge (lastSeen p.side.functionCode p.pt.addr) monoNow)) (p.labels label)]

/-- The body of the point loop. -/
def pointLines (families : ValueFamilies) (values : Sample) (ctRatio : PyFloat)
    (activity : Option (FunctionCode → ℤ → Option Time)) (label : MetricLabels)
    (monoNow : Time) (p : OutputPoint) : Except PyExc (List MetricLine) :=
  let lines := ageLines families activity label monoNow p
  match values.get? p.pt.from_ with
  | none => .ok lines
  | some si =>
    match encodeTargetPoint si p.pt p.side ctRatio with
    -- Not a float32 : there is no current value to report.
    | .error (.valueError _) => .ok lines
    | .error e => .error e
    | .ok regs => do
      let raw ← registersToFloat regs p.side.wordOrder p.side.byteOrder
      return lines ++ [.sample families.register.1 (.float raw) (p.labels label)]

/-- The measurements and registers of one bridge in these families. -/
def renderValueFamilies (families : ValueFamilies) (source : MetricsSource)
    (bridge : BridgeMetrics) (label : MetricLabels) (monoNow : Time) (out : MetricsOut) :
    Except PyExc MetricsOut := do
  let values := bridge.store.values
  let out := out.family families.canonical.1 "gauge" families.canonical.2
  let out := out ++ (values.entries.insertionSort fun a b => a.1 ≤ b.1).map fun (name, value) =>
    .sample families.canonical.1 (.float value) (label ++ [("point", name)])
  let out := MetricsOut.family out families.register.1 "gauge" families.register.2
  let out := out.family families.readAge.1 "gauge" families.readAge.2
  let lines ← (outputPoints source.targets).mapM
    (pointLines families values bridge.spec.ctRatio bridge.activity label monoNow)
  return out ++ lines.flatten

/-- `_render_bridge_values` -/
def renderBridgeValues (source : MetricsSource) (bridge : BridgeMetrics) (label : MetricLabels)
    (monoNow : Time) (out : MetricsOut) : Except PyExc MetricsOut :=
  renderValueFamilies bridgeFamilies source bridge label monoNow out

/-- The end of `_render_primary_aliases`, reached where reads are recorded. -/
def renderAliasValues (source : MetricsSource) (bridge : BridgeMetrics) (monoNow : Time)
    (out : MetricsOut) : Except PyExc MetricsOut :=
  if bridge.activity.isSome && source.includeRegisters then
    renderValueFamilies aliasFamilies source bridge [] monoNow out
  else .ok out

/-- `render`, of the families of measurements and registers alone. The whole exposition has the
same samples of them (`renderOut_values`). -/
def renderValues (source : MetricsSource) (monoNow : Time) : Except PyExc MetricsOut := do
  let out ← source.bridges.foldlM (fun out bridge =>
    if source.includeRegisters then
      renderBridgeValues source bridge [("bridge", bridge.name)] monoNow out
    else .ok out) []
  match source.bridges with
  | [] => return out
  | primary :: _ => renderAliasValues source primary monoNow out

/-! ## Where points read what was written for them -/

/-- No two points of the output maps overlap under one function code. -/
def NoOverlap (m : RegisterMap) : Prop :=
  (targetPoints m.targetSides).Pairwise fun p q =>
    p.1.functionCode = q.1.functionCode → p.2.apart q.2

instance (m : RegisterMap) : Decidable (NoOverlap m) :=
  inferInstanceAs (Decidable (List.Pairwise (fun p q : TargetSide × TargetPoint =>
    p.1.functionCode = q.1.functionCode →
      (p.2.addr + 1 < q.2.addr ∨ q.2.addr + 1 < p.2.addr)) _))

/-- In blocks of these lengths, every point has two registers and shares none with another,
an address below zero counting from the end of the block. -/
structure Placed (m : RegisterMap) (n : FunctionCode → ℕ) : Prop where
  fit : PointsFit m.targetSides n
  apart : (targetPoints m.targetSides).Pairwise fun p q =>
    p.1.functionCode = q.1.functionCode →
      clampIndex (n p.1.functionCode) p.2.addr + 1 < clampIndex (n q.1.functionCode) q.2.addr ∨
        clampIndex (n q.1.functionCode) q.2.addr + 1 < clampIndex (n p.1.functionCode) p.2.addr

omit [FloatArith] in
/-- The blocks of a bridge are at least as long as they are created. -/
theorem initialLength_le_bridgeContext (m : RegisterMap) (cfg : DtsuConf) (fc : FunctionCode) :
    initialLength m fc ≤ (bridgeContext m cfg).lengths fc := by
  rw [bridgeContext_eq]
  refine le_trans ?_ (Banks.lengths_le_writeAll fc _ _)
  simp [Banks.lengths]

omit [FloatArith] in
/-- Points that do not overlap are placed where no address is negative. -/
theorem placed_of_noOverlap {m : RegisterMap} (hno : NoOverlap m)
    (h0 : ∀ p ∈ targetPoints m.targetSides, 0 ≤ p.2.addr) (cfg : DtsuConf) :
    Placed m (bridgeContext m cfg).lengths := by
  have hin : ∀ p ∈ targetPoints m.targetSides,
      Inside ((bridgeContext m cfg).lengths p.1.functionCode) p.2.addr 2 ∧
        (clampIndex ((bridgeContext m cfg).lengths p.1.functionCode) p.2.addr : ℤ) = p.2.addr := by
    intro p hp
    have h1 := @addr_le_maxAddress _ m.dtsuSigenIdentity _ hp
    have h2 := initialLength_le_bridgeContext m cfg p.1.functionCode
    have h3 := maxAddress_nonneg m p.1.functionCode
    unfold initialLength at h2
    exact inside_of_le (h0 p hp) (by push_cast; omega)
  refine ⟨fun p hp => (hin p hp).1, List.Pairwise.imp_of_mem ?_ hno⟩
  intro p q hp hq hapart hfc
  have hp := (hin p hp).2
  have hq := (hin q hq).2
  have hapart : p.2.addr + 1 < q.2.addr ∨ q.2.addr + 1 < p.2.addr := hapart hfc
  omega

/-- The writes of placed points share no register. -/
theorem agree_of_placed {m : RegisterMap} {n : FunctionCode → ℕ} (h : Placed m n) {v : Sample}
    {ctRatio : PyFloat} {ws : List RegisterWrite}
    (hws : targetWrites v ctRatio m.targetSides = .ok ws) :
    ∀ w ∈ ws, ∀ w' ∈ ws, w.Agree n w' := by
  let R : TargetSide × TargetPoint → TargetSide × TargetPoint → Prop := fun p q => ∀ w w',
    targetWrite v ctRatio p = .ok w → targetWrite v ctRatio q = .ok w' → w.Agree n w'
  have hsymm : Std.Symm R := ⟨fun p q hpq w w' hw hw' => (hpq w' w hw' hw).symm⟩
  have hall : ∀ p ∈ targetPoints m.targetSides, ∀ q ∈ targetPoints m.targetSides, R p q := by
    refine List.Pairwise.forall_of_forall ?_ ?_
    · intro p _ w w' hw hw'
      obtain rfl := Except.ok.inj (hw.symm.trans hw')
      exact .rfl
    · refine h.apart.imp fun {p q} hpq w w' hw hw' => Write.agree_of_apart fun b x hc hc' => ?_
      obtain ⟨si, regs, -, hr, rfl⟩ := targetWrite_eq_ok.1 hw
      obtain ⟨si', regs', -, hr', rfl⟩ := targetWrite_eq_ok.1 hw'
      have hlen := length_encodeTargetPoint hr
      have hlen' := length_encodeTargetPoint hr'
      obtain ⟨hb, hlo, hhi⟩ := hc
      obtain ⟨hb', hlo', hhi'⟩ := hc'
      have hor := hpq (hb.trans hb'.symm)
      simp only [Write.start] at hlo hhi hlo' hhi'
      omega
  intro w hw w' hw'
  obtain ⟨p, hp, hpw⟩ := (mem_targetWrites hws).1 hw
  obtain ⟨q, hq, hqw⟩ := (mem_targetWrites hws).1 hw'
  exact hall p hp q hq w w' hpw hqw

/-- After updates that succeed, a placed point reads its own encoding of the latest sample. -/
theorem getValues_of_placed {m : RegisterMap} {cfg : DtsuConf} {ctRatio : PyFloat}
    {vs : List Sample} {d : Datastore}
    (h : publishAll m.targetSides ctRatio vs (bridgeContext m cfg) = some d)
    (hplaced : Placed m (bridgeContext m cfg).lengths) {v : Sample} (hv : vs.getLast? = some v)
    {p : TargetSide × TargetPoint} (hp : p ∈ targetPoints m.targetSides) :
    ∃ si regs, v.get? p.2.from_ = some si ∧ encodeTargetPoint si p.2 p.1 ctRatio = .ok regs ∧
      getValues d p.1.functionCode p.2.addr 2 = regs ∧ regs.length = 2 := by
  obtain ⟨ws, hws⟩ := targetWrites_getLast h v hv
  have hfits := fits_targetWrites hws hplaced.fit
  have hd : d = (bridgeContext m cfg).writeAll ws := by
    have := publishAll_eq h hplaced.fit
    rw [hv, sampleWrites] at this
    simpa only [hws] using this
  obtain ⟨w, hw⟩ := Except.exists_mapM_eq_ok.1 ⟨ws, hws⟩ p hp
  have hmem := (mem_targetWrites hws).2 ⟨p, hp, hw⟩
  have hholds := (Banks.holds_writeAll_iff hfits).2 (agree_of_placed hplaced hws) w hmem
  obtain ⟨si, regs, hsi, hr, rfl⟩ := targetWrite_eq_ok.1 hw
  have hlen := length_encodeTargetPoint hr
  refine ⟨si, regs, hsi, hr, ?_, hlen⟩
  rw [Banks.Holds, hlen, ← hd] at hholds
  exact hholds

/-! ## What is rendered -/

omit [FloatArith] in
theorem MetricsOut.samples_append (out lines : MetricsOut) (name : String) :
    MetricsOut.samples (out ++ lines) name = out.samples name ++ lines.samples name :=
  List.filterMap_append

omit [FloatArith] in
@[simp] theorem MetricsOut.samples_family (out : MetricsOut) (n kind helpText name : String) :
    (out.family n kind helpText).samples name = out.samples name := by
  unfold family
  split_ifs
  · rfl
  · rw [samples_append]
    exact List.append_nil _

omit [FloatArith] in
/-- The samples of a family from a loop that adds one for each point. -/
theorem samples_flatten {f : OutputPoint → Except PyExc (List MetricLine)} {name : String}
    {R : OutputPoint → MetricLabels × MetricValue → Prop} :
    ∀ {ps : List OutputPoint}, (∀ p ∈ ps, ∃ ls g, f p = .ok ls ∧
      MetricsOut.samples ls name = [g] ∧ R p g) →
        ∃ lss, ps.mapM f = .ok lss ∧ List.Forall₂ R ps (MetricsOut.samples lss.flatten name)
  | [], _ => ⟨[], rfl, .nil⟩
  | p :: ps, h => by
    obtain ⟨⟨ls, g, hls, hg, hR⟩, hps⟩ := List.forall_mem_cons.1 h
    obtain ⟨lss, hlss, hall⟩ := samples_flatten hps
    refine ⟨ls :: lss, Except.mapM_eq_ok.2 (.cons hls (Except.mapM_eq_ok.1 hlss)), ?_⟩
    rw [List.flatten_cons, MetricsOut.samples_append, hg]
    exact .cons hR hall

omit [FloatArith] in
theorem samples_ageLines {families : ValueFamilies}
    {activity : Option (FunctionCode → ℤ → Option Time)} {label : MetricLabels} {monoNow : Time}
    {p : OutputPoint} {name : String} (hne : families.readAge.1 ≠ name) :
    MetricsOut.samples (ageLines families activity label monoNow p) name = [] := by
  cases activity with
  | none => rfl
  | some lastSeen => simp [ageLines, MetricsOut.samples, MetricLine.sampleOf, hne]

omit [FloatArith] in
theorem samples_flatten_nil {f : OutputPoint → Except PyExc (List MetricLine)} {name : String}
    {ps : List OutputPoint} {lss : List (List MetricLine)} (h : ps.mapM f = .ok lss)
    (hnil : ∀ p ls, f p = .ok ls → MetricsOut.samples ls name = []) :
    MetricsOut.samples lss.flatten name = [] := by
  replace h := Except.mapM_eq_ok.1 h
  induction h with
  | nil => rfl
  | cons hls _ ih =>
    rw [List.flatten_cons, MetricsOut.samples_append, hnil _ _ hls, ih]
    rfl

/-- A point without a value has no gauge. -/
theorem pointLines_none {families : ValueFamilies} {values : Sample} {ctRatio : PyFloat}
    {activity : Option (FunctionCode → ℤ → Option Time)} {label : MetricLabels} {monoNow : Time}
    {p : OutputPoint} (h : values.get? p.pt.from_ = none) :
    pointLines families values ctRatio activity label monoNow p =
      .ok (ageLines families activity label monoNow p) := by
  unfold pointLines
  rw [h]

/-- A point whose value encodes has the encoding as its gauge. -/
theorem pointLines_some {families : ValueFamilies} {values : Sample} {ctRatio : PyFloat}
    {activity : Option (FunctionCode → ℤ → Option Time)} {label : MetricLabels} {monoNow : Time}
    {p : OutputPoint} {si : PyFloat} {regs : List ℕ} {raw : PyFloat}
    (hsi : values.get? p.pt.from_ = some si)
    (hr : encodeTargetPoint si p.pt p.side ctRatio = .ok regs)
    (hraw : registersToFloat regs p.side.wordOrder p.side.byteOrder = .ok raw) :
    pointLines families values ctRatio activity label monoNow p =
      .ok (ageLines families activity label monoNow p ++
        [.sample families.register.1 (.float raw) (p.labels label)]) := by
  unfold pointLines
  rw [hsi]
  dsimp only
  rw [hr]
  dsimp only
  rw [hraw]
  rfl

/-- A point adds its age, its value or both. -/
theorem pointLines_cases {families : ValueFamilies} {values : Sample} {ctRatio : PyFloat}
    {activity : Option (FunctionCode → ℤ → Option Time)} {label : MetricLabels} {monoNow : Time}
    {p : OutputPoint} {ls : List MetricLine}
    (h : pointLines families values ctRatio activity label monoNow p = .ok ls) :
    ls = ageLines families activity label monoNow p ∨
      ∃ raw, ls = ageLines families activity label monoNow p ++
        [.sample families.register.1 (.float raw) (p.labels label)] := by
  unfold pointLines at h
  dsimp only at h
  split at h
  next => exact .inl (Except.ok.inj h).symm
  next =>
    split at h
    next => exact .inl (Except.ok.inj h).symm
    next => cases h
    next =>
      obtain ⟨raw, -, h⟩ := Except.bind_eq_ok.1 h
      exact .inr ⟨raw, (Except.ok.inj h).symm⟩

/-- The point loop adds to no other family. -/
theorem samples_pointLines {families : ValueFamilies} {values : Sample} {ctRatio : PyFloat}
    {activity : Option (FunctionCode → ℤ → Option Time)} {label : MetricLabels} {monoNow : Time}
    {p : OutputPoint} {ls : List MetricLine} {name : String}
    (h : pointLines families values ctRatio activity label monoNow p = .ok ls)
    (hregister : families.register.1 ≠ name) (hage : families.readAge.1 ≠ name) :
    MetricsOut.samples ls name = [] := by
  rcases pointLines_cases h with rfl | ⟨raw, rfl⟩
  · exact samples_ageLines hage
  · rw [MetricsOut.samples_append, samples_ageLines hage]
    simp [MetricsOut.samples, MetricLine.sampleOf, hregister]

omit [FloatArith] in
/-- The points rendered are those written. -/
theorem mem_outputPoints {m : RegisterMap} {side : TargetSide} {pt : TargetPoint} :
    (side, pt) ∈ targetPoints m.targetSides ↔
      ∃ p ∈ outputPoints m.targets, p.side = side ∧ p.pt = pt := by
  simp only [mem_targetPoints, RegisterMapFields.targetSides, outputPoints, List.mem_flatMap,
    List.mem_map, Dict.values, Prod.exists, List.mem_insertionSort]
  refine ⟨?_, ?_⟩
  · rintro ⟨⟨map, side, hside, rfl⟩, name, pt, hpt, rfl⟩
    exact ⟨_, ⟨map, side, hside, name, pt, hpt, rfl⟩, rfl, rfl⟩
  · rintro ⟨_, ⟨map, side, hside, name, pt, hpt, rfl⟩, rfl, rfl⟩
    exact ⟨⟨map, side, hside, rfl⟩, name, pt, hpt, rfl⟩

/-- What the point loop adds is added, and nothing else but measurements. -/
theorem renderValueFamilies_ok {families : ValueFamilies} {source : MetricsSource}
    {bridge : BridgeMetrics} {label : MetricLabels} {monoNow : Time} {out : MetricsOut}
    {lss : List (List MetricLine)}
    (h : (outputPoints source.targets).mapM (pointLines families bridge.store.values
      bridge.spec.ctRatio bridge.activity label monoNow) = .ok lss) :
    ∃ out', renderValueFamilies families source bridge label monoNow out = .ok out' ∧
      ∀ name, families.canonical.1 ≠ name →
        out'.samples name = out.samples name ++ MetricsOut.samples lss.flatten name := by
  refine ⟨_, by rw [renderValueFamilies, h]; rfl, fun name hne => ?_⟩
  have hnil : MetricsOut.samples ((bridge.store.values.entries.insertionSort
      fun a b => a.1 ≤ b.1).map fun e => .sample families.canonical.1 (.float e.2)
        (label ++ [("point", e.1)])) name = [] := by
    simp [MetricsOut.samples, MetricLine.sampleOf, hne]
  simp [MetricsOut.samples_append, hnil]

/-! ## The gauges of live bridges -/

/-- A bridge of a process, and what its recorder answers. -/
structure LiveBridge where
  built : BuiltBridge
  state : Bridge
  activity : Option (FunctionCode → ℤ → Option Time) := none

/-- The bridge serves these maps, in a state that a run reaches. -/
def LiveBridge.Live (m : RegisterMap) (l : LiveBridge) : Prop :=
  l.built.registers = m ∧ (bridgeSystem l.built.setup).Reachable l.state

/-- What the exporter is given of a process. -/
def metricsSource (m : RegisterMap) (includeRegisters : Bool) (lives : List LiveBridge) :
    MetricsSource where
  includeRegisters := includeRegisters
  bridges := lives.map fun l =>
    ⟨l.built.spec.name, l.built.spec, l.state.served.store, l.activity⟩
  targets := m.targets

/-- The gauge has the labels of the point and the float that its registers are read as. -/
def Shows (d : Datastore) (label : MetricLabels) (p : OutputPoint)
    (gauge : MetricLabels × MetricValue) : Prop :=
  gauge.1 = p.labels label ∧
    ∃ x, registersToFloat (getValues d p.side.functionCode p.pt.addr 2) p.side.wordOrder
      p.side.byteOrder = .ok x ∧ gauge.2 = .float x

/-- Once a sample is published there is a gauge for every point, where they are enabled, and
none before. -/
def LiveBridge.Shown (m : RegisterMap) (enabled : Bool) (label : MetricLabels) (l : LiveBridge)
    (gauges : List (MetricLabels × MetricValue)) : Prop :=
  if enabled = true ∧ l.state.published ≠ [] then
    List.Forall₂ (Shows l.state.served.datastore label) (outputPoints m.targets) gauges
  else gauges = []

/-- The gauges of every bridge in turn, and of the first one again where its reads are
recorded. -/
structure GaugesServed (m : RegisterMap) (includeRegisters : Bool) (lives : List LiveBridge)
    (out : MetricsOut) : Prop where
  bridges : ∃ gss, out.samples bridgeFamilies.register.1 = gss.flatten ∧
    List.Forall₂ (fun l => l.Shown m includeRegisters [("bridge", l.built.spec.name)]) lives gss
  primary : match lives with
    | [] => out.samples aliasFamilies.register.1 = []
    | l :: _ => l.Shown m (includeRegisters && l.activity.isSome) []
      (out.samples aliasFamilies.register.1)

omit [FloatArith] in
/-- It speaks of the samples of two names. -/
theorem GaugesServed.congr {m : RegisterMap} {includeRegisters : Bool} {lives : List LiveBridge}
    {out out' : MetricsOut} (h : GaugesServed m includeRegisters lives out)
    (hbridge : out'.samples bridgeFamilies.register.1 = out.samples bridgeFamilies.register.1)
    (halias : out'.samples aliasFamilies.register.1 = out.samples aliasFamilies.register.1) :
    GaugesServed m includeRegisters lives out' := by
  obtain ⟨hbridges, hprimary⟩ := h
  rcases lives with _ | ⟨l, lives⟩
  · exact ⟨by rwa [hbridge], halias.trans hprimary⟩
  · exact ⟨by rwa [hbridge], by rw [halias]; exact hprimary⟩

/-- The point loop of a bridge that has published nothing. -/
theorem pointLines_unpublished {l : LiveBridge} (hstore : l.state.served.store.values = .empty)
    {families : ValueFamilies} (hne : families.readAge.1 ≠ families.register.1)
    (label : MetricLabels) (monoNow : Time) (ps : List OutputPoint) :
    ∃ lss, ps.mapM (pointLines families l.state.served.store.values l.built.spec.ctRatio
        l.activity label monoNow) = .ok lss ∧
      MetricsOut.samples lss.flatten families.register.1 = [] := by
  have hlines : ∀ p, pointLines families l.state.served.store.values l.built.spec.ctRatio
      l.activity label monoNow p = .ok (ageLines families l.activity label monoNow p) := by
    intro p
    rw [hstore]
    exact pointLines_none rfl
  obtain ⟨lss, hlss⟩ := Except.exists_mapM_eq_ok.2 fun p (_ : p ∈ ps) => ⟨_, hlines p⟩
  refine ⟨lss, hlss, samples_flatten_nil hlss fun p ls h => ?_⟩
  obtain rfl := Except.ok.inj ((hlines p).symm.trans h)
  exact samples_ageLines hne

/-- The point loop of a bridge that has published, where the points are placed. -/
theorem pointLines_published {m : RegisterMap} {l : LiveBridge} {vs : List Sample} {v : Sample}
    (hregs : publishAll m.targetSides l.built.spec.ctRatio vs
      (bridgeContext m l.built.spec.dtsu) = some l.state.served.datastore)
    (hplaced : Placed m (bridgeContext m l.built.spec.dtsu).lengths) (hlast : vs.getLast? = some v)
    (hstore : l.state.served.store.values = v) {families : ValueFamilies}
    (hne : families.readAge.1 ≠ families.register.1) (label : MetricLabels) (monoNow : Time) :
    ∃ lss, (outputPoints m.targets).mapM (pointLines families l.state.served.store.values
        l.built.spec.ctRatio l.activity label monoNow) = .ok lss ∧
      List.Forall₂ (Shows l.state.served.datastore label) (outputPoints m.targets)
        (MetricsOut.samples lss.flatten families.register.1) := by
  refine samples_flatten fun p hp => ?_
  have hmem := mem_outputPoints.2 ⟨p, hp, rfl, rfl⟩
  obtain ⟨si, regs, hsi, hr, hread, hlen⟩ := getValues_of_placed hregs hplaced hlast hmem
  obtain ⟨raw, hraw⟩ := registersToFloat_isOk hlen.ge p.side.wordOrder p.side.byteOrder
  refine ⟨_, (p.labels label, .float raw), pointLines_some (by rw [hstore]; exact hsi) hr hraw,
    ?_, rfl, raw, ?_, rfl⟩
  · rw [MetricsOut.samples_append, samples_ageLines hne]
    simp [MetricsOut.samples, MetricLine.sampleOf]
  · rw [hread]
    exact hraw

/-- The point loop of a live bridge whose points are placed shows what is served. -/
theorem pointLines_live {m : RegisterMap} {l : LiveBridge} (hlive : l.Live m)
    (hplaced : Placed m (bridgeContext m l.built.spec.dtsu).lengths) {families : ValueFamilies}
    (hne : families.readAge.1 ≠ families.register.1) (label : MetricLabels) (monoNow : Time) :
    ∃ lss, (outputPoints m.targets).mapM (pointLines families l.state.served.store.values
        l.built.spec.ctRatio l.activity label monoNow) = .ok lss ∧
      l.Shown m true label (MetricsOut.samples lss.flatten families.register.1) ∧
      ∀ name, families.register.1 ≠ name → families.readAge.1 ≠ name →
        MetricsOut.samples lss.flatten name = [] := by
  obtain ⟨rfl, hreach⟩ := hlive
  have hstore := reachable_store hreach
  rcases hlast : l.state.published.getLast? with _ | last
  · rw [hlast] at hstore
    obtain ⟨lss, hlss, hnone⟩ := pointLines_unpublished (congrArg CanonicalStore.values hstore)
      hne label monoNow (outputPoints l.built.registers.targets)
    have hnil : l.state.published = [] := List.getLast?_eq_none_iff.1 hlast
    refine ⟨lss, hlss, ?_, fun name h1 h2 => samples_flatten_nil hlss fun p ls h =>
      samples_pointLines h h1 h2⟩
    rw [LiveBridge.Shown, if_neg fun h => h.2 hnil]
    exact hnone
  · rw [hlast] at hstore
    have hvalues : (l.state.published.map (·.values)).getLast? = some last.values := by
      rw [List.getLast?_map, hlast]
      rfl
    obtain ⟨lss, hlss, hall⟩ := pointLines_published (reachable_guarded hreach).registers hplaced
      hvalues (congrArg CanonicalStore.values hstore) hne label monoNow
    have hne' : l.state.published ≠ [] := by
      rintro hnil
      rw [hnil] at hlast
      cases hlast
    refine ⟨lss, hlss, ?_, fun name h1 h2 => samples_flatten_nil hlss fun p ls h =>
      samples_pointLines h h1 h2⟩
    rw [LiveBridge.Shown, if_pos ⟨rfl, hne'⟩]
    exact hall

/-- One bridge in these families, where they are enabled. -/
theorem renderLive_ok {m : RegisterMap} {l : LiveBridge} (hlive : l.Live m)
    (hplaced : Placed m (bridgeContext m l.built.spec.dtsu).lengths) {families : ValueFamilies}
    (hne : families.readAge.1 ≠ families.register.1)
    (hne' : families.canonical.1 ≠ families.register.1) (source : MetricsSource)
    (htargets : source.targets = m.targets) (enabled : Bool) (label : MetricLabels)
    (monoNow : Time) (out : MetricsOut) :
    ∃ out' gauges, (if enabled = true then renderValueFamilies families source
        ⟨l.built.spec.name, l.built.spec, l.state.served.store, l.activity⟩ label monoNow out
      else .ok out) = .ok out' ∧
      l.Shown m enabled label gauges ∧
      out'.samples families.register.1 = out.samples families.register.1 ++ gauges ∧
      ∀ name, families.canonical.1 ≠ name → families.register.1 ≠ name →
        families.readAge.1 ≠ name → out'.samples name = out.samples name := by
  rcases enabled with _ | _
  · exact ⟨out, [], rfl, by simp [LiveBridge.Shown], by simp, fun _ _ _ _ => rfl⟩
  · obtain ⟨lss, hlss, hshown, hother⟩ := pointLines_live hlive hplaced hne label monoNow
    rw [← htargets] at hlss
    obtain ⟨out', hout, hsamples⟩ := @renderValueFamilies_ok _ families source
      ⟨l.built.spec.name, l.built.spec, l.state.served.store, l.activity⟩ label monoNow out lss
      hlss
    refine ⟨out', _, hout, hshown, hsamples _ hne', fun name h1 h2 h3 => ?_⟩
    rw [hsamples name h1, hother name h2 h3, List.append_nil]

/-- The bridges in turn. -/
theorem renderBridges_ok {m : RegisterMap} {source : MetricsSource}
    (htargets : source.targets = m.targets) (monoNow : Time) :
    ∀ {lives : List LiveBridge}, (∀ l ∈ lives, l.Live m) →
      (∀ l ∈ lives, Placed m (bridgeContext m l.built.spec.dtsu).lengths) →
      ∀ out : MetricsOut, ∃ out' gss,
        (lives.map fun l => (⟨l.built.spec.name, l.built.spec, l.state.served.store,
            l.activity⟩ : BridgeMetrics)).foldlM (fun out bridge =>
          if source.includeRegisters then
            renderBridgeValues source bridge [("bridge", bridge.name)] monoNow out
          else .ok out) out = .ok out' ∧
        List.Forall₂ (fun l => l.Shown m source.includeRegisters
          [("bridge", l.built.spec.name)]) lives gss ∧
        out'.samples bridgeFamilies.register.1 =
          out.samples bridgeFamilies.register.1 ++ gss.flatten ∧
        out'.samples aliasFamilies.register.1 = out.samples aliasFamilies.register.1
  | [], _, _, out => ⟨out, [], rfl, .nil, by simp, rfl⟩
  | l :: lives, hlive, hplaced, out => by
    obtain ⟨hl, hlive⟩ := List.forall_mem_cons.1 hlive
    obtain ⟨hp, hplaced⟩ := List.forall_mem_cons.1 hplaced
    obtain ⟨out₁, gauges, hout₁, hshown, hsamples, hother⟩ :=
      @renderLive_ok _ m l hl hp bridgeFamilies (by decide) (by decide) source htargets
        source.includeRegisters [("bridge", l.built.spec.name)] monoNow out
    obtain ⟨out₂, gss, hout₂, hall, hsamples₂, halias⟩ :=
      renderBridges_ok htargets monoNow hlive hplaced out₁
    refine ⟨out₂, gauges :: gss, ?_, .cons hshown hall, ?_, ?_⟩
    · rw [List.map_cons, List.foldlM_cons]
      exact Except.bind_eq_ok.2 ⟨out₁, hout₁, hout₂⟩
    · rw [hsamples₂, hsamples, List.flatten_cons, List.append_assoc]
    · rw [halias, hother _ (by decide) (by decide) (by decide)]

omit [FloatArith] in
/-- At address -1 or -2 there are no two registers to be read. -/
theorem registersToFloat_misplaced (d : Datastore) (fc : FunctionCode) {addr : ℤ}
    (haddr : addr = -1 ∨ addr = -2) (wordOrder byteOrder : String) (x : PyFloat) :
    registersToFloat (getValues d fc addr 2) wordOrder byteOrder ≠ .ok x := by
  have hlen : (getValues d fc addr 2).length ≤ 1 := by
    unfold getValues Banks.read slice clampIndex
    rw [List.length_drop, List.length_take]
    rcases haddr with rfl | rfl
    · norm_num
    · norm_num
  intro h
  unfold registersToFloat at h
  split at h
  next w₀ w₁ ws hmap =>
    have := congrArg List.length hmap
    simp only [List.length_map, List.length_cons] at this
    omega
  next => cases h

omit [FloatArith] in
/-- A published bridge has no gauge to serve for such a point. -/
theorem not_gaugesServed_of_misplaced {m : RegisterMap} {lives : List LiveBridge}
    (hpub : ∃ l ∈ lives, l.state.published ≠ [])
    (hp : ∃ p ∈ targetPoints m.targetSides, p.2.addr = -1 ∨ p.2.addr = -2) (out : MetricsOut) :
    ¬GaugesServed m true lives out := by
  obtain ⟨l, hl, hpub⟩ := hpub
  obtain ⟨⟨side, pt⟩, hp, haddr⟩ := hp
  intro hserved
  obtain ⟨gss, -, hall⟩ := hserved.bridges
  obtain ⟨gauges, hshown⟩ : ∃ gauges, l.Shown m true [("bridge", l.built.spec.name)] gauges := by
    obtain ⟨i, hi, rfl⟩ := List.mem_iff_getElem.1 hl
    exact ⟨_, List.Forall₂.get hall hi (hall.length_eq ▸ hi)⟩
  rw [LiveBridge.Shown, if_pos ⟨rfl, hpub⟩] at hshown
  obtain ⟨p, hmem, rfl, rfl⟩ := mem_outputPoints.1 hp
  obtain ⟨i, hi, rfl⟩ := List.mem_iff_getElem.1 hmem
  obtain ⟨-, x, hx, -⟩ := List.Forall₂.get hshown hi (hshown.length_eq ▸ hi)
  exact registersToFloat_misplaced _ _ haddr _ _ _ hx

/-- Where every output point is placed the gauges are there and served. -/
theorem gaugesServed_of_placed {m : RegisterMap} {lives : List LiveBridge}
    (hlive : ∀ l ∈ lives, l.Live m)
    (hplaced : ∀ l ∈ lives, Placed m (bridgeContext m l.built.spec.dtsu).lengths)
    (includeRegisters : Bool) (monoNow : Time) :
    ∃ out, renderValues (metricsSource m includeRegisters lives) monoNow = .ok out ∧
      GaugesServed m includeRegisters lives out := by
  obtain ⟨out₁, gss, hout₁, hall, hsamples, halias⟩ :=
    @renderBridges_ok _ m (metricsSource m includeRegisters lives) rfl monoNow lives hlive
      hplaced []
  rcases lives with _ | ⟨l, lives⟩
  · refine ⟨out₁, Except.bind_eq_ok.2 ⟨out₁, hout₁, rfl⟩, ⟨gss, hsamples, hall⟩, halias⟩
  · obtain ⟨out₂, gauges, hout₂, hshown, hsamples₂, hother⟩ :=
      @renderLive_ok _ m l (hlive l List.mem_cons_self) (hplaced l List.mem_cons_self)
        aliasFamilies (by decide) (by decide) (metricsSource m includeRegisters (l :: lives))
        rfl (includeRegisters && l.activity.isSome) [] monoNow out₁
    refine ⟨out₂, Except.bind_eq_ok.2 ⟨out₁, hout₁, ?_⟩, ⟨gss, ?_, hall⟩, ?_⟩
    · rw [Bool.and_comm] at hout₂
      exact hout₂
    · rw [hother _ (by decide) (by decide) (by decide)]
      exact hsamples
    · rw [hsamples₂, halias]
      exact hshown

/-- Where every output point is placed, the gauges of live bridges are the floats their
registers are read as : one for every point once a sample is published where they are
enabled, none before. A published bridge with a point at address -1 or -2 has no such
gauges. -/
theorem register_gauges_served {m : RegisterMap} {lives : List LiveBridge}
    (hlive : ∀ l ∈ lives, l.Live m) (includeRegisters : Bool) (monoNow : Time) :
    ((∀ l ∈ lives, Placed m (bridgeContext m l.built.spec.dtsu).lengths) →
      ∃ out, renderValues (metricsSource m includeRegisters lives) monoNow = .ok out ∧
        GaugesServed m includeRegisters lives out) ∧
    (includeRegisters = true → (∃ l ∈ lives, l.state.published ≠ []) →
      (∃ p ∈ targetPoints m.targetSides, p.2.addr = -1 ∨ p.2.addr = -2) →
        ∀ out, ¬GaugesServed m includeRegisters lives out) := by
  refine ⟨fun hplaced => gaugesServed_of_placed hlive hplaced includeRegisters monoNow, ?_⟩
  rintro rfl hpub hp out
  exact not_gaugesServed_of_misplaced hpub hp out

end Float

/-! ## A point below zero -/

/-- A bridge that serves `freq` at this address under FC04, among others. -/
def freqBuilt (addr : ℤ) : BuiltBridge :=
  { agedBuilt (3 : ℕ) with registers := freqMap addr, found := rfl }

def freqLive (addr : ℤ) (state : Bridge) : LiveBridge :=
  { built := freqBuilt addr, state := state, activity := some fun _ _ => none }

/-- One poll that is published. -/
def freqPoll : List BridgeEvent :=
  [.poller (.event (.loop 0 .test)), .cycle 0 (.ok freqSample) 0 (.ok ())]

def freqStart (addr : ℤ) : Bridge :=
  { poller := .initial false 0
    served := ⟨bridgeContext (freqMap addr) mainBridge.dtsu, {}⟩
    clock := 0 }

/-- With every address from zero on, there are gauges and they are served. -/
theorem register_gauges_served_freqMap : ∃ l : LiveBridge,
    @LiveBridge.Live .double (freqMap 102) l ∧ l.state.published ≠ [] ∧
    ∃ out, @renderValues .double (metricsSource (freqMap 102) true [l]) 0 = .ok out ∧
      GaugesServed (freqMap 102) true [l] out := by
  have hrun : ((@bridgeSystem .double (freqBuilt 102).setup).run freqPoll (freqStart 102)).any
      (fun s => !s.published.isEmpty) = true := by decide +kernel
  obtain ⟨s, hs, hpub⟩ := (Option.any_eq_true _ _).1 hrun
  have hlive : @LiveBridge.Live .double (freqMap 102) (freqLive 102 s) :=
    ⟨rfl, System.reachable_of_run (.init ⟨_, 0, ⟨false, 0, rfl⟩, rfl⟩) freqPoll hs⟩
  have hpub : s.published ≠ [] := by simpa using hpub
  refine ⟨freqLive 102 s, hlive, hpub, ?_⟩
  refine (@register_gauges_served .double (freqMap 102) [freqLive 102 s] (by simpa using hlive)
    true 0).1 ?_
  simp only [List.forall_mem_singleton]
  exact placed_of_noOverlap (by decide +kernel) (by decide +kernel) _

/-- The point at -1 overlaps no other. It has a gauge, and no registers to be read. -/
theorem register_gauge_not_served : NoOverlap (freqMap (-1)) ∧
    ∃ l : LiveBridge, @LiveBridge.Live .double (freqMap (-1)) l ∧ ∃ out,
      @renderValues .double (metricsSource (freqMap (-1)) true [l]) 0 = .ok out ∧
      (∃ gauge ∈ out.samples bridgeFamilies.register.1, ("addr", "-1") ∈ gauge.1) ∧
      getValues l.state.served.datastore .input (-1) 2 = [] ∧
      ¬GaugesServed (freqMap (-1)) true [l] out := by
  refine ⟨by decide +kernel, ?_⟩
  have hrun : ((@bridgeSystem .double (freqBuilt (-1)).setup).run freqPoll (freqStart (-1))).any
      (fun s => !s.published.isEmpty && getValues s.served.datastore .input (-1) 2 = [] &&
        (@renderValues .double (metricsSource (freqMap (-1)) true [freqLive (-1) s])
          0).toOption.any fun out => (out.samples bridgeFamilies.register.1).any fun gauge =>
            ("addr", "-1") ∈ gauge.1) = true := by decide +kernel
  obtain ⟨s, hs, hp⟩ := (Option.any_eq_true _ _).1 hrun
  simp only [Bool.and_eq_true, decide_eq_true_eq, Option.any_eq_true, List.any_eq_true] at hp
  obtain ⟨⟨hpub, hread⟩, out, hout, gauge, hgauge, haddr⟩ := hp
  have hlive : @LiveBridge.Live .double (freqMap (-1)) (freqLive (-1) s) :=
    ⟨rfl, System.reachable_of_run (.init ⟨_, 0, ⟨false, 0, rfl⟩, rfl⟩) freqPoll hs⟩
  refine ⟨freqLive (-1) s, hlive, out, Except.toOption_eq_some.1 hout, ⟨gauge, hgauge, haddr⟩,
    hread, not_gaugesServed_of_misplaced ⟨_, List.mem_singleton_self _, ?_⟩ ?_ out⟩
  · show s.published ≠ []
    simpa using hpub
  · refine ⟨(freqSide .input (-1), { addr := -1, from_ := "freq" }), mem_targetPoints.2 ⟨?_, ?_⟩,
      Or.inl rfl⟩
    · simp [RegisterMapFields.targetSides, RegisterMapFields.targets, freqMap]
    · simp [freqSide, Dict.values]

end DtsuBridge
