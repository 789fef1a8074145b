import DtsuBridge.Codec
import DtsuBridge.Lib.Except
import Mathlib.Data.String.Basic

/-!
# Register maps and configuration

Each model of the source is its fields (`…Fields`), a validator over them with the
source's error text, and the subtype of the fields the validator accepts : a value that
fails at load cannot be built. `SourcePoint.cases` and `TargetSide.apart` say what the
validators of a source point and of an output map give the rest of the program, and
`RegisterMap.produced_of_needed` what the one of a whole map gives it.
-/

namespace DtsuBridge

/-- FC03 caps a response at 125 registers. -/
def MAX_READ_REGISTERS : ℕ := 125

/-! ## Source sections -/

/-- How a multi-device source combines a point. -/
inductive Aggregate where
  | avg
  | sum
deriving DecidableEq

structure SourcePointFields where
  addr : Option ℤ := none
  compose : Option (List ℤ) := none
  factors : Option (List PyFloat) := none
  scale : PyFloat := 1
  offset : PyFloat := 0
  sign : ℤ := 1
  dtype : Dtype := .float32
  aggregate : Aggregate := .avg

/-- `SourcePoint._check_shape` -/
def SourcePointFields.checkShape (p : SourcePointFields) : Except String Unit :=
  match p.compose with
  | some addrs =>
    if p.addr.isSome then .error "source point cannot set both 'addr' and 'compose'"
    else if addrs.length < 1 then
      .error "source point 'compose' must list at least one address"
    else if p.factors.any fun factors => factors.length ≠ addrs.length then
      .error "source point 'factors' length must match 'compose' length"
    else if p.dtype ≠ .float32 then
      .error "source point 'compose' is only supported for dtype 'float32'"
    else .ok ()
  | none =>
    if p.addr.isNone then .error "source point must set either 'addr' or 'compose'"
    else .ok ()

structure SourcePoint extends SourcePointFields where
  shape : toSourcePointFields.checkShape = .ok ()

/-- Registers this point occupies. -/
def SourcePoint.width (pt : SourcePoint) : ℕ := registerWidth pt.dtype

/-- A point has one address, or parts of dtype float32 with a factor each or none at all. -/
theorem SourcePoint.cases (pt : SourcePoint) :
    (∃ a, pt.addr = some a ∧ pt.compose = none) ∨
      ∃ addrs, pt.addr = none ∧ pt.compose = some addrs ∧ addrs ≠ [] ∧ pt.dtype = .float32 ∧
        ∀ factors, pt.factors = some factors → factors.length = addrs.length := by
  obtain ⟨⟨addr, compose, factors, _, _, _, dtype, _⟩, h⟩ := pt
  cases compose with
  | none =>
    cases addr with
    | none => simp [SourcePointFields.checkShape] at h
    | some a => exact Or.inl ⟨a, rfl, rfl⟩
  | some addrs =>
    unfold SourcePointFields.checkShape at h
    dsimp only at h
    split_ifs at h with h1 h2 h3 h4
    refine Or.inr ⟨addrs, by simpa using h1, rfl, ?_, by simpa using h4, fun fs hfs => ?_⟩
    · rintro rfl
      simp at h2
    · have hfs : factors = some fs := hfs
      simpa [hfs] using h3

/-- One Modbus read block. -/
structure ReadGroup where
  base : ℤ
  count : ℕ
  /-- Overrides the source's default slave. -/
  unitId : Option ℤ := none
  count_pos : 0 < count
  count_le : count ≤ MAX_READ_REGISTERS

/-- `DeriveOp.op` -/
inductive DeriveKind where
  | constant
  | copy
  | splitEqual
  | phaseFromLine
  | hypot
  | ratioSplit
  | pfFromPS
deriving DecidableEq

/-- The name in registers.json. -/
def DeriveKind.name : DeriveKind → String
  | constant => "constant"
  | copy => "copy"
  | splitEqual => "split_equal"
  | phaseFromLine => "phase_from_line"
  | hypot => "hypot"
  | ratioSplit => "ratio_split"
  | pfFromPS => "pf_from_p_s"

structure DeriveOpFields where
  op : DeriveKind
  targets : List String
  from_ : List String := []
  weights : List String := []
  value : Option PyFloat := none
  aggregate : Aggregate := .avg

/-- The first part of `DeriveOp._check_arity` : the inputs of each kind. -/
def DeriveOpFields.checkInputs (o : DeriveOpFields) : Except String Unit :=
  match o.op with
  | .constant =>
    if ¬o.value.any PyFloat.isFinite then .error "derive 'constant' requires a finite 'value'"
    else if o.from_ ≠ [] then .error "derive 'constant' takes no 'from'"
    else .ok ()
  | .copy | .splitEqual | .ratioSplit =>
    if o.from_.length ≠ 1 then
      .error ("derive '" ++ o.op.name ++ "' requires exactly one 'from' point")
    else .ok ()
  | .phaseFromLine =>
    if o.from_.length ≠ o.targets.length then
      .error "derive 'phase_from_line' needs one 'from' per target"
    else .ok ()
  | .hypot | .pfFromPS =>
    if o.from_.length ≠ 2 * o.targets.length then
      .error ("derive '" ++ o.op.name ++ "' needs two 'from' points per target")
    else .ok ()

/-- `DeriveOp._check_arity` -/
def DeriveOpFields.checkArity (o : DeriveOpFields) : Except String Unit :=
  match o.checkInputs with
  | .error msg => .error msg
  | .ok () =>
    if o.op = .ratioSplit ∧ o.weights.length ≠ o.targets.length then
      .error "derive 'ratio_split' needs one 'weights' entry per target"
    else if o.op ≠ .ratioSplit ∧ o.weights ≠ [] then
      .error ("derive '" ++ o.op.name ++ "' does not take 'weights'")
    else if o.op ≠ .constant ∧ o.value.isSome then
      .error ("derive '" ++ o.op.name ++ "' does not take 'value'")
    else .ok ()

/-- One declarative step filling canonical points a source cannot report. -/
structure DeriveOp extends DeriveOpFields where
  targets_ne : toDeriveOpFields.targets ≠ []
  arity : toDeriveOpFields.checkArity = .ok ()

theorem DeriveOp.checkInputs_eq (o : DeriveOp) : o.checkInputs = .ok () := by
  have h := o.arity
  unfold DeriveOpFields.checkArity at h
  cases hi : o.checkInputs with
  | error msg => simp [hi] at h
  | ok u => rfl

theorem DeriveOp.length_from (op : DeriveOp) :
    match op.op with
    | .constant => op.from_ = []
    | .copy | .splitEqual | .ratioSplit => op.from_.length = 1
    | .phaseFromLine => op.from_.length = op.targets.length
    | .hypot | .pfFromPS => op.from_.length = 2 * op.targets.length := by
  have h := op.checkInputs_eq
  unfold DeriveOpFields.checkInputs at h
  cases hop : op.op <;> simp only [hop] at h ⊢ <;> split_ifs at h <;> simp_all

theorem DeriveOp.length_weights (op : DeriveOp) (hop : op.op = .ratioSplit) :
    op.weights.length = op.targets.length := by
  have h := op.arity
  unfold DeriveOpFields.checkArity at h
  rw [op.checkInputs_eq] at h
  dsimp only at h
  split_ifs at h with h1
  by_contra hne
  exact h1 ⟨hop, hne⟩

theorem DeriveOp.weights_eq_nil (op : DeriveOp) (hop : op.op ≠ .ratioSplit) :
    op.weights = [] := by
  have h := op.arity
  unfold DeriveOpFields.checkArity at h
  rw [op.checkInputs_eq] at h
  dsimp only at h
  split_ifs at h with h1 h2
  by_contra hne
  exact h2 ⟨hop, hne⟩

structure SourceSideFields where
  wordOrder : String := "big"
  byteOrder : String := "big"
  points : Dict String SourcePoint
  readGroups : Option (List ReadGroup) := none
  addressOffset : ℤ := 0
  derive : List DeriveOp := []

/-- A read block holds all registers of a point at `addr`. -/
def ReadGroup.holds (g : ReadGroup) (addr : ℤ) (width : ℕ) : Bool :=
  g.base ≤ addr && addr + width ≤ g.base + g.count

/-- `SourceSide._check_points_covered_by_read_groups` -/
def SourceSideFields.checkPointsCoveredByReadGroups (s : SourceSideFields) : Except String Unit :=
  match s.readGroups with
  | none => .ok ()
  | some groups =>
    let uncovered := (s.points.values.filter fun pt =>
      pt.addr.any fun a => ¬groups.any (·.holds a pt.width)).filterMap (·.addr)
    if uncovered = [] then .ok ()
    else
      let blocks := groups.map fun g => (g.base, g.count)
      .error (s!"source addresses {sortedSet uncovered} are not fully covered by " ++
        s!"read_groups {blocks}")

structure SourceSide extends SourceSideFields where
  covered : toSourceSideFields.checkPointsCoveredByReadGroups = .ok ()

/-- Every point of one address lies in a declared block. -/
theorem SourceSide.holds_of_mem (s : SourceSide) {groups : List ReadGroup}
    (hg : s.readGroups = some groups) {pt : SourcePoint} (hpt : pt ∈ s.points.values) {a : ℤ}
    (ha : pt.addr = some a) : ∃ g ∈ groups, g.holds a pt.width = true := by
  have h := s.covered
  unfold SourceSideFields.checkPointsCoveredByReadGroups at h
  simp only [hg] at h
  split_ifs at h with h0
  rw [List.filterMap_eq_nil_iff] at h0
  by_contra hne
  have hmem : pt ∈ s.points.values.filter fun pt =>
      pt.addr.any fun a => ¬groups.any (·.holds a pt.width) := by
    refine List.mem_filter.2 ⟨hpt, ?_⟩
    simpa [ha] using hne
  have := h0 pt hmem
  simp [ha] at this

/-! ## Output maps -/

structure TargetPoint where
  addr : ℤ
  from_ : String
  scale : PyFloat := 1
  offset : PyFloat := 0
  sign : ℤ := 1
  divideByCt : Bool := false
  zeroLowWord : Bool := false
deriving DecidableEq

/-- The address space of a Modbus function code. -/
inductive FunctionCode where
  /-- 3 -/
  | holding
  /-- 4 -/
  | input
deriving DecidableEq

/-- Claim one address for a point. -/
def occupy (name : String) (addr : ℤ) (occupied : Dict ℤ String) :
    Except String (Dict ℤ String) :=
  match occupied.get? addr with
  | some other => .error s!"target points {strRepr other} and {strRepr name} overlap at {addr}"
  | none => .ok (occupied.set addr name)

/-- Claim the two addresses of every point. -/
def occupyPoints : List (String × TargetPoint) → Dict ℤ String → Except String (Dict ℤ String)
  | [], occupied => .ok occupied
  | (name, point) :: ps, occupied => do
    let occupied ← occupy name point.addr occupied
    let occupied ← occupy name (point.addr + 1) occupied
    occupyPoints ps occupied

/-- `TargetSide._check_point_ranges_do_not_overlap` -/
def checkPointRangesDoNotOverlap (points : Dict String TargetPoint) : Except String Unit := do
  let _ ← occupyPoints points.entries .empty
  return ()

structure TargetSide where
  wordOrder : String := "big"
  byteOrder : String := "big"
  functionCode : FunctionCode := .holding
  points : Dict String TargetPoint
  noOverlap : checkPointRangesDoNotOverlap points = .ok ()

/-- Two points share no register. -/
def TargetPoint.apart (p q : TargetPoint) : Prop :=
  p.addr + 1 < q.addr ∨ q.addr + 1 < p.addr

theorem occupy_eq_ok {name : String} {addr : ℤ} {occ occ' : Dict ℤ String} :
    occupy name addr occ = .ok occ' ↔ addr ∉ occ.keys ∧ occ' = occ.set addr name := by
  unfold occupy
  cases h : occ.get? addr with
  | none => simpa [Dict.get?_eq_none_iff.1 h] using eq_comm
  | some other =>
    have hmem : addr ∈ occ.keys := Dict.isSome_get?_iff.1 (by simp [h])
    simp [hmem]

/-- Points that claim their addresses have them apart, and free before. -/
theorem occupyPoints_ok : ∀ {ps : List (String × TargetPoint)} {occ occ' : Dict ℤ String},
    occupyPoints ps occ = .ok occ' →
      ps.Pairwise (fun p q => p.2.apart q.2) ∧
        ∀ p ∈ ps, p.2.addr ∉ occ.keys ∧ p.2.addr + 1 ∉ occ.keys
  | [], _, _, _ => by simp
  | (name, point) :: ps, occ, occ', h => by
    unfold occupyPoints at h
    obtain ⟨o1, h1, h⟩ := Except.bind_eq_ok.1 h
    obtain ⟨o2, h2, h⟩ := Except.bind_eq_ok.1 h
    obtain ⟨hfree1, rfl⟩ := occupy_eq_ok.1 h1
    obtain ⟨hfree2, rfl⟩ := occupy_eq_ok.1 h2
    obtain ⟨hpair, hfree⟩ := occupyPoints_ok h
    simp only [Dict.mem_keys_set, not_or] at hfree2 hfree
    refine ⟨List.pairwise_cons.2 ⟨fun q hq => ?_, hpair⟩, ?_⟩
    · obtain ⟨⟨hq1, hq2, -⟩, hq3, hq4, -⟩ := hfree q hq
      unfold TargetPoint.apart
      dsimp only
      omega
    · rintro q (_ | ⟨_, hq⟩)
      · exact ⟨hfree1, hfree2.2⟩
      · exact ⟨(hfree q hq).1.2.2, (hfree q hq).2.2.2⟩

/-- The points of one map share no register. -/
theorem TargetSide.apart (side : TargetSide) :
    side.points.entries.Pairwise fun p q => p.2.apart q.2 := by
  obtain ⟨occ, hocc, -⟩ := Except.bind_eq_ok.1 side.noOverlap
  exact (occupyPoints_ok hocc).1

/-! ## The Sigen identity -/

/-- `StaticIdentityPoint.type` -/
inductive IdentityType where
  | ascii
  | uint32
deriving DecidableEq

inductive StaticValue where
  | str (s : String)
  | int (i : ℤ)
deriving DecidableEq

structure StaticIdentityFields where
  addr : ℤ
  type : IdentityType
  staticValue : StaticValue
  length : Option ℤ := none
deriving DecidableEq

/-- `StaticIdentityPoint._check_shape` -/
def StaticIdentityFields.checkShape (p : StaticIdentityFields) : Except String Unit :=
  match p.type, p.staticValue, p.length with
  | .ascii, .str s, some length =>
    if length < 1 then
      .error "ascii static point requires a string value and positive register length"
    else if s.toList.any fun c => 128 ≤ c.toNat then
      .error "ascii static value must contain ASCII characters only"
    else if length * 2 < s.length then
      .error "ascii static value does not fit configured register length"
    else .ok ()
  | .ascii, _, _ =>
    .error "ascii static point requires a string value and positive register length"
  | .uint32, .int i, none =>
    if 0 ≤ i ∧ i ≤ 0xFFFFFFFF then .ok ()
    else .error "uint32 static point requires a 0..0xFFFFFFFF integer and no length"
  | .uint32, _, _ =>
    .error "uint32 static point requires a 0..0xFFFFFFFF integer and no length"

structure StaticIdentityPoint extends StaticIdentityFields where
  shape : toStaticIdentityFields.checkShape = .ok ()

/-- An ascii point holds at most two characters a register, an integer point 32 bits. -/
theorem StaticIdentityPoint.cases (p : StaticIdentityPoint) :
    (∃ (s : String) (n : ℕ), p.type = .ascii ∧ p.staticValue = .str s ∧
        p.length = some (n : ℤ) ∧ 1 ≤ n ∧ s.length ≤ n * 2) ∨
      ∃ i : ℕ, p.type = .uint32 ∧ p.staticValue = .int i ∧ p.length = none ∧
        i ≤ 0xFFFFFFFF := by
  obtain ⟨⟨addr, type, value, length⟩, h⟩ := p
  rcases type with _ | _ <;> rcases value with s | i <;> rcases length with _ | n <;>
    simp only [StaticIdentityFields.checkShape, reduceCtorEq] at h
  · split_ifs at h with h1 h2 h3
    refine Or.inl ⟨s, n.toNat, rfl, rfl, ?_, by omega, by omega⟩
    simp only [Option.some.injEq]
    omega
  · split_ifs at h with h1
    refine Or.inr ⟨i.toNat, rfl, ?_, rfl, by omega⟩
    simp only [StaticValue.int.injEq]
    omega

/-- An ascii point has ASCII characters only. -/
theorem StaticIdentityPoint.ascii_lt (p : StaticIdentityPoint) (ht : p.type = .ascii) {s : String}
    (hs : p.staticValue = .str s) : ∀ c ∈ s.toList, c.toNat < 128 := by
  have h := p.shape
  unfold StaticIdentityFields.checkShape at h
  rw [ht, hs] at h
  cases hl : p.length with
  | none => simp [hl] at h
  | some length =>
    simp only [hl] at h
    split_ifs at h with h1 h2
    intro c hc
    by_contra hge
    exact h2 (List.any_eq_true.2 ⟨c, hc, by simpa using hge⟩)

/-- Registers this point occupies. -/
def StaticIdentityPoint.registerCount (p : StaticIdentityPoint) : ℤ :=
  match p.type with
  | .ascii => p.length.getD 0
  | .uint32 => 2

/-- The identity registers served under function code 3. -/
structure StaticIdentitySide where
  points : Dict String StaticIdentityPoint

/-! ## The register map -/

/-- Canonical keys every source gets from `computeDerived`. -/
def DERIVED_CANONICAL_KEYS : List String :=
  ["active_energy_total", "net_imp_energy_total", "net_exp_energy_total"]

structure RegisterMapFields where
  nd45Source : SourceSide
  dtsuTarget : TargetSide
  dtsuSigenExtTarget : TargetSide
  dtsuSigenExtEnergy : TargetSide
  dtsuSigenIdentity : StaticIdentitySide
  huaweiPlantSource : Option SourceSide := none
  huaweiMeterSource : Option SourceSide := none
  etangoSource : Option SourceSide := none

namespace RegisterMapFields

/-- The source sections that are there, by name. -/
def sources (m : RegisterMapFields) : List (String × SourceSide) :=
  ("nd45_source", m.nd45Source) ::
    ([("huawei_plant_source", m.huaweiPlantSource), ("huawei_meter_source", m.huaweiMeterSource),
      ("etango_source", m.etangoSource)].filterMap fun e => e.2.map (e.1, ·))

/-- The output maps served by every bridge. -/
def targets (m : RegisterMapFields) : List (String × TargetSide) :=
  [("dtsu_target", m.dtsuTarget), ("dtsu_sigen_ext_target", m.dtsuSigenExtTarget),
    ("dtsu_sigen_ext_energy", m.dtsuSigenExtEnergy)]

/-- The output maps without their names. -/
def targetSides (m : RegisterMapFields) : List TargetSide :=
  m.targets.map Prod.snd

/-- The `from` names of all output maps. -/
def needed (m : RegisterMapFields) : List String :=
  m.targetSides.flatMap fun side => side.points.values.map (·.from_)

end RegisterMapFields

/-- The canonical names a section is taken to produce at load. -/
def SourceSide.produced (side : SourceSide) : List String :=
  side.points.keys ++ side.derive.flatMap (·.targets) ++ DERIVED_CANONICAL_KEYS

/-- The loop over the sections of
`RegisterMap._check_every_source_produces_every_target_point`. -/
def checkSourcesProduce (needed : List String) : List (String × SourceSide) → Except String Unit
  | [] => .ok ()
  | (name, side) :: rest =>
    let missing := needed.filter (· ∉ side.produced)
    if missing = [] then checkSourcesProduce needed rest
    else
      .error (s!"source section {strRepr name} produces no canonical value for target point(s) " ++
        listRepr (sortedSet missing) ++ "; add the point (or a 'derive' rule for it) or " ++
        "correct the 'from' name in the output map")

structure RegisterMap extends RegisterMapFields where
  complete : checkSourcesProduce toRegisterMapFields.needed toRegisterMapFields.sources = .ok ()

/-- `RegisterMap.source_by_name` -/
def RegisterMap.sourceByName (m : RegisterMap) (name : String) : Except String SourceSide :=
  match m.sources.lookup name with
  | some side => .ok side
  | none =>
    let available := ", ".intercalate (sortedSet (m.sources.map Prod.fst))
    .error s!"registers.json has no source section {strRepr name} (available: {available})"

theorem checkSourcesProduce_ok {needed : List String} : ∀ {sources : List (String × SourceSide)},
    checkSourcesProduce needed sources = .ok () →
      ∀ e ∈ sources, ∀ k ∈ needed, k ∈ e.2.produced
  | [], _ => by simp
  | (name, side) :: rest, h => by
    unfold checkSourcesProduce at h
    dsimp only at h
    split_ifs at h with hm
    rintro e (_ | ⟨_, he⟩)
    · simpa [List.filter_eq_nil_iff] using hm
    · exact checkSourcesProduce_ok h e he

/-- Every section is taken to produce every name the output maps need. -/
theorem RegisterMap.produced_of_needed (m : RegisterMap) {name : String} {side : SourceSide}
    (h : m.sourceByName name = .ok side) {k : String} (hk : k ∈ m.needed) :
    k ∈ side.produced := by
  unfold sourceByName at h
  cases hl : m.sources.lookup name with
  | none => simp [hl] at h
  | some s =>
    obtain rfl : s = side := by simpa [hl] using h
    obtain ⟨pre, post, hmem, -⟩ := List.lookup_eq_some_iff.1 hl
    exact checkSourcesProduce_ok m.complete (name, s) (by simp [hmem]) k hk

/-! ## Output configuration -/

/-- A value of one register. -/
abbrev Word := Fin 0x10000

/-- The identity block of the DTSU666. -/
structure DtsuIdentityConf where
  rev : Word := 100
  ucode : Word := 0
  clrE : Word := 0
  net : Word := 0
  /-- The CT ratio. -/
  irAt : Word := 10
  urAt : Word := 10
  disp : Word := 0
  bLcd : Word := 0
  endian : Word := 0
  protocol : Word := 0
  handshakeMagic : Fin 0x100000000 := 5376
  irAt_pos : 1 ≤ irAt

inductive Transport where
  | rtu
  | tcp
deriving DecidableEq

structure DtsuRtuConf where
  port : String
  baudrate : ℤ := 9600

structure DtsuTcpConf where
  host : String := "0.0.0.0"
  port : ℤ := 502

/-- `DtsuConf._check_transport_config` -/
def checkTransportConfig (transport : Transport) (rtu : Option DtsuRtuConf)
    (tcp : Option DtsuTcpConf) : Except String Unit :=
  if transport = .rtu ∧ rtu.isNone then .error "dtsu.rtu config required when transport='rtu'"
  else if transport = .tcp ∧ tcp.isNone then
    .error "dtsu.tcp config required when transport='tcp'"
  else .ok ()

structure DtsuConf where
  transport : Transport := .rtu
  slaveId : ℕ := 1
  identity : DtsuIdentityConf := { irAt_pos := by decide }
  rtu : Option DtsuRtuConf := none
  tcp : Option DtsuTcpConf := none
  slaveId_pos : 1 ≤ slaveId := by decide
  slaveId_le : slaveId ≤ 247 := by decide
  transportOk : checkTransportConfig transport rtu tcp = .ok ()

/-! ## Sources -/

structure SourceConfBase where
  pollIntervalS : Time
  timeoutS : Time
  reconnectDelayS : Time := 1
  reconnectDelayMaxS : Time := 30
  /-- No poller progress for this long is a hung poll loop. -/
  stallTimeoutS : Time
  registerMap : String
  viaHub : Bool := false
  hubSocket : String := "/run/modbus-hub/hub.sock"
  hubLink : String := ""
  pollInterval_pos : 0 < pollIntervalS
  timeout_pos : 0 < timeoutS
  stallTimeout_pos : 0 < stallTimeoutS

/-- The model validators of `_SourceConfBase`. Multi-host sources name their links per
device. -/
def SourceConfBase.check (c : SourceConfBase) (hasDevices : Bool) : Except String Unit :=
  if c.viaHub ∧ c.hubLink = "" ∧ ¬hasDevices then
    .error ("via_hub is set but hub_link is empty; name the link in the hub's config that " ++
      "owns this device")
  else if c.stallTimeoutS ≤ c.pollIntervalS * 2 then
    .error (s!"stall_timeout_s ({timeRepr c.stallTimeoutS}) must exceed twice " ++
      s!"poll_interval_s ({timeRepr c.pollIntervalS})")
  else .ok ()

/-- `_SingleHostSourceConfBase` -/
structure SingleHostSourceConf extends SourceConfBase where
  host : String
  port : ℤ := 502
  unitId : ℤ
  ok : toSourceConfBase.check false = .ok ()

/-- One CHINT e2TANGO controller polled as part of an etango source. -/
structure EtangoDeviceConf where
  host : String
  port : ℤ := 502
  unitId : ℤ := 1
  hubLink : String := ""
  aggregate : Bool := true

/-- `EtangoSourceConf._check_devices` -/
def checkDevices (viaHub : Bool) (devices : List EtangoDeviceConf) : Except String Unit :=
  if devices = [] then .error "etango source must declare at least one entry in 'devices'"
  else if ¬devices.any (·.aggregate) then
    .error "etango source has no device with aggregate=true; nothing to combine"
  else if viaHub ∧ devices.any (·.hubLink = "") then
    let missing := (devices.filter (·.hubLink = "")).map (·.host)
    .error ("via_hub is set but these etango devices have no hub_link: " ++
      ", ".intercalate missing)
  else if viaHub ∧ ¬(devices.map (·.hubLink)).Nodup then
    .error ("two etango devices share a hub_link; each relay is its own TCP endpoint and " ++
      "therefore its own link")
  else .ok ()

structure EtangoSourceConf extends SourceConfBase where
  /-- Unused by the poller : each device carries its own. -/
  unitId : ℤ := 0
  devices : List EtangoDeviceConf := []
  ok : toSourceConfBase.check true = .ok ()
  devicesOk : checkDevices toSourceConfBase.viaHub devices = .ok ()

/-- The source of a bridge, by its type. -/
inductive SourceConf where
  | nd45 (c : SingleHostSourceConf)
  | huawei (c : SingleHostSourceConf)
  | etango (c : EtangoSourceConf)

namespace SourceConf

def type : SourceConf → SourceType
  | nd45 _ => .nd45
  | huawei _ => .huawei
  | etango _ => .etango

def base : SourceConf → SourceConfBase
  | nd45 c | huawei c => c.toSourceConfBase
  | etango c => c.toSourceConfBase

def unitId : SourceConf → ℤ
  | nd45 c | huawei c => c.unitId
  | etango c => c.unitId

end SourceConf

/-! ## A register map with one point to a map -/

/-- One point that serves `freq` at an address. -/
def freqSide (fc : FunctionCode) (addr : ℤ) : TargetSide where
  functionCode := fc
  points := ⟨[("freq", { addr := addr, from_ := "freq" })], by simp⟩
  noOverlap := by
    have h1 : occupy "freq" addr .empty = .ok (Dict.empty.set addr "freq") :=
      occupy_eq_ok.2 ⟨by simp, rfl⟩
    have h2 : occupy "freq" (addr + 1) (Dict.empty.set addr "freq") = .ok _ :=
      occupy_eq_ok.2 ⟨by simp [Dict.mem_keys_set], rfl⟩
    rw [checkPointRangesDoNotOverlap, occupyPoints, h1]
    simp only [bind, Except.bind, h2, occupyPoints]
    rfl

/-- A block of two registers. -/
def pairGroup : ReadGroup := ⟨0, 2, none, by decide, by decide⟩

/-- An ND45 section with one point. -/
def freqSource : SourceSide where
  points := ⟨[("freq", { addr := some 818, shape := rfl })], by simp⟩
  covered := rfl

/-- A register map whose three output maps have one point each. -/
def freqMap (addr : ℤ) : RegisterMap where
  nd45Source := freqSource
  dtsuTarget := freqSide .holding 100
  dtsuSigenExtTarget := freqSide .input 100
  dtsuSigenExtEnergy := freqSide .input addr
  dtsuSigenIdentity := ⟨.empty⟩
  complete := by rfl

def tcpConf : DtsuConf where
  transport := .tcp
  tcp := some {}
  transportOk := rfl

/-- 50 Hz. -/
def nominalFreq : PyFloat := .lit 50

def freqSample : Sample := ⟨[("freq", nominalFreq)], by simp⟩

/-- An ND45 at some host, read directly. -/
def nd45Conf : SourceConf := .nd45
  { pollIntervalS := 3 / 10, timeoutS := 1, stallTimeoutS := 30, registerMap := "nd45_source"
    host := "nd45", unitId := 1
    pollInterval_pos := by norm_num, timeout_pos := by norm_num
    stallTimeout_pos := by norm_num, ok := by decide +kernel }

end DtsuBridge
