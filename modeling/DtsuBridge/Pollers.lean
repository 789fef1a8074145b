import DtsuBridge.Canonical
import DtsuBridge.Lib.Slice

/-!
# The pollers

One poll of each source type : the ND45 reads fixed blocks of float32 registers, the
SmartLogger declared blocks of sized integers, and the e2TANGO source declared blocks of
several devices, which it combines. `pollOnceFn` dispatches on the source type, as does
`validateCoverage` for the check at startup.

A client is what it answers each read of one poll, by the read's number and the request,
so that it may answer the same request differently. A poll returns a sample or raises,
and leaves the set of channels whose warning is muted and the lines it logged, also
when it raises.
-/

namespace DtsuBridge

/-! ## Reading blocks -/

/-- One read of a Modbus client. -/
structure Request where
  fc : FunctionCode
  address : ℤ
  count : ℕ
  slave : ℤ
deriving DecidableEq

/-- The answers to the reads of one poll, by their number. -/
abbrev Client := ℕ → Request → Except PyExc Response

/-- Documented base and registers of the blocks read. -/
abbrev Blocks := List (ℤ × List ℕ)

/-- Read a block, which must come whole. -/
def readBlock (client : Client) (n : ℕ) (req : Request) (readError : Response → PollError)
    (shortRead : ℕ → PollError) : Except PyExc (List ℕ) :=
  match client n req with
  | .error e => .error e
  | .ok rr =>
    if rr.isError then .error (.pollError (readError rr))
    else if rr.registers.length < req.count then
      .error (.pollError (shortRead rr.registers.length))
    else .ok rr.registers

/-- Read the declared blocks of a section from one device. -/
def readDeclaredGroups (client : Client) (fc : FunctionCode) (side : SourceSide) (slave : ℤ)
    (readError : ℤ → ℤ → Response → PollError) (shortRead : ℤ → ℤ → ℕ → ℕ → PollError) :
    Except PyExc Blocks :=
  (side.readGroups.getD []).zipIdx.mapM fun (group, n) => do
    let unit := group.unitId.getD slave
    let wireBase := group.base + side.addressOffset
    let regs ← readBlock client n ⟨fc, wireBase, group.count, unit⟩ (readError wireBase unit)
      fun got => shortRead wireBase unit got group.count
    return (group.base, regs)

/-- The `width` registers at `addr`, out of the first block that holds them. -/
def extractSized (addr : Option ℤ) (width : ℕ) : Blocks → Except PyExc (List ℕ)
  | [] => .error (.keyError (addr.elim "None" toString))
  | (base, regs) :: groups =>
    match addr with
    | none => .error (.typeError "unsupported operand type(s) for -: 'NoneType' and 'int'")
    | some addr =>
      let offset := addr - base
      if 0 ≤ offset ∧ offset + width ≤ regs.length then .ok (slice regs offset (offset + width))
      else extractSized (some addr) width groups

/-! ## Muted warnings -/

inductive PollLine where
  /-- `ND45 {key} over range/invalid ({si!r}), {using 0.0|rejecting sample}` -/
  | nd45Invalid (key : String) (si : PyFloat) (optional : Bool)
  /-- `ND45 {key} back in range` -/
  | nd45Back (key : String)
  /-- `SmartLogger {key} invalid/unavailable ({value!r}), using 0.0` -/
  | smartLoggerInvalid (key : String) (value : PyFloat)
  /-- `SmartLogger {key} back in range` -/
  | smartLoggerBack (key : String)
  /-- `SmartLogger derived {key} is not finite ({value!r}), using 0.0` -/
  | smartLoggerDerived (key : String) (value : PyFloat)
deriving DecidableEq

/-- The channels whose warning is muted, where the caller keeps them, and the lines logged. -/
structure PollNotes where
  overrangeSeen : Option (Finset String)
  lines : List PollLine := []

namespace PollNotes

def muted (notes : PollNotes) (key : String) : Bool :=
  notes.overrangeSeen.any (key ∈ ·)

/-- Warn of an invalid channel, once an episode. -/
def invalid (notes : PollNotes) (key : String) (line : PollLine) : PollNotes :=
  if notes.muted key then notes
  else ⟨notes.overrangeSeen.map (insert key), notes.lines ++ [line]⟩

/-- A valid channel ends its episode. -/
def valid (notes : PollNotes) (key : String) (line : PollLine) : PollNotes :=
  if notes.muted key then ⟨notes.overrangeSeen.map (·.erase key), notes.lines ++ [line]⟩
  else notes

end PollNotes

structure PollOutcome where
  result : Except PyExc Sample
  notes : PollNotes

section Float

variable [FloatArith]

/-! ## ND45 -/

namespace Nd45

/-- Fixed read blocks covering every mapped ND45 point. -/
def READ_GROUPS : List (ℤ × ℕ) := [(50, 96), (818, 2), (900, 96)]

def OPTIONAL_INVALID_ZERO_POINTS : List String := ["pf_l1", "pf_l2", "pf_l3", "pf_total"]

/-- `_source_point_addresses` -/
def sourcePointAddresses (side : SourceSide) : List ℤ :=
  side.points.values.flatMap fun pt =>
    match pt.compose with
    | some (a :: addrs) => a :: addrs
    | _ => pt.addr.toList

/-- Both registers of a float32 at `addr` lie in the block. -/
def groupCovers (addr : ℤ) (group : ℤ × ℕ) : Bool :=
  group.1 ≤ addr && addr < group.1 + group.2 - 1

def validateSourceCoverage (side : SourceSide) : Except String Unit :=
  let uncovered := (sourcePointAddresses side).filter fun addr =>
    ¬READ_GROUPS.any (groupCovers addr)
  if uncovered = [] then .ok ()
  else
    .error (s!"nd45_source addresses {sortedSet uncovered} are not covered by READ_GROUPS " ++
      s!"{READ_GROUPS}; extend READ_GROUPS in nd45_poller.py to include them")

def extractRegisters (addr : ℤ) : Blocks → Except PyExc (List ℕ)
  | [] => .error (.keyError (toString addr))
  | (base, regs) :: groups =>
    if base ≤ addr ∧ addr < base + regs.length - 1 then
      .ok (slice regs (addr - base) (addr - base + 2))
    else extractRegisters addr groups

/-- The read loop of `poll_once`. -/
def readGroups (client : Client) (slave : ℤ) : Except PyExc Blocks :=
  READ_GROUPS.zipIdx.mapM fun ((base, count), n) => do
    let regs ← readBlock client n ⟨.holding, base, count, slave⟩ (.nd45Read base)
      fun got => .nd45Short base got count
    return (base, regs)

/-- Non-finite, or at least `OVERRANGE` in magnitude. -/
def overRange (x : PyFloat) : Bool :=
  !x.isFinite || OVERRANGE.le x.abs

/-- `pt.factors or [1.0] * len(parts)` -/
def factorsOf (pt : SourcePoint) (parts : ℕ) : List PyFloat :=
  match pt.factors with
  | some (f :: factors) => f :: factors
  | _ => List.replicate parts 1

/-- The float32 at an address. -/
def reading (side : SourceSide) (groups : Blocks) (addr : ℤ) : Except PyExc PyFloat := do
  let regs ← extractRegisters addr groups
  registersToFloat regs side.wordOrder side.byteOrder

/-- The raw and the SI value of a point, as `poll_once` computes them. -/
def decode (side : SourceSide) (groups : Blocks) (pt : SourcePoint) :
    Except PyExc (PyFloat × PyFloat) :=
  match pt.compose with
  | some (a :: addrs) => do
    let parts ← (a :: addrs).mapM (reading side groups)
    match parts.find? overRange with
    | some part => return (part, part)
    | none =>
      let raw := compose parts (factorsOf pt parts.length)
      let si ← toSi raw pt.scale pt.sign pt.offset
      return (raw, si)
  | _ =>
    match pt.addr with
    | none => .error (.typeError "'<=' not supported between instances of 'int' and 'NoneType'")
    | some addr => do
      let regs ← extractRegisters addr groups
      let raw ← registersToFloat regs side.wordOrder side.byteOrder
      let si ← decodePoint regs pt.scale pt.sign pt.offset side.wordOrder side.byteOrder
      return (raw, si)

/-- What the point loop of `poll_once` has gathered. -/
structure Gathered where
  values : Sample := .empty
  invalidCritical : List String := []
  notes : PollNotes

/-- Take a decoded point in. -/
def Gathered.record (acc : Gathered) (key : String) (raw si : PyFloat) : Gathered :=
  if overRange si || overRange raw then
    let optional := decide (key ∈ OPTIONAL_INVALID_ZERO_POINTS)
    let notes := acc.notes.invalid key (.nd45Invalid key si optional)
    if optional then ⟨acc.values.set key 0, acc.invalidCritical, notes⟩
    else ⟨acc.values.set key si, acc.invalidCritical ++ [key], notes⟩
  else ⟨acc.values.set key si, acc.invalidCritical, acc.notes.valid key (.nd45Back key)⟩

/-- The point loop of `poll_once`, and what it had gathered when it raised. -/
def pollPoints (side : SourceSide) (groups : Blocks) :
    List (String × SourcePoint) → Gathered → Except PyExc Unit × Gathered
  | [], acc => (.ok (), acc)
  | (key, pt) :: points, acc =>
    match decode side groups pt with
    | .error e => (.error e, acc)
    | .ok (raw, si) => pollPoints side groups points (acc.record key raw si)

def pollOnce (client : Client) (side : SourceSide) (slave : ℤ)
    (overrangeSeen : Option (Finset String)) : PollOutcome :=
  match readGroups client slave with
  | .error e => ⟨.error e, ⟨overrangeSeen, []⟩⟩
  | .ok groups =>
    match pollPoints side groups side.points.entries { notes := ⟨overrangeSeen, []⟩ } with
    | (.error e, acc) => ⟨.error e, acc.notes⟩
    | (.ok (), acc) =>
      if acc.invalidCritical ≠ [] then
        ⟨.error (.pollError (.nd45Invalid acc.invalidCritical)), acc.notes⟩
      else ⟨.ok (computeDerived acc.values), acc.notes⟩

end Nd45

/-! ## SmartLogger -/

namespace Huawei

def validateSourceCoverage (side : SourceSide) : Except String Unit :=
  if side.readGroups.getD [] = [] then
    .error "huawei source must declare 'read_groups' in registers.json"
  else .ok ()

def extractRegisters (addr : Option ℤ) (groups : Blocks) (width : ℕ) : Except PyExc (List ℕ) :=
  extractSized addr width groups

def readGroups (client : Client) (side : SourceSide) (slave : ℤ) : Except PyExc Blocks :=
  readDeclaredGroups client .holding side slave .smartLoggerRead .smartLoggerShort

/-- The value of one point, before derive. -/
def decode (side : SourceSide) (groups : Blocks) (pt : SourcePoint) : Except PyExc PyFloat := do
  let regs ← extractRegisters pt.addr groups pt.width
  if pt.dtype = .float32 then
    decodePoint regs pt.scale pt.sign pt.offset side.wordOrder side.byteOrder
  else decodeIntPoint regs pt.dtype pt.scale pt.sign pt.offset side.wordOrder side.byteOrder

def decodeSource (side : SourceSide) (groups : Blocks) : Except PyExc Sample :=
  writeTargets (fun _ pt => decode side groups pt) side.points.entries .empty

/-- Every value that is not finite becomes zero. -/
def scrub (values : Sample) : Sample :=
  values.mapValues fun _ value => if value.isFinite then value else 0

/-- The warnings of the first scrub. -/
def noteInvalid (values : Sample) (notes : PollNotes) : PollNotes :=
  values.entries.foldl (fun notes (key, value) =>
    if value.isFinite then notes.valid key (.smartLoggerBack key)
    else notes.invalid key (.smartLoggerInvalid key value)) notes

/-- The warnings of the scrub after derive. -/
def noteDerived (values : Sample) (notes : PollNotes) : PollNotes :=
  let bad := values.entries.filter fun e => !e.2.isFinite
  { notes with lines := notes.lines ++ bad.map fun e => .smartLoggerDerived e.1 e.2 }

def pollOnce (client : Client) (side : SourceSide) (slave : ℤ)
    (overrangeSeen : Option (Finset String)) : PollOutcome :=
  match readGroups client side slave with
  | .error e => ⟨.error e, ⟨overrangeSeen, []⟩⟩
  | .ok groups =>
    match decodeSource side groups with
    | .error e => ⟨.error e, ⟨overrangeSeen, []⟩⟩
    | .ok values =>
      let notes := noteInvalid values ⟨overrangeSeen, []⟩
      match applyDerive (scrub values) side.derive with
      | .error e => ⟨.error e, notes⟩
      | .ok values => ⟨.ok (computeDerived (scrub values)), noteDerived values notes⟩

end Huawei

/-! ## e2TANGO -/

namespace Etango

/-- One configured e2TANGO controller : its client plus how to use it. -/
structure DeviceLink where
  client : Client
  unitId : ℤ
  aggregate : Bool
  host : String

structure MultiHostClient where
  devices : List DeviceLink

def validateSourceCoverage (side : SourceSide) : Except String Unit :=
  if side.readGroups.getD [] = [] then
    .error "etango source must declare 'read_groups' in registers.json"
  else .ok ()

def extractRegisters (addr : Option ℤ) (groups : Blocks) (width : ℕ) : Except PyExc (List ℕ) :=
  extractSized addr width groups

def readGroups (client : Client) (side : SourceSide) (unitId : ℤ) (host : String) :
    Except PyExc Blocks :=
  readDeclaredGroups client .input side unitId (.etangoRead host) (.etangoShort host)

/-- The value of one point, before derive. -/
def decode (side : SourceSide) (groups : Blocks) (host key : String) (pt : SourcePoint) :
    Except PyExc PyFloat := do
  let regs ← extractRegisters pt.addr groups pt.width
  let raw ← registersToFloat regs side.wordOrder side.byteOrder
  if !raw.isFinite || OVERRANGE.le raw.abs then
    .error (.pollError (.etangoOutOfRange host key raw))
  else toSi raw pt.scale pt.sign pt.offset

def decodeSource (side : SourceSide) (groups : Blocks) (host : String) : Except PyExc Sample :=
  writeTargets (fun _ e => decode side groups host e.1 e.2)
    (side.points.entries.map fun e => (e.1, e)) .empty

/-- The first value that is not finite fails the sample. -/
def checkFinite (host : String) (values : Sample) : Except PyExc Unit :=
  match values.entries.find? fun e => !e.2.isFinite with
  | some (key, value) => .error (.pollError (.etangoNonFinite host key value))
  | none => .ok ()

/-- Read, decode and derive one device. -/
def deviceValues (side : SourceSide) (link : DeviceLink) : Except PyExc Sample := do
  let groups ← readGroups link.client side link.unitId link.host
  let values ← decodeSource side groups link.host
  let values ← applyDerive values side.derive
  checkFinite link.host values
  return values

/-- `_aggregate_mode` -/
def aggregateMode (key : String) (side : SourceSide) : Aggregate :=
  match side.points.get? key with
  | some point => point.aggregate
  | none =>
    match side.derive.find? fun op => key ∈ op.targets with
    | some op => op.aggregate
    | none => .avg

/-- Average or sum one key across the devices that have it. -/
def combineKey (perDevice : List Sample) (side : SourceSide) (key : String) :
    Except PyExc PyFloat := do
  let readings := perDevice.filterMap (·.get? key)
  let total ← fsum readings
  if aggregateMode key side = .sum then return total else divLen total readings.length

/-- `_combine`. The keys are a set in the source, in no order. -/
def combine (perDevice : List Sample) (side : SourceSide) : Except PyExc Sample :=
  let keys := (perDevice.flatMap (·.keys)).dedup
  writeTargets (fun _ key => combineKey perDevice side key) (keys.map fun key => (key, key)) .empty

/-- The values of the aggregating devices. -/
def aggregating (perDevice : List Sample) (devices : List DeviceLink) : List Sample :=
  ((perDevice.zip devices).filter (·.2.aggregate)).map Prod.fst

/-- Read, decode and combine every configured e2TANGO controller. -/
def pollOnce (client : MultiHostClient) (side : SourceSide) (_slave : ℤ)
    (overrangeSeen : Option (Finset String)) : PollOutcome where
  result := do
    let perDevice ← client.devices.mapM (deviceValues side)
    let combined ← combine (aggregating perDevice client.devices) side
    return computeDerived combined
  notes := ⟨overrangeSeen, []⟩

end Etango

/-! ## Dispatch -/

/-- The client of a source type. -/
def SourceType.Client : SourceType → Type
  | nd45 | huawei => DtsuBridge.Client
  | etango => Etango.MultiHostClient

/-- `_POLL_ONCE` -/
def pollOnceFn : (type : SourceType) → type.Client → SourceSide → ℤ →
    Option (Finset String) → PollOutcome
  | .nd45 => Nd45.pollOnce
  | .huawei => Huawei.pollOnce
  | .etango => Etango.pollOnce

/-- `_VALIDATE_COVERAGE` -/
def validateCoverage : SourceType → SourceSide → Except String Unit
  | .nd45 => Nd45.validateSourceCoverage
  | .huawei => Huawei.validateSourceCoverage
  | .etango => Etango.validateSourceCoverage

end Float

end DtsuBridge
