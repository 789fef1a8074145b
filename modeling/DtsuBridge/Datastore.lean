import DtsuBridge.Canonical
import DtsuBridge.Lib.Banks

/-!
# The served registers

`buildContext` sizes the two register blocks from the output maps and seeds the identity
registers, and `updateDatastore` writes a sample into the output maps. A block is the
list of its registers, and pymodbus assigns and reads slices of it.

`updateDatastore` encodes every point before the first write. `updateDatastore_eq` : it
raises and leaves the registers alone, or writes `targetWrites`, the encodings of all
points in map order.
-/

namespace DtsuBridge

/-- The register blocks of the slave, by function code. -/
abbrev Datastore := Banks FunctionCode ℕ

abbrev RegisterWrite := Write FunctionCode ℕ

/-- `ModbusSlaveContext.setValues` -/
def setValues (d : Datastore) (fc : FunctionCode) (addr : ℤ) (values : List ℕ) : Datastore :=
  d.write ⟨fc, addr, values⟩

/-- `ModbusSlaveContext.getValues` -/
def getValues (d : Datastore) (fc : FunctionCode) (addr : ℤ) (count : ℕ) : List ℕ :=
  d.read fc addr count

/-! ## Identity registers -/

/-- `_IDENTITY_REGISTER_ADDRS` -/
def identityRegisterAddrs : List ((DtsuIdentityConf → Word) × ℤ) :=
  [((·.rev), 0x0000), ((·.ucode), 0x0001), ((·.clrE), 0x0002), ((·.net), 0x0003),
    ((·.irAt), 0x0006), ((·.urAt), 0x0007), ((·.disp), 0x000A), ((·.bLcd), 0x000B),
    ((·.endian), 0x000C), ((·.protocol), 0x002C)]

/-- `_BAUD_CODES` -/
def baudCodes : List (ℤ × ℕ) := [(1200, 0), (2400, 1), (4800, 2), (9600, 3)]

/-- The baudrate the bAud register reports. -/
def reportedBaudrate (cfg : DtsuConf) : ℤ :=
  match cfg.transport, cfg.rtu with
  | .rtu, some rtu => rtu.baudrate
  | _, _ => 9600

/-- What `write_static_registers` writes. -/
def staticWrites (slaveId : ℕ) (cfg : DtsuConf) : List RegisterWrite :=
  (identityRegisterAddrs.map fun (field, addr) => ⟨.holding, addr, [(field cfg.identity).val]⟩) ++
    [⟨.holding, 0x002D, [(baudCodes.lookup (reportedBaudrate cfg)).getD 3]⟩,
      ⟨.holding, 0x002E, [slaveId]⟩, ⟨.holding, 0x0046, [0]⟩, ⟨.holding, 0x0004, [1]⟩,
      ⟨.holding, 0x0008, [4]⟩]

def writeStaticRegisters (slave : Datastore) (slaveId : ℕ) (cfg : DtsuConf) : Datastore :=
  slave.writeAll (staticWrites slaveId cfg)

/-- The words of a byte string, two bytes each. -/
def pairWords : List ℕ → List ℕ
  | hi :: lo :: bytes => ((hi <<< 8) ||| lo) :: pairWords bytes
  | _ => []

/-- The registers of one identity point. -/
def identityValues (cfg : Option DtsuConf) (name : String) (point : StaticIdentityPoint) :
    List ℕ :=
  match point.type, point.staticValue with
  | .ascii, .str s =>
    let raw := s.toList.map Char.toNat
    let padded := raw ++ List.replicate ((point.registerCount * 2).toNat - raw.length) 0
    pairWords padded
  | .uint32, .int i =>
    let value := match cfg with
      | some cfg => if name = "handshake_magic" then cfg.identity.handshakeMagic.val else i.toNat
      | none => i.toNat
    [(value >>> 16) &&& 0xFFFF, value &&& 0xFFFF]
  -- The validator pairs the type with its kind of value.
  | _, _ => []

/-- What `write_sigen_identity` writes. -/
def sigenWrites (identity : StaticIdentitySide) (cfg : Option DtsuConf) : List RegisterWrite :=
  identity.points.entries.map fun (name, point) =>
    ⟨.holding, point.addr, identityValues cfg name point⟩

def writeSigenIdentity (slave : Datastore) (identity : StaticIdentitySide)
    (cfg : Option DtsuConf) : Datastore :=
  slave.writeAll (sigenWrites identity cfg)

/-! ## Building the blocks -/

/-- `max(xs, default=0)` -/
def maxDefault (xs : List ℤ) : ℤ := xs.max?.getD 0

/-- The largest address the output maps use under a function code. -/
def maxTargetAddress (target : List TargetSide) (fc : FunctionCode) : ℤ :=
  target.foldl (fun m side =>
    if side.functionCode = fc then max m (maxDefault (side.points.values.map (·.addr + 1)))
    else m) 0

/-- `max_addresses` -/
def maxAddress (target : List TargetSide) (sigenIdentity : Option StaticIdentitySide) :
    FunctionCode → ℤ
  | .holding =>
    match sigenIdentity with
    | some identity => max (maxTargetAddress target .holding)
        (maxDefault (identity.points.values.map fun p => p.addr + p.registerCount - 1))
    | none => maxTargetAddress target .holding
  | .input => maxTargetAddress target .input

def buildContext (target : List TargetSide) (slaveId : ℕ) (cfg : Option DtsuConf)
    (sigenIdentity : Option StaticIdentitySide) : Datastore :=
  let blocks : Datastore := fun fc =>
    List.replicate (maxAddress target sigenIdentity fc + 1).toNat 0
  let slave := match cfg with
    | some cfg => writeStaticRegisters blocks slaveId cfg
    | none => blocks
  match sigenIdentity with
  | some identity => writeSigenIdentity slave identity cfg
  | none => slave

section Float

variable [FloatArith]

/-! ## Encoding a sample -/

/-- The CT ratio a divided point accepts. -/
def ctRatioOk (ctRatio : PyFloat) : Bool :=
  ctRatio.isFinite && !ctRatio.le 0

/-- The value `encode_target_point` hands to `encode_point`. -/
def divideCt (si : PyFloat) (point : TargetPoint) (ctRatio : PyFloat) : Except PyExc PyFloat :=
  if point.divideByCt then
    if ctRatioOk ctRatio then truediv si ctRatio
    else .error (.valueError "CT ratio must be a positive finite number")
  else .ok si

def encodeTargetPoint (si : PyFloat) (point : TargetPoint) (target : TargetSide)
    (ctRatio : PyFloat) : Except PyExc (List ℕ) := do
  let si ← divideCt si point ctRatio
  encodePoint si point.scale point.sign point.offset target.wordOrder target.byteOrder
    point.zeroLowWord

/-- The points of the maps in order, each with its map. -/
def targetPoints (target : List TargetSide) : List (TargetSide × TargetPoint) :=
  target.flatMap fun side => side.points.values.map (side, ·)

/-- The point loop of `update_datastore` : the writes pending and the names missing. -/
def encodePoints (canonical : Sample) (ctRatio : PyFloat) :
    List (TargetSide × TargetPoint) → List RegisterWrite → List String →
      Except PyExc (List RegisterWrite × List String)
  | [], pending, missing => .ok (pending, missing)
  | (side, pt) :: points, pending, missing =>
    match canonical.get? pt.from_ with
    | none => encodePoints canonical ctRatio points pending (missing ++ [pt.from_])
    | some si => do
      let regs ← encodeTargetPoint si pt side ctRatio
      encodePoints canonical ctRatio points (pending ++ [⟨side.functionCode, pt.addr, regs⟩])
        missing

def updateDatastore (slave : Datastore) (canonical : Sample) (target : List TargetSide)
    (ctRatio : PyFloat) : Except PyExc Unit × Datastore :=
  match encodePoints canonical ctRatio (targetPoints target) [] [] with
  | .error e => (.error e, slave)
  | .ok (pending, missing) =>
    if missing ≠ [] then
      let msg := "canonical sample is missing value(s) for target point(s): "
      (.error (.keyError (msg ++ ", ".intercalate (sortedSet missing))), slave)
    else
      let write := fun (d : Datastore) (w : RegisterWrite) => setValues d w.bank w.addr w.cells
      (.ok (), pending.foldl write slave)

/-! ## What an update writes -/

/-- The write of one point, where its value is there and encodes. -/
def targetWrite (canonical : Sample) (ctRatio : PyFloat) (p : TargetSide × TargetPoint) :
    Except PyExc RegisterWrite :=
  match canonical.get? p.2.from_ with
  | none => .error (.keyError p.2.from_)
  | some si => do
    let regs ← encodeTargetPoint si p.2 p.1 ctRatio
    return ⟨p.1.functionCode, p.2.addr, regs⟩

/-- The writes of all points, where every value is there and encodes. -/
def targetWrites (canonical : Sample) (ctRatio : PyFloat) (target : List TargetSide) :
    Except PyExc (List RegisterWrite) :=
  (targetPoints target).mapM (targetWrite canonical ctRatio)

theorem targetWrite_eq_ok {canonical : Sample} {ctRatio : PyFloat} {p : TargetSide × TargetPoint}
    {w : RegisterWrite} : targetWrite canonical ctRatio p = .ok w ↔
      ∃ si regs, canonical.get? p.2.from_ = some si ∧
        encodeTargetPoint si p.2 p.1 ctRatio = .ok regs ∧
        w = ⟨p.1.functionCode, p.2.addr, regs⟩ := by
  unfold targetWrite
  cases canonical.get? p.2.from_ with
  | none => simp
  | some si =>
    dsimp only
    rw [Except.bind_eq_ok]
    refine ⟨?_, ?_⟩
    · rintro ⟨regs, hregs, h⟩
      cases h
      exact ⟨si, regs, rfl, hregs, rfl⟩
    · rintro ⟨si', regs, hsi, hregs, rfl⟩
      cases hsi
      exact ⟨regs, hregs, rfl⟩

/-- The point loop finds and encodes every value, or some point has no write. -/
theorem encodePoints_cases (canonical : Sample) (ctRatio : PyFloat) :
    ∀ (points : List (TargetSide × TargetPoint)) (pending : List RegisterWrite)
      (missing : List String),
      (∃ ws, points.mapM (targetWrite canonical ctRatio) = .ok ws ∧
          encodePoints canonical ctRatio points pending missing = .ok (pending ++ ws, missing)) ∨
        (∃ p ∈ points, ¬∃ w, targetWrite canonical ctRatio p = .ok w) ∧
          ((∃ e, encodePoints canonical ctRatio points pending missing = .error e) ∨
            ∃ pending' missing', missing' ≠ [] ∧
              encodePoints canonical ctRatio points pending missing = .ok (pending', missing'))
  | [], pending, missing => Or.inl ⟨[], rfl, by simp [encodePoints]⟩
  | (side, pt) :: points, pending, missing => by
    unfold encodePoints
    cases hg : canonical.get? pt.from_ with
    | none =>
      have hno : ¬∃ w, targetWrite canonical ctRatio (side, pt) = .ok w := by
        simp [targetWrite, hg]
      refine Or.inr ⟨⟨_, List.mem_cons_self, hno⟩, ?_⟩
      rcases encodePoints_cases canonical ctRatio points pending (missing ++ [pt.from_]) with
        ⟨ws, -, h⟩ | ⟨-, h⟩
      · exact Or.inr ⟨_, _, by simp, h⟩
      · exact h
    | some si =>
      dsimp only
      rcases Except.ok_or_error (encodeTargetPoint si pt side ctRatio) with ⟨regs, hr⟩ | ⟨e, hr⟩
      · have hw : targetWrite canonical ctRatio (side, pt) =
            .ok ⟨side.functionCode, pt.addr, regs⟩ := targetWrite_eq_ok.2 ⟨si, regs, hg, hr, rfl⟩
        rw [hr]
        rcases encodePoints_cases canonical ctRatio points
          (pending ++ [⟨side.functionCode, pt.addr, regs⟩]) missing with
          ⟨ws, hws, h⟩ | ⟨⟨p, hp, hno⟩, h⟩
        · refine Or.inl ⟨_, Except.mapM_eq_ok.2 (.cons hw (Except.mapM_eq_ok.1 hws)), ?_⟩
          exact h.trans (by simp)
        · exact Or.inr ⟨⟨p, List.mem_cons_of_mem _ hp, hno⟩, h⟩
      · refine Or.inr ⟨⟨_, List.mem_cons_self, ?_⟩, Or.inl ⟨e, by rw [hr]; rfl⟩⟩
        simp [targetWrite_eq_ok, hg, hr]

/-- An update writes the encodings of all points, or raises and writes nothing. -/
theorem updateDatastore_eq (slave : Datastore) (canonical : Sample) (target : List TargetSide)
    (ctRatio : PyFloat) :
    (∃ ws, targetWrites canonical ctRatio target = .ok ws ∧
        updateDatastore slave canonical target ctRatio = (.ok (), slave.writeAll ws)) ∨
      (∃ p ∈ targetPoints target, ¬∃ w, targetWrite canonical ctRatio p = .ok w) ∧
        ∃ e, updateDatastore slave canonical target ctRatio = (.error e, slave) := by
  unfold updateDatastore targetWrites
  rcases encodePoints_cases canonical ctRatio (targetPoints target) [] [] with
    ⟨ws, hws, h⟩ | ⟨herr, ⟨e, h⟩ | ⟨pending, missing, hm, h⟩⟩
  · refine Or.inl ⟨ws, hws, ?_⟩
    rw [h]
    rfl
  · exact Or.inr ⟨herr, e, by rw [h]⟩
  · refine Or.inr ⟨herr, ?_⟩
    rw [h]
    dsimp only
    rw [if_pos hm]
    exact ⟨_, rfl⟩

end Float

end DtsuBridge
