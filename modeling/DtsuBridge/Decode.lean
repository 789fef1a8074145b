import DtsuBridge.Coverage

/-!
# What a decoder makes of a point

A device is an image of registers by function code, unit id and address, and answers each
read with the registers asked for (`imageClient`). The declared reading of a point is in
its dtype, at its documented address plus the section's offset, or one float32 for each
part it is composed of.

`PointDecoded` : a poll takes the declared readings of the point, and unless it handles
them as invalid decodes them into `raw * scale * sign + offset`. A decoder does so of the
points it implements (`pointDecoded_of_supported`).
-/

namespace DtsuBridge

/-! ## Devices -/

/-- The registers of a device, by function code, unit id and address. -/
abbrev Image := FunctionCode → ℤ → ℤ → ℕ

def regsAt (image : Image) (fc : FunctionCode) (unit addr : ℤ) (count : ℕ) : List ℕ :=
  (List.range count).map fun i : ℕ => image fc unit (addr + i)

/-- A device that answers each read with the registers asked for. -/
def imageClient (image : Image) : Client := fun _ req =>
  .ok ⟨regsAt image req.fc req.slave req.address req.count, none⟩

@[simp] theorem length_regsAt (image : Image) (fc : FunctionCode) (unit addr : ℤ) (count : ℕ) :
    (regsAt image fc unit addr count).length = count := by
  simp [regsAt]

theorem slice_regsAt {image : Image} {fc : FunctionCode} {unit base off : ℤ} {n k : ℕ}
    (h0 : 0 ≤ off) (h : off + k ≤ n) :
    slice (regsAt image fc unit base n) off (off + k) = regsAt image fc unit (base + off) k := by
  lift off to ℕ using h0
  rw [slice_natCast (by simp; omega)]
  refine List.ext_getElem (by simp; omega) fun i h1 h2 => ?_
  simp [regsAt, add_assoc]

theorem readBlock_imageClient (image : Image) (n : ℕ) (req : Request)
    (readError : Response → PollError) (shortRead : ℕ → PollError) :
    readBlock (imageClient image) n req readError shortRead =
      .ok (regsAt image req.fc req.slave req.address req.count) := by
  simp [readBlock, imageClient, Response.isError]

/-- The blocks a poll reads of a declared section. -/
def declaredBlocks (image : Image) (fc : FunctionCode) (side : SourceSide) (slave : ℤ) : Blocks :=
  (side.readGroups.getD []).map fun g =>
    (g.base, regsAt image fc (g.unitId.getD slave) (g.base + side.addressOffset) g.count)

theorem readDeclaredGroups_imageClient (image : Image) (fc : FunctionCode) (side : SourceSide)
    (slave : ℤ) (readError : ℤ → ℤ → Response → PollError)
    (shortRead : ℤ → ℤ → ℕ → ℕ → PollError) :
    readDeclaredGroups (imageClient image) fc side slave readError shortRead =
      .ok (declaredBlocks image fc side slave) := by
  refine Except.mapM_zipIdx_eq_ok (fun g n => ?_) _
  simp only [readBlock_imageClient]
  rfl

/-- The blocks a poll reads of an ND45. -/
def nd45Blocks (image : Image) (slave : ℤ) : Blocks :=
  Nd45.READ_GROUPS.map fun g => (g.1, regsAt image .holding slave g.1 g.2)

theorem nd45_readGroups_imageClient (image : Image) (slave : ℤ) :
    Nd45.readGroups (imageClient image) slave = .ok (nd45Blocks image slave) := by
  refine Except.mapM_zipIdx_eq_ok (fun g n => ?_) _
  simp only [readBlock_imageClient]
  rfl

/-! ## Registers taken out of the blocks -/

/-- The unit of the first block that holds a point. -/
def unitAt (side : SourceSide) (slave addr : ℤ) (width : ℕ) : ℤ :=
  (((side.readGroups.getD []).find? (·.holds addr width)).bind (·.unitId)).getD slave

/-- A point that a declared block holds is taken from the device's registers at its
documented address plus the offset. -/
theorem extractSized_declaredBlocks {image : Image} {fc : FunctionCode} {side : SourceSide}
    {slave addr : ℤ} {width : ℕ}
    (h : ∃ g ∈ side.readGroups.getD [], g.holds addr width = true) :
    extractSized (some addr) width (declaredBlocks image fc side slave) =
      .ok (regsAt image fc (unitAt side slave addr width) (addr + side.addressOffset) width) := by
  unfold declaredBlocks unitAt
  generalize side.readGroups.getD [] = groups at h ⊢
  induction groups with
  | nil => simp at h
  | cons g groups ih =>
    rw [List.map_cons, extractSized, List.find?_cons]
    cases hg : g.holds addr width with
    | true =>
      simp only [ReadGroup.holds, Bool.and_eq_true, decide_eq_true_eq] at hg
      rw [length_regsAt, if_pos (by omega), slice_regsAt (by omega) (by omega)]
      have haddr : g.base + side.addressOffset + (addr - g.base) = addr + side.addressOffset := by
        ring
      rw [haddr]
      rfl
    | false =>
      have hcond : ¬(0 ≤ addr - g.base ∧ addr - g.base + width ≤ (g.count : ℤ)) := by
        simp only [ReadGroup.holds, Bool.and_eq_false_iff, decide_eq_false_iff_not] at hg
        omega
      rw [length_regsAt, if_neg hcond]
      refine ih ?_
      simpa [List.exists_mem_cons_iff, hg] using h

/-- An address the fixed blocks cover is taken from the device's registers there. -/
theorem nd45_extractRegisters {image : Image} {slave addr : ℤ}
    (h : ∃ g ∈ Nd45.READ_GROUPS, Nd45.groupCovers addr g = true) :
    Nd45.extractRegisters addr (nd45Blocks image slave) =
      .ok (regsAt image .holding slave addr 2) := by
  unfold nd45Blocks
  generalize Nd45.READ_GROUPS = groups at h
  induction groups with
  | nil => simp at h
  | cons g groups ih =>
    rw [List.map_cons, Nd45.extractRegisters]
    cases hg : Nd45.groupCovers addr g with
    | true =>
      simp only [Nd45.groupCovers, Bool.and_eq_true, decide_eq_true_eq] at hg
      rw [length_regsAt, if_pos hg]
      have := @slice_regsAt image .holding slave g.1 (addr - g.1) g.2 2 (by omega)
        (by push_cast; omega)
      rw [show g.1 + (addr - g.1) = addr by ring] at this
      rw [← this]
      rfl
    | false =>
      have hcond : ¬(g.1 ≤ addr ∧ addr < g.1 + (g.2 : ℤ) - 1) := by
        simp only [Nd45.groupCovers, Bool.and_eq_false_iff, decide_eq_false_iff_not] at hg
        omega
      rw [length_regsAt, if_neg hcond]
      refine ih ?_
      simpa [List.exists_mem_cons_iff, hg] using h

/-- A composed point has no single address to take. -/
theorem extractSized_none {width : ℕ} {blocks : Blocks} :
    ∃ e, extractSized none width blocks = .error e := by
  cases blocks with
  | nil => exact ⟨_, rfl⟩
  | cons b blocks => exact ⟨_, rfl⟩

section Float

variable [FloatArith]

/-! ## Declared and decoded readings -/

/-- A reading in a dtype. -/
def readAs (dtype : Dtype) (regs : List ℕ) (wordOrder byteOrder : String) :
    Except PyExc PyFloat :=
  if dtype = .float32 then registersToFloat regs wordOrder byteOrder
  else do
    let i ← registersToInt regs dtype wordOrder byteOrder
    floatOfInt i

/-- The addresses of a point : its own, or those of its parts. -/
def addresses (pt : SourcePoint) : List ℤ :=
  match pt.compose with
  | some addrs => addrs
  | none => pt.addr.toList

/-- The device's registers for a width at a documented address. -/
def deviceRegisters (type : SourceType) (side : SourceSide) (image : Image) (slave addr : ℤ)
    (width : ℕ) : List ℕ :=
  match type with
  | .nd45 => regsAt image .holding slave (addr + side.addressOffset) width
  | .huawei =>
    regsAt image .holding (unitAt side slave addr width) (addr + side.addressOffset) width
  | .etango =>
    regsAt image .input (unitAt side slave addr width) (addr + side.addressOffset) width

/-- The readings of a point in its dtype, at its documented address plus the offset. -/
def declaredReadings (type : SourceType) (side : SourceSide) (image : Image) (slave : ℤ)
    (pt : SourcePoint) : Except PyExc (List PyFloat) :=
  (addresses pt).mapM fun addr =>
    readAs pt.dtype (deviceRegisters type side image slave addr pt.width) side.wordOrder
      side.byteOrder

/-- The reading of a point, or the weighted sum of those of its parts. -/
def rawOf (pt : SourcePoint) (readings : List PyFloat) : PyFloat :=
  match pt.compose with
  | some _ => compose readings (Nd45.factorsOf pt readings.length)
  | none => readings.headD .nan

/-- `raw * scale * sign + offset` of the readings. -/
def declaredValue (pt : SourcePoint) (readings : List PyFloat) : Except PyExc PyFloat :=
  toSi (rawOf pt readings) pt.scale pt.sign pt.offset

/-- The blocks a poll reads of a device. -/
def blocksRead (type : SourceType) (side : SourceSide) (image : Image) (slave : ℤ) : Blocks :=
  match type with
  | .nd45 => nd45Blocks image slave
  | .huawei => declaredBlocks image .holding side slave
  | .etango => declaredBlocks image .input side slave

/-- The readings a poll takes of a point. -/
def decodedReadings (type : SourceType) (side : SourceSide) (groups : Blocks) (pt : SourcePoint) :
    Except PyExc (List PyFloat) :=
  match type with
  | .nd45 => (addresses pt).mapM (Nd45.reading side groups)
  | .huawei => do
    let regs ← Huawei.extractRegisters pt.addr groups pt.width
    let raw ← readAs pt.dtype regs side.wordOrder side.byteOrder
    return [raw]
  | .etango => do
    let regs ← Etango.extractRegisters pt.addr groups pt.width
    let raw ← registersToFloat regs side.wordOrder side.byteOrder
    return [raw]

/-- The value a poll decodes for a point, before derive. -/
def decodedValue (type : SourceType) (side : SourceSide) (groups : Blocks) (host key : String)
    (pt : SourcePoint) : Except PyExc PyFloat :=
  match type with
  | .nd45 => Prod.snd <$> Nd45.decode side groups pt
  | .huawei => Huawei.decode side groups pt
  | .etango => Etango.decode side groups host key pt

/-- What a poll of this type handles as invalid : a float that is not finite or past the
measuring range, or the integer marker of an unavailable channel. -/
def invalidReading (type : SourceType) (side : SourceSide) (image : Image) (slave : ℤ)
    (pt : SourcePoint) (readings : List PyFloat) : Bool :=
  match type with
  | .nd45 | .etango => readings.any Nd45.overRange
  | .huawei => (addresses pt).any fun addr =>
    match registersToInt (deviceRegisters .huawei side image slave addr pt.width) pt.dtype
        side.wordOrder side.byteOrder with
    | .ok i => intIsInvalid i pt.dtype
    | .error _ => false

/-- A poll takes the declared readings of a point, and unless it handles them as invalid
decodes them into `raw * scale * sign + offset`. -/
def PointDecoded (type : SourceType) (side : SourceSide) (image : Image) (slave : ℤ)
    (host key : String) (pt : SourcePoint) : Prop :=
  ∃ readings,
    decodedReadings type side (blocksRead type side image slave) pt = .ok readings ∧
    declaredReadings type side image slave pt = .ok readings ∧
    (invalidReading type side image slave pt readings = true ∨
      ∃ v, declaredValue pt readings = .ok v ∧
        decodedValue type side (blocksRead type side image slave) host key pt = .ok v)

/-- The declared value of a point, or what a poll of declared blocks makes of it instead. -/
def declaredPoint (type : SourceType) (side : SourceSide) (image : Image) (slave : ℤ)
    (host key : String) (pt : SourcePoint) : Except PyExc PyFloat := do
  let readings ← declaredReadings type side image slave pt
  if invalidReading type side image slave pt readings then
    if type = .huawei then return .nan
    else .error (.pollError (.etangoOutOfRange host key (rawOf pt readings)))
  else declaredValue pt readings

/-- The decoder of this type implements the point. -/
def Supported (type : SourceType) (side : SourceSide) (pt : SourcePoint) : Prop :=
  (PyFloat.ofInt? pt.sign).isSome ∧
    match type with
    | .nd45 => pt.dtype = .float32 ∧ side.addressOffset = 0
    | .huawei => pt.compose = none
    | .etango => pt.compose = none ∧ pt.dtype = .float32

/-! ## What a decoder implements -/

omit [FloatArith] in
theorem width_float32 {pt : SourcePoint} (h : pt.dtype = .float32) : pt.width = 2 := by
  rw [SourcePoint.width, h]
  rfl

omit [FloatArith] in
theorem addresses_of_addr {pt : SourcePoint} {a : ℤ} (ha : pt.addr = some a)
    (hc : pt.compose = none) : addresses pt = [a] := by
  simp [addresses, hc, ha]

/-- A reading in a dtype of as many registers as it has. -/
theorem readAs_isOk {dtype : Dtype} {regs : List ℕ} (h : registerWidth dtype ≤ regs.length)
    (wordOrder byteOrder : String) : ∃ v, readAs dtype regs wordOrder byteOrder = .ok v := by
  unfold readAs
  split_ifs with hd
  · subst hd
    exact registersToFloat_isOk h _ _
  · obtain ⟨i, hi, hle⟩ := registersToInt_isOk hd h wordOrder byteOrder
    obtain ⟨v, hv⟩ := Option.isSome_iff_exists.1 (PyFloat.ofInt?_isSome_of_le hle)
    exact ⟨v, Except.bind_eq_ok.2 ⟨i, hi, by rw [floatOfInt, hv]⟩⟩

omit [FloatArith] in
theorem length_deviceRegisters (type : SourceType) (side : SourceSide) (image : Image)
    (slave addr : ℤ) (width : ℕ) :
    (deviceRegisters type side image slave addr width).length = width := by
  cases type <;> simp [deviceRegisters]

/-- Every point has its declared readings. -/
theorem declaredReadings_isOk (type : SourceType) (side : SourceSide) (image : Image) (slave : ℤ)
    (pt : SourcePoint) : ∃ rs, declaredReadings type side image slave pt = .ok rs :=
  Except.exists_mapM_eq_ok.2 fun addr _ =>
    readAs_isOk (length_deviceRegisters type side image slave addr pt.width).ge _ _

theorem declaredValue_isOk_iff {pt : SourcePoint} {readings : List PyFloat} :
    (∃ v, declaredValue pt readings = .ok v) ↔ (PyFloat.ofInt? pt.sign).isSome = true :=
  toSi_isOk_iff

/-! ### ND45 -/

omit [FloatArith] in
theorem mem_values_of_mem_entries {side : SourceSide} {e : String × SourcePoint}
    (h : e ∈ side.points.entries) : e.2 ∈ side.points.values :=
  List.mem_map_of_mem h

omit [FloatArith] in
/-- Every address of a section that the ND45 check accepts is in a fixed block. -/
theorem nd45_covers {side : SourceSide} (h : Nd45.validateSourceCoverage side = .ok ())
    {pt : SourcePoint} (hpt : pt ∈ side.points.values) {addr : ℤ} (ha : addr ∈ addresses pt) :
    ∃ g ∈ Nd45.READ_GROUPS, Nd45.groupCovers addr g = true := by
  have hmem : addr ∈ Nd45.sourcePointAddresses side := by
    refine List.mem_flatMap.2 ⟨pt, hpt, ?_⟩
    unfold addresses at ha
    rcases pt.cases with ⟨a, hpa, hc⟩ | ⟨addrs, -, hc, hne, -, -⟩
    · simpa [hc] using ha
    · obtain ⟨b, bs, rfl⟩ := List.exists_cons_of_ne_nil hne
      simpa [hc] using ha
  unfold Nd45.validateSourceCoverage at h
  dsimp only at h
  split_ifs at h with h0
  rw [List.filter_eq_nil_iff] at h0
  simpa using h0 addr hmem

omit [FloatArith] in
/-- The reading of an address the fixed blocks cover. -/
theorem nd45_reading {side : SourceSide} {image : Image} {slave addr : ℤ}
    (h : ∃ g ∈ Nd45.READ_GROUPS, Nd45.groupCovers addr g = true) :
    Nd45.reading side (nd45Blocks image slave) addr =
      registersToFloat (regsAt image .holding slave addr 2) side.wordOrder side.byteOrder := by
  rw [Nd45.reading, nd45_extractRegisters h]
  rfl

/-- What an ND45 decodes its readings of a point into. -/
theorem nd45_decode {side : SourceSide} {groups : Blocks} {pt : SourcePoint} {rs : List PyFloat}
    (hrs : (addresses pt).mapM (Nd45.reading side groups) = .ok rs) {v : PyFloat}
    (hv : declaredValue pt rs = .ok v) : ∃ raw si, Nd45.decode side groups pt = .ok (raw, si) ∧
      (rs.any Nd45.overRange = false → si = v) := by
  rcases pt.cases with ⟨a, ha, hc⟩ | ⟨addrs, -, hc, hne, -, -⟩
  · rw [addresses_of_addr ha hc] at hrs
    obtain ⟨raw, _, hraw, hnil, rfl⟩ := List.forall₂_cons_left_iff.1 (Except.mapM_eq_ok.1 hrs)
    obtain rfl := List.forall₂_nil_left_iff.1 hnil
    obtain ⟨regs, hregs, hfloat⟩ := Except.bind_eq_ok.1 hraw
    have hsi : toSi raw pt.scale pt.sign pt.offset = .ok v := by
      simpa [declaredValue, rawOf, hc] using hv
    refine ⟨raw, v, ?_, fun _ => rfl⟩
    unfold Nd45.decode
    simp only [hc, ha, hregs, hfloat, decodePoint, hsi, bind, Except.bind]
    rfl
  · obtain ⟨a, addrs, rfl⟩ := List.exists_cons_of_ne_nil hne
    have haddr : addresses pt = a :: addrs := by rw [addresses, hc]
    have hsi : toSi (compose rs (Nd45.factorsOf pt rs.length)) pt.scale pt.sign pt.offset =
        .ok v := by
      simpa [declaredValue, rawOf, hc] using hv
    rw [haddr] at hrs
    unfold Nd45.decode
    simp only [hc, hrs, bind, Except.bind]
    cases hfind : rs.find? Nd45.overRange with
    | some part =>
      refine ⟨part, part, rfl, fun hany => ?_⟩
      have hpart := List.any_eq_false.1 hany part (List.mem_of_find?_eq_some hfind)
      exact absurd (List.find?_some hfind) hpart
    | none =>
      refine ⟨compose rs (Nd45.factorsOf pt rs.length), v, ?_, fun _ => rfl⟩
      simp [hsi, pure, Except.pure]

/-- An ND45 takes the declared readings of its float32 points, of a section without offset. -/
theorem nd45_readings {side : SourceSide} (hcov : Nd45.validateSourceCoverage side = .ok ())
    {pt : SourcePoint} (hpt : pt ∈ side.points.values) (h : Supported .nd45 side pt)
    (image : Image) (slave : ℤ) :
    (addresses pt).mapM (Nd45.reading side (nd45Blocks image slave)) =
      declaredReadings .nd45 side image slave pt := by
  obtain ⟨-, hdtype, hoff⟩ := h
  refine Except.mapM_congr fun addr ha => ?_
  rw [nd45_reading (nd45_covers hcov hpt ha), readAs, if_pos hdtype, width_float32 hdtype,
    deviceRegisters, hoff, add_zero]

theorem nd45_pointDecoded {side : SourceSide} (hcov : Nd45.validateSourceCoverage side = .ok ())
    {pt : SourcePoint} (hpt : pt ∈ side.points.values) (h : Supported .nd45 side pt)
    (image : Image) (slave : ℤ) (host key : String) :
    PointDecoded .nd45 side image slave host key pt := by
  obtain ⟨rs, hrs⟩ := declaredReadings_isOk .nd45 side image slave pt
  obtain ⟨v, hv⟩ := declaredValue_isOk_iff.2 h.1
  have hdec := (nd45_readings hcov hpt h image slave).trans hrs
  obtain ⟨raw, si, hdecode, hsi⟩ := nd45_decode hdec hv
  refine ⟨rs, hdec, hrs, ?_⟩
  cases hany : rs.any Nd45.overRange with
  | true => exact Or.inl hany
  | false =>
    refine Or.inr ⟨v, hv, ?_⟩
    rw [decodedValue, blocksRead, hdecode, hsi hany]
    rfl

/-! ### SmartLogger and e2TANGO -/

omit [FloatArith] in
theorem readGroups_of_huawei {side : SourceSide}
    (h : Huawei.validateSourceCoverage side = .ok ()) : side.readGroups.getD [] ≠ [] := by
  unfold Huawei.validateSourceCoverage at h
  split_ifs at h with hne
  exact hne

omit [FloatArith] in
theorem readGroups_of_etango {side : SourceSide}
    (h : Etango.validateSourceCoverage side = .ok ()) : side.readGroups.getD [] ≠ [] := by
  unfold Etango.validateSourceCoverage at h
  split_ifs at h with hne
  exact hne

omit [FloatArith] in
/-- A poll of declared blocks takes a point's registers at its address plus the offset. -/
theorem declared_extract {side : SourceSide} (hgroups : side.readGroups.getD [] ≠ [])
    {pt : SourcePoint} (hpt : pt ∈ side.points.values) {addr : ℤ} (ha : pt.addr = some addr)
    (image : Image) (fc : FunctionCode) (slave : ℤ) :
    extractSized pt.addr pt.width (declaredBlocks image fc side slave) =
      .ok (regsAt image fc (unitAt side slave addr pt.width) (addr + side.addressOffset)
        pt.width) := by
  rw [ha]
  refine extractSized_declaredBlocks ?_
  cases hg : side.readGroups with
  | none => simp [hg] at hgroups
  | some groups => exact side.holds_of_mem hg hpt ha

omit [FloatArith] in
theorem addr_of_compose_eq_none {pt : SourcePoint} (h : pt.compose = none) :
    ∃ a, pt.addr = some a := by
  rcases pt.cases with ⟨a, ha, -⟩ | ⟨addrs, -, hc, -⟩
  · exact ⟨a, ha⟩
  · simp [hc] at h

theorem declaredReadings_of_addr {pt : SourcePoint} {a : ℤ} (ha : pt.addr = some a)
    (hc : pt.compose = none) {type : SourceType} {side : SourceSide} {image : Image} {slave : ℤ}
    {raw : PyFloat} (h : readAs pt.dtype (deviceRegisters type side image slave a pt.width)
      side.wordOrder side.byteOrder = .ok raw) :
    declaredReadings type side image slave pt = .ok [raw] := by
  rw [declaredReadings, addresses_of_addr ha hc]
  exact Except.mapM_eq_ok.2 (.cons h .nil)

theorem rawOf_of_addr {pt : SourcePoint} (hc : pt.compose = none) (raw : PyFloat) :
    rawOf pt [raw] = raw := by
  unfold rawOf
  rw [hc]
  rfl

theorem declaredValue_of_addr {pt : SourcePoint} (hc : pt.compose = none) (raw : PyFloat) :
    declaredValue pt [raw] = toSi raw pt.scale pt.sign pt.offset := by
  rw [declaredValue, rawOf_of_addr hc]

/-- A poll of declared blocks reads the registers of a point at an address. -/
theorem exists_declared_reading {type : SourceType} (htype : type ≠ .nd45) {side : SourceSide}
    (hgroups : side.readGroups.getD [] ≠ []) {pt : SourcePoint} (hpt : pt ∈ side.points.values)
    (hc : pt.compose = none) (image : Image) (slave : ℤ) :
    ∃ a raw, pt.addr = some a ∧
      extractSized pt.addr pt.width (blocksRead type side image slave) =
        .ok (deviceRegisters type side image slave a pt.width) ∧
      readAs pt.dtype (deviceRegisters type side image slave a pt.width) side.wordOrder
        side.byteOrder = .ok raw ∧
      declaredReadings type side image slave pt = .ok [raw] := by
  obtain ⟨a, ha⟩ := addr_of_compose_eq_none hc
  have hlen := (length_deviceRegisters type side image slave a pt.width).ge
  obtain ⟨raw, hraw⟩ := readAs_isOk hlen side.wordOrder side.byteOrder
  refine ⟨a, raw, ha, ?_, hraw, declaredReadings_of_addr ha hc hraw⟩
  cases type with
  | nd45 => exact absurd rfl htype
  | huawei => exact declared_extract hgroups hpt ha image .holding slave
  | etango => exact declared_extract hgroups hpt ha image .input slave

/-- A SmartLogger poll makes of a supported point its declared value. -/
theorem huawei_decode {side : SourceSide} (hgroups : side.readGroups.getD [] ≠ [])
    {pt : SourcePoint} (hpt : pt ∈ side.points.values) (h : Supported .huawei side pt)
    (image : Image) (slave : ℤ) (host key : String) :
    Huawei.decode side (declaredBlocks image .holding side slave) pt =
      declaredPoint .huawei side image slave host key pt := by
  have hc : pt.compose = none := h.2
  obtain ⟨a, raw, ha, hreg, hraw, hrs⟩ :=
    @exists_declared_reading _ .huawei (by simp) _ hgroups _ hpt hc image slave
  have hreg : Huawei.extractRegisters pt.addr (declaredBlocks image .holding side slave)
      pt.width = .ok (deviceRegisters .huawei side image slave a pt.width) := hreg
  unfold Huawei.decode declaredPoint
  simp only [hreg, hrs, declaredValue_of_addr hc, bind, Except.bind, if_true, invalidReading,
    addresses_of_addr ha hc, List.any_cons, List.any_nil, Bool.or_false]
  unfold readAs at hraw
  by_cases hd : pt.dtype = .float32
  · rw [if_pos hd] at hraw
    have hint : registersToInt (deviceRegisters .huawei side image slave a pt.width) pt.dtype
        side.wordOrder side.byteOrder = .error
          (.valueError s!"{strRepr pt.dtype.name} is not an integer dtype") := by
      rw [hd]
      rfl
    simp only [if_pos hd, hint, decodePoint, hraw, bind, Except.bind]
    rfl
  · rw [if_neg hd] at hraw
    obtain ⟨i, hi, hx⟩ := Except.bind_eq_ok.1 hraw
    simp only [if_neg hd, decodeIntPoint, hi, hx, bind, Except.bind]

/-- An e2TANGO poll makes of a supported point its declared value. -/
theorem etango_decode {side : SourceSide} (hgroups : side.readGroups.getD [] ≠ [])
    {pt : SourcePoint} (hpt : pt ∈ side.points.values) (h : Supported .etango side pt)
    (image : Image) (slave : ℤ) (host key : String) :
    Etango.decode side (declaredBlocks image .input side slave) host key pt =
      declaredPoint .etango side image slave host key pt := by
  obtain ⟨-, hc, hd⟩ := h
  obtain ⟨a, raw, ha, hreg, hraw, hrs⟩ :=
    @exists_declared_reading _ .etango (by simp) _ hgroups _ hpt hc image slave
  have hreg : Etango.extractRegisters pt.addr (declaredBlocks image .input side slave)
      pt.width = .ok (deviceRegisters .etango side image slave a pt.width) := hreg
  have hfloat : registersToFloat (deviceRegisters .etango side image slave a pt.width)
      side.wordOrder side.byteOrder = .ok raw := by
    rwa [readAs, if_pos hd] at hraw
  unfold Etango.decode declaredPoint
  simp only [hreg, hfloat, hrs, declaredValue_of_addr hc, bind, Except.bind, invalidReading,
    List.any_cons, List.any_nil, Bool.or_false, Nd45.overRange, rawOf_of_addr hc, reduceCtorEq,
    if_false]

theorem declaredPoint_of_valid {type : SourceType} {side : SourceSide} {image : Image} {slave : ℤ}
    {pt : SourcePoint} {rs : List PyFloat}
    (hrs : declaredReadings type side image slave pt = .ok rs)
    (hvalid : invalidReading type side image slave pt rs = false) (host key : String) :
    declaredPoint type side image slave host key pt = declaredValue pt rs := by
  simp [declaredPoint, hrs, hvalid, bind, Except.bind]

/-- A point that is read and decoded as declared. -/
theorem pointDecoded_of_declared {type : SourceType} {side : SourceSide} {image : Image}
    {slave : ℤ} {host key : String} {pt : SourcePoint} {rs : List PyFloat}
    (hsign : (PyFloat.ofInt? pt.sign).isSome = true)
    (hread : decodedReadings type side (blocksRead type side image slave) pt = .ok rs)
    (hrs : declaredReadings type side image slave pt = .ok rs)
    (hdecode : decodedValue type side (blocksRead type side image slave) host key pt =
      declaredPoint type side image slave host key pt) :
    PointDecoded type side image slave host key pt := by
  refine ⟨rs, hread, hrs, ?_⟩
  cases hinv : invalidReading type side image slave pt rs with
  | true => exact Or.inl rfl
  | false =>
    obtain ⟨v, hv⟩ := (@declaredValue_isOk_iff _ pt rs).2 hsign
    refine Or.inr ⟨v, hv, ?_⟩
    rw [hdecode, declaredPoint_of_valid hrs hinv, hv]

theorem huawei_pointDecoded {side : SourceSide} (hgroups : side.readGroups.getD [] ≠ [])
    {pt : SourcePoint} (hpt : pt ∈ side.points.values) (h : Supported .huawei side pt)
    (image : Image) (slave : ℤ) (host key : String) :
    PointDecoded .huawei side image slave host key pt := by
  obtain ⟨a, raw, -, hreg, hraw, hrs⟩ :=
    @exists_declared_reading _ .huawei (by simp) _ hgroups _ hpt h.2 image slave
  have hread : decodedReadings .huawei side (blocksRead .huawei side image slave) pt =
      .ok [raw] := by
    simp only [decodedReadings, Huawei.extractRegisters, hreg, hraw, bind, Except.bind]
    rfl
  exact pointDecoded_of_declared h.1 hread hrs (huawei_decode hgroups hpt h image slave host key)

theorem etango_pointDecoded {side : SourceSide} (hgroups : side.readGroups.getD [] ≠ [])
    {pt : SourcePoint} (hpt : pt ∈ side.points.values) (h : Supported .etango side pt)
    (image : Image) (slave : ℤ) (host key : String) :
    PointDecoded .etango side image slave host key pt := by
  obtain ⟨hsign, hc, hd⟩ := id h
  obtain ⟨a, raw, -, hreg, hraw, hrs⟩ :=
    @exists_declared_reading _ .etango (by simp) _ hgroups _ hpt hc image slave
  have hread : decodedReadings .etango side (blocksRead .etango side image slave) pt =
      .ok [raw] := by
    rw [readAs, if_pos hd] at hraw
    simp only [decodedReadings, Etango.extractRegisters, hreg, hraw, bind, Except.bind]
    rfl
  exact pointDecoded_of_declared hsign hread hrs (etango_decode hgroups hpt h image slave host key)

/-- A supported point of a section that passes the check of its type is decoded as
declared. -/
theorem pointDecoded_of_supported {type : SourceType} {side : SourceSide}
    (hcov : validateCoverage type side = .ok ()) {pt : SourcePoint}
    (hpt : pt ∈ side.points.values) (h : Supported type side pt) (image : Image) (slave : ℤ)
    (host key : String) : PointDecoded type side image slave host key pt := by
  cases type with
  | nd45 => exact nd45_pointDecoded hcov hpt h image slave host key
  | huawei =>
    exact huawei_pointDecoded (readGroups_of_huawei hcov) hpt h image slave host key
  | etango =>
    exact etango_pointDecoded (readGroups_of_etango hcov) hpt h image slave host key

end Float

end DtsuBridge
