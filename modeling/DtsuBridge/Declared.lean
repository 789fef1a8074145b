import DtsuBridge.Decode

/-!
# Sections that are decoded as declared

`DecodedAsDeclared` : a poll raises no exception but its own `PollError`, and takes the
declared readings of every point of every device and turns them into
`raw * scale * sign + offset`.

The schema has more than each decoder implements, and the checks at load accept all of it.
`decodedAsDeclared_iff` : exactly the sections of `Supported` points are decoded as
declared, where no sum of a poll leaves the range of a double. A point that is not
supported is told apart by a device of zeros (`zeroImage`) or by one with a NaN at its
address (`nanImage`).
-/

namespace DtsuBridge

section Float

variable [FloatArith]

/-! ## Images that tell readings apart -/

/-- Zeros everywhere. -/
def zeroImage : Image := fun _ _ _ => 0

/-- The high word of a NaN at one address, zeros elsewhere. -/
def nanImage (hi : ℤ) (byteOrder : String) : Image := fun _ _ addr =>
  if addr = hi then (if byteOrder = "big" then 0x7FC0 else 0xC07F) else 0

/-- The address of the high word of a float32. -/
def highWord (addr : ℤ) (wordOrder : String) : ℤ :=
  if wordOrder = "big" then addr else addr + 1

omit [FloatArith] in
theorem regsAt_zeroImage (fc : FunctionCode) (unit addr : ℤ) (n : ℕ) :
    regsAt zeroImage fc unit addr n = List.replicate n 0 := by
  simp [regsAt, zeroImage]

omit [FloatArith] in
theorem wordBytes_zero (byteOrder : String) : wordBytes 0 byteOrder = (0, 0) := by
  unfold wordBytes
  split_ifs <;> rfl

omit [FloatArith] in
theorem registersToInt_zero {dtype : Dtype} (h : dtype ≠ .float32) (wordOrder byteOrder : String) :
    registersToInt (List.replicate (registerWidth dtype) 0) dtype wordOrder byteOrder = .ok 0 := by
  cases dtype
  case float32 => exact absurd rfl h
  all_goals
    simp [registerWidth, intDtypes, registersToInt, wordBytes_zero, List.replicate, fromBytes]

/-- Registers that are all zero read as zero. -/
theorem readAs_zero (dtype : Dtype) (wordOrder byteOrder : String) :
    readAs dtype (List.replicate (registerWidth dtype) 0) wordOrder byteOrder = .ok 0 := by
  unfold readAs
  split_ifs with hd
  · have hzero : unpackFloat (0, 0) (0, 0) = 0 := by decide +kernel
    simp [hd, registerWidth, intDtypes, registersToFloat, wordBytes_zero, List.replicate, hzero]
  · rw [registersToInt_zero hd]
    simp only [bind, Except.bind, floatOfInt, PyFloat.ofInt?, Int.natAbs_zero, Nat.cast_zero,
      FloatArith.round_zero]
    rfl

omit [FloatArith] in
theorem regsAt_add_two (image : Image) (fc : FunctionCode) (unit addr : ℤ) (n : ℕ) :
    regsAt image fc unit addr (n + 2) =
      image fc unit addr :: image fc unit (addr + 1) :: regsAt image fc unit (addr + 2) n := by
  simp only [regsAt, List.range_succ_eq_map, List.map_cons, List.map_map, Nat.cast_zero,
    Nat.cast_succ, add_zero, zero_add, List.cons.injEq, true_and]
  refine List.map_congr_left fun i _ => ?_
  simp only [Function.comp_apply, Nat.cast_succ]
  congr 1
  ring

omit [FloatArith] in
/-- The high word of a NaN makes a float32 a NaN. -/
theorem registersToFloat_nanImage {addr : ℤ} {wordOrder byteOrder : String} {fc : FunctionCode}
    {unit : ℤ} {n : ℕ} {r : PyFloat}
    (h : registersToFloat (regsAt (nanImage (highWord addr wordOrder) byteOrder) fc unit addr n)
      wordOrder byteOrder = .ok r) : r = .nan := by
  have hbytes : wordBytes (if byteOrder = "big" then 0x7FC0 else 0xC07F) byteOrder =
      (0x7F, 0xC0) := by
    unfold wordBytes
    split_ifs <;> rfl
  have hnan : unpackFloat (0x7F, 0xC0) (0, 0) = .nan := by decide +kernel
  match n with
  | 0 | 1 => simp [regsAt, registersToFloat] at h
  | n + 2 =>
    rw [regsAt_add_two] at h
    simp only [registersToFloat, List.map_cons, nanImage, highWord] at h
    by_cases hw : wordOrder = "big"
    · simpa [hw, hbytes, wordBytes_zero, hnan, eq_comm] using h
    · simpa [hw, hbytes, wordBytes_zero, hnan, eq_comm] using h

omit [FloatArith] in
/-- A float32 with a zero high word is no NaN. -/
theorem unpackFloat_ne_nan {lo : ℕ × ℕ} (h1 : lo.1 < 256) (h2 : lo.2 < 256) :
    unpackFloat (0, 0) lo ≠ .nan := by
  have hb : fromBytes [0, 0, lo.1, lo.2] < 2 ^ 16 := by
    simp only [fromBytes, List.foldl_cons, List.foldl_nil]
    omega
  have hmod : fromBytes [0, 0, lo.1, lo.2] % (2 ^ BinFormat.binary32.expBits *
      2 ^ BinFormat.binary32.frac) < BinFormat.binary32.infOrdinal := by
    refine (Nat.mod_le _ _).trans_lt (hb.trans ?_)
    decide
  unfold unpackFloat PyFloat.ofBits
  simp [hmod]

omit [FloatArith] in
/-- A float32 at another address is no NaN then. -/
theorem registersToFloat_nanImage_ne {addr other : ℤ} (hne : other ≠ addr)
    {wordOrder byteOrder : String} {fc : FunctionCode} {unit : ℤ} {r : PyFloat}
    (h : registersToFloat (regsAt (nanImage (highWord addr wordOrder) byteOrder) fc unit other 2)
      wordOrder byteOrder = .ok r) : r ≠ .nan := by
  set image := nanImage (highWord addr wordOrder) byteOrder with himage
  have hhigh : image fc unit (highWord other wordOrder) = 0 := by
    rw [himage, nanImage, if_neg]
    unfold highWord
    split_ifs <;> omega
  obtain ⟨h1, h2⟩ := wordBytes_lt (image fc unit (other + 1)) byteOrder
  obtain ⟨h3, h4⟩ := wordBytes_lt (image fc unit other) byteOrder
  rw [regsAt_add_two] at h
  by_cases hw : wordOrder = "big"
  · rw [highWord, if_pos hw] at hhigh
    simp only [registersToFloat, List.map_cons, hw, if_true, hhigh, wordBytes_zero,
      Except.ok.injEq] at h
    exact h ▸ unpackFloat_ne_nan h1 h2
  · rw [highWord, if_neg hw] at hhigh
    simp only [registersToFloat, List.map_cons, hw, if_false, hhigh, wordBytes_zero,
      Except.ok.injEq] at h
    exact h ▸ unpackFloat_ne_nan h3 h4

/-- An integer is no NaN. -/
theorem readAs_ne_nan {dtype : Dtype} (hd : dtype ≠ .float32) {regs : List ℕ}
    {wordOrder byteOrder : String} {r : PyFloat}
    (h : readAs dtype regs wordOrder byteOrder = .ok r) : r ≠ .nan := by
  rw [readAs, if_neg hd] at h
  obtain ⟨i, -, h⟩ := Except.bind_eq_ok.1 h
  unfold floatOfInt at h
  split at h
  next x hx =>
    obtain ⟨q, -, rfl⟩ := PyFloat.ofInt?_eq_some.1 hx
    rw [← Except.ok.inj h]
    simp
  next => cases h

/-! ## Only supported points are decoded as declared -/

omit [FloatArith] in
theorem exists_mem_addresses (pt : SourcePoint) : ∃ a, a ∈ addresses pt := by
  rcases pt.cases with ⟨a, ha, hc⟩ | ⟨addrs, -, hc, hne, -, -⟩
  · exact ⟨a, by simp [addresses_of_addr ha hc]⟩
  · obtain ⟨b, bs, rfl⟩ := List.exists_cons_of_ne_nil hne
    exact ⟨b, by simp [addresses, hc]⟩

omit [FloatArith] in
theorem deviceRegisters_zeroImage (type : SourceType) (side : SourceSide) (slave addr : ℤ)
    (width : ℕ) : deviceRegisters type side zeroImage slave addr width =
      List.replicate width 0 := by
  cases type <;> exact regsAt_zeroImage _ _ _ _

/-- On a device of zeros every reading is zero. -/
theorem declaredReadings_zeroImage {type : SourceType} {side : SourceSide} {slave : ℤ}
    {pt : SourcePoint} {rs : List PyFloat}
    (h : declaredReadings type side zeroImage slave pt = .ok rs) : ∀ r ∈ rs, r = 0 := by
  intro r hr
  obtain ⟨i, hi, rfl⟩ := List.mem_iff_getElem.1 hr
  have h := Except.mapM_eq_ok.1 h
  have hget := h.get (by rw [h.length_eq]; exact hi) hi
  rw [deviceRegisters_zeroImage] at hget
  simpa [SourcePoint.width, readAs_zero, eq_comm] using hget

/-- No reading of zero is invalid. -/
theorem invalidReading_zeroImage {type : SourceType} {side : SourceSide} {slave : ℤ}
    {pt : SourcePoint} {rs : List PyFloat}
    (h : declaredReadings type side zeroImage slave pt = .ok rs) :
    invalidReading type side zeroImage slave pt rs = false := by
  have hfloat : rs.any Nd45.overRange = false := by
    rw [List.any_eq_false]
    intro r hr
    rw [declaredReadings_zeroImage h r hr]
    decide +kernel
  cases type with
  | nd45 | etango => exact hfloat
  | huawei =>
    refine List.any_eq_false.2 fun addr _ => ?_
    rw [deviceRegisters_zeroImage, SourcePoint.width]
    by_cases hd : pt.dtype = .float32
    · simp [hd, registersToInt, intDtypes]
    · have hmark : intIsInvalid 0 pt.dtype = false := by
        cases pt.dtype <;> decide
      simp [registersToInt_zero hd, hmark]

/-- A point that a device of zeros decodes as declared has a sign that converts. -/
theorem sign_of_pointDecoded {type : SourceType} {side : SourceSide} {slave : ℤ}
    {host key : String} {pt : SourcePoint}
    (h : PointDecoded type side zeroImage slave host key pt) :
    (PyFloat.ofInt? pt.sign).isSome = true := by
  obtain ⟨rs, -, hrs, hinv | ⟨v, hv, -⟩⟩ := h
  · rw [invalidReading_zeroImage hrs] at hinv
    cases hinv
  · exact declaredValue_isOk_iff.1 ⟨v, hv⟩

/-- A decoder of declared blocks takes nothing of a composed point. -/
theorem compose_of_decodedReadings {type : SourceType} (htype : type ≠ .nd45) {side : SourceSide}
    {groups : Blocks} {pt : SourcePoint} {rs : List PyFloat}
    (h : decodedReadings type side groups pt = .ok rs) : pt.compose = none := by
  rcases pt.cases with ⟨a, ha, hc⟩ | ⟨addrs, ha, -⟩
  · exact hc
  obtain ⟨e, he⟩ := @extractSized_none pt.width groups
  cases type with
  | nd45 => exact absurd rfl htype
  | huawei => simp [decodedReadings, Huawei.extractRegisters, ha, he, bind, Except.bind] at h
  | etango => simp [decodedReadings, Etango.extractRegisters, ha, he, bind, Except.bind] at h

/-- An ND45 that decodes a point of every device as declared has it in float32, in a section
without offset. -/
theorem nd45_supported {side : SourceSide} (hcov : Nd45.validateSourceCoverage side = .ok ())
    {pt : SourcePoint} (hpt : pt ∈ side.points.values) {slave : ℤ} {host key : String}
    (h : ∀ image, PointDecoded .nd45 side image slave host key pt) : Supported .nd45 side pt := by
  refine ⟨sign_of_pointDecoded (h zeroImage), ?_⟩
  obtain ⟨a, ha⟩ := exists_mem_addresses pt
  obtain ⟨rs, hdec, hrs, -⟩ := h (nanImage (highWord a side.wordOrder) side.byteOrder)
  obtain ⟨r, -, hr, hdecl⟩ := Except.eq_ok_of_mapM hdec hrs a ha
  rw [blocksRead, nd45_reading (nd45_covers hcov hpt ha)] at hr
  have hnan := registersToFloat_nanImage hr
  have hd : pt.dtype = .float32 := by
    by_contra hd
    exact readAs_ne_nan hd hdecl hnan
  refine ⟨hd, ?_⟩
  by_contra hoff
  rw [readAs, if_pos hd, width_float32 hd, deviceRegisters] at hdecl
  exact registersToFloat_nanImage_ne (by omega) hdecl hnan

/-- An e2TANGO poll that decodes a point of every device as declared has it in float32, at
one address. -/
theorem etango_supported {side : SourceSide} (hgroups : side.readGroups.getD [] ≠ [])
    {pt : SourcePoint} (hpt : pt ∈ side.points.values) {slave : ℤ} {host key : String}
    (h : ∀ image, PointDecoded .etango side image slave host key pt) :
    Supported .etango side pt := by
  refine ⟨sign_of_pointDecoded (h zeroImage), ?_⟩
  obtain ⟨_, hzero, -⟩ := h zeroImage
  have hc := compose_of_decodedReadings (by decide) hzero
  refine ⟨hc, ?_⟩
  by_contra hd
  obtain ⟨a, ha⟩ := addr_of_compose_eq_none hc
  obtain ⟨rs, hdec, hrs, -⟩ :=
    h (nanImage (highWord (a + side.addressOffset) side.wordOrder) side.byteOrder)
  obtain ⟨regs, hregs, hdec⟩ := Except.bind_eq_ok.1 hdec
  obtain ⟨raw, hraw, hdec⟩ := Except.bind_eq_ok.1 hdec
  cases hdec
  rw [Etango.extractRegisters, blocksRead, declared_extract hgroups hpt ha] at hregs
  cases hregs
  rw [declaredReadings, addresses_of_addr ha hc] at hrs
  obtain ⟨y, _, hy, -, hys⟩ := List.forall₂_cons_left_iff.1 (Except.mapM_eq_ok.1 hrs)
  obtain ⟨rfl, -⟩ := List.cons.inj hys
  exact readAs_ne_nan hd hy (registersToFloat_nanImage hraw)

/-- A point that a poll decodes as declared on every device is supported. -/
theorem supported_of_pointDecoded {type : SourceType} {side : SourceSide}
    (hcov : validateCoverage type side = .ok ()) {pt : SourcePoint}
    (hpt : pt ∈ side.points.values) {slave : ℤ} {host key : String}
    (h : ∀ image, PointDecoded type side image slave host key pt) : Supported type side pt := by
  cases type with
  | nd45 => exact nd45_supported hcov hpt h
  | huawei =>
    obtain ⟨_, hzero, -⟩ := h zeroImage
    exact ⟨sign_of_pointDecoded (h zeroImage), compose_of_decodedReadings (by decide) hzero⟩
  | etango => exact etango_supported (readGroups_of_etango hcov) hpt h

/-! ## Polls -/

/-- Unit id and host of the devices of a source. -/
def devicesOf : SourceConf → List (ℤ × String)
  | .nd45 c | .huawei c => [(c.unitId, c.host)]
  | .etango c => c.devices.map fun device => (device.unitId, device.host)

/-- One poll of the devices. -/
def pollImages (source : SourceConf) (side : SourceSide) (images : ℕ → Image)
    (overrangeSeen : Option (Finset String)) : Except PyExc Sample :=
  (pollOnceFn source.type (makeClient source fun i => imageClient (images i)) side source.unitId
    overrangeSeen).result

/-- A poll raises nothing but its own `PollError` and decodes every point of every device as
declared. -/
structure DecodedAsDeclared (source : SourceConf) (side : SourceSide) (images : ℕ → Image) :
    Prop where
  raises : ∀ seen e, pollImages source side images seen = .error e →
    e.isPollErrorOf source.type = true
  decodes : ∀ i unit host, (devicesOf source)[i]? = some (unit, host) →
    ∀ e ∈ side.points.entries, PointDecoded source.type side (images i) unit host e.1 e.2

/-- The declared values of the points of one device. -/
def declaredSample (type : SourceType) (side : SourceSide) (image : Image) (slave : ℤ)
    (host : String) : Except PyExc Sample :=
  writeTargets (fun _ e => declaredPoint type side image slave host e.1 e.2)
    (side.points.entries.map fun e => (e.1, e)) .empty

/-- The declared and the derived values of one e2TANGO device. -/
def declaredDevice (side : SourceSide) (images : ℕ → Image) (device : EtangoDeviceConf × ℕ) :
    Except PyExc Sample := do
  let values ← declaredSample .etango side (images device.2) device.1.unitId device.1.host
  let values ← applyDerive values side.derive
  Etango.checkFinite device.1.host values
  return values

/-- The declared values of a key, of the devices that are combined. -/
def combinedReadings (c : EtangoSourceConf) (perDevice : List Sample) (key : String) :
    List PyFloat :=
  (((perDevice.zip c.devices.zipIdx).filter (·.2.1.aggregate)).map Prod.fst).filterMap (·.get? key)

/-- Of the declared values, the weights of a derive rule or the values of a key over the
devices add up past the range of a double, and no device before raises. -/
def SumOverflows (source : SourceConf) (side : SourceSide) (images : ℕ → Image) : Prop :=
  match source with
  | .nd45 _ => False
  | .huawei c => ∃ values, declaredSample .huawei side (images 0) c.unitId c.host = .ok values ∧
      DeriveOverflows (Huawei.scrub values) side.derive
  | .etango c =>
    (∃ pre device post perDevice values, c.devices.zipIdx = pre ++ device :: post ∧
        pre.mapM (declaredDevice side images) = .ok perDevice ∧
        declaredSample .etango side (images device.2) device.1.unitId device.1.host =
          .ok values ∧
        DeriveOverflows values side.derive) ∨
      ∃ perDevice key, c.devices.zipIdx.mapM (declaredDevice side images) = .ok perDevice ∧
        PyFloat.fsum (combinedReadings c perDevice key) = .error .overflow

/-! ### ND45 -/

theorem nd45_pollPoints {side : SourceSide} {groups : Blocks} :
    ∀ {points : List (String × SourcePoint)} (acc : Nd45.Gathered),
      (∀ e ∈ points, ∃ v, Nd45.decode side groups e.2 = .ok v) →
        ∃ acc', Nd45.pollPoints side groups points acc = (.ok (), acc')
  | [], acc, _ => ⟨acc, rfl⟩
  | (key, pt) :: points, acc, h => by
    obtain ⟨⟨⟨raw, si⟩, hv⟩, hrest⟩ := List.forall_mem_cons.1 h
    obtain ⟨acc', h'⟩ := nd45_pollPoints (acc.record key raw si) hrest
    refine ⟨acc', ?_⟩
    rw [Nd45.pollPoints, hv]
    exact h'

theorem nd45_raises {side : SourceSide} (hcov : Nd45.validateSourceCoverage side = .ok ())
    (hsup : ∀ e ∈ side.points.entries, Supported .nd45 side e.2) {image : Image} {slave : ℤ}
    {seen : Option (Finset String)} {e : PyExc}
    (h : (Nd45.pollOnce (imageClient image) side slave seen).result = .error e) :
    e.isPollErrorOf .nd45 = true := by
  have hdecode : ∀ e ∈ side.points.entries,
      ∃ v, Nd45.decode side (nd45Blocks image slave) e.2 = .ok v := by
    intro e he
    have hpt := mem_values_of_mem_entries he
    obtain ⟨rs, hrs⟩ := declaredReadings_isOk .nd45 side image slave e.2
    obtain ⟨v, hv⟩ := declaredValue_isOk_iff.2 (hsup e he).1
    obtain ⟨raw, si, hdec, -⟩ :=
      nd45_decode ((nd45_readings hcov hpt (hsup e he) image slave).trans hrs) hv
    exact ⟨_, hdec⟩
  obtain ⟨acc, hacc⟩ := nd45_pollPoints { notes := ⟨seen, []⟩ } hdecode
  unfold Nd45.pollOnce at h
  simp only [nd45_readGroups_imageClient, hacc] at h
  split_ifs at h
  cases h
  rfl

/-! ### SmartLogger and e2TANGO -/

/-- A supported point has a declared value, or a poll rejects its reading. -/
theorem declaredPoint_cases {type : SourceType} {side : SourceSide} {image : Image} {slave : ℤ}
    {host key : String} {pt : SourcePoint} (h : Supported type side pt) :
    (∃ v, declaredPoint type side image slave host key pt = .ok v) ∨
      type ≠ .huawei ∧ ∃ raw, declaredPoint type side image slave host key pt =
        .error (.pollError (.etangoOutOfRange host key raw)) := by
  obtain ⟨rs, hrs⟩ := declaredReadings_isOk type side image slave pt
  cases hinv : invalidReading type side image slave pt rs with
  | false =>
    rw [declaredPoint_of_valid hrs hinv]
    exact Or.inl (declaredValue_isOk_iff.2 h.1)
  | true =>
    simp only [declaredPoint, hrs, hinv, bind, Except.bind, if_true]
    by_cases ht : type = .huawei
    · exact Or.inl ⟨.nan, if_pos ht⟩
    · exact Or.inr ⟨ht, _, if_neg ht⟩

theorem huawei_decodeSource {side : SourceSide} (hgroups : side.readGroups.getD [] ≠ [])
    (hsup : ∀ e ∈ side.points.entries, Supported .huawei side e.2) (image : Image) (slave : ℤ)
    (host : String) : Huawei.decodeSource side (declaredBlocks image .holding side slave) =
      declaredSample .huawei side image slave host := by
  refine (congrArg (writeTargets _ · .empty) (List.map_id _).symm).trans ?_
  refine writeTargets_congr (a := id) (b := fun e => (e.1, e)) (fun _ => rfl) fun e he _ => ?_
  exact huawei_decode hgroups (mem_values_of_mem_entries he) (hsup e he) image slave host e.1

theorem etango_decodeSource {side : SourceSide} (hgroups : side.readGroups.getD [] ≠ [])
    (hsup : ∀ e ∈ side.points.entries, Supported .etango side e.2) (image : Image) (slave : ℤ)
    (host : String) : Etango.decodeSource side (declaredBlocks image .input side slave) host =
      declaredSample .etango side image slave host := by
  refine writeTargets_congr (fun _ => rfl) fun e he _ => ?_
  exact etango_decode hgroups (mem_values_of_mem_entries he) (hsup e he) image slave host e.1

/-- The declared values of a SmartLogger section are all there. -/
theorem huawei_declaredSample {side : SourceSide}
    (hsup : ∀ e ∈ side.points.entries, Supported .huawei side e.2) (image : Image) (slave : ℤ)
    (host : String) : ∃ values, declaredSample .huawei side image slave host = .ok values := by
  refine exists_writeTargets _ fun t ht _ => ?_
  obtain ⟨e, he, rfl⟩ := List.mem_map.1 ht
  rcases declaredPoint_cases (hsup e he) with hv | ⟨hne, -⟩
  · exact hv
  · exact absurd rfl hne

/-- A SmartLogger poll raises where the weights of a derive rule overflow their sum, and
nowhere else. -/
theorem huawei_raises_iff {side : SourceSide} (hgroups : side.readGroups.getD [] ≠ [])
    (hsup : ∀ e ∈ side.points.entries, Supported .huawei side e.2) (c : SingleHostSourceConf)
    (images : ℕ → Image) :
    (∀ seen e, pollImages (.huawei c) side images seen = .error e →
        e.isPollErrorOf .huawei = true) ↔ ¬SumOverflows (.huawei c) side images := by
  obtain ⟨values, hvalues⟩ := huawei_declaredSample hsup (images 0) c.unitId c.host
  have hdec := (huawei_decodeSource hgroups hsup (images 0) c.unitId c.host).trans hvalues
  have hgroups : Huawei.readGroups (imageClient (images 0)) side c.unitId =
      .ok (declaredBlocks (images 0) .holding side c.unitId) :=
    readDeclaredGroups_imageClient _ _ _ _ _ _
  have hpoll : ∀ seen, pollImages (.huawei c) side images seen =
      (Huawei.pollOnce (imageClient (images 0)) side c.unitId seen).result := fun _ => rfl
  have hover : SumOverflows (.huawei c) side images ↔
      DeriveOverflows (Huawei.scrub values) side.derive := by
    refine ⟨?_, fun h => ⟨values, hvalues, h⟩⟩
    rintro ⟨values', hvalues', h⟩
    obtain rfl : values' = values := by simpa [hvalues] using hvalues'.symm
    exact h
  simp only [hpoll, Huawei.pollOnce, hgroups, hdec, hover]
  rcases applyDerive_cases side.derive (Huawei.scrub values) with
    ⟨⟨derived, hderived⟩, hno⟩ | ⟨herr, hyes⟩
  · simp [hderived, hno]
  · simp [herr, hyes, PyExc.isPollErrorOf]

theorem etango_deviceValues {side : SourceSide} (hgroups : side.readGroups.getD [] ≠ [])
    (hsup : ∀ e ∈ side.points.entries, Supported .etango side e.2) (c : EtangoSourceConf)
    (images : ℕ → Image) :
    (makeClient (.etango c) fun i => imageClient (images i)).devices.mapM
        (Etango.deviceValues side) =
      c.devices.zipIdx.mapM (declaredDevice side images) := by
  refine List.mapM_map.trans (Except.mapM_congr fun device _ => ?_)
  have hread : Etango.readGroups (imageClient (images device.2)) side device.1.unitId
      device.1.host = .ok (declaredBlocks (images device.2) .input side device.1.unitId) :=
    readDeclaredGroups_imageClient _ _ _ _ _ _
  unfold Etango.deviceValues declaredDevice
  simp only [Function.comp_apply, hread, bind, Except.bind, etango_decodeSource hgroups hsup]

omit [FloatArith] in
theorem checkFinite_eq_ok {host : String} {values : Sample}
    (h : Etango.checkFinite host values = .ok ()) : ∀ e ∈ values.entries, e.2.isFinite = true := by
  unfold Etango.checkFinite at h
  split at h
  · cases h
  · next hfind => simpa using List.find?_eq_none.1 hfind

omit [FloatArith] in
theorem checkFinite_eq_error {host : String} {values : Sample} {e : PyExc}
    (h : Etango.checkFinite host values = .error e) : e.isPollErrorOf .etango = true := by
  unfold Etango.checkFinite at h
  split at h
  · cases h
    rfl
  · cases h

/-- A device that raises raises a `PollError`, or has a derive rule whose weights overflow. -/
theorem declaredDevice_eq_error {side : SourceSide}
    (hsup : ∀ e ∈ side.points.entries, Supported .etango side e.2) {images : ℕ → Image}
    {device : EtangoDeviceConf × ℕ} {e : PyExc}
    (h : declaredDevice side images device = .error e) :
    e.isPollErrorOf .etango = true ∨ ∃ values,
      declaredSample .etango side (images device.2) device.1.unitId device.1.host = .ok values ∧
        DeriveOverflows values side.derive := by
  rcases Except.bind_eq_error.1 h with h | ⟨values, hvalues, h⟩
  · obtain ⟨t, ht, _, h⟩ := writeTargets_eq_error h
    obtain ⟨p, hp, rfl⟩ := List.mem_map.1 ht
    rcases declaredPoint_cases (hsup p hp) with ⟨v, hv⟩ | ⟨-, raw, hraw⟩
    · cases hv.symm.trans h
    · cases hraw.symm.trans h
      exact Or.inl rfl
  rcases applyDerive_cases side.derive values with ⟨⟨derived, hderived⟩, -⟩ | ⟨-, hover⟩
  · rw [hderived] at h
    rcases Except.bind_eq_error.1 h with h | ⟨_, h', h⟩
    · cases h
    · obtain rfl := Except.ok.inj h'
      rcases Except.bind_eq_error.1 h with h | ⟨_, -, h⟩
      · exact Or.inl (checkFinite_eq_error h)
      · cases h
  · exact Or.inr ⟨values, hvalues, hover⟩

/-- A device whose weights overflow raises no `PollError`. -/
theorem declaredDevice_of_overflow {side : SourceSide} {images : ℕ → Image}
    {device : EtangoDeviceConf × ℕ} {values : Sample}
    (hvalues : declaredSample .etango side (images device.2) device.1.unitId device.1.host =
      .ok values) (h : DeriveOverflows values side.derive) :
    declaredDevice side images device =
      .error (.overflowError "intermediate overflow in fsum") := by
  refine Except.bind_eq_error.2 (Or.inr ⟨values, hvalues, Except.bind_eq_error.2 (Or.inl ?_)⟩)
  rcases applyDerive_cases side.derive values with ⟨-, hno⟩ | ⟨herr, -⟩
  · exact absurd h hno
  · exact herr

/-- The values of a device are finite. -/
theorem isFinite_of_declaredDevice {side : SourceSide} {images : ℕ → Image}
    {device : EtangoDeviceConf × ℕ} {values : Sample}
    (h : declaredDevice side images device = .ok values) :
    ∀ e ∈ values.entries, e.2.isFinite = true := by
  obtain ⟨_, -, h⟩ := Except.bind_eq_ok.1 h
  obtain ⟨_, -, h⟩ := Except.bind_eq_ok.1 h
  obtain ⟨_, hfin, h⟩ := Except.bind_eq_ok.1 h
  cases h
  exact checkFinite_eq_ok hfin

/-- A key of finite values combines unless they overflow their sum. -/
theorem combineKey_isOk {perDevice : List Sample} {side : SourceSide} {key : String}
    (hfin : ∀ values ∈ perDevice, ∀ e ∈ values.entries, e.2.isFinite = true)
    (hmem : ∃ values ∈ perDevice, key ∈ values.keys)
    (hover : PyFloat.fsum (perDevice.filterMap (·.get? key)) ≠ .error .overflow) :
    ∃ v, Etango.combineKey perDevice side key = .ok v := by
  have hne : (perDevice.filterMap (·.get? key)).length ≠ 0 := by
    obtain ⟨values, hv, hk⟩ := hmem
    obtain ⟨x, hx⟩ := Option.isSome_iff_exists.1 (Dict.isSome_get?_iff.2 hk)
    exact List.length_pos_of_mem (List.mem_filterMap.2 ⟨values, hv, hx⟩) |>.ne'
  have hinf : PyFloat.inf true ∉ perDevice.filterMap (·.get? key) := by
    intro h
    obtain ⟨values, hv, hx⟩ := List.mem_filterMap.1 h
    have := hfin values hv _ (Dict.mem_entries_of_get? hx)
    simp at this
  rcases PyFloat.fsum_cases hinf with h | ⟨s, hs⟩
  · exact absurd h hover
  · unfold Etango.combineKey
    simp only [fsum, hs, bind, Except.bind]
    split_ifs
    · exact ⟨s, rfl⟩
    · exact divLen_isOk hne

theorem combineKey_eq_error {perDevice : List Sample} {side : SourceSide} {key : String}
    {e : PyExc} (h : Etango.combineKey perDevice side key = .error e) :
    e.isPollErrorOf .etango = false := by
  rcases Except.bind_eq_error.1 h with h | ⟨total, -, h⟩
  · unfold fsum at h
    split at h <;> cases h <;> rfl
  · split_ifs at h
    · cases h
    · unfold divLen at h
      split_ifs at h
      cases h
      rfl

/-- Finite values combine unless those of a key overflow their sum, which raises. -/
theorem combine_cases {perDevice : List Sample} {side : SourceSide}
    (hfin : ∀ values ∈ perDevice, ∀ e ∈ values.entries, e.2.isFinite = true) :
    (∃ key, PyFloat.fsum (perDevice.filterMap (·.get? key)) = .error .overflow) ∧
        (∃ e, Etango.combine perDevice side = .error e ∧ e.isPollErrorOf .etango = false) ∨
      (¬∃ key, PyFloat.fsum (perDevice.filterMap (·.get? key)) = .error .overflow) ∧
        ∃ values, Etango.combine perDevice side = .ok values := by
  by_cases hover : ∃ key, PyFloat.fsum (perDevice.filterMap (·.get? key)) = .error .overflow
  · refine Or.inl ⟨hover, ?_⟩
    obtain ⟨key, hkey⟩ := hover
    rcases Except.ok_or_error (Etango.combine perDevice side) with ⟨values, h⟩ | ⟨e, h⟩
    · have hmem : key ∈ (perDevice.flatMap (·.keys)).dedup := by
        by_contra hmem
        have hnil : perDevice.filterMap (·.get? key) = [] := by
          refine List.filterMap_eq_nil_iff.2 fun values hv => Dict.get?_eq_none_iff.2 fun hk => ?_
          exact hmem (List.mem_dedup.2 (List.mem_flatMap.2 ⟨values, hv, hk⟩))
        rw [hnil, PyFloat.fsum_nil] at hkey
        cases hkey
      obtain ⟨_, v, hv⟩ := isOk_of_writeTargets h _ (List.mem_map_of_mem hmem)
      unfold Etango.combineKey at hv
      simp [fsum, hkey, bind, Except.bind] at hv
    · obtain ⟨t, -, _, ht⟩ := writeTargets_eq_error h
      exact ⟨e, h, combineKey_eq_error ht⟩
  · refine Or.inr ⟨hover, exists_writeTargets _ fun t ht _ => ?_⟩
    obtain ⟨key, hkey, rfl⟩ := List.mem_map.1 ht
    rw [List.mem_dedup, List.mem_flatMap] at hkey
    exact combineKey_isOk hfin hkey fun h => hover ⟨key, h⟩

/-- Where every device is decoded, the sum that overflows is over the devices. -/
theorem sumOverflows_of_ok {side : SourceSide} {c : EtangoSourceConf} {images : ℕ → Image}
    {perDevice : List Sample}
    (hper : c.devices.zipIdx.mapM (declaredDevice side images) = .ok perDevice) :
    SumOverflows (.etango c) side images ↔
      ∃ key, PyFloat.fsum (combinedReadings c perDevice key) = .error .overflow := by
  refine ⟨?_, fun ⟨key, h⟩ => Or.inr ⟨perDevice, key, hper, h⟩⟩
  rintro (⟨pre, device, post, ys, values, hsplit, hpre, hvalues, h⟩ | ⟨ys, key, hys, h⟩)
  · have := Except.mapM_eq_error.2 ⟨pre, device, post, ys, hsplit, hpre,
      declaredDevice_of_overflow hvalues h⟩
    cases hper.symm.trans this
  · obtain rfl := Except.ok.inj (hper.symm.trans hys)
    exact ⟨key, h⟩

/-- Where a device raises, it is a sum that overflows or a `PollError`. -/
theorem sumOverflows_of_error {side : SourceSide}
    (hsup : ∀ e ∈ side.points.entries, Supported .etango side e.2) {c : EtangoSourceConf}
    {images : ℕ → Image} {e : PyExc}
    (herr : c.devices.zipIdx.mapM (declaredDevice side images) = .error e) :
    SumOverflows (.etango c) side images ↔ e.isPollErrorOf .etango = false := by
  obtain ⟨pre, device, post, ys, hsplit, hpre, hdev⟩ := Except.mapM_eq_error.1 herr
  refine ⟨?_, fun he => ?_⟩
  · rintro (⟨pre', device', post', ys', values, hsplit', hpre', hvalues, h⟩ | ⟨ys', key, hys, -⟩)
    · have := Except.mapM_eq_error.2 ⟨pre', device', post', ys', hsplit', hpre',
        declaredDevice_of_overflow hvalues h⟩
      cases herr.symm.trans this
      rfl
    · cases herr.symm.trans hys
  · rcases declaredDevice_eq_error hsup hdev with h | ⟨values, hvalues, h⟩
    · simp [he] at h
    · exact Or.inl ⟨pre, device, post, ys, values, hsplit, hpre, hvalues, h⟩

/-- An e2TANGO poll raises something else than a `PollError` exactly where a sum overflows. -/
theorem etango_raises_iff {side : SourceSide} (hgroups : side.readGroups.getD [] ≠ [])
    (hsup : ∀ e ∈ side.points.entries, Supported .etango side e.2) (c : EtangoSourceConf)
    (images : ℕ → Image) :
    (∀ seen e, pollImages (.etango c) side images seen = .error e →
        e.isPollErrorOf .etango = true) ↔ ¬SumOverflows (.etango c) side images := by
  set devices := (makeClient (.etango c) fun i => imageClient (images i)).devices with hdevices
  have hpoll : ∀ seen, pollImages (.etango c) side images seen = (do
      let perDevice ← devices.mapM (Etango.deviceValues side)
      let combined ← Etango.combine (Etango.aggregating perDevice devices) side
      return computeDerived combined) := fun _ => rfl
  have hreadings : ∀ perDevice key, (Etango.aggregating perDevice devices).filterMap
      (·.get? key) = combinedReadings c perDevice key := by
    intro perDevice key
    rw [hdevices, Etango.aggregating_makeClient, combinedReadings]
  simp only [hpoll, hdevices ▸ etango_deviceValues hgroups hsup c images]
  rcases Except.ok_or_error (c.devices.zipIdx.mapM (declaredDevice side images)) with
    ⟨perDevice, hper⟩ | ⟨e, herr⟩
  · have hfin : ∀ values ∈ Etango.aggregating perDevice devices,
        ∀ e ∈ values.entries, e.2.isFinite = true := by
      intro values hv
      obtain ⟨i, hi, rfl⟩ := List.mem_iff_getElem.1 (Etango.mem_of_mem_aggregating hv)
      have hall := Except.mapM_eq_ok.1 hper
      exact isFinite_of_declaredDevice (hall.get (by rw [hall.length_eq]; exact hi) hi)
    have hover := sumOverflows_of_ok hper
    rcases @combine_cases _ _ side hfin with ⟨hkey, e, he, hno⟩ | ⟨hkey, values, hvalues⟩
    · simp only [hreadings] at hkey
      simp [hper, he, bind, Except.bind, hover, hkey, hno]
    · simp only [hreadings] at hkey
      simp [hper, hvalues, bind, Except.bind, hover, hkey, pure, Except.pure]
  · simp [herr, bind, Except.bind, sumOverflows_of_error hsup herr]

/-! ## The sections that are decoded as declared -/

omit [FloatArith] in
theorem exists_devicesOf (source : SourceConf) : ∃ unit host,
    (devicesOf source)[0]? = some (unit, host) := by
  cases source with
  | nd45 c | huawei c => exact ⟨_, _, rfl⟩
  | etango c =>
    obtain ⟨device, hmem, -⟩ := c.exists_aggregate
    obtain ⟨d, ds, hds⟩ := List.exists_cons_of_ne_nil (List.ne_nil_of_mem hmem)
    exact ⟨d.unitId, d.host, by simp [devicesOf, hds]⟩

/-- A section of supported points is decoded as declared where no sum overflows. -/
theorem decodedAsDeclared_of_supported {source : SourceConf} {side : SourceSide}
    (hcov : validateCoverage source.type side = .ok ())
    (hsup : ∀ e ∈ side.points.entries, Supported source.type side e.2) (images : ℕ → Image) :
    DecodedAsDeclared source side images ↔ ¬SumOverflows source side images := by
  have hraises : (∀ seen e, pollImages source side images seen = .error e →
      e.isPollErrorOf source.type = true) ↔ ¬SumOverflows source side images := by
    cases source with
    | nd45 c => exact ⟨fun _ => id, fun _ seen e h => nd45_raises hcov hsup h⟩
    | huawei c => exact huawei_raises_iff (readGroups_of_huawei hcov) hsup c images
    | etango c => exact etango_raises_iff (readGroups_of_etango hcov) hsup c images
  rw [← hraises]
  refine ⟨fun h => h.raises, fun h => ⟨h, fun i unit host _ e he => ?_⟩⟩
  exact pointDecoded_of_supported hcov (mem_values_of_mem_entries he) (hsup e he) _ _ _ _

/-- A section that the check of its type accepts is decoded as declared on every device
exactly when its points are supported and no device makes a sum overflow, and where its
points are supported, on exactly the devices that make none overflow. -/
theorem decodedAsDeclared_iff {source : SourceConf} {side : SourceSide}
    (hcov : validateCoverage source.type side = .ok ()) :
    ((∀ images, DecodedAsDeclared source side images) ↔
      (∀ e ∈ side.points.entries, Supported source.type side e.2) ∧
        ∀ images, ¬SumOverflows source side images) ∧
    ((∀ e ∈ side.points.entries, Supported source.type side e.2) →
      ∀ images, DecodedAsDeclared source side images ↔ ¬SumOverflows source side images) := by
  have hsup : (∀ images, DecodedAsDeclared source side images) →
      ∀ e ∈ side.points.entries, Supported source.type side e.2 := by
    intro h e he
    obtain ⟨unit, host, hdevice⟩ := exists_devicesOf source
    have hdecoded : ∀ image, PointDecoded source.type side image unit host e.1 e.2 :=
      fun image => (h fun _ => image).decodes 0 unit host hdevice e he
    exact supported_of_pointDecoded hcov (mem_values_of_mem_entries he) hdecoded
  have hiff := @decodedAsDeclared_of_supported _ source side hcov
  refine ⟨⟨fun h => ⟨hsup h, fun images => ?_⟩, fun ⟨h, hover⟩ images => ?_⟩, hiff⟩
  · exact (hiff (hsup h) images).1 (h images)
  · exact (hiff h images).2 (hover images)

end Float

/-- An ND45 section of one float32 is decoded as declared. -/
theorem decodedAsDeclared_freqSource :
    @DecodedAsDeclared .double nd45Conf freqSource fun _ => zeroImage := by
  have hcov : validateCoverage nd45Conf.type freqSource = .ok () := by rfl
  have hsup : ∀ e ∈ freqSource.points.entries,
      @Supported .double nd45Conf.type freqSource e.2 := by
    intro e he
    obtain rfl := List.mem_singleton.1 he
    exact ⟨by decide +kernel, rfl, rfl⟩
  exact ((@decodedAsDeclared_iff .double _ _ hcov).2 hsup _).2 id

/-- A 16-bit integer of an ND45. -/
def u16Point : SourcePoint where
  addr := some 818
  dtype := .u16
  shape := rfl

def u16Source : SourceSide where
  points := ⟨[("freq", u16Point)], by simp⟩
  covered := rfl

/-- A device with 5000 in that register. -/
def u16Image : Image := fun _ _ addr => if addr = 818 then 5000 else 0

/-- The section loads, passes the check of its type, and is decoded as a float32. -/
theorem not_decodedAsDeclared_u16Source : validateCoverage .nd45 u16Source = .ok () ∧
    ¬@DecodedAsDeclared .double nd45Conf u16Source fun _ => u16Image := by
  refine ⟨by rfl, fun h => ?_⟩
  have hne : @decodedReadings .double .nd45 u16Source (blocksRead .nd45 u16Source u16Image 1)
        u16Point ≠ @declaredReadings .double .nd45 u16Source u16Image 1 u16Point := by
    decide +kernel
  have hdecoded : @PointDecoded .double .nd45 u16Source u16Image 1 "nd45" "freq" u16Point :=
    @DecodedAsDeclared.decodes .double _ _ _ h 0 1 "nd45" rfl ("freq", u16Point)
      (List.mem_singleton_self _)
  obtain ⟨rs, hdec, hrs, -⟩ := hdecoded
  exact hne (hdec.trans hrs.symm)

end DtsuBridge
