import DtsuBridge.Nd45Acceptance
import DtsuBridge.Registers
import DtsuBridge.EncodeOrder
import DtsuBridge.Lib.RoundingError

/-!
# How far a served value is off the meter's

A reading of the meter is scaled into a canonical value (`declaredValue`), which is divided by
the CT ratio, scaled and rounded to a float32 for the registers of an output map
(`servedValue`). Both conversions are formulas over the rationals, `exactSi` and `exactServed`. The
bridge computes them in double precision, and every operation of it rounds.

`declared_near` and `served_near` : what either conversion is off, whatever the scales, signs and
offsets of the points. `inverter_reads_meter` : after a poll of an ND45 is published, what an
inverter decodes from the registers of a point that readings feed is off the exact conversion of the
meter's own registers by no more than the roundings on the way, of which that to a float32 is the
largest.
-/

namespace DtsuBridge

open PyFloat (relError absError)

/-! ## The exact conversions -/

/-- The products of the parts of a point with their factors. -/
def exactParts (pt : SourcePoint) (readings : List PyFloat) : List ℚ :=
  (readings.zip (Nd45.factorsOf pt readings.length)).map fun p => p.1.toRat * p.2.toRat

/-- The reading of a point, or the weighted sum of those of its parts. -/
def exactRaw (pt : SourcePoint) (readings : List PyFloat) : ℚ :=
  match pt.compose with
  | some _ => (exactParts pt readings).sum
  | none => (readings.headD .nan).toRat

/-- The magnitudes of what is added up. -/
def rawMagnitude (pt : SourcePoint) (readings : List PyFloat) : ℚ :=
  match pt.compose with
  | some _ => ((exactParts pt readings).map abs).sum
  | none => |(readings.headD .nan).toRat|

/-- `raw * scale * sign + offset` -/
def exactSi (pt : SourcePoint) (readings : List PyFloat) : ℚ :=
  exactRaw pt readings * pt.scale.toRat * pt.sign + pt.offset.toRat

def siMagnitude (pt : SourcePoint) (readings : List PyFloat) : ℚ :=
  rawMagnitude pt readings * |pt.scale.toRat| * |(pt.sign : ℚ)| + |pt.offset.toRat|

/-- How many times the error of one rounding that underflows is in a canonical value. -/
def siUnderflows (pt : SourcePoint) (parts : ℕ) : ℚ :=
  (2 * parts * |pt.scale.toRat| + 1) * |(pt.sign : ℚ)| + 2

theorem siUnderflows_nonneg (pt : SourcePoint) (parts : ℕ) : 0 ≤ siUnderflows pt parts := by
  unfold siUnderflows
  positivity

/-- The ratio a point divides by. -/
def divisor (pt : TargetPoint) (ctRatio : PyFloat) : ℚ :=
  if pt.divideByCt then ctRatio.toRat else 1

/-- `si / ct * sign * scale + offset` -/
def exactServed (pt : TargetPoint) (ctRatio : PyFloat) (si : ℚ) : ℚ :=
  si / divisor pt ctRatio * pt.sign * pt.scale.toRat + pt.offset.toRat

def servedMagnitude (pt : TargetPoint) (ctRatio : PyFloat) (magnitude : ℚ) : ℚ :=
  magnitude / |divisor pt ctRatio| * |(pt.sign : ℚ)| * |pt.scale.toRat| + |pt.offset.toRat|

/-- The same of the value a point serves, of that of its canonical value. -/
def servedUnderflows (pt : TargetPoint) (ctRatio : PyFloat) (underflows : ℚ) : ℚ :=
  ((underflows / |divisor pt ctRatio| + 1) * |(pt.sign : ℚ)| + 1) * |pt.scale.toRat| + 2

/-- The growth of an error by `n` roundings of double precision. -/
def doubleGrowth (n : ℕ) : ℚ :=
  (1 + relError .binary64) ^ n

/-- The growth of an error by the rounding to a float32, and where the low word is cleared. -/
def storedGrowth (zeroLowWord : Bool) : ℚ :=
  (1 + 1 / 2 ^ 24) * if zeroLowWord then 1 + 1 / 2 ^ 7 else 1

/-- The growth of an error from the readings of a point, `n` of them, to the registers. -/
def servedGrowth (point : TargetPoint) (n : ℕ) : ℚ :=
  doubleGrowth (n + 10) * storedGrowth point.zeroLowWord

/-- What is lost of a value below the normal float32. -/
def storedUnderflow (zeroLowWord : Bool) : ℚ :=
  1 / 2 ^ 150 + if zeroLowWord then 1 / 2 ^ 133 else 0

/-! ## What the codec rounds -/

/-- A float is stored rounded to single precision, less its low word. -/
theorem near_storedFloat {v : PyFloat} (hv : fitsFloat32 v = true) (zeroLowWord : Bool)
    {g w A y : ℚ} (h : Near g w A v.toRat y) (hg : 1 ≤ g) :
    Near (g * storedGrowth zeroLowWord) (w + storedUnderflow zeroLowWord) A
      (storedFloat zeroLowWord v).toRat y := by
  obtain ⟨neg, m, rfl⟩ := PyFloat.isFinite_iff.1 (isFinite_of_fitsFloat32 hv)
  have hsingle := h.round hg (PyFloat.relError_nonneg _) (PyFloat.absError_nonneg _)
    (PyFloat.abs_value_sub_le .binary32 neg m)
  have hrel : relError .binary32 = 1 / 2 ^ 24 := rfl
  have habs : absError .binary32 = 1 / 2 ^ 150 := rfl
  rw [hrel, habs] at hsingle
  cases zeroLowWord with
  | false =>
    rw [storedGrowth, storedUnderflow, if_neg Bool.false_ne_true, if_neg Bool.false_ne_true,
      mul_one, add_zero]
    exact hsingle
  | true =>
    have hlost := @BinFormat.value_sub_clearLow_le .binary32 16 (by decide)
      (BinFormat.binary32.ordinal m)
    have hle := BinFormat.binary32.value_strictMono.monotone
      (BinFormat.clearLow_le 16 (BinFormat.binary32.ordinal m))
    rw [storedGrowth, storedUnderflow, if_pos rfl, if_pos rfl, ← mul_assoc, ← add_assoc]
    refine hsingle.round (one_le_mul_of_one_le_of_one_le hg (by norm_num)) (by norm_num)
      (by norm_num) ?_
    rw [storedFloat_fin, if_pos rfl, PyFloat.toRat_fin, PyFloat.abs_signed_sub_signed,
      PyFloat.abs_signed, abs_sub_comm, abs_of_nonneg (sub_nonneg.2 (NNRat.coe_le_coe.2 hle))]
    refine hlost.trans (le_of_eq ?_)
    norm_num [BinFormat.binary32]

theorem one_le_doubleGrowth (n : ℕ) : 1 ≤ doubleGrowth n :=
  one_le_pow₀ (PyFloat.one_le_one_add _)

theorem doubleGrowth_mono {n n' : ℕ} (h : n ≤ n') : doubleGrowth n ≤ doubleGrowth n' :=
  pow_le_pow_right₀ (PyFloat.one_le_one_add _) h

theorem doubleGrowth_succ (n : ℕ) :
    doubleGrowth n * (1 + relError .binary64) = doubleGrowth (n + 1) :=
  (pow_succ _ _).symm

section Double

variable [FloatArith] [FloatArith.RoundsTo .binary64]

theorem near_rawOf {pt : SourcePoint} {readings : List PyFloat}
    (hfin : (rawOf pt readings).isFinite = true) :
    Near (doubleGrowth (readings.length + 1)) (2 * readings.length * absError .binary64)
      (rawMagnitude pt readings) (rawOf pt readings).toRat (exactRaw pt readings) := by
  have hη := PyFloat.absError_nonneg .binary64
  unfold rawOf rawMagnitude exactRaw at *
  cases hc : pt.compose with
  | none =>
    exact (Near.refl _).mono (one_le_doubleGrowth _) zero_le_one (by positivity) le_rfl
  | some addrs =>
    rw [hc] at hfin
    dsimp only at hfin ⊢
    set ps := readings.zip (Nd45.factorsOf pt readings.length) with hps
    have hsum : compose readings (Nd45.factorsOf pt readings.length) =
        .sum (ps.map fun p => p.1.mul p.2) := by
      rw [compose, hps, List.map_zip_eq_zipWith]
      rfl
    have hlen : ps.length ≤ readings.length := by
      rw [hps, List.length_zip]
      exact min_le_left _ _
    rw [hsum] at hfin ⊢
    have hparts : ∀ p ∈ ps, (p.1.mul p.2).isFinite = true →
        Near (doubleGrowth 1) (absError .binary64) |p.1.toRat * p.2.toRat| (p.1.mul p.2).toRat
          (p.1.toRat * p.2.toRat) := by
      intro p _ hp
      have hmul := PyFloat.near_mul (Near.refl p.1.toRat) le_rfl hp
      rw [abs_mul]
      simpa [doubleGrowth] using hmul
    have hnear := PyFloat.near_sum hparts (one_le_doubleGrowth 1) hη hfin
    rw [exactParts, ← hps, List.map_map]
    refine hnear.mono ?_ ?_ ?_ (by positivity)
    · rw [doubleGrowth, ← pow_add, Nat.add_comm]
      exact doubleGrowth_mono (Nat.add_le_add_right hlen 1)
    · exact mul_nonneg (zero_le_one.trans (one_le_doubleGrowth 1))
        (pow_nonneg (zero_le_one.trans (PyFloat.one_le_one_add _)) _)
    · have hlen' : (ps.length : ℚ) ≤ readings.length := Nat.cast_le.2 hlen
      nlinarith

/-- The roundings of a canonical value : those of its parts, the product with the scale, the
sign and the product with it, and the sum with the offset. -/
theorem declared_near {pt : SourcePoint} {readings : List PyFloat} {si : PyFloat}
    (h : declaredValue pt readings = .ok si) (hfin : si.isFinite = true) :
    Near (doubleGrowth (readings.length + 5))
      (siUnderflows pt readings.length * absError .binary64) (siMagnitude pt readings) si.toRat
      (exactSi pt readings) := by
  obtain ⟨s, hs, rfl⟩ := toSi_eq_ok.1 h
  have hsigned := (PyFloat.isFinite_of_add_both hfin).1
  have hscaled := PyFloat.isFinite_of_mul hsigned
  have hg := one_le_doubleGrowth
  have hraw := near_rawOf (PyFloat.isFinite_of_mul hscaled)
  have hscale := PyFloat.near_mul hraw (hg _) hscaled
  rw [doubleGrowth_succ] at hscale
  have hsign := PyFloat.near_mul_int (by decide) hscale (hg _) hs hsigned
  rw [doubleGrowth_succ, doubleGrowth_succ] at hsign
  have hsum := PyFloat.near_add_const hsign (hg _) hfin
  rw [doubleGrowth_succ] at hsum
  refine cast (congrArg (Near _ · _ _ _) ?_) hsum
  rw [siUnderflows]
  ring

/-- A point that does not divide by the ratio rounds nothing for it. -/
theorem near_divided {point : TargetPoint} {ctRatio si : PyFloat}
    (hct : point.divideByCt = true → ctRatioOk ctRatio = true) {n : ℕ} {u A y : ℚ}
    (hu : 0 ≤ u) (h : Near (doubleGrowth n) (u * absError .binary64) A si.toRat y)
    (hfin : (if point.divideByCt then si.div ctRatio else si).isFinite = true) :
    Near (doubleGrowth (n + 1)) ((u / |divisor point ctRatio| + 1) * absError .binary64)
      (A / |divisor point ctRatio|) (if point.divideByCt then si.div ctRatio else si).toRat
      (y / divisor point ctRatio) := by
  unfold divisor
  split_ifs at hfin ⊢ with hd
  · have hdiv := PyFloat.near_div h (one_le_doubleGrowth _) (ctRatioOk_iff.1 (hct hd)).1 hfin
    rw [doubleGrowth_succ] at hdiv
    refine cast (congrArg (Near _ · _ _ _) ?_) hdiv
    ring
  · rw [abs_one, div_one, div_one, div_one]
    have hg := one_le_doubleGrowth
    have hη := PyFloat.absError_nonneg .binary64
    refine h.mono (doubleGrowth_mono n.le_succ) (zero_le_one.trans (hg n)) ?_ ?_
    · exact mul_le_mul_of_nonneg_right (le_add_of_nonneg_right zero_le_one) hη
    · exact mul_nonneg hu hη

/-- The roundings of a served value : the quotient, the sign and the product with it, the product
with the scale, the sum with the offset, and what is stored. -/
theorem served_near {point : TargetPoint} {target : TargetSide} {ctRatio si v : PyFloat}
    (hserved : servedValue si point target ctRatio = .ok v) {n : ℕ} {u A y : ℚ}
    (hu : 0 ≤ u) (h : Near (doubleGrowth n) (u * absError .binary64) A si.toRat y) :
    Near (doubleGrowth (n + 5) * storedGrowth point.zeroLowWord)
      (servedUnderflows point ctRatio u * absError .binary64 +
        storedUnderflow point.zeroLowWord)
      (servedMagnitude point ctRatio A) v.toRat (exactServed point ctRatio y) := by
  obtain ⟨hct, s, hs, hfit, rfl⟩ := servedValue_eq_ok.1 hserved
  refine near_storedFloat hfit point.zeroLowWord ?_ (one_le_doubleGrowth _)
  have hfin := isFinite_of_fitsFloat32 hfit
  unfold convertedValue at hfin ⊢
  have hscaled := (PyFloat.isFinite_of_add_both hfin).1
  have hsigned := PyFloat.isFinite_of_mul hscaled
  have hdivided := PyFloat.isFinite_of_mul hsigned
  have hg := one_le_doubleGrowth
  have hratio := near_divided hct hu h hdivided
  have hsign := PyFloat.near_mul_int (by decide) hratio (hg _) hs hsigned
  rw [doubleGrowth_succ, doubleGrowth_succ] at hsign
  have hscale := PyFloat.near_mul hsign (hg _) hscaled
  rw [doubleGrowth_succ] at hscale
  have hsum := PyFloat.near_add_const hscale (hg _) hfin
  rw [doubleGrowth_succ] at hsum
  refine cast (congrArg (Near _ · _ _ _) ?_) hsum
  rw [servedUnderflows]
  ring

/-! ## From the meter to the inverter -/

omit [FloatArith.RoundsTo .binary64] in
/-- A sample of an ND45 has the declared value of every point that is neither derived nor
replaced by zero when it is invalid. -/
theorem nd45_sample {source : SourceSide} (hcov : Nd45.validateSourceCoverage source = .ok ())
    {image : Image} {slave : ℤ} {seen : Option (Finset String)} {values : Sample}
    (hpoll : (Nd45.pollOnce (imageClient image) source slave seen).result = .ok values)
    {e : String × SourcePoint} (he : e ∈ source.points.entries)
    (hderived : e.1 ∉ DERIVED_CANONICAL_KEYS)
    (hoptional : e.1 ∈ Nd45.OPTIONAL_INVALID_ZERO_POINTS →
      ¬Nd45.Invalid source (nd45Blocks image slave) e.2) :
    ∃ readings si, Nd45.rawFloats source (nd45Blocks image slave) e.2 = .ok readings ∧
      declaredValue e.2 readings = .ok si ∧ si.isFinite = true ∧ values.get? e.1 = some si := by
  have hans := Nd45.answers_imageClient image slave
  have hreads : ∀ e ∈ source.points.entries, ∃ readings,
      Nd45.rawFloats source (nd45Blocks image slave) e.2 = .ok readings := fun e he =>
    Nd45.rawFloats_isOk hcov hans.lengths (mem_values_of_mem_entries he)
  have hsigns : ∀ e ∈ source.points.entries,
      ¬Nd45.SignOverflows source (nd45Blocks image slave) e.2 := by
    intro e he hover
    obtain ⟨acc', hloop⟩ := Nd45.pollPoints_overflows { notes := ⟨seen, []⟩ } hreads ⟨e, he, hover⟩
    simp only [Nd45.pollOnce, Nd45.readGroups_of_answers hans, hloop] at hpoll
    cases hpoll
  obtain ⟨acc', hloop, htaken, -, hcritical⟩ :=
    Nd45.pollPoints_taken { notes := ⟨seen, []⟩ } source.points.nodup hreads hsigns
  simp only [Nd45.pollOnce, Nd45.readGroups_of_answers hans, hloop] at hpoll
  split_ifs at hpoll with hc
  obtain rfl := Except.ok.inj hpoll
  have hvalid : ¬Nd45.Invalid source (nd45Blocks image slave) e.2 := fun hinv =>
    hoptional ((hcritical.1 (not_not.1 hc)).2 e he hinv) hinv
  obtain ⟨readings, si, hr, hsi, hrange, hget⟩ := (htaken e he).2 hvalid
  obtain ⟨neg, q, rfl, -⟩ := Nd45.overRange_eq_false hrange
  exact ⟨readings, _, hr, hsi, rfl, (get?_computeDerived_of_not_mem _ hderived).trans hget⟩

/-- After a poll of an ND45 is published and the maps keep out of each other's registers, an
inverter decodes from the registers of a point a value that is off the exact conversion of the
meter's readings by the roundings of double precision, that to a float32 and the low word if it
is cleared, in parts of the magnitude of what is added up, and by what underflows. Left out are the
points of the energy aliases, and of a power factor that zero stands in for. -/
theorem inverter_reads_meter {m : RegisterMap} {cfg : DtsuConf} {ctRatio : PyFloat}
    {vs : List Sample} {d : Datastore} {source : SourceSide} {image : Image} {slave : ℤ}
    {seen : Option (Finset String)} {values : Sample}
    (hpublish : publishAll m.targetSides ctRatio vs (bridgeContext m cfg) = some d)
    (hlayout : Layout m cfg ctRatio vs.getLast?) (hlast : vs.getLast? = some values)
    (hcov : Nd45.validateSourceCoverage source = .ok ())
    (hpoll : (Nd45.pollOnce (imageClient image) source slave seen).result = .ok values) :
    ∀ e ∈ source.points.entries, e.1 ∉ DERIVED_CANONICAL_KEYS →
      (e.1 ∈ Nd45.OPTIONAL_INVALID_ZERO_POINTS →
        ¬Nd45.Invalid source (nd45Blocks image slave) e.2) →
      ∀ side ∈ m.targetSides, ∀ point ∈ side.points.values, point.from_ = e.1 →
        ∃ readings v,
          Nd45.rawFloats source (nd45Blocks image slave) e.2 = .ok readings ∧
          registersToFloat (getValues d side.functionCode point.addr 2) side.wordOrder
            side.byteOrder = .ok v ∧
          |v.toRat - exactServed point ctRatio (exactSi e.2 readings)| ≤
            (servedGrowth point readings.length - 1) *
                servedMagnitude point ctRatio (siMagnitude e.2 readings) +
              servedGrowth point readings.length *
                (servedUnderflows point ctRatio (siUnderflows e.2 readings.length) *
                  absError .binary64 + storedUnderflow point.zeroLowWord) := by
  intro e he hderived hoptional side hside point hpoint hfrom
  obtain ⟨readings, si, hr, hsi, hfin, hget⟩ := nd45_sample hcov hpoll he hderived hoptional
  obtain ⟨ws, hws⟩ := targetWrites_getLast hpublish values hlast
  obtain ⟨w, hw⟩ := Except.exists_mapM_eq_ok.1 ⟨ws, hws⟩ (side, point)
    (mem_targetPoints.2 ⟨hside, hpoint⟩)
  obtain ⟨si', regs, hsi', hregs, -⟩ := targetWrite_eq_ok.1 hw
  rw [hfrom, hget] at hsi'
  obtain rfl := Option.some.inj hsi'
  have hstored := (readsBack_of_layout hpublish hlayout).points values hlast side hside point hpoint
    si regs (hfrom ▸ hget) hregs
  obtain ⟨v, hv⟩ := registersToFloat_isOk (length_encodeTargetPoint hregs).ge side.wordOrder
    side.byteOrder
  have hserved : servedValue si point side ctRatio = .ok v := by
    rw [servedValue, hregs]
    exact hv
  refine ⟨readings, v, hr, hstored ▸ hv, ?_⟩
  exact (served_near hserved (siUnderflows_nonneg e.2 readings.length)
    (declared_near hsi hfin)).error

end Double

/-- One reading is served within one part in `2 ^ 23`, in `2 ^ 6` where the low word is cleared. -/
example : doubleGrowth 11 * storedGrowth false < 1 + 1 / 2 ^ 23 ∧
    doubleGrowth 11 * storedGrowth true < 1 + 1 / 2 ^ 6 := by
  norm_num [doubleGrowth, storedGrowth, relError, BinFormat.binary64]

/-- The sample of an ND45 whose every quantity reads 50. -/
def nominalSample : Sample :=
  (@Nd45.pollOnce .double (imageClient Nd45.nominalImage) freqSource 1 none).result.toOption.getD
    .empty

/-- The frequency in a map. -/
def freqTarget : TargetPoint where
  addr := 100
  from_ := "freq"

theorem inverter_reads_meter_freq :
    ∃ e ∈ freqSource.points.entries, ∃ d readings v,
      @publishAll .double (freqMap 102).targetSides (.lit 10) [nominalSample]
        (bridgeContext (freqMap 102) tcpConf) = some d ∧
      Nd45.rawFloats freqSource (nd45Blocks Nd45.nominalImage 1) e.2 = .ok readings ∧
      registersToFloat (getValues d .holding 100 2) "big" "big" = .ok v ∧
      |v.toRat - exactServed freqTarget (.lit 10) (exactSi e.2 readings)| ≤
        (servedGrowth freqTarget readings.length - 1) *
            servedMagnitude freqTarget (.lit 10) (siMagnitude e.2 readings) +
          servedGrowth freqTarget readings.length *
            (servedUnderflows freqTarget (.lit 10) (siUnderflows e.2 readings.length) *
              absError .binary64 + storedUnderflow false) := by
  have hsome : (@publishAll .double (freqMap 102).targetSides (.lit 10) [nominalSample]
      (bridgeContext (freqMap 102) tcpConf)).isSome := by decide +kernel
  obtain ⟨d, hd⟩ := Option.isSome_iff_exists.1 hsome
  have hlayout : @Layout .double (freqMap 102) tcpConf (.lit 10) (some nominalSample) :=
    @Layout.mk .double _ _ _ _ (by decide +kernel) (by decide +kernel) (by decide +kernel)
  have hok : (@Nd45.pollOnce .double (imageClient Nd45.nominalImage) freqSource 1
      none).result.toOption.isSome := by decide +kernel
  obtain ⟨values, hvalues⟩ := Option.isSome_iff_exists.1 hok
  have hpoll : (@Nd45.pollOnce .double (imageClient Nd45.nominalImage) freqSource 1 none).result =
      .ok nominalSample := by
    rw [nominalSample, hvalues]
    exact Except.toOption_eq_some.1 hvalues
  have hside : freqSide .holding 100 ∈ (freqMap 102).targetSides := by
    simp [RegisterMapFields.targetSides, RegisterMapFields.targets, freqMap]
  obtain ⟨e, he⟩ : ∃ e, freqSource.points.entries = [e] := ⟨_, rfl⟩
  have hname : e.1 = "freq" := by
    obtain rfl := (List.cons.inj he).1
    rfl
  have hmem : e ∈ freqSource.points.entries := he ▸ List.mem_singleton_self e
  obtain ⟨readings, v, hr, hv, herror⟩ := @inverter_reads_meter .double _ _ _ _ _ _ _ _ _ _ _ hd
    hlayout rfl rfl hpoll e hmem (by rw [hname]; decide)
    (fun h => absurd h (by rw [hname]; decide)) _ hside freqTarget
    (by simp [freqSide, freqTarget, Dict.values]) hname.symm
  exact ⟨e, hmem, d, readings, v, hd, hr, hv, herror⟩

end DtsuBridge
