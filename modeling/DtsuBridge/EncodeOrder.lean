import DtsuBridge.Publish
import DtsuBridge.Lib.FloatOrder

/-!
# Encoding keeps the order

A canonical value is divided by the CT ratio, multiplied by the sign and the scale of its
point, rounded to a float32 and put in two registers under the orders of its map, and the
low one may be cleared. Every step keeps the order and the sign of what it is given or
makes a zero (`keepsOrder_convertedValue`, `keepsOrder_storedFloat`), up to the sign of the
point.

`encode_ordered` : what a reader decodes from the registers of a point is a non-decreasing
function of the signed canonical value, and is zero or has its sign. A cleared low word takes
less than one part in 128 from a normal float32, and never adds to it.
-/

namespace DtsuBridge

/-! ## Registers and bits -/

theorem wordBytes_bytesWord {pair : ℕ × ℕ} (h1 : pair.1 < 256) (h2 : pair.2 < 256)
    (byteOrder : String) : wordBytes (bytesWord pair byteOrder) byteOrder = pair := by
  have hbytes : ∀ {hi lo : ℕ}, hi < 256 → lo < 256 →
      ((hi <<< 8) ||| lo) >>> 8 &&& 0xFF = hi ∧ ((hi <<< 8) ||| lo) &&& 0xFF = lo := by
    intro hi lo hhi hlo
    have hword : (hi <<< 8) ||| lo = hi * 256 + lo := by
      rw [← Nat.shiftLeft_add_eq_or_of_lt hlo, Nat.shiftLeft_eq]
    have hmask : ∀ n : ℕ, n &&& 0xFF = n % 256 := fun n => Nat.and_two_pow_sub_one_eq_mod n 8
    rw [hword, hmask, hmask, Nat.shiftRight_eq_div_pow]
    omega
  obtain ⟨hi, lo⟩ := pair
  obtain ⟨hhi, hlo⟩ := hbytes h1 h2
  obtain ⟨hhi', hlo'⟩ := hbytes h2 h1
  unfold bytesWord wordBytes
  split_ifs
  · exact Prod.ext hhi hlo
  · exact Prod.ext hlo' hhi'

/-- The registers of a pattern are read back as its float. -/
theorem registersToFloat_registersOfBits {b : ℕ} (hb : b < 2 ^ 32)
    (wordOrder byteOrder : String) :
    registersToFloat (registersOfBits b wordOrder byteOrder) wordOrder byteOrder =
      .ok (.ofBits .binary32 b) := by
  have hbytes : ∀ i j : ℕ, wordBytes (bytesWord (i % 256, j % 256) byteOrder) byteOrder =
      (i % 256, j % 256) := fun i j =>
    wordBytes_bytesWord (Nat.mod_lt _ (by norm_num)) (Nat.mod_lt _ (by norm_num)) byteOrder
  have hfrom : fromBytes [b / 2 ^ 24 % 256, b / 2 ^ 16 % 256, b / 2 ^ 8 % 256, b % 256] = b := by
    simp only [fromBytes, List.foldl_cons, List.foldl_nil]
    omega
  unfold registersOfBits registersToFloat
  by_cases hw : wordOrder = "big"
  · simp only [hw, if_true, List.map_cons, List.map_nil, hbytes, unpackFloat, hfrom]
  · simp only [hw, if_false, List.map_cons, List.map_nil, hbytes, unpackFloat, hfrom]

/-- Clearing the low register clears the low sixteen bits of the pattern. -/
theorem set_registersOfBits (b : ℕ) (wordOrder byteOrder : String) :
    (registersOfBits b wordOrder byteOrder).set (if wordOrder = "big" then 1 else 0) 0 =
      registersOfBits (BinFormat.clearLow 16 b) wordOrder byteOrder := by
  have hzero : bytesWord (0, 0) byteOrder = 0 := by
    unfold bytesWord
    split_ifs <;> rfl
  have hclear := BinFormat.clearLow_eq 16 b
  have h24 : BinFormat.clearLow 16 b / 2 ^ 24 % 256 = b / 2 ^ 24 % 256 := by omega
  have h16 : BinFormat.clearLow 16 b / 2 ^ 16 % 256 = b / 2 ^ 16 % 256 := by omega
  have h8 : BinFormat.clearLow 16 b / 2 ^ 8 % 256 = 0 := by omega
  have h0 : BinFormat.clearLow 16 b % 256 = 0 := by omega
  unfold registersOfBits
  rw [h24, h16, h8, h0, hzero]
  split_ifs <;> rfl

/-! ## What is stored -/

/-- A float rounded to single precision, with the low word cleared or not. -/
def storedFloat (zeroLowWord : Bool) : PyFloat → PyFloat
  | .fin neg m =>
    let b := BinFormat.binary32.ordinal m
    .fin neg (BinFormat.binary32.value (if zeroLowWord then BinFormat.clearLow 16 b else b))
  | x => x

theorem storedFloat_fin (zeroLowWord neg : Bool) (m : ℚ≥0) :
    storedFloat zeroLowWord (.fin neg m) = .fin neg (BinFormat.binary32.value
      (if zeroLowWord then BinFormat.clearLow 16 (BinFormat.binary32.ordinal m)
        else BinFormat.binary32.ordinal m)) :=
  rfl

theorem keepsOrder_storedFloat (zeroLowWord : Bool) :
    PyFloat.KeepsOrder PyFloat.toRat (storedFloat zeroLowWord) := by
  let number : ℕ → ℕ := fun b => if zeroLowWord then BinFormat.clearLow 16 b else b
  have hmono : Monotone number := by
    intro b b' h
    cases zeroLowWord
    · exact h
    · exact BinFormat.clearLow_mono 16 h
  have hzero : BinFormat.binary32.value (number (BinFormat.binary32.ordinal 0)) = 0 := by
    cases zeroLowWord <;> decide +kernel
  refine PyFloat.keepsOrder_of_mag (g := fun m =>
    BinFormat.binary32.value (number (BinFormat.binary32.ordinal m))) ?_ hzero ?_ fun _ _ => rfl
  · exact BinFormat.binary32.value_strictMono.monotone.comp
      (hmono.comp BinFormat.binary32.ordinal_mono)
  · intro x h
    cases x with
    | nan => exact h
    | inf _ => exact h
    | fin _ _ => rfl

/-- What is stored of an accepted float is read back from its registers. -/
theorem registersToFloat_stored {v : PyFloat} (h : fitsFloat32 v = true) (zeroLowWord : Bool)
    (wordOrder byteOrder : String) : ∃ regs, floatToRegisters v wordOrder byteOrder = .ok regs ∧
      registersToFloat (if zeroLowWord then
          regs.set (if wordOrder = "big" then 1 else 0) 0 else regs) wordOrder byteOrder =
        .ok (storedFloat zeroLowWord v) := by
  obtain ⟨b, hb⟩ := Option.isSome_iff_exists.1 (toBits?_isSome_of_fits h)
  refine ⟨_, floatToRegisters_eq h hb wordOrder byteOrder, ?_⟩
  obtain ⟨neg, m, rfl⟩ := PyFloat.isFinite_iff.1 (isFinite_of_fitsFloat32 h)
  rw [PyFloat.toBits?] at hb
  split_ifs at hb with hlt
  obtain rfl := Option.some.inj hb
  have hinf : BinFormat.binary32.infOrdinal ≤ 2 ^ 31 := by
    norm_num [BinFormat.infOrdinal, BinFormat.binary32]
  have hsign : PyFloat.signBits .binary32 neg = 0 ∨
      PyFloat.signBits .binary32 neg = 2 ^ 31 := by
    cases neg <;> norm_num [PyFloat.signBits, BinFormat.binary32]
  cases zeroLowWord with
  | false =>
    rw [if_neg Bool.false_ne_true, registersToFloat_registersOfBits (by omega),
      PyFloat.ofBits_signBits neg hlt, storedFloat_fin, if_neg Bool.false_ne_true]
  | true =>
    have hclear : BinFormat.clearLow 16 (PyFloat.signBits .binary32 neg +
        BinFormat.binary32.ordinal m) = PyFloat.signBits .binary32 neg +
          BinFormat.clearLow 16 (BinFormat.binary32.ordinal m) := by
      unfold BinFormat.clearLow
      omega
    have hle := BinFormat.clearLow_le 16 (BinFormat.binary32.ordinal m)
    rw [if_pos rfl, set_registersOfBits, hclear,
      registersToFloat_registersOfBits (by omega), PyFloat.ofBits_signBits neg (by omega),
      storedFloat_fin, if_pos rfl]

theorem isFinite_storedFloat {v : PyFloat} (h : fitsFloat32 v = true) (zeroLowWord : Bool) :
    (storedFloat zeroLowWord v).isFinite = true := by
  obtain ⟨neg, m, rfl⟩ := PyFloat.isFinite_iff.1 (isFinite_of_fitsFloat32 h)
  rfl

/-- Clearing the low word takes less than one part in 128 from a normal float32. -/
theorem abs_storedFloat {v : PyFloat} (h : fitsFloat32 v = true) :
    |(storedFloat true v).toRat| ≤ |(storedFloat false v).toRat| ∧
      (1 / 2 ^ 126 ≤ |(storedFloat false v).toRat| →
        |(storedFloat false v).toRat| - |(storedFloat true v).toRat| <
          |(storedFloat false v).toRat| / 128) := by
  obtain ⟨neg, m, rfl⟩ := PyFloat.isFinite_iff.1 (isFinite_of_fitsFloat32 h)
  rw [storedFloat_fin, storedFloat_fin, if_pos rfl, if_neg Bool.false_ne_true, PyFloat.toRat_fin,
    PyFloat.toRat_fin, PyFloat.abs_signed, PyFloat.abs_signed]
  set b := BinFormat.binary32.ordinal m
  refine ⟨NNRat.coe_le_coe.2 (BinFormat.binary32.value_strictMono.monotone
    (BinFormat.clearLow_le 16 b)), fun hnormal => ?_⟩
  have hb : 2 ^ BinFormat.binary32.frac ≤ b := by
    rw [← BinFormat.binary32.value_strictMono.le_iff_le, ← NNRat.coe_le_coe]
    refine le_trans (le_of_eq ?_) hnormal
    norm_num [BinFormat.value, BinFormat.scaled, BinFormat.mant, BinFormat.binary32]
  have hshort := @BinFormat.value_clearLow .binary32 16 b (by decide) hb
  exact hshort.trans_eq (by norm_num [BinFormat.binary32])

section Float

variable [FloatArith]

/-- What a reader decodes from the registers served for a value. -/
def servedValue (si : PyFloat) (point : TargetPoint) (target : TargetSide) (ctRatio : PyFloat) :
    Except PyExc PyFloat := do
  let regs ← encodeTargetPoint si point target ctRatio
  registersToFloat regs target.wordOrder target.byteOrder

/-- A value is served exactly when its point converts it to a float32, which is then stored. -/
theorem servedValue_eq_ok {si ctRatio v : PyFloat} {point : TargetPoint} {target : TargetSide} :
    servedValue si point target ctRatio = .ok v ↔
      (point.divideByCt = true → ctRatioOk ctRatio = true) ∧
        ∃ s, PyFloat.ofInt? point.sign = some s ∧
          fitsFloat32 (convertedValue si point ctRatio s) = true ∧
          v = storedFloat point.zeroLowWord (convertedValue si point ctRatio s) := by
  simp only [servedValue, encodeTargetPoint, encodePoint, Except.bind_eq_ok, divideCt_eq_ok,
    toRegisterFloat_eq_ok]
  refine ⟨?_, ?_⟩
  · rintro ⟨regs, ⟨_, ⟨hct, rfl⟩, x, ⟨s, hs, rfl⟩, rs, hrs, hregs⟩, hread⟩
    have hfit : fitsFloat32 (convertedValue si point ctRatio s) = true := by
      rcases floatToRegisters_cases (convertedValue si point ctRatio s) target.wordOrder
        target.byteOrder with ⟨h, -⟩ | ⟨-, e, he⟩
      · exact h
      · cases he.symm.trans hrs
    obtain ⟨rs', hrs', hstored⟩ := registersToFloat_stored hfit point.zeroLowWord
      target.wordOrder target.byteOrder
    obtain rfl := Except.ok.inj (hrs'.symm.trans hrs)
    obtain rfl := Except.ok.inj hregs
    exact ⟨hct, s, hs, hfit, Except.ok.inj (hread.symm.trans hstored)⟩
  · rintro ⟨hct, s, hs, hfit, rfl⟩
    obtain ⟨rs, hrs, hstored⟩ := registersToFloat_stored hfit point.zeroLowWord
      target.wordOrder target.byteOrder
    exact ⟨_, ⟨_, ⟨hct, rfl⟩, _, ⟨s, hs, rfl⟩, rs, hrs, rfl⟩, hstored⟩

/-! ## The order of what is served -/

/-- A sign is rounded to a non-negative multiple of itself. -/
theorem ofInt?_sign {sign : ℤ} (hsign : sign = 1 ∨ sign = -1) {s : PyFloat}
    (hs : PyFloat.ofInt? sign = some s) :
    s.isFinite = true ∧ ∃ k : ℚ, 0 ≤ k ∧ s.toRat = sign * k := by
  obtain ⟨q, -, rfl⟩ := PyFloat.ofInt?_eq_some.1 hs
  refine ⟨rfl, q, NNRat.coe_nonneg q, ?_⟩
  rcases hsign with rfl | rfl <;> simp

/-- The conversion of a point keeps the order of its sign. -/
theorem keepsOrder_convertedValue {point : TargetPoint} {ctRatio s : PyFloat}
    (hoffset : point.offset.eq 0 = true) (hscale : (0 : PyFloat).lt point.scale = true)
    (hsign : point.sign = 1 ∨ point.sign = -1) (hs : PyFloat.ofInt? point.sign = some s)
    (hct : point.divideByCt = true → ctRatioOk ctRatio = true) :
    PyFloat.KeepsOrder (fun x => point.sign * x.toRat)
      (convertedValue · point ctRatio s) := by
  have hdivide : PyFloat.KeepsOrder PyFloat.toRat
      fun si => if point.divideByCt then si.div ctRatio else si := by
    split_ifs with hd
    · obtain ⟨hfin, hpos⟩ := ctRatioOk_iff.1 (hct hd)
      have hpos : 0 < ctRatio.toRat := by
        rcases PyFloat.zero_lt_iff.1 hpos with rfl | h
        · cases hfin
        · exact h.2
      exact PyFloat.keepsOrder_div hfin hpos
    · exact PyFloat.keepsOrder_id
  obtain ⟨hfin, k, hk, heq⟩ := ofInt?_sign hsign hs
  have hcast : (point.sign : ℚ) = 1 ∨ (point.sign : ℚ) = -1 := by
    rcases hsign with h | h <;> simp [h]
  obtain ⟨hoff, hzero⟩ := PyFloat.toRat_of_eq_zero hoffset
  have hsigned := (PyFloat.keepsOrder_mul hfin hk heq).comp hcast hdivide
  exact (PyFloat.keepsOrder_add_zero hoff hzero).after
    ((PyFloat.keepsOrder_mul_pos hscale).after hsigned)

/-- Where a point with a scale above zero, a sign of one or minus one and no offset serves
a value, it is finite, and what is served is zero or has the sign of the signed value. With the
low word cleared it is at most what is served otherwise, short of it by less than one part in
128 where that is normal. What is served is a non-decreasing function of the signed value. -/
theorem encode_ordered {point : TargetPoint} {target : TargetSide} {ctRatio : PyFloat}
    (hoffset : point.offset.eq 0 = true) (hscale : (0 : PyFloat).lt point.scale = true)
    (hsign : point.sign = 1 ∨ point.sign = -1) :
    (∀ si v, servedValue si point target ctRatio = .ok v →
      si.isFinite = true ∧ v.isFinite = true ∧
        (v.toRat = 0 ∨ 0 < v.toRat ∧ 0 < point.sign * si.toRat ∨
          v.toRat < 0 ∧ point.sign * si.toRat < 0)) ∧
    (∀ si v, servedValue si { point with zeroLowWord := true } target ctRatio = .ok v →
      ∃ w, servedValue si { point with zeroLowWord := false } target ctRatio = .ok w ∧
        |v.toRat| ≤ |w.toRat| ∧
        (1 / 2 ^ 126 ≤ |w.toRat| → |w.toRat| - |v.toRat| < |w.toRat| / 128)) ∧
    ∀ si si' v v', servedValue si point target ctRatio = .ok v →
      servedValue si' point target ctRatio = .ok v' →
        point.sign * si.toRat ≤ point.sign * si'.toRat → v.toRat ≤ v'.toRat := by
  have hkeeps : ∀ {s}, PyFloat.ofInt? point.sign = some s →
      (point.divideByCt = true → ctRatioOk ctRatio = true) →
        PyFloat.KeepsOrder (fun x => point.sign * x.toRat)
          (storedFloat point.zeroLowWord ∘ (convertedValue · point ctRatio s)) := fun hs hct =>
    (keepsOrder_storedFloat point.zeroLowWord).after
      (keepsOrder_convertedValue hoffset hscale hsign hs hct)
  refine ⟨fun si v h => ?_, fun si v h => ?_, fun si si' v v' h h' hle => ?_⟩
  · obtain ⟨hct, s, hs, hfit, rfl⟩ := servedValue_eq_ok.1 h
    have hfin := isFinite_storedFloat hfit point.zeroLowWord
    have hk := hkeeps hs hct
    refine ⟨hk.isFinite si hfin, hfin, ?_⟩
    exact hk.sign hfin
  · obtain ⟨hct, s, hs, hfit, rfl⟩ := servedValue_eq_ok.1 h
    refine ⟨_, servedValue_eq_ok.2 ⟨hct, s, hs, hfit, rfl⟩, ?_⟩
    exact abs_storedFloat hfit
  · obtain ⟨hct, s, hs, hfit, rfl⟩ := servedValue_eq_ok.1 h
    obtain ⟨-, s', hs', hfit', rfl⟩ := servedValue_eq_ok.1 h'
    obtain rfl := Option.some.inj (hs.symm.trans hs')
    exact (hkeeps hs hct).le si si' (isFinite_storedFloat hfit _) (isFinite_storedFloat hfit' _) hle

end Float

/-- The coarse register of the active energy. -/
def coarsePoint : TargetPoint where
  addr := 4096
  from_ := "active_energy_total"
  divideByCt := true
  zeroLowWord := true

/-- It does not run backwards while the counter goes from 123456 to 123457. -/
theorem encode_ordered_coarsePoint : ∃ v v',
    @servedValue .double (.lit 123456) coarsePoint (freqSide .holding 100) (.lit 200) = .ok v ∧
    @servedValue .double (.lit 123457) coarsePoint (freqSide .holding 100) (.lit 200) = .ok v' ∧
    v.toRat ≤ v'.toRat := by
  have hok : ∀ {x : Except PyExc PyFloat}, x.toOption.isSome = true → ∃ v, x = .ok v := by
    intro x hx
    obtain ⟨v, hv⟩ := Option.isSome_iff_exists.1 hx
    exact ⟨v, Except.toOption_eq_some.1 hv⟩
  obtain ⟨v, hv⟩ := hok (x := @servedValue .double (.lit 123456) coarsePoint
    (freqSide .holding 100) (.lit 200)) (by decide +kernel)
  obtain ⟨v', hv'⟩ := hok (x := @servedValue .double (.lit 123457) coarsePoint
    (freqSide .holding 100) (.lit 200)) (by decide +kernel)
  obtain ⟨-, -, hle⟩ := @encode_ordered .double coarsePoint (freqSide .holding 100) (.lit 200)
    (by decide +kernel) (by decide +kernel) (Or.inl rfl)
  refine ⟨v, v', hv, hv', hle _ _ v v' hv hv' ?_⟩
  norm_num [coarsePoint, PyFloat.lit]

end DtsuBridge
