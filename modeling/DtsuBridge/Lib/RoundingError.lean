import DtsuBridge.Lib.FloatOrder

/-!
# Rounding error

A rational rounded to a format is off by at most half a unit in its last place : by one part
in `2 ^ (frac + 1)`, or by half the smallest magnitude of the format (`abs_value_ordinal_sub`).
What is off a magnitude of the format by less than one part in `2 ^ (frac + 2)` rounds to it
(`round_of_near`), and the magnitudes of a format are among those of a wider one (`exists_value`).

`Near g w A x y` : the computed `x` is off the exact `y` by `g - 1` parts of a magnitude `A` that
bounds `y`, and by `g * w` for what underflows. A rounding multiplies `g` by one and its
relative error and adds its absolute error to `w` (`Near.round`). Products with a
constant and sums leave `g` as it is, so that the error of a formula is read off its
roundings (`near_mul`, `near_div`, `near_add`, `near_sum`).
-/

/-! ## One rounding -/

theorem abs_roundHalfEven_sub (n : ℕ) {d : ℕ} (hd : 0 < d) :
    |(roundHalfEven n d : ℚ) - n / d| ≤ 1 / 2 := by
  have hmod := Nat.div_add_mod n d
  have hlt := Nat.mod_lt n hd
  have hhalf : 2 * (roundHalfEven n d * d) ≤ 2 * n + d ∧
      2 * n ≤ 2 * (roundHalfEven n d * d) + d := by
    have hnext : (n / d + 1) * d = d * (n / d) + d := by ring
    have hquot : n / d * d = d * (n / d) := mul_comm _ _
    have hpar : n / d + n / d % 2 = n / d ∨ n / d + n / d % 2 = n / d + 1 := by omega
    unfold roundHalfEven
    split_ifs with h1 h2
    · omega
    · rcases hpar with h | h <;> rw [h] <;> omega
    · omega
  have hd' : (0 : ℚ) < d := Nat.cast_pos.2 hd
  have hle : (2 * (roundHalfEven n d * d) : ℚ) ≤ 2 * n + d := by exact_mod_cast hhalf.1
  have hge : (2 * n : ℚ) ≤ 2 * (roundHalfEven n d * d) + d := by exact_mod_cast hhalf.2
  rw [abs_sub_le_iff, sub_le_iff_le_add, sub_le_iff_le_add, ← sub_le_iff_le_add', le_div_iff₀ hd',
    div_le_iff₀ hd']
  constructor <;> linarith

namespace BinFormat

variable (fmt : BinFormat)

/-- The magnitude rounded to, in units : the rounded significand at the last place. -/
theorem scaled_ordinalOf (n : ℕ) {d : ℕ} (hd : 0 < d) :
    fmt.scaled (fmt.ordinalOf n d) =
      roundHalfEven n (d * 2 ^ fmt.ulpShift n d) * 2 ^ fmt.ulpShift n d := by
  set s := fmt.ulpShift n d with hs
  set r := roundHalfEven n (d * 2 ^ s) with hr
  have hpos : 0 < d * 2 ^ s := by positivity
  have hf : 0 < 2 ^ fmt.frac := by positivity
  have hhigh : r ≤ 2 * 2 ^ fmt.frac := by
    rw [← pow_succ', hr, ← roundHalfEven_mul (2 ^ (fmt.frac + 1)) hpos]
    exact roundHalfEven_mono hpos hpos (Nat.mul_le_mul_right _ (lt_two_pow_ulpShift n hd).le)
  have hlow : r < 2 ^ fmt.frac → s = 0 := by
    intro hlt
    by_contra h
    refine absurd hlt (not_lt.2 ?_)
    rw [hr, ← roundHalfEven_mul (2 ^ fmt.frac) hpos]
    exact roundHalfEven_mono hpos hpos (Nat.mul_le_mul_right _ (two_pow_ulpShift_le (by omega)))
  have hord : fmt.ordinalOf n d = s * 2 ^ fmt.frac + r := rfl
  rw [hord, scaled, mant]
  by_cases hsmall : r < 2 ^ fmt.frac
  · rw [hlow hsmall, zero_mul, zero_add, if_pos hsmall, Nat.div_eq_of_lt hsmall]
  · -- A significand that rounds up to twice the implicit bit moves to the next exponent.
    rw [if_neg (by nlinarith), mul_comm s, Nat.mul_add_div hf, Nat.mul_add_mod]
    rcases hhigh.lt_or_eq with hlt | heq
    · have hdiv : r / 2 ^ fmt.frac = 1 := Nat.div_eq_of_lt_le (by omega) (by omega)
      have hmod : 2 ^ fmt.frac + r % 2 ^ fmt.frac = r := by
        have := Nat.div_add_mod r (2 ^ fmt.frac)
        rwa [hdiv, mul_one] at this
      rw [hdiv, hmod, Nat.add_sub_cancel]
    · rw [heq, Nat.mul_mod_left, Nat.mul_div_cancel _ hf, add_zero, Nat.add_sub_assoc one_le_two,
        pow_add]
      ring

/-- The rounded significand, in units, is off by half a last place. -/
theorem abs_scaled_ordinalOf_sub_ulp (n : ℕ) {d : ℕ} (hd : 0 < d) :
    |(fmt.scaled (fmt.ordinalOf n d) : ℚ) - n / d| ≤ 2 ^ fmt.ulpShift n d / 2 := by
  set s := fmt.ulpShift n d with hs
  have hd' : (0 : ℚ) < d := Nat.cast_pos.2 hd
  have hround := abs_roundHalfEven_sub n (d := d * 2 ^ s) (by positivity)
  have hsplit : (fmt.scaled (fmt.ordinalOf n d) : ℚ) - n / d =
      (roundHalfEven n (d * 2 ^ s) - n / (d * 2 ^ s : ℕ)) * 2 ^ s := by
    rw [fmt.scaled_ordinalOf n hd, ← hs]
    push_cast
    field_simp
  rw [hsplit, abs_mul, abs_of_pos (by positivity : (0 : ℚ) < 2 ^ s)]
  calc |(roundHalfEven n (d * 2 ^ s) - n / (d * 2 ^ s : ℕ) : ℚ)| * 2 ^ s
      ≤ 1 / 2 * 2 ^ s := mul_le_mul_of_nonneg_right hround (by positivity)
    _ = 2 ^ s / 2 := by ring

/-- A rational in units is off its rounding by half a unit or one part in `2 ^ (frac + 1)`. -/
theorem abs_scaled_ordinalOf_sub (n : ℕ) {d : ℕ} (hd : 0 < d) :
    |(fmt.scaled (fmt.ordinalOf n d) : ℚ) - n / d| ≤
      (max (n / d / 2 ^ (fmt.frac + 1)) (1 / 2) : ℚ) := by
  have hulp := fmt.abs_scaled_ordinalOf_sub_ulp n hd
  have hd' : (0 : ℚ) < d := Nat.cast_pos.2 hd
  rcases Nat.eq_zero_or_pos (fmt.ulpShift n d) with h0 | hpos
  · rw [h0, pow_zero] at hulp
    exact hulp.trans (le_max_right _ _)
  · refine hulp.trans (le_trans ?_ (le_max_left _ _))
    have hle : ((2 ^ fmt.frac * (d * 2 ^ fmt.ulpShift n d) : ℕ) : ℚ) ≤ n :=
      Nat.cast_le.2 (two_pow_ulpShift_le hpos)
    push_cast at hle
    rw [div_le_div_iff₀ two_pos (by positivity), pow_succ, div_mul_eq_mul_div,
      le_div_iff₀ hd']
    linarith

/-- A rational in units. -/
theorem units_eq (q : ℚ≥0) :
    ((q.num * 2 ^ fmt.minExp : ℕ) / q.den : ℚ) = q * 2 ^ fmt.minExp := by
  have hnum : (q.num / q.den : ℚ) = q := by
    rw [← NNRat.coe_natCast q.num, ← NNRat.coe_natCast q.den, ← NNRat.coe_div, q.num_div_den]
  rw [← hnum]
  push_cast
  ring

variable {fmt}

theorem abs_value_ordinal_sub (q : ℚ≥0) :
    |(fmt.value (fmt.ordinal q) - q : ℚ)| ≤
      (max (q / 2 ^ (fmt.frac + 1)) (1 / 2 ^ (fmt.minExp + 1)) : ℚ) := by
  have hunits := fmt.abs_scaled_ordinalOf_sub (q.num * 2 ^ fmt.minExp) q.den_pos
  have hpos : (0 : ℚ) < 2 ^ fmt.minExp := by positivity
  have hval : (fmt.value (fmt.ordinal q) - q : ℚ) =
      (fmt.scaled (fmt.ordinalOf (q.num * 2 ^ fmt.minExp) q.den) - q * 2 ^ fmt.minExp) /
        2 ^ fmt.minExp := by
    rw [sub_div, mul_div_assoc, div_self hpos.ne', mul_one, value, ordinal]
    push_cast
    rfl
  rw [fmt.units_eq] at hunits
  rw [hval, abs_div, abs_of_pos hpos, div_le_iff₀ hpos, max_mul_of_nonneg _ _ hpos.le]
  refine hunits.trans (max_le_max (le_of_eq (by ring)) (le_of_eq ?_))
  rw [pow_succ]
  field_simp

/-- A magnitude loses with its low bits less than one part in two to the number of bits that are
left, or as many units as there are patterns of the low bits. -/
theorem value_sub_clearLow_le {k : ℕ} (hk : k ≤ fmt.frac) (b : ℕ) :
    (fmt.value b - fmt.value (clearLow k b) : ℚ) ≤
      1 / 2 ^ (fmt.frac - k) * fmt.value b + 2 ^ k / 2 ^ fmt.minExp := by
  have hval : (0 : ℚ) ≤ fmt.value b := NNRat.coe_nonneg _
  by_cases hb : b < 2 ^ fmt.frac
  · have hclear := clearLow_le k b
    have hlost : (b - clearLow k b : ℚ) ≤ 2 ^ k := by
      have hmod : b ≤ clearLow k b + 2 ^ k := by
        have := Nat.mod_lt b (Nat.two_pow_pos k)
        unfold clearLow
        omega
      have : (b : ℚ) ≤ clearLow k b + 2 ^ k := by exact_mod_cast hmod
      linarith
    have hscaled : ∀ {c : ℕ}, c ≤ b → (fmt.value c : ℚ) = c / 2 ^ fmt.minExp := by
      intro c hc
      have hsmall := hc.trans_lt hb
      simp [value, scaled, mant, hsmall, Nat.div_eq_of_lt hsmall]
    calc (fmt.value b - fmt.value (clearLow k b) : ℚ)
        = (b - clearLow k b) / 2 ^ fmt.minExp := by
          rw [hscaled le_rfl, hscaled hclear, sub_div]
      _ ≤ 2 ^ k / 2 ^ fmt.minExp := by gcongr
      _ ≤ 1 / 2 ^ (fmt.frac - k) * fmt.value b + 2 ^ k / 2 ^ fmt.minExp :=
          le_add_of_nonneg_left (by positivity)
  · calc (fmt.value b - fmt.value (clearLow k b) : ℚ) ≤ fmt.value b / 2 ^ (fmt.frac - k) :=
          (value_clearLow hk (not_lt.1 hb)).le
      _ = 1 / 2 ^ (fmt.frac - k) * fmt.value b := by ring
      _ ≤ 1 / 2 ^ (fmt.frac - k) * fmt.value b + 2 ^ k / 2 ^ fmt.minExp :=
          le_add_of_nonneg_right (by positivity)

/-! ## What is near enough to round -/

theorem mant_lt (b : ℕ) : fmt.mant b < 2 ^ (fmt.frac + 1) := by
  have hmod := Nat.mod_lt b (Nat.two_pow_pos fmt.frac)
  unfold mant
  rw [pow_succ]
  split_ifs <;> omega

/-- A magnitude of at least `2 ^ (frac + s)` units has no part below `2 ^ s`. -/
theorem two_pow_dvd_scaled {b s : ℕ} (h : 2 ^ (fmt.frac + s) ≤ fmt.scaled b) :
    2 ^ s ∣ fmt.scaled b := by
  by_cases hs : s ≤ b / 2 ^ fmt.frac - 1
  · exact (pow_dvd_pow 2 hs).mul_left _
  · refine absurd h (not_le.2 ?_)
    calc fmt.scaled b < 2 ^ (fmt.frac + 1) * 2 ^ (b / 2 ^ fmt.frac - 1) :=
          Nat.mul_lt_mul_of_pos_right (mant_lt b) (by positivity)
      _ = 2 ^ (fmt.frac + (b / 2 ^ fmt.frac - 1 + 1)) := by
        rw [pow_add, pow_add, pow_succ, pow_succ]
        ring
      _ ≤ 2 ^ (fmt.frac + s) := Nat.pow_le_pow_right two_pos (by omega)

/-- Below a power of two, the next magnitude is the power or before it. -/
theorem scaled_add_le {b s : ℕ} (h : fmt.scaled b < 2 ^ (fmt.frac + (s + 1))) :
    fmt.scaled b + 2 ^ s ≤ 2 ^ (fmt.frac + (s + 1)) := by
  by_cases hhalf : 2 ^ (fmt.frac + s) ≤ fmt.scaled b
  · obtain ⟨k, hk⟩ := two_pow_dvd_scaled hhalf
    obtain ⟨l, hl⟩ : 2 ^ s ∣ 2 ^ (fmt.frac + (s + 1)) := pow_dvd_pow 2 (by omega)
    rw [hk, hl] at h ⊢
    have hkl : k < l := Nat.lt_of_mul_lt_mul_left h
    calc 2 ^ s * k + 2 ^ s = 2 ^ s * (k + 1) := by ring
      _ ≤ 2 ^ s * l := Nat.mul_le_mul_left _ hkl
  · have hle : 2 ^ s ≤ 2 ^ (fmt.frac + s) := Nat.pow_le_pow_right two_pos (Nat.le_add_left _ _)
    have hdouble : 2 ^ (fmt.frac + (s + 1)) = 2 * 2 ^ (fmt.frac + s) := by
      rw [← add_assoc, pow_succ, mul_comm]
    omega

/-- Of a rational as near to a magnitude, the last place divides it. -/
theorem dvd_of_near {n d b : ℕ} (hd : 0 < d)
    (h : |(n / d : ℚ) - fmt.scaled b| * 2 ^ (fmt.frac + 2) < fmt.scaled b) :
    2 ^ fmt.ulpShift n d ∣ fmt.scaled b := by
  rcases Nat.eq_zero_or_pos (fmt.ulpShift n d) with h0 | hpos
  · rw [h0]
    exact one_dvd _
  have hd' : (0 : ℚ) < d := Nat.cast_pos.2 hd
  have hlow := two_pow_ulpShift_le hpos
  obtain ⟨s, hs⟩ : ∃ s, fmt.ulpShift n d = s + 1 := ⟨_, (Nat.sub_add_cancel hpos).symm⟩
  rw [hs] at hlow ⊢
  have hq : (2 ^ (fmt.frac + (s + 1)) : ℚ) ≤ n / d := by
    rw [le_div_iff₀ hd']
    calc (2 ^ (fmt.frac + (s + 1)) * d : ℚ) = ((2 ^ fmt.frac * (d * 2 ^ (s + 1)) : ℕ) : ℚ) := by
          push_cast
          ring
      _ ≤ n := Nat.cast_le.2 hlow
  -- A magnitude below the binade of the rational is a place of it away.
  refine two_pow_dvd_scaled (not_lt.1 fun hlt => ?_)
  have hgap : (fmt.scaled b + 2 ^ s : ℚ) ≤ 2 ^ (fmt.frac + (s + 1)) := by
    exact_mod_cast scaled_add_le hlt
  have hcast : (fmt.scaled b : ℚ) < 2 ^ (fmt.frac + (s + 1)) := by exact_mod_cast hlt
  have habs : (2 ^ s : ℚ) ≤ |(n / d : ℚ) - fmt.scaled b| := by
    refine le_trans ?_ (le_abs_self _)
    linarith
  have hlarge : (2 ^ s : ℚ) * 2 ^ (fmt.frac + 2) < fmt.scaled b :=
    (mul_le_mul_of_nonneg_right habs (by positivity)).trans_lt h
  have heq : (2 ^ s : ℚ) * 2 ^ (fmt.frac + 2) = 2 * 2 ^ (fmt.frac + (s + 1)) := by
    rw [pow_add, pow_add, pow_succ]
    ring
  have hpos' : (0 : ℚ) < 2 ^ (fmt.frac + (s + 1)) := by positivity
  rw [heq] at hlarge
  linarith

/-- A multiple of `P` that is near to a number below `2 * F * P` is no larger than that. -/
theorem multiple_le_of_near {k F : ℕ} {q P : ℚ} (hP : 0 < P) (hF : 1 ≤ F) (hq : q < 2 * F * P)
    (h : |q - k * P| * (4 * F) < k * P) : k ≤ 2 * F := by
  by_contra hlt
  have hk : (2 * F + 1 : ℚ) ≤ k := by exact_mod_cast not_le.1 hlt
  have hF' : (1 : ℚ) ≤ F := by exact_mod_cast hF
  have habs : (k - 2 * F) * P < |q - k * P| := by
    rw [abs_sub_comm]
    refine lt_of_lt_of_le ?_ (le_abs_self _)
    linarith
  have hlarge : (k - 2 * F) * P * (4 * F) < k * P :=
    (mul_lt_mul_of_pos_right habs (by positivity)).trans h
  have hk' : (k - 2 * F) * (4 * F) < (k : ℚ) := by
    refine lt_of_mul_lt_mul_right ?_ hP.le
    linarith
  nlinarith

/-- Multiples of `P` that are less than `P` apart are the same. -/
theorem multiple_unique {r k : ℕ} {P : ℚ} (hP : 0 < P) (h : |r * P - k * P| < P) : r = k := by
  rw [← sub_mul, abs_mul, abs_of_pos hP] at h
  have hlt : |(r - k : ℚ)| < 1 := by
    refine lt_of_mul_lt_mul_right ?_ hP.le
    rwa [one_mul]
  have hint : |(r - k : ℤ)| < 1 := by exact_mod_cast hlt
  have := Int.abs_lt_one_iff.1 hint
  omega

/-- A rational that is nearer to a magnitude than a quarter of its last place rounds to it. -/
theorem ordinalOf_of_near {n d b : ℕ} (hd : 0 < d)
    (h : |(n / d : ℚ) - fmt.scaled b| * 2 ^ (fmt.frac + 2) < fmt.scaled b) :
    fmt.ordinalOf n d = b := by
  have hd' : (0 : ℚ) < d := Nat.cast_pos.2 hd
  obtain ⟨k, hk⟩ := dvd_of_near hd h
  have hround := fmt.abs_scaled_ordinalOf_sub_ulp n hd
  have hscaled := fmt.scaled_ordinalOf n hd
  have hhigh := fmt.lt_two_pow_ulpShift n hd
  set s := fmt.ulpShift n d with hs
  set r := roundHalfEven n (d * 2 ^ s) with hr
  have hq : (n / d : ℚ) < 2 ^ (fmt.frac + 1) * 2 ^ s := by
    rw [div_lt_iff₀ hd']
    calc (n : ℚ) < ((2 ^ (fmt.frac + 1) * (d * 2 ^ s) : ℕ) : ℚ) := Nat.cast_lt.2 hhigh
      _ = 2 ^ (fmt.frac + 1) * 2 ^ s * d := by
        push_cast
        ring
  have hP : (0 : ℚ) < 2 ^ s := by positivity
  have hkcast : (fmt.scaled b : ℚ) = k * 2 ^ s := by
    rw [hk]
    push_cast
    ring
  have hfour : (2 ^ (fmt.frac + 2) : ℚ) = 4 * 2 ^ fmt.frac := by
    rw [pow_add]
    ring
  have htwo : (2 ^ (fmt.frac + 1) : ℚ) = 2 * 2 ^ fmt.frac := by
    rw [pow_succ]
    ring
  rw [hkcast, hfour] at h
  rw [htwo] at hq
  have hF : 1 ≤ 2 ^ fmt.frac := Nat.one_le_two_pow
  have hkle : (k : ℚ) ≤ 2 * 2 ^ fmt.frac := by
    have hle := @multiple_le_of_near k (2 ^ fmt.frac) (n / d) (2 ^ s) hP hF
    push_cast at hle
    exact_mod_cast hle hq h
  have hnear : |(n / d : ℚ) - k * 2 ^ s| < 2 ^ s / 2 := by
    refine lt_of_mul_lt_mul_right ?_ (by positivity : (0 : ℚ) ≤ 4 * 2 ^ fmt.frac)
    calc |(n / d : ℚ) - k * 2 ^ s| * (4 * 2 ^ fmt.frac) < k * 2 ^ s := h
      _ ≤ 2 * 2 ^ fmt.frac * 2 ^ s := mul_le_mul_of_nonneg_right hkle hP.le
      _ = 2 ^ s / 2 * (4 * 2 ^ fmt.frac) := by ring
  have hdiff : |(r * 2 ^ s - k * 2 ^ s : ℚ)| < 2 ^ s := by
    rw [hscaled] at hround
    push_cast at hround
    calc |(r * 2 ^ s - k * 2 ^ s : ℚ)|
        ≤ |(r * 2 ^ s : ℚ) - n / d| + |(n / d : ℚ) - k * 2 ^ s| := abs_sub_le _ _ _
      _ < 2 ^ s / 2 + 2 ^ s / 2 := add_lt_add_of_le_of_lt hround hnear
      _ = 2 ^ s := by ring
  have hrk : r = k := multiple_unique hP hdiff
  have hsame : fmt.scaled (fmt.ordinalOf n d) = fmt.scaled b := by
    rw [hscaled, hk, hrk, mul_comm]
  have hord := congrArg (fmt.ordinalOf · 1) hsame
  simpa only [ordinalOf_scaled] using hord

/-- What is nearer to a magnitude of the format than one part in `2 ^ (frac + 2)` rounds to it. -/
theorem round_of_near {m q : ℚ≥0} (hm : fmt.round m = m)
    (h : |(q - m : ℚ)| * 2 ^ (fmt.frac + 2) < m) : fmt.round q = m := by
  unfold round at hm
  split_ifs at hm with hfin
  · have hval : fmt.value (fmt.ordinal m) = m := WithTop.coe_inj.1 hm
    have hpos : (0 : ℚ) < 2 ^ fmt.minExp := by positivity
    have hscaled : (fmt.scaled (fmt.ordinal m) : ℚ) = m * 2 ^ fmt.minExp := by
      have hcast := congrArg (NNRat.cast : ℚ≥0 → ℚ) hval
      unfold value at hcast
      push_cast at hcast
      rwa [div_eq_iff hpos.ne'] at hcast
    have hord : fmt.ordinal q = fmt.ordinal m := by
      refine ordinalOf_of_near q.den_pos ?_
      rw [fmt.units_eq, hscaled, ← sub_mul, abs_mul, abs_of_pos hpos, mul_right_comm]
      exact mul_lt_mul_of_pos_right h hpos
    rw [round, hord, if_pos hfin, hval]
  · exact absurd hm WithTop.top_ne_coe

/-! ## Wider formats -/

/-- A significand that fits is a magnitude at every exponent. -/
theorem exists_scaled {a : ℕ} (ha : a < 2 ^ (fmt.frac + 1)) (k : ℕ) :
    ∃ b, fmt.scaled b = a * 2 ^ k := by
  refine ⟨fmt.ordinalOf (a * 2 ^ k) 1, ?_⟩
  have hdvd : 2 ^ fmt.ulpShift (a * 2 ^ k) 1 ∣ a * 2 ^ k := by
    rcases Nat.eq_zero_or_pos (fmt.ulpShift (a * 2 ^ k) 1) with h0 | hpos
    · rw [h0]
      exact one_dvd _
    · have hlow := two_pow_ulpShift_le hpos
      rw [one_mul, ← pow_add] at hlow
      have hlt : 2 ^ (fmt.frac + fmt.ulpShift (a * 2 ^ k) 1) < 2 ^ (fmt.frac + 1 + k) := by
        refine hlow.trans_lt ?_
        rw [pow_add _ (fmt.frac + 1)]
        exact Nat.mul_lt_mul_of_pos_right ha (by positivity)
      have hle := (Nat.pow_lt_pow_iff_right one_lt_two).1 hlt
      exact (pow_dvd_pow 2 (by omega)).mul_left _
  obtain ⟨r, hr⟩ := hdvd
  have hround : roundHalfEven (a * 2 ^ k) (1 * 2 ^ fmt.ulpShift (a * 2 ^ k) 1) = r := by
    have := roundHalfEven_mul r (d := 2 ^ fmt.ulpShift (a * 2 ^ k) 1) (by positivity)
    rwa [mul_comm, ← hr, ← one_mul (2 ^ fmt.ulpShift (a * 2 ^ k) 1)] at this
  rw [fmt.scaled_ordinalOf _ one_pos, hround, mul_comm, ← hr]

/-- The magnitudes of a format are among those of a wider one. -/
theorem exists_value {wide : BinFormat} (hfrac : fmt.frac ≤ wide.frac)
    (hexp : fmt.minExp ≤ wide.minExp) (b : ℕ) : ∃ b', wide.value b' = fmt.value b := by
  have hmant : fmt.mant b < 2 ^ (wide.frac + 1) :=
    (mant_lt b).trans_le (Nat.pow_le_pow_right two_pos (by omega))
  obtain ⟨b', hb'⟩ :=
    exists_scaled hmant (b / 2 ^ fmt.frac - 1 + (wide.minExp - fmt.minExp))
  refine ⟨b', ?_⟩
  have hsplit : (2 ^ wide.minExp : ℚ≥0) = 2 ^ (wide.minExp - fmt.minExp) * 2 ^ fmt.minExp := by
    rw [← pow_add, Nat.sub_add_cancel hexp]
  rw [value, hb', value, scaled, hsplit, pow_add]
  push_cast
  rw [← mul_assoc, mul_comm (2 ^ (wide.minExp - fmt.minExp) : ℚ≥0),
    mul_div_mul_right _ _ (by positivity)]

/-- A single precision magnitude is one of double precision. -/
theorem round_binary32 {b : ℕ} (hb : b < binary32.infOrdinal) :
    binary64.round (binary32.value b) = binary32.value b := by
  obtain ⟨b', hb'⟩ := @exists_value binary32 binary64 (by decide) (by decide) b
  have hle : binary32.value b ≤ binary32.value binary32.infOrdinal :=
    (binary32.value_strictMono hb).le
  have htop : binary64.ordinal (binary32.value binary32.infOrdinal) < binary64.infOrdinal := by
    decide +kernel
  have hfin := (binary64.ordinal_mono hle).trans_lt htop
  rw [← hb', ordinal_value] at hfin
  rw [← hb']
  exact round_value hfin

end BinFormat

/-! ## Errors that add up -/

/-- `x` is off `y` by `g - 1` parts of a magnitude that bounds `y`, and by `g * w`. -/
structure Near (g w A x y : ℚ) : Prop where
  abs_le : |y| ≤ A
  error : |x - y| ≤ (g - 1) * A + g * w

namespace Near

variable {g w A x y : ℚ}

theorem refl (x : ℚ) : Near 1 0 |x| x x where
  abs_le := le_rfl
  error := by simp

theorem nonneg (h : Near g w A x y) : 0 ≤ A :=
  (abs_nonneg y).trans h.abs_le

theorem mono {g' w' : ℚ} (h : Near g w A x y) (hg : g ≤ g') (hg0 : 0 ≤ g) (hw : w ≤ w')
    (hw0 : 0 ≤ w) : Near g' w' A x y where
  abs_le := h.abs_le
  error := by
    refine h.error.trans (add_le_add ?_ (mul_le_mul hg hw hw0 (hg0.trans hg)))
    exact mul_le_mul_of_nonneg_right (sub_le_sub_right hg 1) h.nonneg

/-- What is computed from a near value, relatively and absolutely near to it. -/
theorem round {z ε η : ℚ} (h : Near g w A x y) (hg : 1 ≤ g) (hε : 0 ≤ ε) (hη : 0 ≤ η)
    (hz : |z - x| ≤ ε * |x| + η) : Near (g * (1 + ε)) (w + η) A z y where
  abs_le := h.abs_le
  error := by
    have hx : |x| ≤ g * A + g * w := by
      have := abs_add_le y (x - y)
      rw [add_sub_cancel] at this
      linarith [h.error, h.abs_le]
    have hzy := abs_sub_le z x y
    have hεx := mul_le_mul_of_nonneg_left hx hε
    have hη' : η ≤ g * (1 + ε) * η :=
      le_mul_of_one_le_left hη (by nlinarith)
    calc |z - y| ≤ ε * (g * A + g * w) + η + ((g - 1) * A + g * w) := by linarith [h.error]
      _ = (g * (1 + ε) - 1) * A + g * (1 + ε) * w + η := by ring
      _ ≤ (g * (1 + ε) - 1) * A + g * (1 + ε) * (w + η) := by linarith

/-- A product with what is relatively near a constant. -/
theorem mul {s c ε : ℚ} (h : Near g w A x y) (hs : |s - c| ≤ ε * |c|) :
    Near (g * (1 + ε)) (w * |c|) (A * |c|) (x * s) (y * c) where
  abs_le := by
    rw [abs_mul]
    exact mul_le_mul_of_nonneg_right h.abs_le (abs_nonneg c)
  error := by
    have hs' : |s| ≤ (1 + ε) * |c| := by
      have := abs_add_le c (s - c)
      rw [add_sub_cancel] at this
      linarith
    have hsplit : x * s - y * c = (x - y) * s + y * (s - c) := by ring
    rw [hsplit]
    calc |(x - y) * s + y * (s - c)| ≤ |x - y| * |s| + |y| * |s - c| := by
          rw [← abs_mul, ← abs_mul]
          exact abs_add_le _ _
      _ ≤ ((g - 1) * A + g * w) * ((1 + ε) * |c|) + A * (ε * |c|) :=
          add_le_add (mul_le_mul h.error hs' (abs_nonneg s) ((abs_nonneg _).trans h.error))
            (mul_le_mul h.abs_le hs (abs_nonneg _) h.nonneg)
      _ = (g * (1 + ε) - 1) * (A * |c|) + g * (1 + ε) * (w * |c|) := by ring

theorem mul_const (h : Near g w A x y) (c : ℚ) :
    Near g (w * |c|) (A * |c|) (x * c) (y * c) := by
  have hmul : Near (g * (1 + 0)) (w * |c|) (A * |c|) (x * c) (y * c) := h.mul (by simp)
  rwa [add_zero, mul_one] at hmul

theorem add {w' A' x' y' : ℚ} (h : Near g w A x y) (h' : Near g w' A' x' y') :
    Near g (w + w') (A + A') (x + x') (y + y') where
  abs_le := (abs_add_le y y').trans (add_le_add h.abs_le h'.abs_le)
  error := by
    have hsplit : x + x' - (y + y') = (x - y) + (x' - y') := by ring
    rw [hsplit]
    calc |x - y + (x' - y')| ≤ |x - y| + |x' - y'| := abs_add_le _ _
      _ ≤ (g - 1) * A + g * w + ((g - 1) * A' + g * w') := add_le_add h.error h'.error
      _ = (g - 1) * (A + A') + g * (w + w') := by ring

theorem add_const (h : Near g w A x y) (hg : 1 ≤ g) (c : ℚ) :
    Near g w (A + |c|) (x + c) (y + c) := by
  have hc := (Near.refl c).mono hg zero_le_one le_rfl le_rfl
  simpa using h.add hc

end Near

/-! ## Errors of float arithmetic -/

/-- The arithmetic rounds to a format. -/
class FloatArith.RoundsTo (fmt : outParam BinFormat) [FloatArith] : Prop where
  round_eq : ∀ q : ℚ≥0, FloatArith.round q = fmt.round q

instance : @FloatArith.RoundsTo .binary64 .double :=
  @FloatArith.RoundsTo.mk .binary64 .double fun _ => rfl

theorem FloatArith.RoundsTo.round_round [FloatArith] {fmt : BinFormat} [FloatArith.RoundsTo fmt]
    {q q' : ℚ≥0} (h : FloatArith.round q = q') : FloatArith.round q' = q' := by
  rw [FloatArith.RoundsTo.round_eq] at h ⊢
  exact BinFormat.round_round h

namespace PyFloat

/-- The relative error of one rounding. -/
def relError (fmt : BinFormat) : ℚ :=
  1 / 2 ^ (fmt.frac + 1)

/-- The absolute error of one rounding that underflows. -/
def absError (fmt : BinFormat) : ℚ :=
  1 / 2 ^ (fmt.minExp + 1)

theorem relError_nonneg (fmt : BinFormat) : 0 ≤ relError fmt := by
  unfold relError
  positivity

theorem absError_nonneg (fmt : BinFormat) : 0 ≤ absError fmt := by
  unfold absError
  positivity

theorem one_le_one_add (fmt : BinFormat) : 1 ≤ 1 + relError fmt :=
  le_add_of_nonneg_right (relError_nonneg fmt)

theorem abs_signed_sub_signed (neg : Bool) (m n : ℚ≥0) :
    |signed neg m - signed neg n| = |(m - n : ℚ)| := by
  cases neg
  · rfl
  · rw [signed_true, signed_true, neg_sub_neg, abs_sub_comm]

theorem abs_value_sub_le (fmt : BinFormat) (neg : Bool) (m : ℚ≥0) :
    |signed neg (fmt.value (fmt.ordinal m)) - signed neg m| ≤
      relError fmt * |signed neg m| + absError fmt := by
  rw [abs_signed_sub_signed, abs_signed]
  refine (BinFormat.abs_value_ordinal_sub m).trans (max_le ?_ ?_)
  · exact (le_of_eq (by rw [relError]; ring)).trans (le_add_of_nonneg_right (absError_nonneg fmt))
  · exact le_add_of_nonneg_left (mul_nonneg (relError_nonneg fmt) (NNRat.coe_nonneg m))

section Arithmetic

variable [FloatArith] {fmt : BinFormat} [FloatArith.RoundsTo fmt]

/-- A finite result is a magnitude of the format. -/
theorem Rounds.eq_signed {x : PyFloat} {q : ℚ} (h : Rounds x q) (hx : x.isFinite = true) :
    x.toRat = signed (decide (q < 0)) (fmt.value (fmt.ordinal q.nnabs)) := by
  have hfin := h.isFinite ▸ hx
  rw [h.toRat]
  rw [ofSum, FloatArith.RoundsTo.round_eq, BinFormat.round] at hfin ⊢
  split_ifs at hfin ⊢
  · rfl
  · cases hfin

theorem Rounds.error {x : PyFloat} {q : ℚ} (h : Rounds x q) (hx : x.isFinite = true) :
    |x.toRat - q| ≤ relError fmt * |q| + absError fmt := by
  have := abs_value_sub_le fmt (decide (q < 0)) q.nnabs
  rwa [signed_nnabs, ← h.eq_signed hx] at this

theorem isFinite_of_mul_right {x y : PyFloat} (h : (x.mul y).isFinite = true) :
    y.isFinite = true := by
  obtain ⟨a, m, rfl⟩ := isFinite_iff.1 (isFinite_of_mul h)
  cases y with
  | nan => exact h
  | inf b =>
    rw [mul] at h
    split_ifs at h <;> cases h
  | fin _ _ => rfl

theorem isFinite_of_add_both {x y : PyFloat} (h : (x.add y).isFinite = true) :
    x.isFinite = true ∧ y.isFinite = true := by
  match x, y with
  | nan, _ => cases h
  | inf _, nan => cases h
  | fin _ _, nan => cases h
  | inf a, inf b =>
    rw [add] at h
    split_ifs at h <;> cases h
  | inf _, fin _ _ => cases h
  | fin _ _, inf _ => cases h
  | fin _ _, fin _ _ => exact ⟨rfl, rfl⟩

/-- An integer does not underflow. -/
theorem ofInt?_error (hfmt : fmt.frac ≤ fmt.minExp) {i : ℤ} {x : PyFloat}
    (h : ofInt? i = some x) : |x.toRat - i| ≤ relError fmt * |(i : ℚ)| := by
  obtain ⟨q, hq, rfl⟩ := ofInt?_eq_some.1 h
  rcases eq_or_ne i 0 with rfl | hi
  · rw [Int.natAbs_zero, Nat.cast_zero, FloatArith.round_zero] at hq
    simp [WithTop.coe_eq_zero.1 hq.symm]
  · rw [FloatArith.RoundsTo.round_eq, BinFormat.round] at hq
    split_ifs at hq
    · obtain rfl := WithTop.coe_inj.1 hq
      have hcast : |(i : ℚ)| = ((i.natAbs : ℚ≥0) : ℚ) := by
        rw [NNRat.coe_natCast, Nat.cast_natAbs, Int.cast_abs]
      have hsigned : (i : ℚ) = signed (decide (i < 0)) (i.natAbs : ℚ≥0) := by
        rcases lt_or_ge i 0 with hneg | hpos
        · rw [decide_eq_true hneg, signed_true, ← hcast, abs_of_neg (Int.cast_lt_zero.2 hneg),
            neg_neg]
        · rw [decide_eq_false (not_lt.2 hpos), signed_false, ← hcast,
            abs_of_nonneg (Int.cast_nonneg hpos)]
      have hone : (1 : ℚ) ≤ |(i : ℚ)| := by exact_mod_cast Int.one_le_abs hi
      have hmin : (1 / 2 ^ (fmt.minExp + 1) : ℚ) ≤ 1 / 2 ^ (fmt.frac + 1) :=
        one_div_le_one_div_of_le (by positivity) (pow_le_pow_right₀ one_le_two (by omega))
      rw [hcast] at hone
      rw [toRat_fin, hcast, hsigned, abs_signed_sub_signed, relError]
      refine (BinFormat.abs_value_ordinal_sub _).trans (max_le (le_of_eq (by ring)) ?_)
      exact hmin.trans (le_mul_of_one_le_right (by positivity) hone)
    · cases hq

/-! ## Errors of formulas -/

variable {x c : PyFloat} {g w A y : ℚ}

theorem near_mul (h : Near g w A x.toRat y) (hg : 1 ≤ g) (hfin : (x.mul c).isFinite = true) :
    Near (g * (1 + relError fmt)) (w * |c.toRat| + absError fmt) (A * |c.toRat|)
      (x.mul c).toRat (y * c.toRat) :=
  (h.mul_const c.toRat).round hg (relError_nonneg fmt) (absError_nonneg fmt)
    ((rounds_mul (isFinite_of_mul hfin) (isFinite_of_mul_right hfin)).error hfin)

/-- A product with an integer rounds the integer and the product. -/
theorem near_mul_int (hfmt : fmt.frac ≤ fmt.minExp) {i : ℤ} (h : Near g w A x.toRat y)
    (hg : 1 ≤ g) (hc : ofInt? i = some c) (hfin : (x.mul c).isFinite = true) :
    Near (g * (1 + relError fmt) * (1 + relError fmt)) (w * |(i : ℚ)| + absError fmt)
      (A * |(i : ℚ)|) (x.mul c).toRat (y * i) :=
  (h.mul (ofInt?_error hfmt hc)).round (one_le_mul_of_one_le_of_one_le hg (one_le_one_add fmt))
    (relError_nonneg fmt) (absError_nonneg fmt)
    ((rounds_mul (isFinite_of_mul hfin) (isFinite_of_mul_right hfin)).error hfin)

theorem near_div (h : Near g w A x.toRat y) (hg : 1 ≤ g) (hc : c.isFinite = true)
    (hfin : (x.div c).isFinite = true) :
    Near (g * (1 + relError fmt)) (w / |c.toRat| + absError fmt) (A / |c.toRat|)
      (x.div c).toRat (y / c.toRat) := by
  have hconst := h.mul_const c.toRat⁻¹
  rw [abs_inv, ← div_eq_mul_inv, ← div_eq_mul_inv, ← div_eq_mul_inv, ← div_eq_mul_inv] at hconst
  exact hconst.round hg (relError_nonneg fmt) (absError_nonneg fmt)
    ((rounds_div (isFinite_of_div hfin) hc).error hfin)

theorem near_add {z : PyFloat} {w' A' y' : ℚ} (h : Near g w A x.toRat y)
    (h' : Near g w' A' z.toRat y') (hg : 1 ≤ g) (hfin : (x.add z).isFinite = true) :
    Near (g * (1 + relError fmt)) (w + w' + absError fmt) (A + A') (x.add z).toRat (y + y') :=
  have ⟨hx, hz⟩ := isFinite_of_add_both hfin
  (h.add h').round hg (relError_nonneg fmt) (absError_nonneg fmt) ((rounds_add hx hz).error hfin)

theorem near_add_const (h : Near g w A x.toRat y) (hg : 1 ≤ g)
    (hfin : (x.add c).isFinite = true) :
    Near (g * (1 + relError fmt)) (w + absError fmt) (A + |c.toRat|) (x.add c).toRat
      (y + c.toRat) :=
  have ⟨hx, hc⟩ := isFinite_of_add_both hfin
  (h.add_const hg c.toRat).round hg (relError_nonneg fmt) (absError_nonneg fmt)
    ((rounds_add hx hc).error hfin)

/-- A sum from the left rounds once for each term. -/
theorem near_sum {α : Type*} {f : α → PyFloat} {e : α → ℚ} {l : List α}
    (h : ∀ a ∈ l, (f a).isFinite = true → Near g w |e a| (f a).toRat (e a)) (hg : 1 ≤ g)
    (hw : 0 ≤ w) (hfin : (sum (l.map f)).isFinite = true) :
    Near (g * (1 + relError fmt) ^ l.length) (l.length * (w + absError fmt))
      (l.map fun a => |e a|).sum (sum (l.map f)).toRat (l.map e).sum := by
  have hε := one_le_one_add fmt
  have hpow : ∀ k : ℕ, 1 ≤ (1 + relError fmt) ^ k := fun k => one_le_pow₀ hε
  induction l using List.reverseRecOn with
  | nil => simpa [sum] using (Near.refl 0).mono hg zero_le_one le_rfl le_rfl
  | append_singleton l a ih =>
    have hsum : sum ((l ++ [a]).map f) = (sum (l.map f)).add (f a) := by
      simp [sum]
    rw [hsum] at hfin ⊢
    obtain ⟨hl, ha⟩ := isFinite_of_add_both hfin
    have ih := ih (fun b hb => h b (List.mem_append_left _ hb)) hl
    have hone := le_mul_of_one_le_right (zero_le_one.trans hg) (hpow l.length)
    have hterm := (h a (by simp) ha).mono hone (zero_le_one.trans hg) le_rfl hw
    have hadd := near_add ih hterm (hg.trans hone) hfin
    rw [List.map_append, List.sum_append, List.map_append, List.sum_append, List.length_append]
    have hw' : l.length * (w + absError fmt) + w + absError fmt =
        ((l.length + [a].length : ℕ) : ℚ) * (w + absError fmt) := by
      push_cast [List.length_singleton]
      ring
    rw [hw', mul_assoc, ← pow_succ] at hadd
    simpa using hadd

end Arithmetic

end PyFloat
