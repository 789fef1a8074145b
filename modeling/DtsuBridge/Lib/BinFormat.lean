import Mathlib

/-!
# Binary interchange formats

A format has `frac` fraction bits, `2 ^ -minExp` as its smallest positive value and
`expBits` exponent bits. The magnitudes of a format are numbered from zero up
(`value`), the number of a magnitude being its bit pattern without the sign. Rounding
a rational (`ordinal`) gives the number of the nearest magnitude, ties to the even one.

`ordinal` is monotone (`ordinal_mono`) and the identity on the magnitudes of the format
(`ordinal_value`), so `value` is strictly monotone (`value_strictMono`), and a rational
that is at most a finite magnitude rounds to a finite one (`ordinal_lt_of_le_value`).
What is rounded is at most a magnitude exactly up to the midpoint to the next magnitude, the
midpoint itself going to an even significand (`round_le_value_iff`).
Everything is on natural numbers, so that the kernel evaluates it.
-/

/-- `n / d` rounded to the nearest natural number, ties to even. -/
def roundHalfEven (n d : ℕ) : ℕ :=
  if 2 * (n % d) < d then n / d
  else if 2 * (n % d) = d then n / d + n / d % 2
  else n / d + 1

theorem div_le_roundHalfEven (n d : ℕ) : n / d ≤ roundHalfEven n d := by
  unfold roundHalfEven
  split_ifs <;> omega

theorem roundHalfEven_le (n d : ℕ) : roundHalfEven n d ≤ n / d + 1 := by
  unfold roundHalfEven
  split_ifs <;> omega

theorem roundHalfEven_mul (k : ℕ) {d : ℕ} (hd : 0 < d) : roundHalfEven (k * d) d = k := by
  simp [roundHalfEven, Nat.mul_div_cancel _ hd, hd]

/-- Fractions in order have quotients in order. -/
theorem div_le_div_of_cross {n d n' d' : ℕ} (hd : 0 < d) (hd' : 0 < d')
    (h : n * d' ≤ n' * d) : n / d ≤ n' / d' := by
  rw [Nat.le_div_iff_mul_le hd']
  refine Nat.le_of_mul_le_mul_left ?_ hd
  calc d * (n / d * d') = n / d * d * d' := by ring
    _ ≤ n * d' := Nat.mul_le_mul_right _ (Nat.div_mul_le_self n d)
    _ ≤ d * n' := by rw [mul_comm d]; exact h

theorem roundHalfEven_mono {n d n' d' : ℕ} (hd : 0 < d) (hd' : 0 < d')
    (h : n * d' ≤ n' * d) : roundHalfEven n d ≤ roundHalfEven n' d' := by
  rcases (div_le_div_of_cross hd hd' h).lt_or_eq with hlt | heq
  · calc roundHalfEven n d ≤ n / d + 1 := roundHalfEven_le n d
      _ ≤ n' / d' := hlt
      _ ≤ roundHalfEven n' d' := div_le_roundHalfEven n' d'
  · -- Equal quotients : the remainders compare as the fractions do.
    have hr : n % d * d' ≤ n' % d' * d := by
      have h1 := Nat.div_add_mod n d
      have h2 := Nat.div_add_mod n' d'
      rw [← heq] at h2
      nlinarith [h1, h2, h]
    have hge : d ≤ 2 * (n % d) → d' ≤ 2 * (n' % d') := fun hle =>
      Nat.le_of_mul_le_mul_left (by nlinarith : d * d' ≤ d * (2 * (n' % d'))) hd
    have hgt : d < 2 * (n % d) → d' < 2 * (n' % d') := fun hlt =>
      Nat.lt_of_mul_lt_mul_left (a := d) (by nlinarith)
    unfold roundHalfEven
    rw [← heq]
    split_ifs <;> omega

/-- A binary floating-point format. -/
structure BinFormat where
  /-- Bits of the fraction, without the implicit one. -/
  frac : ℕ
  /-- The smallest positive magnitude is `2 ^ -minExp`. -/
  minExp : ℕ
  /-- Bits of the exponent field. -/
  expBits : ℕ

namespace BinFormat

/-- IEEE 754 single precision. -/
def binary32 : BinFormat := ⟨23, 149, 8⟩

/-- IEEE 754 double precision. -/
def binary64 : BinFormat := ⟨52, 1074, 11⟩

variable (fmt : BinFormat)

/-- Significand of magnitude number `b`, with the implicit bit of a normal one. -/
def mant (b : ℕ) : ℕ :=
  if b < 2 ^ fmt.frac then b else 2 ^ fmt.frac + b % 2 ^ fmt.frac

/-- Magnitude number `b` in units of the smallest positive one. -/
def scaled (b : ℕ) : ℕ :=
  fmt.mant b * 2 ^ (b / 2 ^ fmt.frac - 1)

/-- Magnitude number `b`. -/
def value (b : ℕ) : ℚ≥0 :=
  fmt.scaled b / 2 ^ fmt.minExp

/-- Exponent of the last place of `n / d` units, from the smallest. -/
def ulpShift (n d : ℕ) : ℕ :=
  Nat.log2 (n / d) - fmt.frac

/-- Number of the magnitude nearest to `n / d` units. -/
def ordinalOf (n d : ℕ) : ℕ :=
  fmt.ulpShift n d * 2 ^ fmt.frac + roundHalfEven n (d * 2 ^ fmt.ulpShift n d)

/-- Number of the magnitude nearest to `q`, ties to even. -/
def ordinal (q : ℚ≥0) : ℕ :=
  fmt.ordinalOf (q.num * 2 ^ fmt.minExp) q.den

/-- Number of infinity : all exponent bits set, no fraction bit. -/
def infOrdinal : ℕ :=
  (2 ^ fmt.expBits - 1) * 2 ^ fmt.frac

/-- `q` rounded to the format, `⊤` when it rounds past the largest finite magnitude. -/
def round (q : ℚ≥0) : WithTop ℚ≥0 :=
  if fmt.ordinal q < fmt.infOrdinal then fmt.value (fmt.ordinal q) else ⊤

variable {fmt}

theorem lt_two_pow_ulpShift (n : ℕ) {d : ℕ} (hd : 0 < d) :
    n < 2 ^ (fmt.frac + 1) * (d * 2 ^ fmt.ulpShift n d) := by
  have hlog : n / d < 2 ^ (fmt.ulpShift n d + fmt.frac + 1) := by
    refine Nat.lt_log2_self.trans_le (Nat.pow_le_pow_right two_pos ?_)
    unfold ulpShift
    omega
  calc n < d * (n / d + 1) := Nat.lt_mul_div_succ n hd
    _ ≤ d * 2 ^ (fmt.ulpShift n d + fmt.frac + 1) := Nat.mul_le_mul_left _ hlog
    _ = 2 ^ (fmt.frac + 1) * (d * 2 ^ fmt.ulpShift n d) := by
      rw [add_assoc, pow_add]
      ring

theorem two_pow_ulpShift_le {n d : ℕ} (hs : 0 < fmt.ulpShift n d) :
    2 ^ fmt.frac * (d * 2 ^ fmt.ulpShift n d) ≤ n := by
  have hlog : Nat.log2 (n / d) = fmt.ulpShift n d + fmt.frac := by
    unfold ulpShift at hs ⊢
    omega
  have hne : n / d ≠ 0 := by
    intro h0
    rw [h0] at hlog
    simp at hlog
    omega
  have hle := Nat.log2_self_le hne
  rw [hlog] at hle
  calc 2 ^ fmt.frac * (d * 2 ^ fmt.ulpShift n d)
      = 2 ^ (fmt.ulpShift n d + fmt.frac) * d := by
        rw [pow_add]
        ring
    _ ≤ n / d * d := Nat.mul_le_mul_right _ hle
    _ ≤ n := Nat.div_mul_le_self n d

variable (fmt)

theorem ulpShift_mono {n d n' d' : ℕ} (hd : 0 < d) (hd' : 0 < d') (h : n * d' ≤ n' * d) :
    fmt.ulpShift n d ≤ fmt.ulpShift n' d' := by
  have hlog : Nat.log2 (n / d) ≤ Nat.log2 (n' / d') := by
    rcases Nat.eq_zero_or_pos (n / d) with h0 | hpos
    · simp [h0]
    · have hle := div_le_div_of_cross hd hd' h
      rw [Nat.le_log2 (by omega)]
      exact (Nat.log2_self_le (by omega)).trans hle
  unfold ulpShift
  omega

theorem ordinalOf_mono {n d n' d' : ℕ} (hd : 0 < d) (hd' : 0 < d') (h : n * d' ≤ n' * d) :
    fmt.ordinalOf n d ≤ fmt.ordinalOf n' d' := by
  rcases (ulpShift_mono fmt hd hd' h).lt_or_eq with hlt | heq
  · -- A larger last place : at most a full significand below, at least half of one above.
    have hlow : roundHalfEven n (d * 2 ^ fmt.ulpShift n d) ≤ 2 ^ (fmt.frac + 1) := by
      have hpos : 0 < d * 2 ^ fmt.ulpShift n d := by positivity
      rw [← roundHalfEven_mul (2 ^ (fmt.frac + 1)) hpos]
      exact roundHalfEven_mono hpos hpos
        (Nat.mul_le_mul_right _ (lt_two_pow_ulpShift n hd).le)
    have hhigh : 2 ^ fmt.frac ≤ roundHalfEven n' (d' * 2 ^ fmt.ulpShift n' d') := by
      have hpos : 0 < d' * 2 ^ fmt.ulpShift n' d' := by positivity
      rw [← roundHalfEven_mul (2 ^ fmt.frac) hpos]
      exact roundHalfEven_mono hpos hpos
        (Nat.mul_le_mul_right _ (two_pow_ulpShift_le (by omega)))
    have hmul : (fmt.ulpShift n d + 1) * 2 ^ fmt.frac ≤ fmt.ulpShift n' d' * 2 ^ fmt.frac :=
      Nat.mul_le_mul_right _ hlt
    rw [add_mul, one_mul] at hmul
    rw [pow_succ] at hlow
    unfold ordinalOf
    omega
  · unfold ordinalOf
    rw [heq]
    refine Nat.add_le_add_left (roundHalfEven_mono (by positivity) (by positivity) ?_) _
    calc n * (d' * 2 ^ fmt.ulpShift n' d') = n * d' * 2 ^ fmt.ulpShift n' d' := by ring
      _ ≤ n' * d * 2 ^ fmt.ulpShift n' d' := Nat.mul_le_mul_right _ h
      _ = n' * (d * 2 ^ fmt.ulpShift n' d') := by ring

theorem ordinal_mono : Monotone fmt.ordinal := by
  intro q q' h
  refine ordinalOf_mono fmt q.den_pos q'.den_pos ?_
  have hle := NNRat.le_def.1 h
  calc q.num * 2 ^ fmt.minExp * q'.den = q.num * q'.den * 2 ^ fmt.minExp := by ring
    _ ≤ q'.num * q.den * 2 ^ fmt.minExp := Nat.mul_le_mul_right _ hle
    _ = q'.num * 2 ^ fmt.minExp * q.den := by ring

/-- Rounding a magnitude of the format, in units, gives its number back. -/
theorem ordinalOf_scaled (b : ℕ) : fmt.ordinalOf (fmt.scaled b) 1 = b := by
  by_cases hb : b < 2 ^ fmt.frac
  · have hs : fmt.scaled b = b := by
      simp [scaled, mant, hb, Nat.div_eq_of_lt hb]
    have hu : fmt.ulpShift b 1 = 0 := by
      unfold ulpShift
      rw [Nat.div_one]
      rcases Nat.eq_zero_or_pos b with rfl | hpos
      · simp
      · have := (Nat.log2_lt (by omega)).2 hb
        omega
    rw [hs, ordinalOf, hu]
    simpa using roundHalfEven_mul b one_pos
  · -- A normal magnitude : its last place is its exponent less one.
    set e := b / 2 ^ fmt.frac - 1 with he
    have hdiv : 1 ≤ b / 2 ^ fmt.frac := (Nat.one_le_div_iff (by positivity)).2 (by omega)
    have hm : fmt.mant b = 2 ^ fmt.frac + b % 2 ^ fmt.frac := if_neg hb
    have hmod : b % 2 ^ fmt.frac < 2 ^ fmt.frac := Nat.mod_lt _ (by positivity)
    have hlog : Nat.log2 (fmt.scaled b) = fmt.frac + e := by
      refine (Nat.log2_eq_iff ?_).2 ⟨?_, ?_⟩
      · rw [scaled, hm]
        positivity
      · rw [scaled, hm, pow_add]
        exact Nat.mul_le_mul_right _ (by omega)
      · rw [scaled, hm, ← he, add_right_comm, pow_add]
        refine Nat.mul_lt_mul_of_pos_right ?_ (by positivity)
        rw [pow_succ]
        omega
    have hu : fmt.ulpShift (fmt.scaled b) 1 = e := by
      rw [ulpShift, Nat.div_one, hlog, Nat.add_sub_cancel_left]
    have hround : roundHalfEven (fmt.scaled b) (1 * 2 ^ e) = fmt.mant b := by
      rw [one_mul, scaled, ← he]
      exact roundHalfEven_mul _ (by positivity)
    have hb' := Nat.div_add_mod b (2 ^ fmt.frac)
    rw [ordinalOf, hu, hround, hm]
    obtain ⟨k, hk⟩ : ∃ k, b / 2 ^ fmt.frac = k + 1 := ⟨_, (Nat.sub_add_cancel hdiv).symm⟩
    rw [hk] at hb' he
    rw [he, Nat.add_sub_cancel]
    linarith [hb', mul_comm (2 ^ fmt.frac) k]

theorem ordinal_value (b : ℕ) : fmt.ordinal (fmt.value b) = b := by
  set q := fmt.value b with hq
  have hcross : q.num * 2 ^ fmt.minExp * 1 = fmt.scaled b * q.den := by
    have hnum : (q.num : ℚ≥0) * 2 ^ fmt.minExp = fmt.scaled b * q.den := by
      have hden : (q.den : ℚ≥0) ≠ 0 := by exact_mod_cast q.den_ne_zero
      have hval : (q.num : ℚ≥0) / q.den = fmt.scaled b / 2 ^ fmt.minExp := by
        rw [NNRat.num_div_den]
        exact hq
      rwa [div_eq_div_iff hden (by positivity)] at hval
    rw [mul_one]
    exact_mod_cast hnum
  calc fmt.ordinal q = fmt.ordinalOf (fmt.scaled b) 1 :=
        le_antisymm (ordinalOf_mono fmt q.den_pos one_pos hcross.le)
          (ordinalOf_mono fmt one_pos q.den_pos hcross.ge)
    _ = b := ordinalOf_scaled fmt b

theorem value_strictMono : StrictMono fmt.value := by
  intro b b' h
  by_contra hle
  have := fmt.ordinal_mono (not_lt.1 hle)
  rw [ordinal_value, ordinal_value] at this
  omega

variable {fmt}

/-- A rational at most a finite magnitude rounds to a finite one. -/
theorem ordinal_lt_of_le_value {q : ℚ≥0} {b : ℕ} (hb : b < fmt.infOrdinal)
    (h : q ≤ fmt.value b) : fmt.ordinal q < fmt.infOrdinal := by
  have hle := fmt.ordinal_mono h
  rw [fmt.ordinal_value] at hle
  exact hle.trans_lt hb

theorem round_mono : Monotone fmt.round := by
  intro q q' h
  have hle := fmt.ordinal_mono h
  unfold round
  split_ifs with h1 h2
  · exact WithTop.coe_le_coe.2 (fmt.value_strictMono.monotone hle)
  · exact le_top
  · omega
  · exact le_top

theorem round_value {b : ℕ} (hb : b < fmt.infOrdinal) : fmt.round (fmt.value b) = fmt.value b := by
  rw [round, ordinal_value, if_pos hb]

/-- What is rounded stays as it is. -/
theorem round_round {q q' : ℚ≥0} (h : fmt.round q = q') : fmt.round q' = q' := by
  rw [round] at h
  split_ifs at h with hb
  · rw [← WithTop.coe_inj.1 h]
    exact round_value hb
  · exact absurd h WithTop.top_ne_coe

/-! ## Midpoints -/

/-- The next magnitude is one last place up. -/
theorem scaled_succ (b : ℕ) :
    fmt.scaled (b + 1) = fmt.scaled b + 2 ^ (b / 2 ^ fmt.frac - 1) := by
  have hF : 0 < 2 ^ fmt.frac := Nat.two_pow_pos _
  have hdm := Nat.div_add_mod b (2 ^ fmt.frac)
  have hmod := Nat.mod_lt b hF
  unfold scaled mant
  rcases lt_trichotomy (b + 1) (2 ^ fmt.frac) with hlt | heq | hgt
  · rw [if_pos hlt, if_pos (by omega), Nat.div_eq_of_lt hlt, Nat.div_eq_of_lt (by omega)]
    simp
  · rw [if_neg (by omega), if_pos (by omega), heq, Nat.mod_self, Nat.div_self hF,
      Nat.div_eq_of_lt (by omega)]
    simp [heq]
  · have hq : 1 ≤ b / 2 ^ fmt.frac := (Nat.one_le_div_iff hF).2 (by omega)
    rw [if_neg (by omega), if_neg (by omega)]
    by_cases hr : b % 2 ^ fmt.frac + 1 < 2 ^ fmt.frac
    · have hdiv : (b + 1) / 2 ^ fmt.frac = b / 2 ^ fmt.frac := by
        have hcomm := mul_comm (2 ^ fmt.frac) (b / 2 ^ fmt.frac)
        rw [Nat.div_eq_iff hF]
        constructor <;> omega
      have hmod' : (b + 1) % 2 ^ fmt.frac = b % 2 ^ fmt.frac + 1 := by
        rw [Nat.add_mod, Nat.mod_eq_of_lt (show 1 < 2 ^ fmt.frac by omega), Nat.mod_eq_of_lt hr]
      rw [hdiv, hmod']
      ring
    · have hfull : b + 1 = 2 ^ fmt.frac * (b / 2 ^ fmt.frac + 1) := by
        rw [mul_add]
        omega
      have hmod' : b % 2 ^ fmt.frac = 2 ^ fmt.frac - 1 := by omega
      rw [hfull, Nat.mul_mod_right, Nat.mul_div_cancel_left _ hF, hmod', add_zero]
      obtain ⟨k, hk⟩ : ∃ k, b / 2 ^ fmt.frac = k + 1 := ⟨_, (Nat.sub_add_cancel hq).symm⟩
      rw [hk, Nat.add_sub_cancel, Nat.add_sub_cancel, pow_succ]
      obtain ⟨F, hF'⟩ : ∃ F, 2 ^ fmt.frac = F + 1 := ⟨_, (Nat.sub_add_cancel hF).symm⟩
      rw [hF', Nat.add_sub_cancel]
      ring

/-- The last place of a fraction between two magnitudes is that of the lower one. -/
theorem ulpShift_of_between {n d b : ℕ} (hd : 0 < d) (hlo : fmt.scaled b * d ≤ n)
    (hhi : n < fmt.scaled (b + 1) * d) : fmt.ulpShift n d = b / 2 ^ fmt.frac - 1 := by
  have hlo' : fmt.scaled b ≤ n / d := (Nat.le_div_iff_mul_le hd).2 hlo
  have hhi' : n / d < fmt.scaled (b + 1) := (Nat.div_lt_iff_lt_mul hd).2 hhi
  rw [scaled_succ] at hhi'
  unfold scaled mant at hlo' hhi'
  unfold ulpShift
  by_cases hb : b < 2 ^ fmt.frac
  · rw [if_pos hb, Nat.div_eq_of_lt hb] at hlo' hhi'
    rw [Nat.div_eq_of_lt hb]
    rcases Nat.eq_zero_or_pos (n / d) with h0 | hpos
    · simp [h0]
    · have := (Nat.log2_lt (by omega)).2 (show n / d < 2 ^ fmt.frac by simp at hhi'; omega)
      omega
  · rw [if_neg hb] at hlo' hhi'
    have hmod := Nat.mod_lt b (Nat.two_pow_pos fmt.frac)
    set e := b / 2 ^ fmt.frac - 1 with he
    have hlow : 2 ^ (fmt.frac + e) ≤ n / d := by
      refine le_trans ?_ hlo'
      rw [pow_add]
      exact Nat.mul_le_mul_right _ (by omega)
    have hhigh : n / d < 2 ^ (fmt.frac + e + 1) := by
      refine hhi'.trans_le ?_
      rw [← Nat.succ_mul, add_right_comm, pow_add, pow_succ]
      exact Nat.mul_le_mul_right _ (by omega)
    have hne : n / d ≠ 0 := by
      have := Nat.two_pow_pos (fmt.frac + e)
      omega
    rw [(Nat.log2_eq_iff hne).2 ⟨hlow, hhigh⟩, Nat.add_sub_cancel_left]

/-- The number of a magnitude is its last place and its significand. -/
theorem ulp_mul_add_mant (b : ℕ) :
    (b / 2 ^ fmt.frac - 1) * 2 ^ fmt.frac + fmt.mant b = b := by
  unfold mant
  have hdm := Nat.div_add_mod b (2 ^ fmt.frac)
  by_cases hb : b < 2 ^ fmt.frac
  · rw [if_pos hb, Nat.div_eq_of_lt hb]
    simp
  · have hq : 1 ≤ b / 2 ^ fmt.frac := (Nat.one_le_div_iff (Nat.two_pow_pos _)).2 (by omega)
    obtain ⟨k, hk⟩ : ∃ k, b / 2 ^ fmt.frac = k + 1 := ⟨_, (Nat.sub_add_cancel hq).symm⟩
    rw [if_neg hb, hk, Nat.add_sub_cancel]
    rw [hk] at hdm
    linarith [mul_comm (2 ^ fmt.frac) k]

/-- A fraction rounds to at most a magnitude up to the midpoint to the next. -/
theorem ordinalOf_le_iff {n d : ℕ} (hd : 0 < d) (b : ℕ) :
    fmt.ordinalOf n d ≤ b ↔ 2 * n < (fmt.scaled b + fmt.scaled (b + 1)) * d ∨
      2 * n = (fmt.scaled b + fmt.scaled (b + 1)) * d ∧ fmt.mant b % 2 = 0 := by
  have hlt : fmt.scaled b * d < fmt.scaled (b + 1) * d := by
    rw [scaled_succ]
    exact Nat.mul_lt_mul_of_pos_right (Nat.lt_add_of_pos_right (Nat.two_pow_pos _)) hd
  have hsum : (fmt.scaled b + fmt.scaled (b + 1)) * d =
      fmt.scaled b * d + fmt.scaled (b + 1) * d := add_mul _ _ _
  rcases lt_or_ge n (fmt.scaled b * d) with hlo | hlo
  · refine iff_of_true ?_ (Or.inl (by omega))
    calc fmt.ordinalOf n d ≤ fmt.ordinalOf (fmt.scaled b) 1 :=
          ordinalOf_mono fmt hd one_pos (by omega)
      _ = b := ordinalOf_scaled fmt b
  rcases lt_or_ge n (fmt.scaled (b + 1) * d) with hhi | hhi
  · -- The quotient by the last place is the significand, and the remainder decides.
    have hulp := ulpShift_of_between hd hlo hhi
    have hb := fmt.ulp_mul_add_mant b
    set e := b / 2 ^ fmt.frac - 1 with he
    have hlow : fmt.mant b * (d * 2 ^ e) ≤ n := by
      calc fmt.mant b * (d * 2 ^ e) = fmt.scaled b * d := by
            rw [scaled, ← he]
            ring
        _ ≤ n := hlo
    have hhigh : n < (fmt.mant b + 1) * (d * 2 ^ e) := by
      calc n < fmt.scaled (b + 1) * d := hhi
        _ = (fmt.mant b + 1) * (d * 2 ^ e) := by
          rw [scaled_succ, scaled, ← he]
          ring
    have hquot : n / (d * 2 ^ e) = fmt.mant b := Nat.div_eq_of_lt_le hlow hhigh
    have hrem := Nat.div_add_mod n (d * 2 ^ e)
    rw [hquot] at hrem
    have hmid : (fmt.scaled b + fmt.scaled (b + 1)) * d =
        2 * (d * 2 ^ e * fmt.mant b) + d * 2 ^ e := by
      rw [scaled_succ, scaled, ← he]
      ring
    rw [ordinalOf, hulp, hmid]
    unfold roundHalfEven
    rw [hquot]
    split_ifs <;> omega
  · refine iff_of_false (not_le.2 ?_) (by omega)
    calc b + 1 = fmt.ordinalOf (fmt.scaled (b + 1)) 1 := (ordinalOf_scaled fmt (b + 1)).symm
      _ ≤ fmt.ordinalOf n d := ordinalOf_mono fmt one_pos hd (by omega)

/-- What is rounded is at most a finite magnitude up to the midpoint to the next magnitude,
and at the midpoint where the significand is even. -/
theorem round_le_value_iff (q : ℚ≥0) {b : ℕ} (hb : b < fmt.infOrdinal) :
    fmt.round q ≤ fmt.value b ↔ 2 * q < fmt.value b + fmt.value (b + 1) ∨
      2 * q = fmt.value b + fmt.value (b + 1) ∧ fmt.mant b % 2 = 0 := by
  have hround : fmt.round q ≤ fmt.value b ↔ fmt.ordinal q ≤ b := by
    unfold round
    split_ifs with hfin
    · rw [WithTop.coe_le_coe]
      exact fmt.value_strictMono.le_iff_le
    · exact iff_of_false (not_le.2 (WithTop.coe_lt_top _)) (by omega)
  have hden : (0 : ℚ≥0) < q.den := Nat.cast_pos.2 q.den_pos
  have hpow : (0 : ℚ≥0) < 2 ^ fmt.minExp := by positivity
  have hleft : 2 * q * (2 ^ fmt.minExp * q.den) = ((2 * (q.num * 2 ^ fmt.minExp) : ℕ) : ℚ≥0) := by
    have hq := q.num_div_den
    rw [div_eq_iff hden.ne'] at hq
    push_cast
    rw [hq]
    ring
  have hright : (fmt.value b + fmt.value (b + 1)) * (2 ^ fmt.minExp * q.den) =
      (((fmt.scaled b + fmt.scaled (b + 1)) * q.den : ℕ) : ℚ≥0) := by
    unfold value
    rw [← add_div, ← mul_assoc, div_mul_cancel₀ _ hpow.ne']
    push_cast
    ring
  have hscale := mul_pos hpow hden
  rw [hround, ordinal, fmt.ordinalOf_le_iff q.den_pos, ← mul_lt_mul_iff_left₀ hscale,
    ← mul_left_inj' hscale.ne', hleft, hright, Nat.cast_lt, Nat.cast_inj]

end BinFormat
