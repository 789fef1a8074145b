import DtsuBridge.Lib.Numeral
import DtsuBridge.Lib.RoundingError

/-!
# The values of numerals

`decimalValue` is the value of a decimal numeral : its digits as one number, at the weight of the
last of them. What `PyFloat.repr` writes of a magnitude has the value of the digits it chose
(`decimalValue_reprMag`), whether they are written with an exponent or not.

A float is read as the value of its numeral, rounded. Seventeen digits are enough for double
precision : the nearest decimal of seventeen digits is off by less than what is still rounded
to the float (`round_shortest`). So `repr` is read back as the float it was written of
(`ofNumeral_repr`).
-/

/-! ## Values -/

/-- The number that digits are. -/
def digitsValue (ds : List Char) : ℕ :=
  Nat.ofDigitChars 10 ds 0

/-- The exponent, zero where there is none. -/
def exponentValue : List Char → ℤ
  | 'e' :: '-' :: cs => -digitsValue cs
  | 'e' :: '+' :: cs => digitsValue cs
  | 'e' :: cs => digitsValue cs
  | _ => 0

/-- The value of digits and what follows them. -/
def fractionValue (whole : List Char) : List Char → ℚ≥0
  | '.' :: cs =>
    let places := cs.takeWhile Char.isDigit
    digitsValue (whole ++ places) *
      ((10 : ℕ) : ℚ≥0) ^ (exponentValue (cs.dropWhile Char.isDigit) - places.length)
  | cs => digitsValue whole * ((10 : ℕ) : ℚ≥0) ^ exponentValue cs

/-- The value of a decimal numeral without its sign. -/
def decimalValue (cs : List Char) : ℚ≥0 :=
  fractionValue (cs.takeWhile Char.isDigit) (cs.dropWhile Char.isDigit)

theorem digitsValue_append (cs ds : List Char) :
    digitsValue (cs ++ ds) = digitsValue cs * 10 ^ ds.length + digitsValue ds := by
  rw [digitsValue, Nat.ofDigitChars_append, Nat.ofDigitChars_eq_ofDigitChars_zero, mul_comm]
  rfl

theorem digitsValue_zeros (n : ℕ) : digitsValue (List.replicate n '0') = 0 := by
  rw [digitsValue, Nat.ofDigitChars_replicate_zero, mul_zero]

theorem digitsValue_toDigits (n : ℕ) : digitsValue (Nat.toDigits 10 n) = n :=
  Nat.ofDigitChars_ten_toDigits

/-- Zeros in front have no value. -/
theorem digitsValue_zeros_append (n : ℕ) (ds : List Char) :
    digitsValue (List.replicate n '0' ++ ds) = digitsValue ds := by
  rw [digitsValue_append, digitsValue_zeros, zero_mul, zero_add]

theorem digitsValue_append_zeros (ds : List Char) (n : ℕ) :
    digitsValue (ds ++ List.replicate n '0') = digitsValue ds * 10 ^ n := by
  rw [digitsValue_append, digitsValue_zeros, add_zero, List.length_replicate]

theorem digitsValue_exponentDigits (n : ℕ) : digitsValue (exponentDigits n) = n := by
  unfold exponentDigits
  split_ifs
  · exact (digitsValue_zeros_append 1 _).trans (digitsValue_toDigits n)
  · exact digitsValue_toDigits n

/-- The weight of a digit that is moved. -/
theorem ten_zpow_natCast_mul (n : ℕ) (e : ℤ) :
    (((10 ^ n : ℕ) : ℚ≥0)) * ((10 : ℕ) : ℚ≥0) ^ e = ((10 : ℕ) : ℚ≥0) ^ (n + e) := by
  rw [zpow_add₀ (by norm_num), zpow_natCast]
  push_cast
  rfl

/-- Digits with an exponent, or nothing, after them. -/
theorem decimalValue_whole {ds rest : List Char} (hds : ∀ c ∈ ds, c.isDigit = true)
    (hrest : isExponent rest = true) :
    decimalValue (ds ++ rest) = digitsValue ds * ((10 : ℕ) : ℚ≥0) ^ exponentValue rest := by
  have hhead := head_of_isExponent hrest
  rw [decimalValue, takeWhile_of_head hds hhead, dropWhile_of_head hds hhead]
  unfold fractionValue
  split
  next => cases hrest
  next => rfl

/-- Digits on both sides of a point. -/
theorem decimalValue_point {as bs rest : List Char} (has : ∀ c ∈ as, c.isDigit = true)
    (hbs : ∀ c ∈ bs, c.isDigit = true) (hrest : isExponent rest = true) :
    decimalValue (as ++ '.' :: (bs ++ rest)) =
      digitsValue (as ++ bs) * ((10 : ℕ) : ℚ≥0) ^ (exponentValue rest - bs.length) := by
  have hhead := head_of_isExponent hrest
  have hpoint : ∀ c ∈ ('.' :: (bs ++ rest)).head?, c.isDigit = false := by
    intro c hc
    obtain rfl := Option.some.inj hc
    rfl
  rw [decimalValue, takeWhile_of_head has hpoint, dropWhile_of_head has hpoint, fractionValue,
    takeWhile_of_head hbs hhead, dropWhile_of_head hbs hhead]

/-! ## What is written -/

section Text

variable {ds : List Char}

theorem decimalValue_exponentText (hds : isDigits ds = true) (point : ℤ) :
    decimalValue (exponentText ds point) =
      digitsValue ds * ((10 : ℕ) : ℚ≥0) ^ (point - ds.length) := by
  obtain ⟨hne, hall⟩ := isDigits_iff.1 hds
  have hpos := List.length_pos_iff.2 hne
  have htake : ∀ c ∈ ds.take 1, c.isDigit = true := fun c hc => hall c (List.mem_of_mem_take hc)
  have hdrop : ∀ c ∈ ds.drop 1, c.isDigit = true := fun c hc => hall c (List.mem_of_mem_drop hc)
  set exp := 'e' :: (if point - 1 < 0 then '-' else '+') :: exponentDigits (point - 1).natAbs
    with hexp
  have hisExp : isExponent exp = true := by
    rw [hexp]
    split_ifs <;> exact isDigits_exponentDigits _
  have hvalue : exponentValue exp = point - 1 := by
    rw [hexp]
    split_ifs with hneg
    · rw [exponentValue, digitsValue_exponentDigits]
      omega
    · rw [exponentValue, digitsValue_exponentDigits]
      omega
  unfold exponentText
  dsimp only
  rw [← hexp]
  by_cases hlen : ds.length = 1
  · rw [if_pos hlen, List.nil_append, decimalValue_whole htake hisExp, hvalue, hlen,
      List.take_of_length_le hlen.le]
    rfl
  · have hsplit : ds.take 1 ++ ds.drop 1 = ds := List.take_append_drop 1 ds
    rw [if_neg hlen, List.cons_append, decimalValue_point htake hdrop hisExp, hvalue, hsplit,
      List.length_drop]
    congr 2
    omega

theorem decimalValue_pointText (hds : isDigits ds = true) (point : ℤ) :
    decimalValue (pointText ds point) =
      digitsValue ds * ((10 : ℕ) : ℚ≥0) ^ (point - ds.length) := by
  obtain ⟨-, hall⟩ := isDigits_iff.1 hds
  have hzeros : ∀ n, ∀ c ∈ List.replicate n '0', c.isDigit = true := by
    intro n c hc
    rw [List.eq_of_mem_replicate hc]
    rfl
  have hpoint : ∀ {as bs : List Char}, (∀ c ∈ as, c.isDigit = true) →
      (∀ c ∈ bs, c.isDigit = true) → decimalValue (as ++ '.' :: bs) =
        digitsValue (as ++ bs) * ((10 : ℕ) : ℚ≥0) ^ (-bs.length : ℤ) := by
    intro as bs has hbs
    have h := @decimalValue_point as bs [] has hbs rfl
    rw [List.append_nil] at h
    have hexp : exponentValue [] = 0 := rfl
    rw [h, hexp, zero_sub]
  have hzero : ∀ c ∈ ['0'], c.isDigit = true := List.forall_mem_singleton.2 rfl
  unfold pointText
  split_ifs with h0 hlen
  · have hdigits : digitsValue (['0'] ++ (List.replicate (-point).toNat '0' ++ ds)) =
        digitsValue ds :=
      (digitsValue_zeros_append 1 _).trans (digitsValue_zeros_append _ ds)
    rw [hpoint hzero (List.forall_mem_append.2 ⟨hzeros _, hall⟩), hdigits, List.length_append,
      List.length_replicate]
    congr 2
    push_cast
    omega
  · rw [hpoint (List.forall_mem_append.2 ⟨hall, hzeros _⟩) hzero]
    have hdigits : digitsValue (ds ++ List.replicate (point - ds.length).toNat '0' ++ ['0']) =
        digitsValue ds * 10 ^ ((point - ds.length).toNat + 1) := by
      rw [List.append_assoc, ← List.replicate_succ']
      exact digitsValue_append_zeros ds _
    rw [hdigits, Nat.cast_mul, mul_assoc, ten_zpow_natCast_mul]
    congr 2
    push_cast
    rw [List.length_singleton]
    omega
  · rw [hpoint (fun c hc => hall c (List.mem_of_mem_take hc))
      (fun c hc => hall c (List.mem_of_mem_drop hc)), List.take_append_drop, List.length_drop]
    congr 2
    omega

theorem exists_zeros (cs : List Char) :
    ∃ k, cs = cs.rdropWhile (· = '0') ++ List.replicate k '0' := by
  induction cs using List.reverseRecOn with
  | nil => exact ⟨0, rfl⟩
  | append_singleton cs c ih =>
    by_cases hc : c = '0'
    · obtain ⟨k, hk⟩ := ih
      refine ⟨k + 1, ?_⟩
      rw [List.rdropWhile_concat_pos _ _ _ (by simpa using hc), List.replicate_succ', hc,
        ← List.append_assoc, ← hk]
    · rw [List.rdropWhile_concat_neg _ _ _ (by simpa using hc)]
      exact ⟨0, (List.append_nil _).symm⟩

/-- Zeros at the end are written in the weight of the last digit. -/
theorem digitsValue_significant (ds : List Char) (e : ℤ) :
    digitsValue (significant ds) * ((10 : ℕ) : ℚ≥0) ^ (e - (significant ds).length) =
      digitsValue ds * ((10 : ℕ) : ℚ≥0) ^ (e - ds.length) := by
  obtain ⟨k, hk⟩ : ∃ k, ds = significant ds ++ List.replicate k '0' := by
    obtain ⟨k, hk⟩ := exists_zeros (ds.drop 1)
    refine ⟨k, ?_⟩
    rw [significant, List.append_assoc, ← hk, List.take_append_drop]
  generalize significant ds = ss at hk
  rw [hk, digitsValue_append_zeros, Nat.cast_mul, mul_assoc, ten_zpow_natCast_mul,
    List.length_append, List.length_replicate]
  congr 2
  push_cast
  omega

end Text

/-! ## Floats -/

namespace PyFloat

section Repr

variable [FloatArith]

/-- A magnitude is written as the decimal of its shortest digits. -/
theorem decimalValue_reprMag (m : ℚ≥0) :
    decimalValue (reprMag m) = (shortest m).1 * lastPlace m (shortest m).2 := by
  have hds := isDigits_significant (isDigits_toDigits (shortest m).1)
  have hvalue := digitsValue_significant (Nat.toDigits 10 (shortest m).1)
    (decimalPoint m - (shortest m).2 + (Nat.toDigits 10 (shortest m).1).length)
  rw [add_sub_cancel_right, digitsValue_toDigits] at hvalue
  unfold reprMag
  dsimp only
  split_ifs
  · rw [decimalValue_exponentText hds, hvalue, lastPlace]
  · rw [decimalValue_pointText hds, hvalue, lastPlace]

/-- `float` of a numeral. -/
def ofNumeral : List Char → PyFloat
  | '-' :: cs => ofMag true (FloatArith.round (decimalValue cs))
  | cs => ofMag false (FloatArith.round (decimalValue cs))

/-- A numeral without a sign is of a float without one. -/
theorem ofNumeral_of_isDecimal {cs : List Char} (h : isDecimal cs = true) :
    ofNumeral cs = ofMag false (FloatArith.round (decimalValue cs)) := by
  unfold ofNumeral
  split
  next => cases h
  next => rfl

/-- A decimal of `n` digits that was found rounds to the magnitude. -/
theorem round_of_ofDigits? {m : ℚ≥0} {n : ℕ} {p : ℕ × ℕ} (h : ofDigits? m n = some p) :
    FloatArith.round (p.1 * lastPlace m p.2) = m := by
  obtain ⟨d, hd, rfl⟩ := Option.map_eq_some_iff.1 h
  have hround := List.find?_some hd
  exact of_decide_eq_true hround

end Repr

/-- The magnitude is more than the weight of its last digit, the more so the more digits. -/
theorem lastPlace_le {m : ℚ≥0} (h0 : m ≠ 0) (n : ℕ) :
    ((lastPlace m n : ℚ≥0) : ℚ) * 10 ^ n ≤ 10 * m := by
  have hpos : (0 : ℚ) < m := NNRat.cast_pos.2 (pos_iff_ne_zero.2 h0)
  have hlog := Int.zpow_log_le_self (by norm_num : 1 < 10) hpos
  have hten : (10 : ℚ) ≠ 0 := by norm_num
  have hcast : ((lastPlace m n : ℚ≥0) : ℚ) * 10 ^ n = 10 ^ Int.log 10 (m : ℚ) * 10 := by
    unfold lastPlace decimalPoint
    push_cast
    rw [← zpow_natCast, ← zpow_add₀ hten, ← zpow_add_one₀ hten]
    congr 1
    omega
  rw [hcast, mul_comm]
  push_cast at hlog
  linarith

variable [FloatArith] [FloatArith.RoundsTo .binary64]

/-- The nearest decimal of seventeen digits rounds to the magnitude. -/
theorem ofDigits?_seventeen {m : ℚ≥0} (hm : FloatArith.round m = m) (h0 : m ≠ 0) :
    ∃ p, ofDigits? m 17 = some p := by
  set q := m / lastPlace m 17 with hq
  have hpos : (0 : ℚ) < m := NNRat.cast_pos.2 (pos_iff_ne_zero.2 h0)
  have hplace : (0 : ℚ) < lastPlace m 17 :=
    NNRat.cast_pos.2 (zpow_pos (by norm_num) _)
  have hle := lastPlace_le h0 17
  have hdecimal : |((roundHalfEven q.num q.den : ℚ≥0) * lastPlace m 17 - m : ℚ)| ≤
      lastPlace m 17 / 2 := by
    have hround := abs_roundHalfEven_sub q.num q.den_pos
    have hnum : (q.num / q.den : ℚ) = m / lastPlace m 17 := by
      rw [← NNRat.coe_natCast q.num, ← NNRat.coe_natCast q.den, ← NNRat.coe_div, q.num_div_den, hq,
        NNRat.coe_div]
    rw [hnum] at hround
    have hsplit : ((roundHalfEven q.num q.den : ℚ≥0) * lastPlace m 17 - m : ℚ) =
        (roundHalfEven q.num q.den - m / lastPlace m 17) * lastPlace m 17 := by
      rw [sub_mul, div_mul_cancel₀ _ hplace.ne', NNRat.coe_natCast]
    rw [hsplit, abs_mul, abs_of_pos hplace]
    linarith [mul_le_mul_of_nonneg_right hround hplace.le]
  have hround : FloatArith.round ((roundHalfEven q.num q.den : ℚ≥0) * lastPlace m 17) = m := by
    rw [FloatArith.RoundsTo.round_eq] at hm ⊢
    refine BinFormat.round_of_near hm ?_
    have hbits : BinFormat.binary64.frac + 2 = 54 := rfl
    rw [hbits]
    push_cast at hdecimal ⊢
    norm_num at hle ⊢
    linarith
  exact ⟨(roundHalfEven q.num q.den, 17), by
    rw [ofDigits?, neighbours, List.find?_cons_of_pos (by simpa using hround)]
    rfl⟩

/-- The shortest digits round to the magnitude. -/
theorem round_shortest {m : ℚ≥0} (hm : FloatArith.round m = m) (h0 : m ≠ 0) :
    FloatArith.round ((shortest m).1 * lastPlace m (shortest m).2) = m := by
  unfold shortest
  rcases hfind : (List.range' 1 17).findSome? (ofDigits? m) with _ | p
  · obtain ⟨p, hp⟩ := ofDigits?_seventeen hm h0
    have hnone := List.findSome?_eq_none_iff.1 hfind 17 (by decide)
    rw [hp] at hnone
    cases hnone
  · obtain ⟨n, -, hp⟩ := List.exists_of_findSome?_eq_some hfind
    exact round_of_ofDigits? hp

/-- What is written of a finite float is read back as it. -/
theorem ofNumeral_repr {neg : Bool} {m : ℚ≥0} (hm : FloatArith.round m = m) :
    ofNumeral (fin neg m).repr = fin neg m := by
  have hvalue : FloatArith.round (decimalValue (if m = 0 then ['0', '.', '0'] else reprMag m)) =
      m := by
    split_ifs with h0
    · have hzero : decimalValue ['0', '.', '0'] = 0 := by decide +kernel
      rw [hzero, ← h0, hm, h0]
    · rw [decimalValue_reprMag]
      exact round_shortest hm h0
  have hdecimal : isDecimal (if m = 0 then ['0', '.', '0'] else reprMag m) = true := by
    split_ifs
    · rfl
    · exact isDecimal_reprMag m
  rcases neg with _ | _
  · have hrepr : (fin false m).repr = if m = 0 then ['0', '.', '0'] else reprMag m := rfl
    rw [hrepr, ofNumeral_of_isDecimal hdecimal, hvalue]
    rfl
  · have hrepr : (fin true m).repr = '-' :: if m = 0 then ['0', '.', '0'] else reprMag m := rfl
    rw [hrepr, ofNumeral, hvalue]
    rfl

end PyFloat
