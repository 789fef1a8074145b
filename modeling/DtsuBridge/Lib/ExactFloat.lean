import DtsuBridge.Lib.PyFloat

/-!
# Exact arithmetic

`FloatArith.Exact` says of an arithmetic that it rounds nothing and never overflows. The
rational a float stands for is `toRat`, zero for an infinity or NaN. It commutes with the
products and quotients of every two floats (`toRat_mul`, `toRat_div`).
-/

/-- Nothing is rounded and nothing overflows. -/
class FloatArith.Exact [FloatArith] : Prop where
  round_eq : ∀ q : ℚ≥0, FloatArith.round q = q
  hypotMag_ne_top : ∀ m n : ℚ≥0, FloatArith.hypotMag m n ≠ ⊤

instance (hypot : ℚ≥0 → ℚ≥0 → ℚ≥0) : @FloatArith.Exact (FloatArith.exact hypot) :=
  @FloatArith.Exact.mk (FloatArith.exact hypot) (fun _ => rfl) fun _ _ => WithTop.coe_ne_top

namespace PyFloat

/-! ## The rational a float stands for -/

/-- The rational of a finite float, zero for the others. -/
def toRat : PyFloat → ℚ
  | fin neg m => signed neg m
  | _ => 0

@[simp] theorem toRat_fin (neg : Bool) (m : ℚ≥0) : (fin neg m).toRat = signed neg m :=
  rfl

@[simp] theorem toRat_inf (neg : Bool) : (inf neg).toRat = 0 :=
  rfl

@[simp] theorem toRat_nan : nan.toRat = 0 :=
  rfl

@[simp] theorem toRat_zero : (0 : PyFloat).toRat = 0 :=
  rfl

@[simp] theorem isFinite_zero : (0 : PyFloat).isFinite = true :=
  rfl

@[simp] theorem isFinite_abs (x : PyFloat) : x.abs.isFinite = x.isFinite := by
  cases x <;> rfl

@[simp] theorem signed_zero (neg : Bool) : signed neg 0 = 0 := by
  cases neg <;> simp

theorem abs_signed (neg : Bool) (m : ℚ≥0) : |signed neg m| = m := by
  cases neg <;> simp

theorem signed_xor_mul (a b : Bool) (m n : ℚ≥0) :
    signed (a ^^ b) (m * n) = signed a m * signed b n := by
  cases a <;> cases b <;> simp

theorem signed_xor_div (a b : Bool) (m n : ℚ≥0) :
    signed (a ^^ b) (m / n) = signed a m / signed b n := by
  cases a <;> cases b <;> simp [neg_div, div_neg]

theorem signed_nnabs (s : ℚ) : signed (decide (s < 0)) s.nnabs = s := by
  rcases lt_or_ge s 0 with h | h
  · rw [decide_eq_true h, signed_true, Rat.coe_nnabs, abs_of_neg h, neg_neg]
  · rw [decide_eq_false (not_lt.2 h), signed_false, Rat.coe_nnabs, abs_of_nonneg h]

theorem toRat_abs (x : PyFloat) : x.abs.toRat = |x.toRat| := by
  cases x with
  | nan => simp [abs]
  | inf neg => simp [abs]
  | fin neg m => simp [abs, abs_signed]

/-- A finite float equals zero where its rational does. -/
theorem eq_zero_iff {x : PyFloat} (h : x.isFinite = true) : x.eq 0 = true ↔ x.toRat = 0 := by
  obtain ⟨neg, m, rfl⟩ := isFinite_iff.1 h
  have h0 : (0 : PyFloat) = fin false 0 := rfl
  rw [h0, eq_fin, decide_eq_true_iff, signed_zero, toRat_fin]

section Arithmetic

variable [FloatArith]

omit [FloatArith] in
theorem isFinite_ofMag_iff {neg : Bool} {r : WithTop ℚ≥0} :
    (ofMag neg r).isFinite = true ↔ r ≠ ⊤ := by
  cases r <;> simp [ofMag]

/-! ## Arithmetic that is exact -/

variable [FloatArith.Exact]

theorem ofMag_round (neg : Bool) (q : ℚ≥0) : ofMag neg (FloatArith.round q) = fin neg q := by
  rw [FloatArith.Exact.round_eq, ofMag_coe]

theorem toRat_mul (x y : PyFloat) : (x.mul y).toRat = x.toRat * y.toRat := by
  have hinf : ∀ (neg : Bool) (m : ℚ≥0), (if m = 0 then nan else inf neg).toRat = 0 := by
    intro neg m
    split_ifs <;> rfl
  match x, y with
  | nan, y => simp [mul]
  | inf _, nan => simp [mul]
  | fin _ _, nan => simp [mul]
  | inf _, inf _ => simp [mul]
  | inf _, fin _ _ => simp [mul, hinf]
  | fin _ _, inf _ => simp [mul, hinf]
  | fin a m, fin b n => simp [mul, ofMag_round, signed_xor_mul]

theorem toRat_div (x y : PyFloat) : (x.div y).toRat = x.toRat / y.toRat := by
  match x, y with
  | nan, y => simp [div]
  | inf _, nan => simp [div]
  | fin _ _, nan => simp [div]
  | inf _, inf _ => simp [div]
  | inf _, fin _ _ => simp [div]
  | fin _ _, inf _ => simp [div]
  | fin a m, fin b n => simp [div, ofMag_round, signed_xor_div]

theorem isFinite_mul {x y : PyFloat} (hx : x.isFinite = true) (hy : y.isFinite = true) :
    (x.mul y).isFinite = true := by
  obtain ⟨a, m, rfl⟩ := isFinite_iff.1 hx
  obtain ⟨b, n, rfl⟩ := isFinite_iff.1 hy
  simp [mul, ofMag_round]

theorem isFinite_div {x y : PyFloat} (hx : x.isFinite = true) (hy : y.isFinite = true) :
    (x.div y).isFinite = true := by
  obtain ⟨a, m, rfl⟩ := isFinite_iff.1 hx
  obtain ⟨b, n, rfl⟩ := isFinite_iff.1 hy
  simp [div, ofMag_round]

theorem isFinite_ofSum (s : ℚ) : (ofSum s).isFinite = true := by
  rw [ofSum, ofMag_round, isFinite_fin]

theorem toRat_ofSum (s : ℚ) : (ofSum s).toRat = s := by
  rw [ofSum, ofMag_round, toRat_fin, signed_nnabs]

end Arithmetic

end PyFloat
