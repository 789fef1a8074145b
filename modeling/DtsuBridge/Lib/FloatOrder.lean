import DtsuBridge.Lib.ExactFloat

/-!
# Floats in order

A rounding is monotone and odd, so that the arithmetic of floats keeps the order of what it
rounds. `Rounds x q` : a float is the rational `q` rounded, up to the sign of a zero. This
holds of products, quotients and sums of finite floats in every arithmetic (`rounds_mul`,
`rounds_div`, `rounds_add`).

`KeepsOrder u f` : the results of `f` that are finite are in the order of `u`, and are of
its sign or zero. `KeepsOrder.comp` composes them.

The bits of a finite float of a format are a sign above the number of its magnitude
(`ofBits_signBits`). Clearing the low bits of that number keeps the order, and of a normal
magnitude it takes less than one part in two to the number of bits of the fraction that
are left (`scaled_clearLow`).
-/

namespace PyFloat

section Arithmetic

variable [FloatArith]

/-! ## Rounding a rational -/

/-- The float is `q` rounded, up to the sign of a zero. -/
structure Rounds (x : PyFloat) (q : ℚ) : Prop where
  isFinite : x.isFinite = (ofSum q).isFinite
  toRat : x.toRat = (ofSum q).toRat

omit [FloatArith] in
theorem nnabs_signed (neg : Bool) (m : ℚ≥0) : (signed neg m).nnabs = m := by
  rw [← NNRat.coe_inj, Rat.coe_nnabs, abs_signed]

omit [FloatArith] in
theorem decide_signed_neg {neg : Bool} {m : ℚ≥0} (hm : m ≠ 0) :
    decide (signed neg m < 0) = neg := by
  have hpos : (0 : ℚ) < m := NNRat.coe_pos.2 (pos_iff_ne_zero.2 hm)
  cases neg <;> simp [hpos]

theorem rounds_ofMag (neg : Bool) (m : ℚ≥0) :
    Rounds (ofMag neg (FloatArith.round m)) (signed neg m) := by
  have hdef : ofSum (signed neg m) =
      ofMag (decide (signed neg m < 0)) (FloatArith.round m) := by
    rw [ofSum, nnabs_signed]
  rcases eq_or_ne m 0 with rfl | hm
  · rw [signed_zero] at hdef ⊢
    rw [FloatArith.round_zero] at hdef ⊢
    refine ⟨by rw [hdef]; rfl, ?_⟩
    have hzero : ∀ neg, (ofMag neg (0 : WithTop ℚ≥0)).toRat = 0 := signed_zero
    rw [hdef, hzero, hzero]
  · rw [decide_signed_neg hm] at hdef
    rw [← hdef]
    exact ⟨rfl, rfl⟩

theorem rounds_mul {x y : PyFloat} (hx : x.isFinite = true) (hy : y.isFinite = true) :
    Rounds (x.mul y) (x.toRat * y.toRat) := by
  obtain ⟨a, m, rfl⟩ := isFinite_iff.1 hx
  obtain ⟨b, n, rfl⟩ := isFinite_iff.1 hy
  rw [toRat_fin, toRat_fin, ← signed_xor_mul]
  exact rounds_ofMag _ _

theorem rounds_div {x y : PyFloat} (hx : x.isFinite = true) (hy : y.isFinite = true) :
    Rounds (x.div y) (x.toRat / y.toRat) := by
  obtain ⟨a, m, rfl⟩ := isFinite_iff.1 hx
  obtain ⟨b, n, rfl⟩ := isFinite_iff.1 hy
  rw [toRat_fin, toRat_fin, ← signed_xor_div]
  exact rounds_ofMag _ _

omit [FloatArith] in
/-- A sum of two signs has the sign of the larger magnitude. -/
theorem signed_add_signed {a b : Bool} (hab : a ≠ b) {m n : ℚ≥0} (h : n ≤ m) :
    signed a m + signed b n = signed a (m - n) := by
  cases a <;> cases b <;> simp_all [NNRat.coe_sub] <;> ring

theorem rounds_add {x y : PyFloat} (hx : x.isFinite = true) (hy : y.isFinite = true) :
    Rounds (x.add y) (x.toRat + y.toRat) := by
  obtain ⟨a, m, rfl⟩ := isFinite_iff.1 hx
  obtain ⟨b, n, rfl⟩ := isFinite_iff.1 hy
  rw [toRat_fin, toRat_fin, add]
  split_ifs with hab hmn hlt
  · have hsum : signed a m + signed b n = signed a (m + n) := by
      subst hab
      cases a <;> simp [add_comm]
    rw [hsum]
    exact rounds_ofMag _ _
  · have hsum : signed a m + signed b n = 0 := by
      subst hmn
      rw [signed_add_signed hab le_rfl, tsub_self, signed_zero]
    rw [hsum]
    exact ⟨by rw [ofSum_zero]; rfl, by rw [ofSum_zero]; simp⟩
  · rw [signed_add_signed hab hlt.le]
    exact rounds_ofMag _ _
  · rw [add_comm (signed a m), signed_add_signed (Ne.symm hab) (not_lt.1 hlt)]
    exact rounds_ofMag _ _

/-! ## What rounding keeps -/

omit [FloatArith] in
/-- Magnitudes that are mapped in order, zero to zero, are in order with their signs. -/
theorem signed_le_signed {a b : Bool} {m n q r : ℚ≥0} (h : signed a m ≤ signed b n)
    (hle : m ≤ n → q ≤ r) (hge : n ≤ m → r ≤ q) (hm : m = 0 → q = 0) (hn : n = 0 → r = 0) :
    signed a q ≤ signed b r := by
  have hm0 : (0 : ℚ) ≤ m := NNRat.coe_nonneg m
  have hn0 : (0 : ℚ) ≤ n := NNRat.coe_nonneg n
  cases a with
  | false =>
    cases b with
    | false => exact NNRat.coe_le_coe.2 (hle (NNRat.coe_le_coe.1 h))
    | true =>
      simp only [signed_false, signed_true] at h
      have hmz : m = 0 := NNRat.coe_eq_zero.1 (by linarith)
      have hnz : n = 0 := NNRat.coe_eq_zero.1 (by linarith)
      rw [hm hmz, hn hnz, signed_zero, signed_zero]
  | true =>
    cases b with
    | false =>
      simp only [signed_false, signed_true]
      exact (neg_nonpos.2 (NNRat.coe_nonneg q)).trans (NNRat.coe_nonneg r)
    | true => exact neg_le_neg (NNRat.coe_le_coe.2 (hge (NNRat.coe_le_coe.1 (neg_le_neg_iff.1 h))))

theorem ofSum_le {s t : ℚ} (h : s ≤ t) (hs : (ofSum s).isFinite = true)
    (ht : (ofSum t).isFinite = true) : (ofSum s).toRat ≤ (ofSum t).toRat := by
  rw [ofSum, isFinite_ofMag_iff] at hs ht
  obtain ⟨q, hq⟩ := WithTop.ne_top_iff_exists.1 hs
  obtain ⟨r, hr⟩ := WithTop.ne_top_iff_exists.1 ht
  have hle : ∀ {m n q r : ℚ≥0}, (q : WithTop ℚ≥0) = FloatArith.round m →
      (r : WithTop ℚ≥0) = FloatArith.round n → m ≤ n → q ≤ r := by
    intro m n q r hq hr hmn
    rw [← WithTop.coe_le_coe, hq, hr]
    exact FloatArith.round_mono hmn
  have hzero : ∀ {m q : ℚ≥0}, (q : WithTop ℚ≥0) = FloatArith.round m → m = 0 → q = 0 := by
    rintro m q hq rfl
    rw [FloatArith.round_zero] at hq
    exact WithTop.coe_inj.1 hq
  rw [ofSum, ofSum, ← hq, ← hr, ofMag_coe, ofMag_coe, toRat_fin, toRat_fin]
  rw [← signed_nnabs s, ← signed_nnabs t] at h
  exact signed_le_signed h (hle hq hr) (hle hr hq) (hzero hq) (hzero hr)

theorem ofSum_nonneg {s : ℚ} (h : 0 ≤ s) (hs : (ofSum s).isFinite = true) :
    0 ≤ (ofSum s).toRat := by
  have hle := ofSum_le h (by rw [ofSum_zero]; rfl) hs
  rwa [ofSum_zero] at hle

theorem ofSum_nonpos {s : ℚ} (h : s ≤ 0) (hs : (ofSum s).isFinite = true) :
    (ofSum s).toRat ≤ 0 := by
  have hle := ofSum_le h hs (by rw [ofSum_zero]; rfl)
  rwa [ofSum_zero] at hle

end Arithmetic

/-! ## Functions that keep the order -/

/-- The finite results of `f` are in the order of `u`, and are of its sign or zero. -/
structure KeepsOrder (u : PyFloat → ℚ) (f : PyFloat → PyFloat) : Prop where
  isFinite : ∀ x, (f x).isFinite = true → x.isFinite = true
  le : ∀ x y, (f x).isFinite = true → (f y).isFinite = true → u x ≤ u y →
    (f x).toRat ≤ (f y).toRat
  nonneg : ∀ x, (f x).isFinite = true → 0 ≤ u x → 0 ≤ (f x).toRat
  nonpos : ∀ x, (f x).isFinite = true → u x ≤ 0 → (f x).toRat ≤ 0

/-- A finite result is zero or of the sign of `u`. -/
theorem KeepsOrder.sign {u : PyFloat → ℚ} {f : PyFloat → PyFloat} (hf : KeepsOrder u f)
    {x : PyFloat} (hx : (f x).isFinite = true) :
    (f x).toRat = 0 ∨ 0 < (f x).toRat ∧ 0 < u x ∨ (f x).toRat < 0 ∧ u x < 0 := by
  rcases lt_trichotomy (f x).toRat 0 with hneg | hzero | hpos
  · exact Or.inr (Or.inr ⟨hneg, not_le.1 fun h => (hf.nonneg x hx h).not_gt hneg⟩)
  · exact Or.inl hzero
  · exact Or.inr (Or.inl ⟨hpos, not_le.1 fun h => (hf.nonpos x hx h).not_gt hpos⟩)

theorem keepsOrder_id : KeepsOrder toRat id where
  isFinite _ h := h
  le _ _ _ _ h := h
  nonneg _ _ h := h
  nonpos _ _ h := h

/-- Keeping the order of a sign, after keeping the order. -/
theorem KeepsOrder.comp {t : ℚ} (ht : t = 1 ∨ t = -1) {f g : PyFloat → PyFloat}
    (hg : KeepsOrder (fun x => t * x.toRat) g) (hf : KeepsOrder toRat f) :
    KeepsOrder (fun x => t * x.toRat) (g ∘ f) where
  isFinite x h := hf.isFinite x (hg.isFinite _ h)
  le x y hx hy h := by
    have hfx := hg.isFinite _ hx
    have hfy := hg.isFinite _ hy
    refine hg.le _ _ hx hy ?_
    rcases ht with rfl | rfl
    · simpa using hf.le x y hfx hfy (by simpa using h)
    · simpa using hf.le y x hfy hfx (by simpa using h)
  nonneg x hx h := by
    have hfx := hg.isFinite _ hx
    refine hg.nonneg _ hx ?_
    rcases ht with rfl | rfl
    · simpa using hf.nonneg x hfx (by simpa using h)
    · simpa using hf.nonpos x hfx (by simpa using h)
  nonpos x hx h := by
    have hfx := hg.isFinite _ hx
    refine hg.nonpos _ hx ?_
    rcases ht with rfl | rfl
    · simpa using hf.nonpos x hfx (by simpa using h)
    · simpa using hf.nonneg x hfx (by simpa using h)

/-- Keeping the order of what keeps the order of `u`. -/
theorem KeepsOrder.after {u : PyFloat → ℚ} {f g : PyFloat → PyFloat} (hg : KeepsOrder toRat g)
    (hf : KeepsOrder u f) : KeepsOrder u (g ∘ f) where
  isFinite x h := hf.isFinite x (hg.isFinite _ h)
  le x y hx hy h :=
    hg.le _ _ hx hy (hf.le x y (hg.isFinite _ hx) (hg.isFinite _ hy) h)
  nonneg x hx h := hg.nonneg _ hx (hf.nonneg x (hg.isFinite _ hx) h)
  nonpos x hx h := hg.nonpos _ hx (hf.nonpos x (hg.isFinite _ hx) h)

section Arithmetic

variable [FloatArith]

/-- A rounding of what keeps the order keeps it. -/
theorem keepsOrder_of_rounds {u e : PyFloat → ℚ} {f : PyFloat → PyFloat}
    (hfin : ∀ x, (f x).isFinite = true → x.isFinite = true)
    (hround : ∀ x, x.isFinite = true → Rounds (f x) (e x)) (hle : ∀ x y, u x ≤ u y → e x ≤ e y)
    (hnonneg : ∀ x, 0 ≤ u x → 0 ≤ e x) (hnonpos : ∀ x, u x ≤ 0 → e x ≤ 0) : KeepsOrder u f where
  isFinite := hfin
  le x y hx hy h := by
    have hrx := hround x (hfin x hx)
    have hry := hround y (hfin y hy)
    rw [hrx.toRat, hry.toRat]
    exact ofSum_le (hle x y h) (hrx.isFinite ▸ hx) (hry.isFinite ▸ hy)
  nonneg x hx h := by
    have hrx := hround x (hfin x hx)
    rw [hrx.toRat]
    exact ofSum_nonneg (hnonneg x h) (hrx.isFinite ▸ hx)
  nonpos x hx h := by
    have hrx := hround x (hfin x hx)
    rw [hrx.toRat]
    exact ofSum_nonpos (hnonpos x h) (hrx.isFinite ▸ hx)

theorem isFinite_of_mul {x y : PyFloat} (h : (x.mul y).isFinite = true) : x.isFinite = true := by
  have hinf : ∀ (neg : Bool) (m : ℚ≥0), (if m = 0 then nan else inf neg).isFinite = false := by
    intro neg m
    split_ifs <;> rfl
  match x, y with
  | nan, _ => exact h
  | inf _, nan => exact h
  | inf _, inf _ => exact h
  | inf a, fin b m => exact absurd h (by rw [mul, hinf]; simp)
  | fin _ _, _ => rfl

theorem isFinite_of_div {x y : PyFloat} (h : (x.div y).isFinite = true) : x.isFinite = true := by
  match x, y with
  | nan, _ => exact h
  | inf _, nan => exact h
  | inf _, inf _ => exact h
  | inf _, fin _ _ => exact h
  | fin _ _, _ => rfl

theorem isFinite_of_add {x y : PyFloat} (hy : y.isFinite = true)
    (h : (x.add y).isFinite = true) : x.isFinite = true := by
  obtain ⟨b, n, rfl⟩ := isFinite_iff.1 hy
  cases x with
  | nan => exact h
  | inf _ => exact h
  | fin _ _ => rfl

/-- A product with a non-negative multiple of `t` keeps the order of `t`. -/
theorem keepsOrder_mul {y : PyFloat} (hy : y.isFinite = true) {t k : ℚ} (hk : 0 ≤ k)
    (h : y.toRat = t * k) : KeepsOrder (fun x => t * x.toRat) (·.mul y) := by
  have hexact : ∀ x : PyFloat, x.toRat * y.toRat = t * x.toRat * k := by
    intro x
    rw [h]
    ring
  refine keepsOrder_of_rounds (e := fun x => t * x.toRat * k) (fun _ => isFinite_of_mul)
    (fun x hx => hexact x ▸ rounds_mul hx hy) ?_ ?_ ?_
  · exact fun x y hle => mul_le_mul_of_nonneg_right hle hk
  · exact fun x hx => mul_nonneg hx hk
  · exact fun x hx => mul_nonpos_of_nonpos_of_nonneg hx hk

omit [FloatArith] in
/-- A positive float is positive infinity or has a positive rational. -/
theorem zero_lt_iff {y : PyFloat} :
    (0 : PyFloat).lt y = true ↔ y = inf false ∨ y.isFinite = true ∧ 0 < y.toRat := by
  have h0 : (0 : PyFloat) = fin false 0 := rfl
  match y with
  | nan => simp [lt, key, h0]
  | inf true => simp [lt, key, h0]
  | inf false =>
    have hlt : ((signed false 0 : WithTop ℚ) : WithBot (WithTop ℚ)) < ((⊤ : WithTop ℚ) : _) :=
      WithBot.coe_lt_coe.2 (WithTop.coe_lt_top _)
    simpa [lt, key, h0] using hlt
  | fin neg m =>
    rw [h0, lt_fin]
    simp

omit [FloatArith] in
/-- A float that equals zero is a zero. -/
theorem toRat_of_eq_zero {y : PyFloat} (h : y.eq 0 = true) : y.isFinite = true ∧ y.toRat = 0 := by
  have h0 : (0 : PyFloat) = fin false 0 := rfl
  have hfin : y.isFinite = true := by
    match y with
    | nan => simp [eq, key] at h
    | inf true => simp [eq, key, h0] at h
    | inf false =>
      have hne : ((⊤ : WithTop ℚ) : WithBot (WithTop ℚ)) ≠ ((signed false 0 : WithTop ℚ) : _) :=
        fun heq => WithTop.top_ne_coe (WithBot.coe_inj.1 heq)
      have heq : ((⊤ : WithTop ℚ) : WithBot (WithTop ℚ)) = ((signed false 0 : WithTop ℚ) : _) :=
        of_decide_eq_true (p := _ = _) h
      exact absurd heq hne
    | fin _ _ => rfl
  exact ⟨hfin, (eq_zero_iff hfin).1 h⟩

/-- A product with a positive float keeps the order. -/
theorem keepsOrder_mul_pos {y : PyFloat} (h : (0 : PyFloat).lt y = true) :
    KeepsOrder toRat (·.mul y) := by
  rcases zero_lt_iff.1 h with rfl | ⟨hy, hpos⟩
  · have hnot : ∀ x : PyFloat, ¬(x.mul (inf false)).isFinite = true := by
      intro x
      match x with
      | nan => simp [mul]
      | inf _ => simp [mul]
      | fin a m => rw [mul]; split_ifs <;> simp
    exact ⟨fun x hx => absurd hx (hnot x), fun x _ hx => absurd hx (hnot x),
      fun x hx => absurd hx (hnot x), fun x hx => absurd hx (hnot x)⟩
  · simpa using keepsOrder_mul hy hpos.le (one_mul y.toRat).symm

/-- A quotient by a positive float keeps the order. -/
theorem keepsOrder_div {y : PyFloat} (hy : y.isFinite = true) (hpos : 0 < y.toRat) :
    KeepsOrder toRat (·.div y) := by
  refine keepsOrder_of_rounds (e := fun x => x.toRat / y.toRat) (fun _ => isFinite_of_div)
    (fun x hx => rounds_div hx hy) ?_ ?_ ?_
  · exact fun x y hle => div_le_div_of_nonneg_right hle hpos.le
  · exact fun x hx => div_nonneg hx hpos.le
  · exact fun x hx => div_nonpos_of_nonpos_of_nonneg hx hpos.le

/-- A sum with zero keeps the order. -/
theorem keepsOrder_add_zero {y : PyFloat} (hy : y.isFinite = true) (h0 : y.toRat = 0) :
    KeepsOrder toRat (·.add y) := by
  refine keepsOrder_of_rounds (e := toRat) (fun _ => isFinite_of_add hy) (fun x hx => ?_)
    (fun _ _ h => h) (fun _ h => h) (fun _ h => h)
  have h := rounds_add hx hy
  rwa [h0, add_zero] at h

end Arithmetic

/-- A map of the magnitudes that is monotone and keeps zero keeps the order. -/
theorem keepsOrder_of_mag {g : ℚ≥0 → ℚ≥0} (hg : Monotone g) (h0 : g 0 = 0) {f : PyFloat → PyFloat}
    (hfin : ∀ x, (f x).isFinite = true → x.isFinite = true)
    (hf : ∀ neg m, f (fin neg m) = fin neg (g m)) : KeepsOrder toRat f := by
  have hle : ∀ {a b : Bool} {m n : ℚ≥0}, signed a m ≤ signed b n →
      signed a (g m) ≤ signed b (g n) := by
    intro a b m n h
    refine signed_le_signed h (fun hmn => hg hmn) (fun hmn => hg hmn) ?_ ?_
    · rintro rfl
      exact h0
    · rintro rfl
      exact h0
  refine ⟨hfin, fun x y hx hy h => ?_, fun x hx h => ?_, fun x hx h => ?_⟩
  · obtain ⟨a, m, rfl⟩ := isFinite_iff.1 (hfin x hx)
    obtain ⟨b, n, rfl⟩ := isFinite_iff.1 (hfin y hy)
    rw [hf, hf]
    exact hle h
  · obtain ⟨a, m, rfl⟩ := isFinite_iff.1 (hfin x hx)
    have hsigned : signed false 0 ≤ signed a m := by simpa using h
    simpa [hf, h0] using hle hsigned
  · obtain ⟨a, m, rfl⟩ := isFinite_iff.1 (hfin x hx)
    have hsigned : signed a m ≤ signed false 0 := by simpa using h
    simpa [hf, h0] using hle hsigned

/-! ## Bits -/

/-- A sign above the number of a finite magnitude. -/
theorem ofBits_signBits {fmt : BinFormat} (neg : Bool) {b : ℕ} (hb : b < fmt.infOrdinal) :
    ofBits fmt (signBits fmt neg + b) = fin neg (fmt.value b) := by
  have hlt : b < 2 ^ fmt.expBits * 2 ^ fmt.frac :=
    hb.trans_le (Nat.mul_le_mul_right _ (Nat.sub_le _ _))
  have hmod : (signBits fmt neg + b) % (2 ^ fmt.expBits * 2 ^ fmt.frac) = b := by
    cases neg <;> simp [signBits, Nat.mod_eq_of_lt hlt]
  have hdiv : decide ((signBits fmt neg + b) / (2 ^ fmt.expBits * 2 ^ fmt.frac) % 2 = 1) =
      neg := by
    cases neg with
    | false => simp [signBits, Nat.div_eq_of_lt hlt]
    | true =>
      rw [signBits, if_pos rfl, Nat.add_div_left _ (by positivity), Nat.div_eq_of_lt hlt]
      rfl
  simp only [ofBits, hmod, hdiv, if_pos hb]

/-- A pattern of a finite float is a sign above the number of its magnitude. -/
theorem exists_ofBits {fmt : BinFormat} {b : ℕ} (hb : b < 2 * (2 ^ fmt.expBits * 2 ^ fmt.frac))
    (h : (ofBits fmt b).isFinite = true) : ∃ neg n, n < fmt.infOrdinal ∧
      b = signBits fmt neg + n ∧ ofBits fmt b = fin neg (fmt.value n) := by
  set size := 2 ^ fmt.expBits * 2 ^ fmt.frac with hsize
  have hdiv : b / size ≤ 1 := Nat.le_of_lt_succ (Nat.div_lt_of_lt_mul (by rwa [mul_comm]))
  have hsplit := Nat.div_add_mod b size
  have hbits : b = signBits fmt (decide (b / size % 2 = 1)) + b % size := by
    interval_cases hq : b / size
    · simpa [signBits] using hsplit.symm
    · simpa [signBits, hsize] using hsplit.symm
  have hlt : b % size < fmt.infOrdinal := by
    by_contra hge
    rw [ofBits, if_neg hge] at h
    split_ifs at h <;> simp at h
  refine ⟨_, _, hlt, hbits, ?_⟩
  exact (congrArg (ofBits fmt) hbits).trans (ofBits_signBits _ hlt)

/-- A finite pattern is the pattern of its float. -/
theorem toBits?_ofBits {fmt : BinFormat} {b : ℕ} (hb : b < 2 * (2 ^ fmt.expBits * 2 ^ fmt.frac))
    (h : (ofBits fmt b).isFinite = true) : (ofBits fmt b).toBits? fmt = some b := by
  obtain ⟨neg, n, hn, rfl, heq⟩ := exists_ofBits hb h
  rw [heq, toBits?, BinFormat.ordinal_value, if_pos hn]

end PyFloat

namespace BinFormat

/-- The number with its `k` low bits cleared. -/
def clearLow (k b : ℕ) : ℕ :=
  b - b % 2 ^ k

theorem clearLow_eq (k b : ℕ) : clearLow k b = 2 ^ k * (b / 2 ^ k) := by
  have h := Nat.div_add_mod b (2 ^ k)
  unfold clearLow
  omega

theorem clearLow_le (k b : ℕ) : clearLow k b ≤ b :=
  Nat.sub_le _ _

theorem clearLow_mono (k : ℕ) : Monotone (clearLow k) := by
  intro b b' h
  rw [clearLow_eq, clearLow_eq]
  exact Nat.mul_le_mul_left _ (Nat.div_le_div_right h)

variable {fmt : BinFormat}

/-- Bits of the fraction that are cleared leave the exponent, and are lost from the
significand. -/
theorem mant_clearLow {k b : ℕ} (hk : k ≤ fmt.frac) (hb : 2 ^ fmt.frac ≤ b) :
    clearLow k b / 2 ^ fmt.frac = b / 2 ^ fmt.frac ∧
      fmt.mant (clearLow k b) + b % 2 ^ k = fmt.mant b := by
  have hdvd : 2 ^ k ∣ 2 ^ fmt.frac := pow_dvd_pow 2 hk
  have hmod : b % 2 ^ k = b % 2 ^ fmt.frac % 2 ^ k := (Nat.mod_mod_of_dvd b hdvd).symm
  have hle : b % 2 ^ k ≤ b % 2 ^ fmt.frac := hmod ▸ Nat.mod_le _ _
  have hpos : 0 < 2 ^ fmt.frac := by positivity
  have hlt : b % 2 ^ fmt.frac - b % 2 ^ k < 2 ^ fmt.frac :=
    (Nat.sub_le _ _).trans_lt (Nat.mod_lt _ hpos)
  have hsplit : clearLow k b =
      (b % 2 ^ fmt.frac - b % 2 ^ k) + 2 ^ fmt.frac * (b / 2 ^ fmt.frac) := by
    have h := Nat.div_add_mod b (2 ^ fmt.frac)
    unfold clearLow
    omega
  have hdiv : clearLow k b / 2 ^ fmt.frac = b / 2 ^ fmt.frac := by
    rw [hsplit, Nat.add_mul_div_left _ _ hpos, Nat.div_eq_of_lt hlt, zero_add]
  have hrem : clearLow k b % 2 ^ fmt.frac = b % 2 ^ fmt.frac - b % 2 ^ k := by
    rw [hsplit, Nat.add_mul_mod_self_left, Nat.mod_eq_of_lt hlt]
  have hnormal : ¬clearLow k b < 2 ^ fmt.frac := by
    intro hsmall
    have hzero := Nat.div_eq_of_lt hsmall
    rw [hdiv, Nat.div_eq_zero_iff] at hzero
    omega
  refine ⟨hdiv, ?_⟩
  rw [mant, mant, if_neg hnormal, if_neg (by omega), hrem]
  omega

/-- A normal magnitude loses less than one part in two to the number of bits left. -/
theorem scaled_clearLow {k b : ℕ} (hk : k ≤ fmt.frac) (hb : 2 ^ fmt.frac ≤ b) :
    fmt.scaled b * 2 ^ (fmt.frac - k) <
      fmt.scaled b + fmt.scaled (clearLow k b) * 2 ^ (fmt.frac - k) := by
  obtain ⟨hdiv, hmant⟩ := mant_clearLow hk hb
  have hge : 2 ^ fmt.frac ≤ fmt.mant b := by
    rw [mant, if_neg (by omega)]
    exact Nat.le_add_right _ _
  have hlost : b % 2 ^ k * 2 ^ (fmt.frac - k) < fmt.mant b := by
    calc b % 2 ^ k * 2 ^ (fmt.frac - k) < 2 ^ k * 2 ^ (fmt.frac - k) :=
          Nat.mul_lt_mul_of_pos_right (Nat.mod_lt _ (by positivity)) (by positivity)
      _ = 2 ^ fmt.frac := by rw [← pow_add, Nat.add_sub_cancel' hk]
      _ ≤ fmt.mant b := hge
  have hpow : 0 < 2 ^ (b / 2 ^ fmt.frac - 1) := by positivity
  have hmul := Nat.mul_lt_mul_of_pos_right hlost hpow
  rw [scaled, scaled, hdiv, ← hmant] at *
  nlinarith [hmul]

/-- The same of the magnitudes. -/
theorem value_clearLow {k b : ℕ} (hk : k ≤ fmt.frac) (hb : 2 ^ fmt.frac ≤ b) :
    (fmt.value b - fmt.value (clearLow k b) : ℚ) < fmt.value b / 2 ^ (fmt.frac - k) := by
  have h : ((fmt.scaled b * 2 ^ (fmt.frac - k) : ℕ) : ℚ) <
      (fmt.scaled b + fmt.scaled (clearLow k b) * 2 ^ (fmt.frac - k) : ℕ) :=
    Nat.cast_lt.2 (scaled_clearLow hk hb)
  push_cast at h
  rw [lt_div_iff₀ (by positivity), value, value]
  push_cast
  rw [← sub_div, div_mul_eq_mul_div, div_lt_div_iff_of_pos_right (by positivity), sub_mul]
  linarith

end BinFormat
