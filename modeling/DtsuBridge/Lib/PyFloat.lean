import DtsuBridge.Lib.BinFormat

/-!
# Floating-point values with a rounding parameter

A float is a NaN, a signed infinity or a signed rational magnitude (`PyFloat`). Its
arithmetic takes the exact rational result and rounds the magnitude with the rounding of
a `FloatArith` : `FloatArith.binary64` is double precision, `FloatArith.exact` rounds
nothing and never overflows. A statement about every `FloatArith` holds of both. To run
the arithmetic, `FloatArith.double` is double precision with a norm that computes.

Division by zero and the conversion of an integer that rounds past the largest magnitude
are errors of the language, not values (`truediv?`, `ofInt?`).
-/

/-- A rounding of magnitudes, monotone, that keeps zero and keeps the integers of 64
bits finite, and the Euclidean norm of two magnitudes. `⊤` is a magnitude past the
largest finite one. -/
class FloatArith where
  round : ℚ≥0 → WithTop ℚ≥0
  hypotMag : ℚ≥0 → ℚ≥0 → WithTop ℚ≥0
  round_mono : Monotone round
  round_zero : round 0 = 0
  round_int64 : round ((2 ^ 64 : ℕ) : ℚ≥0) ≠ ⊤

namespace FloatArith

/-- Arithmetic without rounding or overflow. The norm is a parameter. -/
abbrev exact (hypot : ℚ≥0 → ℚ≥0 → ℚ≥0) : FloatArith where
  round q := q
  hypotMag a b := hypot a b
  round_mono _ _ h := WithTop.coe_le_coe.2 h
  round_zero := rfl
  round_int64 := WithTop.coe_ne_top

/-- Double precision, round to nearest even. The norm is a parameter. -/
abbrev binary64 (hypot : ℚ≥0 → ℚ≥0 → WithTop ℚ≥0) : FloatArith where
  round := BinFormat.binary64.round
  hypotMag := hypot
  round_mono := BinFormat.round_mono
  round_zero := by decide +kernel
  round_int64 := by decide +kernel

/-- The square root, rounded down to `k` binary digits below the denominator's. -/
def sqrtBelow (k : ℕ) (q : ℚ≥0) : ℚ≥0 :=
  Nat.sqrt (q.num * q.den * 4 ^ k) / (q.den * 2 ^ k : ℕ)

/-- Double precision, the norm rounded from a root with 1200 digits. -/
abbrev double : FloatArith :=
  binary64 fun m n => BinFormat.binary64.round (sqrtBelow 1200 (m * m + n * n))

/-- A result is rounded already, one is as well, and sums of float32 values are in range. -/
class Lawful [FloatArith] : Prop where
  round_round : ∀ {q q' : ℚ≥0}, round q = q' → round q' = q'
  round_one : round 1 = (1 : ℚ≥0)
  round_two_pow : round ((2 ^ 128 : ℕ) : ℚ≥0) ≠ ⊤
  round_hypotMag : ∀ {m n q : ℚ≥0}, hypotMag m n = q → round q = q

instance (hypot : ℚ≥0 → ℚ≥0 → ℚ≥0) : @Lawful (exact hypot) :=
  @Lawful.mk (exact hypot) (fun _ => rfl) rfl WithTop.coe_ne_top fun _ => rfl

instance : @Lawful double :=
  @Lawful.mk double BinFormat.round_round (by decide +kernel) (by decide +kernel)
    BinFormat.round_round

variable [FloatArith]

theorem round_ne_top_of_le {q q' : ℚ≥0} (h : q ≤ q') (h' : round q' ≠ ⊤) : round q ≠ ⊤ :=
  ne_top_of_le_ne_top h' (round_mono h)

end FloatArith

/-- A float : NaN, an infinity, or a signed magnitude. Zero has both signs. -/
inductive PyFloat where
  | nan
  | inf (neg : Bool)
  | fin (neg : Bool) (mag : ℚ≥0)
deriving DecidableEq

namespace PyFloat

/-- A rounded magnitude with its sign. -/
def ofMag (neg : Bool) : WithTop ℚ≥0 → PyFloat
  | ⊤ => inf neg
  | (q : ℚ≥0) => fin neg q

/-- A literal. -/
def lit (q : ℚ≥0) : PyFloat := fin false q

instance : Zero PyFloat := ⟨lit 0⟩
instance : One PyFloat := ⟨lit 1⟩

/-- `math.isfinite`. -/
def isFinite : PyFloat → Bool
  | fin _ _ => true
  | _ => false

/-- `abs`. -/
def abs : PyFloat → PyFloat
  | nan => nan
  | inf _ => inf false
  | fin _ m => fin false m

/-- The rational a sign and a magnitude stand for. -/
def signed (neg : Bool) (m : ℚ≥0) : ℚ :=
  if neg then -(m : ℚ) else m

/-- The position on the extended line, none for NaN. Both zeros are at zero. -/
def key : PyFloat → Option (WithBot (WithTop ℚ))
  | nan => none
  | inf true => some ⊥
  | inf false => some ((⊤ : WithTop ℚ) : WithBot (WithTop ℚ))
  | fin neg m => some ((signed neg m : WithTop ℚ) : WithBot (WithTop ℚ))

/-- `x < y`, false when either is NaN. -/
def lt (x y : PyFloat) : Bool :=
  match x.key, y.key with
  | some a, some b => decide (a < b)
  | _, _ => false

/-- `x <= y`, false when either is NaN. -/
def le (x y : PyFloat) : Bool :=
  match x.key, y.key with
  | some a, some b => decide (a ≤ b)
  | _, _ => false

/-- `x == y`, false when either is NaN. -/
def eq (x y : PyFloat) : Bool :=
  match x.key, y.key with
  | some a, some b => decide (a = b)
  | _, _ => false

section Arithmetic

variable [FloatArith]

/-- `x * y`. -/
def mul : PyFloat → PyFloat → PyFloat
  | nan, _ => nan
  | _, nan => nan
  | inf a, inf b => inf (a ^^ b)
  | inf a, fin b m => if m = 0 then nan else inf (a ^^ b)
  | fin a m, inf b => if m = 0 then nan else inf (a ^^ b)
  | fin a m, fin b n => ofMag (a ^^ b) (FloatArith.round (m * n))

/-- `x + y`. Opposite magnitudes that cancel give positive zero. -/
def add : PyFloat → PyFloat → PyFloat
  | nan, _ => nan
  | _, nan => nan
  | inf a, inf b => if a = b then inf a else nan
  | inf a, fin _ _ => inf a
  | fin _ _, inf b => inf b
  | fin a m, fin b n =>
    if a = b then ofMag a (FloatArith.round (m + n))
    else if m = n then fin false 0
    else if n < m then ofMag a (FloatArith.round (m - n))
    else ofMag b (FloatArith.round (n - m))

/-- `x / y` for a non-zero `y`. -/
def div : PyFloat → PyFloat → PyFloat
  | nan, _ => nan
  | _, nan => nan
  | inf _, inf _ => nan
  | inf a, fin b _ => inf (a ^^ b)
  | fin a _, inf b => fin (a ^^ b) 0
  | fin a m, fin b n => ofMag (a ^^ b) (FloatArith.round (m / n))

/-- `x / y`, none where the language raises a division by zero. -/
def truediv? (x y : PyFloat) : Option PyFloat :=
  if y.eq 0 then none else some (x.div y)

/-- `float(i)`, none where the integer is too large to convert. -/
def ofInt? (i : ℤ) : Option PyFloat :=
  match FloatArith.round (i.natAbs : ℚ≥0) with
  | ⊤ => none
  | (q : ℚ≥0) => some (fin (decide (i < 0)) q)

/-- `sum` of the language before 3.12 : from the left, starting at zero. From 3.12 on it
compensates for what rounding loses. -/
def sum (xs : List PyFloat) : PyFloat :=
  xs.foldl add 0

/-- `math.hypot`. An infinite argument wins over NaN. -/
def hypot : PyFloat → PyFloat → PyFloat
  | inf _, _ => inf false
  | _, inf _ => inf false
  | nan, _ => nan
  | _, nan => nan
  | fin _ m, fin _ n => ofMag false (FloatArith.hypotMag m n)

/-- A rational sum, rounded. -/
def ofSum (s : ℚ) : PyFloat :=
  ofMag (decide (s < 0)) (FloatArith.round s.nnabs)

end Arithmetic

@[simp] theorem ofMag_coe (neg : Bool) (q : ℚ≥0) : ofMag neg (q : WithTop ℚ≥0) = fin neg q :=
  rfl

@[simp] theorem ofMag_top (neg : Bool) : ofMag neg ⊤ = inf neg :=
  rfl

@[simp] theorem isFinite_fin (neg : Bool) (m : ℚ≥0) : (fin neg m).isFinite = true :=
  rfl

@[simp] theorem isFinite_inf (neg : Bool) : (inf neg).isFinite = false :=
  rfl

@[simp] theorem isFinite_nan : nan.isFinite = false :=
  rfl

@[simp] theorem signed_false (m : ℚ≥0) : signed false m = m :=
  rfl

@[simp] theorem signed_true (m : ℚ≥0) : signed true m = -m :=
  rfl

theorem lt_fin (a b : Bool) (m n : ℚ≥0) :
    (fin a m).lt (fin b n) = decide (signed a m < signed b n) := by
  simp [lt, key]

theorem le_fin (a b : Bool) (m n : ℚ≥0) :
    (fin a m).le (fin b n) = decide (signed a m ≤ signed b n) := by
  simp [le, key]

theorem eq_fin (a b : Bool) (m n : ℚ≥0) :
    (fin a m).eq (fin b n) = decide (signed a m = signed b n) := by
  simp [eq, key]

theorem isFinite_iff {x : PyFloat} : x.isFinite = true ↔ ∃ neg m, x = fin neg m := by
  cases x <;> simp

section Arithmetic

variable [FloatArith]

/-- An integer of at most 64 bits converts. -/
theorem ofInt?_isSome_of_le {i : ℤ} (h : i.natAbs ≤ 2 ^ 64) : (ofInt? i).isSome := by
  have hle : ((i.natAbs : ℕ) : ℚ≥0) ≤ ((2 ^ 64 : ℕ) : ℚ≥0) := Nat.cast_le.2 h
  have hne := FloatArith.round_ne_top_of_le hle FloatArith.round_int64
  obtain ⟨q, hq⟩ := WithTop.ne_top_iff_exists.1 hne
  rw [ofInt?, ← hq]
  rfl

/-- An integer converts to its rounded magnitude, of its own sign. -/
theorem ofInt?_eq_some {i : ℤ} {x : PyFloat} : ofInt? i = some x ↔
    ∃ q : ℚ≥0, FloatArith.round (i.natAbs : ℚ≥0) = q ∧ x = fin (decide (i < 0)) q := by
  unfold ofInt?
  split
  next hround =>
    rw [hround]
    constructor
    · intro h
      cases h
    · rintro ⟨q, hq, -⟩
      cases hq
  next q hround =>
    rw [hround]
    constructor
    · intro h
      exact ⟨q, rfl, (Option.some.inj h).symm⟩
    · rintro ⟨q', hq, rfl⟩
      rw [WithTop.coe_inj.1 hq]

theorem ofSum_zero : ofSum 0 = 0 := by
  have hneg : decide ((0 : ℚ) < 0) = false := by simp
  have habs : Rat.nnabs 0 = 0 := by rw [← NNRat.coe_inj, Rat.coe_nnabs]; simp
  rw [ofSum, hneg, habs, FloatArith.round_zero]
  rfl

/-! ## Rounded floats -/

/-- The magnitude, where there is one, is rounded. -/
def Representable (x : PyFloat) : Prop :=
  ∀ neg m, x = fin neg m → FloatArith.round m = m

theorem representable_nan : Representable nan :=
  fun _ _ h => by simp at h

theorem representable_zero (neg : Bool) : Representable (fin neg 0) := by
  rintro neg' m h
  obtain ⟨-, rfl⟩ := PyFloat.fin.inj h
  exact FloatArith.round_zero

theorem representable_ofMag {neg : Bool} {r : WithTop ℚ≥0}
    (h : ∀ q : ℚ≥0, r = q → FloatArith.round q = q) : Representable (ofMag neg r) := by
  rintro neg' m hm
  match r, h, hm with
  | (q : ℚ≥0), h, hm =>
    obtain ⟨-, rfl⟩ := PyFloat.fin.inj hm
    exact h q rfl

variable [FloatArith.Lawful]

theorem representable_one : Representable 1 := by
  rintro neg m h
  obtain ⟨-, rfl⟩ := PyFloat.fin.inj h
  exact FloatArith.Lawful.round_one

theorem representable_div (x y : PyFloat) : Representable (x.div y) := by
  have hinf : ∀ a, Representable (inf a) := fun _ _ _ h => by simp at h
  match x, y with
  | nan, _ => exact representable_nan
  | inf _, nan => exact representable_nan
  | fin _ _, nan => exact representable_nan
  | inf _, inf _ => exact representable_nan
  | inf a, fin b _ => exact hinf (a ^^ b)
  | fin a _, inf b => exact representable_zero (a ^^ b)
  | fin _ _, fin _ _ => exact representable_ofMag fun _ => FloatArith.Lawful.round_round

theorem representable_hypot (x y : PyFloat) : Representable (x.hypot y) := by
  have hinf : ∀ a, Representable (inf a) := fun _ _ _ h => by simp at h
  match x, y with
  | inf _, _ => exact hinf false
  | nan, inf _ => exact hinf false
  | fin _ _, inf _ => exact hinf false
  | nan, nan => exact representable_nan
  | nan, fin _ _ => exact representable_nan
  | fin _ _, nan => exact representable_nan
  | fin _ _, fin _ _ => exact representable_ofMag fun _ => FloatArith.Lawful.round_hypotMag

/-- A rounded float divided by a count stays in range. -/
theorem isFinite_div_count {neg : Bool} {m : ℚ≥0} (h : Representable (fin neg m)) {n : ℕ}
    (hn : n ≠ 0) : ((fin neg m).div (ofMag false (FloatArith.round n))).isFinite = true := by
  have h1 : (1 : ℚ≥0) ≤ n := Nat.one_le_cast.2 (Nat.one_le_iff_ne_zero.2 hn)
  have hmono := FloatArith.round_mono h1
  rw [FloatArith.Lawful.round_one] at hmono
  by_cases htop : FloatArith.round (n : ℚ≥0) = ⊤
  · rw [htop]
    rfl
  · obtain ⟨q, hq⟩ := WithTop.ne_top_iff_exists.1 htop
    rw [← hq, WithTop.coe_le_coe] at hmono
    have hle : m / q ≤ m := div_le_self zero_le hmono
    have hne : FloatArith.round (m / q) ≠ ⊤ :=
      FloatArith.round_ne_top_of_le hle (by rw [h neg m rfl]; exact WithTop.coe_ne_top)
    obtain ⟨q', hq'⟩ := WithTop.ne_top_iff_exists.1 hne
    rw [← hq, ofMag_coe, div, ← hq']
    rfl

/-- A sum of moderate magnitudes is finite. -/
theorem isFinite_add {a b : Bool} {m n : ℚ≥0} (h : m + n ≤ ((2 ^ 128 : ℕ) : ℚ≥0)) :
    ((fin a m).add (fin b n)).isFinite = true := by
  have hround : ∀ {neg : Bool} {q : ℚ≥0}, q ≤ m + n →
      (ofMag neg (FloatArith.round q)).isFinite = true := by
    intro neg q hq
    have hne := FloatArith.round_ne_top_of_le (hq.trans h) FloatArith.Lawful.round_two_pow
    obtain ⟨q', hq'⟩ := WithTop.ne_top_iff_exists.1 hne
    rw [← hq']
    rfl
  unfold add
  dsimp only
  split_ifs
  · exact hround le_rfl
  · rfl
  · exact hround (tsub_le_self.trans le_self_add)
  · exact hround (tsub_le_self.trans le_add_self)

end Arithmetic

/-! ## Interchange bits -/

/-- The float a bit pattern of the format stands for : a sign bit above the magnitude. -/
def ofBits (fmt : BinFormat) (b : ℕ) : PyFloat :=
  let neg := decide (b / (2 ^ fmt.expBits * 2 ^ fmt.frac) % 2 = 1)
  let mag := b % (2 ^ fmt.expBits * 2 ^ fmt.frac)
  if mag < fmt.infOrdinal then fin neg (fmt.value mag)
  else if mag = fmt.infOrdinal then inf neg
  else nan

/-- The sign bit of a pattern. -/
def signBits (fmt : BinFormat) (neg : Bool) : ℕ :=
  if neg then 2 ^ fmt.expBits * 2 ^ fmt.frac else 0

/-- The bit pattern of a float rounded to the format, none where a finite one overflows. -/
def toBits? (fmt : BinFormat) : PyFloat → Option ℕ
  | nan => some (fmt.infOrdinal + 2 ^ (fmt.frac - 1))
  | inf neg => some (signBits fmt neg + fmt.infOrdinal)
  | fin neg m =>
    if fmt.ordinal m < fmt.infOrdinal then some (signBits fmt neg + fmt.ordinal m) else none

/-- A magnitude at most a finite one of the format has a pattern. -/
theorem toBits?_isSome_of_le {fmt : BinFormat} {neg : Bool} {m : ℚ≥0} {b : ℕ}
    (hb : b < fmt.infOrdinal) (h : m ≤ fmt.value b) : (toBits? fmt (fin neg m)).isSome := by
  rw [toBits?, if_pos (BinFormat.ordinal_lt_of_le_value hb h)]
  rfl

end PyFloat
