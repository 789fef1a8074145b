import DtsuBridge.Lib.PyFloat
import Mathlib.Data.Int.Log

/-!
# Numbers as text

A numeral is a run of digits with a sign, a fraction and an exponent, each of which may be
missing (`isNumeral`). `PyFloat.repr` writes a float with the fewest digits that are read back
as it : of the decimals with so many digits next to it the nearer one that rounds to it,
seventeen digits where fewer do not.

`isNumeral_repr` : what is written of a finite float is a numeral, whatever the rounding.
-/

/-! ## Numerals -/

/-- One digit or more. -/
def isDigits (cs : List Char) : Bool :=
  !cs.isEmpty && cs.all Char.isDigit

/-- What follows a sign, if there is one. -/
def unsigned : List Char → List Char
  | '-' :: cs => cs
  | '+' :: cs => cs
  | cs => cs

/-- Nothing, or a signed exponent. -/
def isExponent : List Char → Bool
  | [] => true
  | 'e' :: cs => isDigits (unsigned cs)
  | _ => false

/-- Nothing, or a fraction and an exponent. -/
def isFraction : List Char → Bool
  | '.' :: cs => isDigits (cs.takeWhile Char.isDigit) && isExponent (cs.dropWhile Char.isDigit)
  | cs => isExponent cs

/-- A decimal numeral without its sign. -/
def isDecimal (cs : List Char) : Bool :=
  isDigits (cs.takeWhile Char.isDigit) && isFraction (cs.dropWhile Char.isDigit)

/-- A decimal numeral. -/
def isNumeral (cs : List Char) : Bool :=
  isDecimal (unsigned cs)

theorem isDigits_iff {cs : List Char} :
    isDigits cs = true ↔ cs ≠ [] ∧ ∀ c ∈ cs, c.isDigit = true := by
  simp [isDigits]

/-- Digits have no sign. -/
theorem unsigned_of_isDigit : ∀ {cs : List Char}, (∀ c ∈ cs.head?, c.isDigit = true) →
    unsigned cs = cs
  | [], _ => rfl
  | c :: cs, h => by
    have hc : c.isDigit = true := h c rfl
    unfold unsigned
    split
    next heq => simp [(List.cons.inj heq).1, Char.isDigit] at hc
    next heq => simp [(List.cons.inj heq).1, Char.isDigit] at hc
    next => rfl

theorem takeWhile_of_head {p : Char → Bool} {cs rest : List Char} (hcs : ∀ c ∈ cs, p c = true)
    (hrest : ∀ c ∈ rest.head?, p c = false) : (cs ++ rest).takeWhile p = cs := by
  rw [List.takeWhile_append_of_pos hcs]
  cases rest with
  | nil => simp
  | cons c rest => simp [hrest c rfl]

theorem dropWhile_of_head {p : Char → Bool} {cs rest : List Char} (hcs : ∀ c ∈ cs, p c = true)
    (hrest : ∀ c ∈ rest.head?, p c = false) : (cs ++ rest).dropWhile p = rest := by
  rw [List.dropWhile_append_of_pos hcs]
  cases rest with
  | nil => rfl
  | cons c rest => simp [hrest c rfl]

/-- An exponent does not begin with a digit. -/
theorem head_of_isExponent {cs : List Char} (h : isExponent cs = true) :
    ∀ c ∈ cs.head?, c.isDigit = false := by
  unfold isExponent at h
  split at h
  next => simp
  next => simp [Char.isDigit]
  next => cases h

theorem head_of_isFraction {cs : List Char} (h : isFraction cs = true) :
    ∀ c ∈ cs.head?, c.isDigit = false := by
  unfold isFraction at h
  split at h
  next => simp [Char.isDigit]
  next => exact head_of_isExponent h

/-- Digits after the point. -/
theorem isFraction_point {ds rest : List Char} (hds : isDigits ds = true)
    (hrest : isExponent rest = true) : isFraction ('.' :: (ds ++ rest)) = true := by
  have hall := (isDigits_iff.1 hds).2
  show (isDigits ((ds ++ rest).takeWhile Char.isDigit) &&
    isExponent ((ds ++ rest).dropWhile Char.isDigit)) = true
  rw [takeWhile_of_head hall (head_of_isExponent hrest),
    dropWhile_of_head hall (head_of_isExponent hrest), hds, hrest]
  rfl

/-- Digits before a fraction. -/
theorem isDecimal_append {ds rest : List Char} (hds : isDigits ds = true)
    (hrest : isFraction rest = true) : isDecimal (ds ++ rest) = true := by
  have hall := (isDigits_iff.1 hds).2
  unfold isDecimal
  rw [takeWhile_of_head hall (head_of_isFraction hrest),
    dropWhile_of_head hall (head_of_isFraction hrest), hds, hrest]
  rfl

theorem isNumeral_neg {cs : List Char} (h : isDecimal cs = true) :
    isNumeral ('-' :: cs) = true :=
  h

theorem isNumeral_of_isDecimal {cs : List Char} (h : isDecimal cs = true) :
    isNumeral cs = true := by
  have hhead : ∀ c ∈ cs.head?, c.isDigit = true := by
    intro c hc
    obtain ⟨cs', rfl⟩ : ∃ cs', cs = c :: cs' := by
      cases cs with
      | nil => simp at hc
      | cons a cs => exact ⟨cs, by rw [Option.mem_some_iff.1 hc]⟩
    by_contra hne
    simp [isDecimal, isDigits, hne] at h
  rw [isNumeral, unsigned_of_isDigit hhead]
  exact h

/-- The characters of numerals. -/
def isNumeralChar (c : Char) : Bool :=
  c.isDigit || c = '-' || c = '+' || c = '.' || c = 'e'

theorem isNumeralChar_of_unsigned {cs : List Char}
    (h : ∀ c ∈ unsigned cs, isNumeralChar c = true) : ∀ c ∈ cs, isNumeralChar c = true := by
  unfold unsigned at h
  split at h
  next => simpa [isNumeralChar] using h
  next => simpa [isNumeralChar] using h
  next => exact h

theorem isNumeralChar_of_isDigits {cs : List Char} (h : isDigits cs = true) :
    ∀ c ∈ cs, isNumeralChar c = true :=
  fun c hc => by simp [isNumeralChar, (isDigits_iff.1 h).2 c hc]

theorem isNumeralChar_of_isExponent {cs : List Char} (h : isExponent cs = true) :
    ∀ c ∈ cs, isNumeralChar c = true := by
  unfold isExponent at h
  split at h
  next => simp
  next cs =>
    refine List.forall_mem_cons.2 ⟨rfl, ?_⟩
    exact isNumeralChar_of_unsigned (isNumeralChar_of_isDigits h)
  next => cases h

/-- Digits at the front, and what follows. -/
theorem isNumeralChar_of_dropWhile {cs : List Char}
    (h : ∀ c ∈ cs.dropWhile Char.isDigit, isNumeralChar c = true) :
    ∀ c ∈ cs, isNumeralChar c = true := by
  intro c hc
  rw [← @List.takeWhile_append_dropWhile _ Char.isDigit cs, List.mem_append] at hc
  rcases hc with hc | hc
  · simp [isNumeralChar, List.mem_takeWhile_imp hc]
  · exact h c hc

theorem isNumeralChar_of_isFraction {cs : List Char} (h : isFraction cs = true) :
    ∀ c ∈ cs, isNumeralChar c = true := by
  unfold isFraction at h
  split at h
  next cs =>
    refine List.forall_mem_cons.2 ⟨rfl, isNumeralChar_of_dropWhile ?_⟩
    exact isNumeralChar_of_isExponent (Bool.and_eq_true_iff.1 h).2
  next => exact isNumeralChar_of_isExponent h

theorem isNumeralChar_of_isNumeral {cs : List Char} (h : isNumeral cs = true) :
    ∀ c ∈ cs, isNumeralChar c = true := by
  refine isNumeralChar_of_unsigned (isNumeralChar_of_dropWhile ?_)
  exact isNumeralChar_of_isFraction (Bool.and_eq_true_iff.1 h).2

/-! ## Integers -/

theorem isDigits_toDigits (n : ℕ) : isDigits (Nat.toDigits 10 n) = true :=
  isDigits_iff.2 ⟨Nat.toDigits_ne_nil, fun _ hc =>
    Nat.isDigit_of_mem_toDigits (by decide) le_rfl hc⟩

theorem isDecimal_toDigits (n : ℕ) : isDecimal (Nat.toDigits 10 n) = true := by
  have h := @isDecimal_append (Nat.toDigits 10 n) [] (isDigits_toDigits n) rfl
  rwa [List.append_nil] at h

theorem isNumeral_intRepr (i : ℤ) : isNumeral (toString i).toList = true := by
  cases i with
  | ofNat n =>
    have htext : toString (Int.ofNat n) = n.repr := rfl
    rw [htext, Nat.toList_repr]
    exact isNumeral_of_isDecimal (isDecimal_toDigits n)
  | negSucc n =>
    have htext : toString (Int.negSucc n) = "-" ++ n.succ.repr := rfl
    rw [htext, String.toList_append, Nat.toList_repr]
    exact isNumeral_neg (isDecimal_toDigits _)

/-! ## Floats -/

/-- `10 ^ (decimalPoint m - 1) ≤ m < 10 ^ decimalPoint m`. -/
def decimalPoint (m : ℚ≥0) : ℤ :=
  Int.log 10 (m : ℚ) + 1

/-- The weight of the last of `n` digits. -/
def lastPlace (m : ℚ≥0) (n : ℕ) : ℚ≥0 :=
  ((10 : ℕ) : ℚ≥0) ^ (decimalPoint m - n)

/-- The decimals of `n` digits next to `m`, the nearer one first, in units of the last place. -/
def neighbours (m : ℚ≥0) (n : ℕ) : List ℕ :=
  let q := m / lastPlace m n
  [roundHalfEven q.num q.den, q.num / q.den, q.num / q.den + 1]

/-- Digits without the zeros at their end, the first one kept. -/
def significant (ds : List Char) : List Char :=
  ds.take 1 ++ (ds.drop 1).rdropWhile (· = '0')

/-- The digits of an exponent, two or more. -/
def exponentDigits (n : ℕ) : List Char :=
  if n < 10 then '0' :: Nat.toDigits 10 n else Nat.toDigits 10 n

/-- Digits with a point after the first, and the exponent. -/
def exponentText (ds : List Char) (point : ℤ) : List Char :=
  let e := point - 1
  ds.take 1 ++ ((if ds.length = 1 then [] else '.' :: ds.drop 1) ++
    'e' :: (if e < 0 then '-' else '+') :: exponentDigits e.natAbs)

/-- Digits with the point among them, or zeros between. -/
def pointText (ds : List Char) (point : ℤ) : List Char :=
  if point ≤ 0 then ['0'] ++ '.' :: (List.replicate (-point).toNat '0' ++ ds)
  else if ds.length ≤ point then
    (ds ++ List.replicate (point - ds.length).toNat '0') ++ '.' :: ['0']
  else ds.take point.toNat ++ '.' :: ds.drop point.toNat

theorem isDigits_append {cs ds : List Char} (hcs : isDigits cs = true)
    (hds : ∀ c ∈ ds, c.isDigit = true) : isDigits (cs ++ ds) = true := by
  obtain ⟨hne, hall⟩ := isDigits_iff.1 hcs
  refine isDigits_iff.2 ⟨by simp [hne], fun c hc => ?_⟩
  rcases List.mem_append.1 hc with hc | hc
  · exact hall c hc
  · exact hds c hc

theorem isDigits_zeros_append (n : ℕ) {ds : List Char} (hds : isDigits ds = true) :
    isDigits (List.replicate n '0' ++ ds) = true := by
  obtain ⟨hne, hall⟩ := isDigits_iff.1 hds
  refine isDigits_iff.2 ⟨by simp [hne], fun c hc => ?_⟩
  rcases List.mem_append.1 hc with hc | hc
  · rw [List.eq_of_mem_replicate hc]
    rfl
  · exact hall c hc

/-- One digit or more, taken from the front. -/
theorem isDigits_take {ds : List Char} (hds : isDigits ds = true) {k : ℕ} (hk : 0 < k) :
    isDigits (ds.take k) = true := by
  obtain ⟨hne, hall⟩ := isDigits_iff.1 hds
  refine isDigits_iff.2 ⟨?_, fun c hc => hall c (List.mem_of_mem_take hc)⟩
  rw [Ne, List.take_eq_nil_iff, not_or]
  exact ⟨hk.ne', hne⟩

theorem isDigits_drop {ds : List Char} (hds : isDigits ds = true) {k : ℕ} (hk : k < ds.length) :
    isDigits (ds.drop k) = true := by
  obtain ⟨-, hall⟩ := isDigits_iff.1 hds
  refine isDigits_iff.2 ⟨?_, fun c hc => hall c (List.mem_of_mem_drop hc)⟩
  rw [Ne, List.drop_eq_nil_iff]
  omega

theorem isDigits_significant {ds : List Char} (hds : isDigits ds = true) :
    isDigits (significant ds) = true := by
  refine isDigits_append (isDigits_take hds one_pos) fun c hc => ?_
  have hmem := (List.rdropWhile_prefix _ _).subset hc
  exact (isDigits_iff.1 hds).2 c (List.mem_of_mem_drop hmem)

theorem isDigits_exponentDigits (n : ℕ) : isDigits (exponentDigits n) = true := by
  unfold exponentDigits
  split_ifs with h
  · exact isDigits_zeros_append 1 (isDigits_toDigits n)
  · exact isDigits_toDigits n

theorem isDecimal_exponentText {ds : List Char} (hds : isDigits ds = true) (point : ℤ) :
    isDecimal (exponentText ds point) = true := by
  have hexp : isExponent ('e' :: (if point - 1 < 0 then '-' else '+') ::
      exponentDigits (point - 1).natAbs) = true := by
    split_ifs <;> exact isDigits_exponentDigits _
  refine isDecimal_append (isDigits_take hds one_pos) ?_
  by_cases hlen : ds.length = 1
  all_goals simp only [hlen, if_true, if_false]
  · exact hexp
  · refine isFraction_point (isDigits_drop hds ?_) hexp
    have hpos := List.length_pos_iff.2 (isDigits_iff.1 hds).1
    omega

theorem isDecimal_pointText {ds : List Char} (hds : isDigits ds = true) (point : ℤ) :
    isDecimal (pointText ds point) = true := by
  have hpoint : ∀ {as bs : List Char}, isDigits as = true → isDigits bs = true →
      isDecimal (as ++ '.' :: bs) = true := by
    intro as bs has hbs
    have hfraction := @isFraction_point bs [] hbs rfl
    rw [List.append_nil] at hfraction
    exact isDecimal_append has hfraction
  unfold pointText
  split_ifs with h0 hlen
  · exact hpoint rfl (isDigits_zeros_append _ hds)
  · refine hpoint (isDigits_append hds fun c hc => ?_) rfl
    rw [List.eq_of_mem_replicate hc]
    rfl
  · exact hpoint (isDigits_take hds (by omega)) (isDigits_drop hds (by omega))

namespace PyFloat

variable [FloatArith]

/-- The first of the decimals of `n` digits next to `m` that rounds to it. -/
def ofDigits? (m : ℚ≥0) (n : ℕ) : Option (ℕ × ℕ) :=
  ((neighbours m n).find? fun d : ℕ => FloatArith.round ((d : ℚ≥0) * lastPlace m n) = m).map
    (·, n)

/-- The digits of the shortest decimal that rounds to `m`, with their number. -/
def shortest (m : ℚ≥0) : ℕ × ℕ :=
  ((List.range' 1 17).findSome? (ofDigits? m)).getD ((neighbours m 17).headD 0, 17)

/-- `repr` of a magnitude. -/
def reprMag (m : ℚ≥0) : List Char :=
  let (d, n) := shortest m
  let ds := Nat.toDigits 10 d
  let point := decimalPoint m - n + ds.length
  if point ≤ -4 ∨ 16 < point then exponentText (significant ds) point
  else pointText (significant ds) point

/-- `repr`. -/
def repr : PyFloat → List Char
  | nan => ['n', 'a', 'n']
  | inf false => ['i', 'n', 'f']
  | inf true => ['-', 'i', 'n', 'f']
  | fin neg m => (if neg then ['-'] else []) ++ if m = 0 then ['0', '.', '0'] else reprMag m

theorem isDecimal_reprMag (m : ℚ≥0) : isDecimal (reprMag m) = true := by
  have hds := isDigits_significant (isDigits_toDigits (shortest m).1)
  unfold reprMag
  dsimp only
  split_ifs
  · exact isDecimal_exponentText hds _
  · exact isDecimal_pointText hds _

/-- The text of a finite float is a numeral. -/
theorem isNumeral_repr (neg : Bool) (m : ℚ≥0) : isNumeral (fin neg m).repr = true := by
  have hdecimal : isDecimal (if m = 0 then ['0', '.', '0'] else reprMag m) = true := by
    split_ifs
    · rfl
    · exact isDecimal_reprMag m
  cases neg with
  | false => exact isNumeral_of_isDecimal hdecimal
  | true => exact isNumeral_neg hdecimal

/-- A tenth in double precision has one digit. -/
example :
    @repr .double (@ofMag true (FloatArith.double.round (1 / 10))) = ['-', '0', '.', '1'] := by
  decide +kernel

end PyFloat
