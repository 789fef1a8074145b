import DtsuBridge.Lib.Except
import DtsuBridge.Lib.FloatOrder

/-!
# Sums through partial sums

`fsum` : the sum of a list of floats through partial sums that keep what rounding loses. A
term passes the partials from the smallest on ; at each it leaves the rounding error of
their sum behind (`twoSum`) and goes on as the sum itself. The sum of a term and a partial
may overflow although the exact sum of all terms is in range.

A finite sum has finite terms (`isFinite_of_fsum`), and without a negative infinity a sum
can only overflow (`fsum_cases`). In exact arithmetic at most one partial is kept, the sum
so far (`Single`) : nothing overflows, and finite terms have their exact sum
(`fsum_of_isFinite`).
-/

namespace PyFloat

/-- `-x`. -/
def neg : PyFloat → PyFloat
  | nan => nan
  | inf a => inf !a
  | fin a m => fin (!a) m

/-- Errors of `math.fsum`. -/
inductive FsumError where
  /-- Infinities of both signs. -/
  | invalid
  /-- The sum of a finite term and the partials is past the largest magnitude. -/
  | overflow
deriving DecidableEq

/-- The state of `math.fsum` : the partial sums in increasing magnitude, the terms that are
not finite and the infinities among them. -/
structure FsumState where
  partials : List PyFloat
  special : PyFloat
  infs : PyFloat

section Arithmetic

variable [FloatArith]

/-- `x - y`. -/
def sub (x y : PyFloat) : PyFloat :=
  x.add y.neg

/-- A sum and what rounding took from it, the larger magnitude first. -/
def twoSum (x y : PyFloat) : PyFloat × PyFloat :=
  let (x, y) := if x.abs.lt y.abs then (y, x) else (x, y)
  let hi := x.add y
  let yr := hi.sub x
  (hi, y.sub yr)

/-- A term passes the partials : what it leaves of them, and what it has become. -/
def passPartials (x : PyFloat) : List PyFloat → List PyFloat × PyFloat
  | [] => ([], x)
  | y :: ps =>
    let (hi, lo) := twoSum x y
    let (left, x) := passPartials hi ps
    (if lo.eq 0 then left else lo :: left, x)

/-- One term of `math.fsum`. -/
def FsumState.add (s : FsumState) (xsave : PyFloat) : Except FsumError FsumState :=
  let (left, x) := passPartials xsave s.partials
  if x.eq 0 then .ok { s with partials := left }
  else if x.isFinite then .ok { s with partials := left ++ [x] }
  else if xsave.isFinite then .error .overflow
  else
    .ok {
      partials := []
      special := s.special.add xsave
      infs := if xsave = nan then s.infs else s.infs.add xsave }

/-- The partials added from the largest on, until a sum is not exact : that sum, what it
lost, and the partials left. -/
def addDown (hi : PyFloat) : List PyFloat → PyFloat × PyFloat × List PyFloat
  | [] => (hi, 0, [])
  | y :: ps =>
    let x := hi
    let hi := x.add y
    let yr := hi.sub x
    let lo := y.sub yr
    if lo.eq 0 then addDown hi ps else (hi, lo, ps)

/-- Half-even rounding across the partials that are left. -/
def roundAcross (hi lo : PyFloat) : List PyFloat → PyFloat
  | [] => hi
  | p :: _ =>
    if lo.lt 0 ∧ p.lt 0 ∨ lt 0 lo ∧ lt 0 p then
      let y := lo.mul (lit (2 : ℕ))
      let x := hi.add y
      let yr := x.sub hi
      if y.eq yr then x else hi
    else hi

/-- What `math.fsum` returns once it has seen every term. -/
def FsumState.result (s : FsumState) : Except FsumError PyFloat :=
  if !s.special.eq 0 then
    if s.infs = nan then .error .invalid else .ok s.special
  else
    match s.partials.reverse with
    | [] => .ok 0
    | hi :: ps =>
      let (hi, lo, ps) := addDown hi ps
      .ok (roundAcross hi lo ps)

/-- `math.fsum`. -/
def fsum (xs : List PyFloat) : Except FsumError PyFloat := do
  let s ← xs.foldlM FsumState.add { partials := [], special := 0, infs := 0 }
  s.result

end Arithmetic

@[simp] theorem isFinite_neg (x : PyFloat) : x.neg.isFinite = x.isFinite := by
  cases x <;> rfl

@[simp] theorem toRat_neg (x : PyFloat) : x.neg.toRat = -x.toRat := by
  cases x with
  | nan => simp [neg]
  | inf a => simp [neg]
  | fin a m => cases a <;> simp [neg]

section Arithmetic

variable [FloatArith]

/-- The sum exceeds the range in passing, not in the end. -/
example : let xs := [2 ^ 970 - 2 ^ 917, 2 ^ 917 - 2 ^ 864, 2 ^ 1024 - 2 ^ 971].map lit
    @fsum .double xs = .error .overflow ∧
      FloatArith.double.round (2 ^ 1024 - 2 ^ 970 - 2 ^ 864) ≠ ⊤ := by
  decide +kernel

omit [FloatArith] in
theorem zero_eq_zero : (0 : PyFloat).eq 0 = true := by
  have h0 : (0 : PyFloat) = fin false 0 := rfl
  rw [h0, eq_fin, decide_eq_true_iff]

/-- Zeros leave no partials. -/
theorem fsum_zeros {xs : List PyFloat} (h : ∀ x ∈ xs, x = 0) : fsum xs = .ok 0 := by
  have hstart : FsumState.add { partials := [], special := 0, infs := 0 } 0 =
      .ok { partials := [], special := 0, infs := 0 } := by
    simp only [FsumState.add, passPartials, zero_eq_zero, if_true]
  have hfold : xs.foldlM FsumState.add { partials := [], special := 0, infs := 0 } =
      .ok { partials := [], special := 0, infs := 0 } := by
    induction xs with
    | nil => rfl
    | cons x xs ih =>
      obtain ⟨rfl, hxs⟩ := List.forall_mem_cons.1 h
      rw [List.foldlM_cons, hstart]
      exact ih hxs
  refine Except.bind_eq_ok.2 ⟨_, hfold, ?_⟩
  simp [FsumState.result, zero_eq_zero]

theorem fsum_nil : fsum [] = .ok 0 :=
  fsum_zeros (by simp)

/-! ## Terms that are not finite -/

theorem isFinite_add_left {x : PyFloat} (hx : x.isFinite = false) (y : PyFloat) :
    (x.add y).isFinite = false := by
  match x, y, hx with
  | nan, _, _ => rfl
  | inf _, nan, _ => rfl
  | inf a, inf b, _ => by_cases hab : a = b <;> simp [add, hab]
  | inf _, fin _ _, _ => rfl

theorem isFinite_add_right (x : PyFloat) {y : PyFloat} (hy : y.isFinite = false) :
    (x.add y).isFinite = false := by
  match x, y, hy with
  | nan, _, _ => rfl
  | inf _, nan, _ => rfl
  | inf a, inf b, _ => by_cases hab : a = b <;> simp [add, hab]
  | fin _ _, nan, _ => rfl
  | fin _ _, inf _, _ => rfl

omit [FloatArith] in
theorem eq_zero_of_not_isFinite {x : PyFloat} (hx : x.isFinite = false) : x.eq 0 = false := by
  have h0 : (0 : PyFloat) = fin false 0 := rfl
  match x, hx with
  | nan, _ => rfl
  | inf true, _ => simp [h0, eq, key]
  | inf false, _ =>
    rw [h0, eq, key]
    exact decide_eq_false fun h => WithTop.coe_ne_top (WithBot.coe_inj.1 h).symm

theorem twoSum_fst_not_isFinite {x : PyFloat} (hx : x.isFinite = false) (y : PyFloat) :
    (twoSum x y).1.isFinite = false := by
  unfold twoSum
  by_cases h : x.abs.lt y.abs = true
  · simp only [h, if_true]
    exact isFinite_add_right y hx
  · simp only [h]
    exact isFinite_add_left hx y

/-- A term that is not finite stays so through the partials. -/
theorem passPartials_snd_not_isFinite : ∀ (ps : List PyFloat) {x : PyFloat},
    x.isFinite = false → (passPartials x ps).2.isFinite = false
  | [], _, hx => hx
  | y :: ps, _, hx => passPartials_snd_not_isFinite ps (twoSum_fst_not_isFinite hx y)

/-- A term that is not finite is set apart, and the partials are dropped. -/
theorem FsumState.add_of_not_isFinite (s : FsumState) {x : PyFloat} (hx : x.isFinite = false) :
    s.add x = .ok {
      partials := []
      special := s.special.add x
      infs := if x = nan then s.infs else s.infs.add x } := by
  have hpass := passPartials_snd_not_isFinite s.partials hx
  simp only [FsumState.add, eq_zero_of_not_isFinite hpass, hpass, hx, Bool.false_eq_true,
    if_false]

theorem FsumState.result_ne_overflow (s : FsumState) : s.result ≠ .error .overflow := by
  unfold FsumState.result
  split_ifs
  · simp
  · simp
  · split <;> simp

/-- A sum is invalid only where the infinities are of both signs. -/
theorem FsumState.exists_result (s : FsumState) (h : s.infs ≠ nan) :
    ∃ x, s.result = .ok x := by
  unfold FsumState.result
  rw [if_neg h]
  split_ifs
  · exact ⟨_, rfl⟩
  · split <;> exact ⟨_, rfl⟩

/-- A finite term changes the partials only. -/
theorem FsumState.add_of_isFinite {s s' : FsumState} {x : PyFloat} (hx : x.isFinite = true)
    (h : s.add x = .ok s') : s'.special = s.special ∧ s'.infs = s.infs := by
  simp only [FsumState.add, hx, if_true] at h
  split_ifs at h <;> cases h <;> exact ⟨rfl, rfl⟩

/-- A term can only overflow. -/
theorem FsumState.add_eq_error {s : FsumState} {x : PyFloat} {e : FsumError}
    (h : s.add x = .error e) : e = .overflow := by
  simp only [FsumState.add] at h
  split_ifs at h
  cases h
  rfl

/-- Without a negative infinity a sum can only overflow. -/
theorem fsum_cases {xs : List PyFloat} (h : inf true ∉ xs) :
    fsum xs = .error .overflow ∨ ∃ s, fsum xs = .ok s := by
  have hinfs : ∀ x ∈ xs, ∀ s s' : FsumState, s.infs = 0 ∨ s.infs = inf false →
      s.add x = .ok s' → s'.infs = 0 ∨ s'.infs = inf false := by
    intro x hx s s' hs hadd
    by_cases hfin : x.isFinite = true
    · rwa [(FsumState.add_of_isFinite hfin hadd).2]
    · rw [FsumState.add_of_not_isFinite s (Bool.not_eq_true _ ▸ hfin)] at hadd
      cases hadd
      match x, hx, hfin with
      | nan, _, _ => simpa using hs
      | inf true, hx, _ => exact absurd hx h
      | inf false, _, _ => rcases hs with hs | hs <;> rw [hs] <;> exact Or.inr rfl
  rcases Except.ok_or_error (xs.foldlM FsumState.add ⟨[], 0, 0⟩) with ⟨s, hs⟩ | ⟨e, he⟩
  · have hne : s.infs ≠ nan := by
      rcases Except.foldlM_invariant hinfs (Or.inl rfl) hs with h | h
      · rw [h]
        exact fun h => PyFloat.noConfusion h
      · simp [h]
    obtain ⟨x, hx⟩ := s.exists_result hne
    exact Or.inr ⟨x, Except.bind_eq_ok.2 ⟨s, hs, hx⟩⟩
  · obtain ⟨s, x, hx⟩ := Except.exists_of_foldlM_eq_error he
    rw [FsumState.add_eq_error hx] at he
    exact Or.inl (Except.bind_eq_error.2 (Or.inl he))

/-- A finite sum has finite terms. -/
theorem isFinite_of_fsum {xs : List PyFloat} {r : PyFloat} (h : fsum xs = .ok r)
    (hr : r.isFinite = true) : ∀ x ∈ xs, x.isFinite = true := by
  obtain ⟨s, hs, hresult⟩ := Except.bind_eq_ok.1 h
  have hspecial : s.special.isFinite = true := by
    by_contra hfin
    have hne := eq_zero_of_not_isFinite (Bool.not_eq_true _ ▸ hfin)
    simp only [FsumState.result, hne, Bool.not_false, if_true] at hresult
    split_ifs at hresult
    cases hresult
    exact hfin hr
  intro x hx
  by_contra hfin
  obtain ⟨pre, post, rfl⟩ := List.append_of_mem hx
  rw [List.foldlM_append] at hs
  obtain ⟨s₀, -, hs⟩ := Except.bind_eq_ok.1 hs
  rw [List.foldlM_cons, FsumState.add_of_not_isFinite s₀ (Bool.not_eq_true _ ▸ hfin)] at hs
  have hstep : ∀ y ∈ post, ∀ s s' : FsumState, s.special.isFinite = false →
      s.add y = .ok s' → s'.special.isFinite = false := by
    intro y _ s s' hs hadd
    by_cases hy : y.isFinite = true
    · rwa [(FsumState.add_of_isFinite hy hadd).1]
    · rw [FsumState.add_of_not_isFinite s (Bool.not_eq_true _ ▸ hy)] at hadd
      cases hadd
      exact isFinite_add_left hs y
  have hbad := Except.foldlM_invariant hstep
    (isFinite_add_right _ (Bool.not_eq_true _ ▸ hfin)) hs
  rw [hspecial] at hbad
  cases hbad

/-! ## Sums in exact arithmetic -/

section Exact

variable [FloatArith.Exact]

theorem exact_add {x y : PyFloat} (hx : x.isFinite = true) (hy : y.isFinite = true) :
    (x.add y).isFinite = true ∧ (x.add y).toRat = x.toRat + y.toRat := by
  have hround := rounds_add hx hy
  exact ⟨hround.isFinite.trans (isFinite_ofSum _), hround.toRat.trans (toRat_ofSum _)⟩

theorem exact_sub {x y : PyFloat} (hx : x.isFinite = true) (hy : y.isFinite = true) :
    (x.sub y).isFinite = true ∧ (x.sub y).toRat = x.toRat - y.toRat := by
  have hadd := exact_add hx ((isFinite_neg y).trans hy)
  rwa [toRat_neg, ← sub_eq_add_neg] at hadd

/-- Nothing is lost. -/
theorem exact_twoSum {x y : PyFloat} (hx : x.isFinite = true) (hy : y.isFinite = true) :
    (twoSum x y).1.isFinite = true ∧ (twoSum x y).1.toRat = x.toRat + y.toRat ∧
      (twoSum x y).2.eq 0 = true := by
  have hsum : ∀ {a b : PyFloat}, a.isFinite = true → b.isFinite = true →
      (a.add b).isFinite = true ∧ (a.add b).toRat = a.toRat + b.toRat ∧
        (b.sub ((a.add b).sub a)).eq 0 = true := by
    intro a b ha hb
    obtain ⟨hfin, hrat⟩ := exact_add ha hb
    obtain ⟨hfin', hrat'⟩ := exact_sub hfin ha
    obtain ⟨hfin'', hrat''⟩ := exact_sub hb hfin'
    refine ⟨hfin, hrat, (eq_zero_iff hfin'').2 ?_⟩
    rw [hrat'', hrat', hrat]
    ring
  unfold twoSum
  by_cases h : x.abs.lt y.abs = true
  · simp only [h, if_true]
    rw [add_comm x.toRat]
    exact hsum hy hx
  · simp only [h]
    exact hsum hx hy

/-- One partial at most, and it is the sum `q` so far. -/
def FsumState.Single (s : FsumState) (q : ℚ) : Prop :=
  s.partials = [] ∧ q = 0 ∨
    ∃ p, s.partials = [p] ∧ p.isFinite = true ∧ p.toRat = q ∧ q ≠ 0

theorem FsumState.Single.passPartials {s : FsumState} {q : ℚ} (h : s.Single q) {x : PyFloat}
    (hx : x.isFinite = true) : ∃ y, passPartials x s.partials = ([], y) ∧
      y.isFinite = true ∧ y.toRat = q + x.toRat := by
  rcases h with ⟨hp, rfl⟩ | ⟨p, hp, hfin, rfl, -⟩
  · exact ⟨x, by rw [hp]; rfl, hx, (zero_add _).symm⟩
  · obtain ⟨hfin', hrat, hlo⟩ := exact_twoSum hx hfin
    refine ⟨(twoSum x p).1, ?_, hfin', hrat.trans (add_comm _ _)⟩
    simp only [hp, PyFloat.passPartials, hlo, if_true]

theorem FsumState.Single.add {s : FsumState} {q : ℚ} (h : s.Single q) {x : PyFloat}
    (hx : x.isFinite = true) : ∃ s', s.add x = .ok s' ∧ s'.Single (q + x.toRat) ∧
      s'.special = s.special := by
  obtain ⟨y, hpass, hy, hrat⟩ := h.passPartials hx
  by_cases h0 : y.eq 0 = true
  · refine ⟨{ s with partials := [] }, ?_, Or.inl ⟨rfl, ?_⟩, rfl⟩
    · simp only [FsumState.add, hpass, h0, if_true]
    · rw [← hrat]
      exact (eq_zero_iff hy).1 h0
  · refine ⟨{ s with partials := [y] }, ?_, Or.inr ⟨y, rfl, hy, hrat, ?_⟩, rfl⟩
    · simp only [FsumState.add, hpass, h0, hy, if_true, Bool.false_eq_true, if_false,
        List.nil_append]
    · rw [← hrat]
      exact mt (eq_zero_iff hy).2 h0

theorem FsumState.Single.result {s : FsumState} {q : ℚ} (h : s.Single q)
    (hs : s.special = 0) : s.result = .ok (ofSum q) := by
  rcases h with ⟨hp, rfl⟩ | ⟨p, hp, hfin, rfl, hne⟩
  · simp [FsumState.result, hs, zero_eq_zero, hp, ofSum_zero]
  · obtain ⟨neg, m, rfl⟩ := isFinite_iff.1 hfin
    have hm : m ≠ 0 := by
      rintro rfl
      exact hne (signed_zero neg)
    have hsum : ofSum (signed neg m) = fin neg m := by
      rw [ofSum, nnabs_signed, decide_signed_neg hm, ofMag_round]
    simp [FsumState.result, hs, zero_eq_zero, hp, addDown, roundAcross, hsum]

/-- Finite terms have their exact sum. -/
theorem fsum_of_isFinite {xs : List PyFloat} (h : ∀ x ∈ xs, x.isFinite = true) :
    fsum xs = .ok (ofSum (xs.map toRat).sum) := by
  have key : ∀ {xs : List PyFloat} {s : FsumState} {q : ℚ}, (∀ x ∈ xs, x.isFinite = true) →
      s.Single q → s.special = 0 → ∃ s', xs.foldlM FsumState.add s = .ok s' ∧
        s'.Single (q + (xs.map toRat).sum) ∧ s'.special = 0 := by
    intro xs
    induction xs with
    | nil => exact fun {s q} _ hq hs => ⟨s, rfl, by simpa using hq, hs⟩
    | cons x xs ih =>
      intro s q h hq hs
      obtain ⟨hx, hxs⟩ := List.forall_mem_cons.1 h
      obtain ⟨s₁, hadd, hq₁, hs₁⟩ := hq.add hx
      obtain ⟨s', hfold, hq', hs'⟩ := ih hxs hq₁ (hs₁.trans hs)
      refine ⟨s', ?_, ?_, hs'⟩
      · rw [List.foldlM_cons]
        exact Except.bind_eq_ok.2 ⟨s₁, hadd, hfold⟩
      · rwa [List.map_cons, List.sum_cons, ← add_assoc]
  obtain ⟨s, hfold, hq, hs⟩ := key h (s := ⟨[], 0, 0⟩) (Or.inl ⟨rfl, rfl⟩) rfl
  rw [zero_add] at hq
  exact Except.bind_eq_ok.2 ⟨s, hfold, hq.result hs⟩

/-- No sum overflows. -/
theorem fsum_ne_overflow (xs : List PyFloat) : fsum xs ≠ .error .overflow := by
  have hstep : ∀ x (s : FsumState), (∃ q, s.Single q) → ∃ s', s.add x = .ok s' ∧
      ∃ q, s'.Single q := by
    rintro x s ⟨q, hq⟩
    by_cases hx : x.isFinite = true
    · obtain ⟨s', hadd, hq', -⟩ := hq.add hx
      exact ⟨s', hadd, _, hq'⟩
    · exact ⟨_, FsumState.add_of_not_isFinite s (Bool.not_eq_true _ ▸ hx), 0,
        Or.inl ⟨rfl, rfl⟩⟩
  obtain ⟨s, hfold, -⟩ := Except.exists_foldlM_eq_ok hstep xs (s := ⟨[], 0, 0⟩)
    ⟨0, Or.inl ⟨rfl, rfl⟩⟩
  intro h
  rcases Except.bind_eq_error.1 h with h | ⟨s', -, h⟩
  · rw [hfold] at h
    cases h
  · exact s'.result_ne_overflow h

end Exact

end Arithmetic

end PyFloat
