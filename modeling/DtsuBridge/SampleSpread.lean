import DtsuBridge.Accounting
import DtsuBridge.Lib.ExactFloat
import DtsuBridge.Lib.Windows

/-!
# The spread of a point

`SampleStats` keeps the last finite values of each of its points, and `summary` goes through
them once, comparing each with the last one before it that is not zero.

`crossings_foldl` : the pass counts the pairs of opposite signs that are adjacent once the zeros
are left out, whatever runs of zeros lie between them.
`summary_exact` : after any samples the summary of a point describes the last `window` values
recorded for it, and there is none where no finite value ever arrived.
-/

namespace DtsuBridge

/-- What `summary` returns of a point that arrived. -/
structure PointSpread where
  n : ℕ
  min : PyFloat
  max : PyFloat
  last : PyFloat
  signChanges : ℕ
deriving DecidableEq

/-- `min` of a value and more of them, the first of equals. -/
def minFloat (value : PyFloat) (values : List PyFloat) : PyFloat :=
  values.foldl (fun m v => if v.lt m then v else m) value

/-- `max` of a value and more of them, the first of equals. -/
def maxFloat (value : PyFloat) (values : List PyFloat) : PyFloat :=
  values.foldl (fun m v => if m.lt v then v else m) value

section Float

variable [FloatArith]

/-- A step through the history : the crossings so far, and the last value that is not zero. -/
def crossingStep (state : ℕ × Option PyFloat) (value : PyFloat) : ℕ × Option PyFloat :=
  let crossings := match state.2 with
    | some lastSigned => if (value.mul lastSigned).lt 0 then state.1 + 1 else state.1
    | none => state.1
  (crossings, if value.eq 0 then state.2 else some value)

def SampleStats.summary (s : SampleStats) (name : String) : Option PointSpread :=
  match s.history name with
  | [] => none
  | value :: values =>
    some {
      n := (value :: values).length
      min := minFloat value values
      max := maxFloat value values
      last := values.getLastD value
      signChanges := ((value :: values).foldl crossingStep (0, none)).1 }

end Float

/-! ## What is recorded -/

/-- The finite values of a point in some samples. -/
def finiteValues (name : String) (samples : List Sample) : List PyFloat :=
  samples.filterMap fun values => (values.get? name).filter PyFloat.isFinite

/-- What is recorded for a point : its finite values, once for each time it is listed. -/
def recordedValues (points : List String) (name : String) (samples : List Sample) : List PyFloat :=
  (finiteValues name samples).flatMap (List.replicate (points.count name))

theorem recordedValues_of_count {points : List String} {name : String}
    (h : points.count name = 1) (samples : List Sample) :
    recordedValues points name samples = finiteValues name samples := by
  rw [recordedValues, h]
  exact List.flatMap_singleton' _

theorem recordedValues_concat (points : List String) (name : String) (samples : List Sample)
    (values : Sample) : recordedValues points name (samples ++ [values]) =
      recordedValues points name samples ++
        ((values.get? name).filter PyFloat.isFinite).toList.flatMap
          (List.replicate (points.count name)) := by
  simp only [recordedValues, finiteValues, List.filterMap_append, List.flatMap_append]
  cases h : (values.get? name).filter PyFloat.isFinite <;> simp [h]

/-- A name that is not looked at keeps its history. -/
theorem append_of_ne {window : ℕ} {values : Sample} {history : String → List PyFloat}
    {point name : String} (h : point ≠ name) :
    SampleStats.append window values history point name = history name := by
  rw [SampleStats.append]
  cases values.get? point with
  | none => rfl
  | some v =>
    cases hfin : v.isFinite with
    | false => simp [hfin]
    | true => simp [hfin, Function.update_of_ne (Ne.symm h)]

/-- A pass over the points appends the value of a name as often as it is listed. -/
theorem foldl_append {window : ℕ} {values : Sample} {name : String} {xs : List PyFloat} :
    ∀ {points : List String} {history : String → List PyFloat},
      history name = xs.rtake window →
        points.foldl (SampleStats.append window values) history name =
          (xs ++ ((values.get? name).filter PyFloat.isFinite).toList.flatMap
            (List.replicate (points.count name))).rtake window
  | [], history, h => by
    cases (values.get? name).filter PyFloat.isFinite <;> simp [h]
  | point :: points, history, h => by
    rw [List.foldl_cons]
    by_cases hpoint : point = name
    · subst hpoint
      rw [List.count_cons_self]
      cases hv : values.get? point with
      | none =>
        have hsame : SampleStats.append window values history point = history := by
          rw [SampleStats.append, hv]
        rw [hsame, foldl_append h, hv]
        rfl
      | some v =>
        cases hfin : v.isFinite with
        | false =>
          have hsame : SampleStats.append window values history point = history := by
            simp [SampleStats.append, hv, hfin]
          rw [hsame, foldl_append h, hv]
          simp [Option.filter, hfin]
        | true =>
          have hnew : SampleStats.append window values history point point =
              (xs ++ [v]).rtake window := by
            simp only [SampleStats.append, hv, hfin, if_true, Function.update_self]
            rw [h, ← rtake_append]
          rw [foldl_append hnew, hv]
          simp [Option.filter, hfin, List.replicate_succ]
    · rw [List.count_cons_of_ne hpoint]
      exact foldl_append ((append_of_ne hpoint).trans h)

/-- A history holds the last values that were recorded. -/
theorem history_foldl_record {points : List String} {window : ℕ} (name : String)
    (samples : List Sample) :
    (samples.foldl SampleStats.record { points := points, window := window }).history name =
      (recordedValues points name samples).rtake window := by
  have hparts : ∀ samples : List Sample,
      (samples.foldl SampleStats.record { points := points, window := window }).points = points ∧
      (samples.foldl SampleStats.record { points := points, window := window }).window =
        window := by
    intro samples
    induction samples using List.reverseRecOn with
    | nil => exact ⟨rfl, rfl⟩
    | append_singleton samples values ih =>
      rw [List.foldl_append]
      exact ih
  induction samples using List.reverseRecOn with
  | nil => simp [recordedValues, finiteValues, List.rtake]
  | append_singleton samples values ih =>
    obtain ⟨hpoints, hwindow⟩ := hparts samples
    rw [List.foldl_append, List.foldl_cons, List.foldl_nil, SampleStats.record, hpoints, hwindow,
      recordedValues_concat]
    exact foldl_append ih

theorem isFinite_of_mem_recordedValues {points : List String} {name : String}
    {samples : List Sample} {v : PyFloat} (h : v ∈ recordedValues points name samples) :
    v.isFinite = true := by
  obtain ⟨w, hw, hv⟩ := List.mem_flatMap.1 h
  obtain rfl := List.eq_of_mem_replicate hv
  obtain ⟨values, -, hvalue⟩ := List.mem_filterMap.1 hw
  exact (Option.filter_eq_some_iff.1 hvalue).2

/-! ## The extremes -/

/-- A fold that keeps the one of lower rank ends with one of the lowest. -/
theorem foldl_lowest {rank : PyFloat → ℚ} {lt : PyFloat → PyFloat → Bool}
    (hlt : ∀ x y : PyFloat, x.isFinite = true → y.isFinite = true →
      lt x y = decide (rank x < rank y)) :
    ∀ {values : List PyFloat} {value : PyFloat}, (∀ v ∈ value :: values, v.isFinite = true) →
      values.foldl (fun m v => if lt v m then v else m) value ∈ value :: values ∧
        ∀ v ∈ value :: values,
          rank (values.foldl (fun m v => if lt v m then v else m) value) ≤ rank v
  | [], value, _ => by simp
  | v :: values, value, hfin => by
    obtain ⟨hvalue, hrest⟩ := List.forall_mem_cons.1 hfin
    obtain ⟨hv, hvalues⟩ := List.forall_mem_cons.1 hrest
    set m := if lt v value then v else value with hm
    obtain ⟨hmcases, hmv, hmvalue⟩ :
        (m = v ∨ m = value) ∧ rank m ≤ rank v ∧ rank m ≤ rank value := by
      rw [hm, hlt v value hv hvalue]
      by_cases h : rank v < rank value
      · simp [h, h.le]
      · simp [h, not_lt.1 h]
    have hmfin : m.isFinite = true := by
      rcases hmcases with h | h <;> rw [h] <;> assumption
    obtain ⟨hmem, hle⟩ := foldl_lowest hlt (List.forall_mem_cons.2 ⟨hmfin, hvalues⟩)
    rw [List.foldl_cons]
    refine ⟨?_, fun w hw => ?_⟩
    · rcases List.mem_cons.1 hmem with h | h
      · rcases hmcases with h' | h' <;> rw [h, h'] <;> simp
      · exact List.mem_cons_of_mem _ (List.mem_cons_of_mem _ h)
    · have hbest := hle m (by simp)
      rcases List.mem_cons.1 hw with rfl | hw
      · exact hbest.trans hmvalue
      · rcases List.mem_cons.1 hw with rfl | hw
        · exact hbest.trans hmv
        · exact hle w (List.mem_cons_of_mem _ hw)

theorem lt_eq_of_isFinite {x y : PyFloat} (hx : x.isFinite = true) (hy : y.isFinite = true) :
    x.lt y = decide (x.toRat < y.toRat) := by
  obtain ⟨a, m, rfl⟩ := PyFloat.isFinite_iff.1 hx
  obtain ⟨b, n, rfl⟩ := PyFloat.isFinite_iff.1 hy
  exact PyFloat.lt_fin a b m n

theorem le_eq_of_isFinite {x y : PyFloat} (hx : x.isFinite = true) (hy : y.isFinite = true) :
    x.le y = decide (x.toRat ≤ y.toRat) := by
  obtain ⟨a, m, rfl⟩ := PyFloat.isFinite_iff.1 hx
  obtain ⟨b, n, rfl⟩ := PyFloat.isFinite_iff.1 hy
  exact PyFloat.le_fin a b m n

theorem minFloat_spec {value : PyFloat} {values : List PyFloat}
    (h : ∀ v ∈ value :: values, v.isFinite = true) :
    minFloat value values ∈ value :: values ∧
      ∀ v ∈ value :: values, (minFloat value values).le v = true := by
  obtain ⟨hmem, hle⟩ := foldl_lowest (fun _ _ => lt_eq_of_isFinite) h
  refine ⟨hmem, fun v hv => ?_⟩
  exact (le_eq_of_isFinite (h _ hmem) (h v hv)).trans (decide_eq_true (hle v hv))

theorem maxFloat_spec {value : PyFloat} {values : List PyFloat}
    (h : ∀ v ∈ value :: values, v.isFinite = true) :
    maxFloat value values ∈ value :: values ∧
      ∀ v ∈ value :: values, v.le (maxFloat value values) = true := by
  obtain ⟨hmem, hle⟩ := @foldl_lowest (fun x => -x.toRat) (fun x y => y.lt x) (fun x y hx hy => by
    rw [lt_eq_of_isFinite hy hx]
    simp) values value h
  refine ⟨hmem, fun v hv => ?_⟩
  have hmax := neg_le_neg_iff.1 (hle v hv)
  exact (le_eq_of_isFinite (h v hv) (h _ hmem)).trans (decide_eq_true hmax)

/-! ## The sign changes -/

/-- One is negative and the other positive. -/
def OppositeSigns (x y : PyFloat) : Prop :=
  (x.lt 0 = true ∧ (0 : PyFloat).lt y = true) ∨ ((0 : PyFloat).lt x = true ∧ y.lt 0 = true)

instance (x y : PyFloat) : Decidable (OppositeSigns x y) := inferInstanceAs (Decidable (_ ∨ _))

/-- The adjacent pairs of opposite signs. -/
def adjacentChanges (values : List PyFloat) : ℕ :=
  (values.zip values.tail).countP fun pair => OppositeSigns pair.1 pair.2

/-- The adjacent pairs of opposite signs once the zeros are left out. -/
def signChanges (values : List PyFloat) : ℕ :=
  adjacentChanges (values.filter fun v => !v.eq 0)

theorem adjacentChanges_cons (x y : PyFloat) (values : List PyFloat) :
    adjacentChanges (x :: y :: values) =
      (if OppositeSigns x y then 1 else 0) + adjacentChanges (y :: values) := by
  simp [adjacentChanges, List.countP_cons, add_comm]

section Float

variable [FloatArith] [FloatArith.Exact]

/-- A product is negative where the signs are opposite. -/
theorem mul_lt_zero_iff {x y : PyFloat} (hx : x.isFinite = true) (hy : y.isFinite = true) :
    (x.mul y).lt 0 = true ↔ OppositeSigns y x := by
  have hzero : (0 : PyFloat).isFinite = true := PyFloat.isFinite_zero
  have hmul := PyFloat.isFinite_mul hx hy
  rw [OppositeSigns, lt_eq_of_isFinite hmul hzero, lt_eq_of_isFinite hx hzero,
    lt_eq_of_isFinite hy hzero, lt_eq_of_isFinite hzero hx, lt_eq_of_isFinite hzero hy,
    PyFloat.toRat_mul, PyFloat.toRat_zero]
  simp only [decide_eq_true_iff]
  rw [mul_neg_iff]
  tauto

/-- A zero is passed over. -/
theorem crossingStep_of_zero {v : PyFloat} (hv : v.isFinite = true) (hzero : v.eq 0 = true)
    (crossings : ℕ) {lastSigned : Option PyFloat} (hlast : ∀ w ∈ lastSigned, w.isFinite = true) :
    crossingStep (crossings, lastSigned) v = (crossings, lastSigned) := by
  cases lastSigned with
  | none => simp [crossingStep, hzero]
  | some w =>
    have hno : (v.mul w).lt 0 = false := by
      rw [Bool.eq_false_iff, Ne, mul_lt_zero_iff hv (hlast w rfl), OppositeSigns]
      rw [lt_eq_of_isFinite hv PyFloat.isFinite_zero, lt_eq_of_isFinite PyFloat.isFinite_zero hv,
        (PyFloat.eq_zero_iff hv).1 hzero]
      simp
    simp [crossingStep, hzero, hno]

/-- Another value is a change where the one before has the opposite sign. -/
theorem crossingStep_some {v w : PyFloat} (hv : v.isFinite = true) (hw : w.isFinite = true)
    (hzero : ¬v.eq 0 = true) (crossings : ℕ) :
    crossingStep (crossings, some w) v =
      (crossings + (if OppositeSigns w v then 1 else 0), some v) := by
  have hcross := mul_lt_zero_iff hv hw
  by_cases hopp : OppositeSigns w v
  · simp [crossingStep, hzero, hcross.2 hopp, hopp]
  · have hno : (v.mul w).lt 0 = false := Bool.eq_false_iff.2 fun hc => hopp (hcross.1 hc)
    simp [crossingStep, hzero, hno, hopp]

/-- The pass counts the changes of sign from the last value that is not zero. -/
theorem crossings_foldl : ∀ {values : List PyFloat} (crossings : ℕ) (lastSigned : Option PyFloat),
    (∀ v ∈ values, v.isFinite = true) → (∀ v ∈ lastSigned, v.isFinite = true) →
      (values.foldl crossingStep (crossings, lastSigned)).1 =
        crossings + adjacentChanges (lastSigned.toList ++ values.filter fun v => !v.eq 0)
  | [], crossings, lastSigned, _, _ => by
    cases lastSigned <;> simp [adjacentChanges]
  | v :: values, crossings, lastSigned, hfin, hlast => by
    obtain ⟨hv, hvalues⟩ := List.forall_mem_cons.1 hfin
    rw [List.foldl_cons]
    by_cases hzero : v.eq 0 = true
    · rw [crossingStep_of_zero hv hzero crossings hlast,
        crossings_foldl crossings lastSigned hvalues hlast,
        List.filter_cons_of_neg (by simp [hzero])]
    · have hkept : (v :: values).filter (fun v => !v.eq 0) =
          v :: values.filter fun v => !v.eq 0 := List.filter_cons_of_pos (by simp [hzero])
      have hnext : ∀ w ∈ some v, w.isFinite = true := by simp [hv]
      cases lastSigned with
      | none =>
        have hstep : crossingStep (crossings, none) v = (crossings, some v) := by
          simp [crossingStep, hzero]
        rw [hstep, crossings_foldl crossings (some v) hvalues hnext, hkept]
        rfl
      | some w =>
        rw [crossingStep_some hv (hlast w rfl) hzero, crossings_foldl _ (some v) hvalues hnext,
          hkept]
        exact (Nat.add_assoc _ _ _).trans (congrArg _ (adjacentChanges_cons w v _).symm)

end Float

/-- After any samples the summary of a point is that of the last values recorded for it : their
number, the extremes, the last one, and in exact arithmetic the changes of sign between them.
There is none where no finite value of it was recorded. -/
theorem summary_exact [FloatArith] {window : ℕ} (hwindow : 1 ≤ window) (points : List String)
    (samples : List Sample) (name : String) :
    (points.count name = 1 →
      recordedValues points name samples = finiteValues name samples) ∧
    ((samples.foldl SampleStats.record { points := points, window := window }).summary name =
      none ↔ recordedValues points name samples = []) ∧
    ∀ spread, (samples.foldl SampleStats.record { points := points, window := window }).summary
        name = some spread →
      ∃ kept, kept = (recordedValues points name samples).rtake window ∧
        spread.n = kept.length ∧
        (spread.min ∈ kept ∧ ∀ v ∈ kept, spread.min.le v = true) ∧
        (spread.max ∈ kept ∧ ∀ v ∈ kept, v.le spread.max = true) ∧
        kept.getLast? = some spread.last ∧
        (FloatArith.Exact → spread.signChanges = signChanges kept) := by
  have hhistory := @history_foldl_record points window name samples
  have hmem : ∀ v ∈ (recordedValues points name samples).rtake window, v.isFinite = true :=
    fun v hv => isFinite_of_mem_recordedValues (List.mem_of_mem_drop hv)
  refine ⟨fun h => recordedValues_of_count h samples, ?_, fun spread h => ⟨_, rfl, ?_⟩⟩
  · rw [SampleStats.summary, hhistory]
    rw [← rtake_eq_nil_iff hwindow]
    cases (recordedValues points name samples).rtake window <;> simp
  · rw [SampleStats.summary, hhistory] at h
    cases hkept : (recordedValues points name samples).rtake window with
    | nil => simp [hkept] at h
    | cons value values =>
      rw [hkept] at h hmem
      obtain rfl := Option.some.inj h
      refine ⟨rfl, minFloat_spec hmem, maxFloat_spec hmem, ?_, fun hexact => ?_⟩
      · rw [List.getLast?_cons, List.getLastD_eq_getLast?]
      · have hpass := crossings_foldl 0 none hmem (by simp)
        rw [Nat.zero_add] at hpass
        exact hpass

/-- A walk through zero, the first value of which has left the window. -/
def zeroWalk : List Sample :=
  [.fin false (9 : ℕ), .fin false (5 : ℕ), .fin true 0, .fin true (5 : ℕ)].map fun v =>
    .set .empty "p_total" v

/-- It changes its sign once. -/
theorem summary_exact_zeroWalk : ∃ spread,
    @SampleStats.summary (FloatArith.exact fun m _ => m)
      (zeroWalk.foldl SampleStats.record { points := SPREAD_POINTS, window := 3 }) "p_total" =
        some spread ∧
      spread.n = 3 ∧ spread.signChanges = 1 := by
  obtain ⟨-, hnone, hsome⟩ := @summary_exact (FloatArith.exact fun m _ => m) 3 (by norm_num)
    SPREAD_POINTS zeroWalk "p_total"
  have hkept : (recordedValues SPREAD_POINTS "p_total" zeroWalk).rtake 3 =
      [.fin false 5, .fin true 0, .fin true 5] := by decide +kernel
  cases h : @SampleStats.summary (FloatArith.exact fun m _ => m)
      (zeroWalk.foldl SampleStats.record { points := SPREAD_POINTS, window := 3 }) "p_total" with
  | none =>
    rw [hnone.1 h] at hkept
    simp [List.rtake] at hkept
  | some spread =>
    obtain ⟨_, rfl, hn, -, -, -, hchanges⟩ := hsome spread h
    refine ⟨spread, rfl, ?_, ?_⟩
    · rw [hn, hkept]
      rfl
    · rw [hchanges inferInstance, hkept]
      decide +kernel

end DtsuBridge
