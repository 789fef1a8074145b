import DtsuBridge.Config

/-!
# The canonical store and the derive rules

`CanonicalStore` is the latest sample and its stamp, `HealthGate` the freshness gate over
its age. `computeDerived` fills the energy aliases and `applyDerive` runs the declarative
steps of a source section in order.

`mem_keys_computeDerived` and `mem_keys_applyDerive` : which names they bind. Rules that
load raise in one case only, where the weights of a ratio split overflow their sum
(`applyDerive_cases`).
-/

namespace DtsuBridge

/-! ## The store -/

structure CanonicalStore where
  values : Sample := .empty
  ts : Option Time := none

namespace CanonicalStore

/-- `update`, which copies the values it is given. -/
def update (_store : CanonicalStore) (values : Sample) (ts : Time) : CanonicalStore :=
  ⟨values, some ts⟩

/-- Infinite before the first update. -/
def age (store : CanonicalStore) (now : Time) : WithTop Time :=
  match store.ts with
  | none => ⊤
  | some ts => ((now - ts : Time) : WithTop Time)

def isFresh (store : CanonicalStore) (now maxAge : Time) : Bool :=
  store.age now ≤ maxAge

theorem age_le_iff {store : CanonicalStore} {now maxAge : Time} :
    store.age now ≤ maxAge ↔ ∃ ts, store.ts = some ts ∧ now - ts ≤ maxAge := by
  unfold age
  cases store.ts with
  | none => simp
  | some ts =>
    rw [WithTop.coe_le_coe]
    simp

end CanonicalStore

structure HealthGate where
  maxAge : Time

def HealthGate.shouldServe (gate : HealthGate) (age : WithTop Time) : Bool :=
  age ≤ gate.maxAge

/-! ## Writing targets -/

/-- `_get` -/
def getValue (values : Sample) (name : String) : PyFloat :=
  (values.get? name).getD .nan

/-- `xs[i]` -/
def item {α : Type} (xs : List α) (i : ℕ) : Except PyExc α :=
  match xs[i]? with
  | some x => .ok x
  | none => .error (.indexError "list index out of range")

/-- Write each target a value computed from the values before it. -/
def writeTargets {α : Type} (f : Sample → α → Except PyExc PyFloat) :
    List (String × α) → Sample → Except PyExc Sample
  | [], values => .ok values
  | (target, a) :: rest, values => do
    let v ← f values a
    writeTargets f rest (values.set target v)

/-- The inputs of the target at an index, for the ops that consume a pair each. -/
def pairInputs (values : Sample) (from_ : List String) (index : ℕ) :
    Except PyExc (PyFloat × PyFloat) := do
  let a ← item from_ (2 * index)
  let b ← item from_ (2 * index + 1)
  return (getValue values a, getValue values b)

theorem mem_keys_writeTargets {α : Type} {f : Sample → α → Except PyExc PyFloat} {k : String} :
    ∀ {ts : List (String × α)} {values values' : Sample},
      writeTargets f ts values = .ok values' →
        (k ∈ values'.keys ↔ k ∈ ts.map Prod.fst ∨ k ∈ values.keys)
  | [], values, values', h => by
    cases h
    simp
  | (target, a) :: rest, values, values', h => by
    obtain ⟨v, -, h⟩ := Except.bind_eq_ok.1 h
    rw [mem_keys_writeTargets h, Dict.mem_keys_set, List.map_cons, List.mem_cons]
    tauto

/-- Writing the targets succeeds where each value does. -/
theorem exists_writeTargets {α : Type} {f : Sample → α → Except PyExc PyFloat} :
    ∀ {ts : List (String × α)} (values : Sample),
      (∀ t ∈ ts, ∀ values, ∃ v, f values t.2 = .ok v) →
        ∃ values', writeTargets f ts values = .ok values'
  | [], values, _ => ⟨values, rfl⟩
  | t :: ts, values, h => by
    obtain ⟨ht, hts⟩ := List.forall_mem_cons.1 h
    obtain ⟨v, hv⟩ := ht values
    obtain ⟨values', h'⟩ := exists_writeTargets (values.set t.1 v) hts
    exact ⟨values', Except.bind_eq_ok.2 ⟨v, hv, h'⟩⟩

theorem writeTargets_congr {α β γ : Type} {f : Sample → α → Except PyExc PyFloat}
    {g : Sample → β → Except PyExc PyFloat} {a : γ → String × α} {b : γ → String × β}
    (hname : ∀ t, (a t).1 = (b t).1) : ∀ {ts : List γ} {values : Sample},
      (∀ t ∈ ts, ∀ values, f values (a t).2 = g values (b t).2) →
        writeTargets f (ts.map a) values = writeTargets g (ts.map b) values
  | [], _, _ => rfl
  | t :: ts, values, h => by
    obtain ⟨ht, hts⟩ := List.forall_mem_cons.1 h
    rw [List.map_cons, List.map_cons, writeTargets, writeTargets, ht, hname]
    exact congrArg _ (funext fun v => writeTargets_congr hname hts)

/-- Writing the targets raises what the value of one of them does. -/
theorem writeTargets_eq_error {α : Type} {f : Sample → α → Except PyExc PyFloat} {e : PyExc} :
    ∀ {ts : List (String × α)} {values : Sample}, writeTargets f ts values = .error e →
      ∃ t ∈ ts, ∃ values, f values t.2 = .error e
  | [], _, h => by cases h
  | t :: ts, values, h => by
    rcases Except.bind_eq_error.1 h with h | ⟨v, -, h⟩
    · exact ⟨t, List.mem_cons_self, values, h⟩
    · obtain ⟨t', ht', h'⟩ := writeTargets_eq_error h
      exact ⟨t', List.mem_cons_of_mem _ ht', h'⟩

/-- Targets that are written all have a value. -/
theorem isOk_of_writeTargets {α : Type} {f : Sample → α → Except PyExc PyFloat} :
    ∀ {ts : List (String × α)} {values values' : Sample}, writeTargets f ts values = .ok values' →
      ∀ t ∈ ts, ∃ values v, f values t.2 = .ok v
  | [], _, _, _ => by simp
  | t :: ts, values, _, h => by
    obtain ⟨v, hv, h⟩ := Except.bind_eq_ok.1 h
    exact List.forall_mem_cons.2 ⟨⟨values, v, hv⟩, isOk_of_writeTargets h⟩

theorem mem_keys_writeTargets_empty {α : Type} {f : Sample → α → Except PyExc PyFloat}
    {ts : List (String × α)} {values : Sample} (h : writeTargets f ts .empty = .ok values)
    {k : String} : k ∈ values.keys ↔ k ∈ ts.map Prod.fst := by
  rw [mem_keys_writeTargets h, Dict.keys_empty]
  simp

section Derive

variable [FloatArith]

/-! ## Energy aliases -/

/-- Fill canonical physical-meter energy aliases. -/
def computeDerived (values : Sample) : Sample :=
  let imp := (values.get? "imp_energy_total").getD 0
  let exp := (values.get? "exp_energy_total").getD 0
  ((values.set "active_energy_total" (imp.add exp)).set "net_imp_energy_total" imp).set
    "net_exp_energy_total" exp

theorem mem_keys_computeDerived {values : Sample} {k : String} :
    k ∈ (computeDerived values).keys ↔ k ∈ DERIVED_CANONICAL_KEYS ∨ k ∈ values.keys := by
  simp only [computeDerived, Dict.mem_keys_set, DERIVED_CANONICAL_KEYS, List.mem_cons,
    List.not_mem_nil, or_false]
  tauto

theorem get?_computeDerived (values : Sample) (name : String) :
    (computeDerived values).get? name =
      if name = "net_exp_energy_total" then some ((values.get? "exp_energy_total").getD 0)
      else if name = "net_imp_energy_total" then some ((values.get? "imp_energy_total").getD 0)
      else if name = "active_energy_total" then
        some (((values.get? "imp_energy_total").getD 0).add
          ((values.get? "exp_energy_total").getD 0))
      else values.get? name := by
  simp only [computeDerived, Dict.get?_set]

/-- The other names keep their values. -/
theorem get?_computeDerived_of_not_mem (values : Sample) {k : String}
    (hk : k ∉ DERIVED_CANONICAL_KEYS) : (computeDerived values).get? k = values.get? k := by
  simp only [DERIVED_CANONICAL_KEYS, List.mem_cons, List.not_mem_nil, or_false, not_or] at hk
  rw [get?_computeDerived, if_neg hk.2.2, if_neg hk.2.1, if_neg hk.1]

/-- The aliases of a sample are finite where its values and the total of its energies are. -/
theorem isFinite_computeDerived_iff {values : Sample}
    (h : ∀ k v, values.get? k = some v → v.isFinite = true) :
    (∀ k v, (computeDerived values).get? k = some v → v.isFinite = true) ↔
      (((values.get? "imp_energy_total").getD 0).add
        ((values.get? "exp_energy_total").getD 0)).isFinite = true := by
  have hgetD : ∀ k, ((values.get? k).getD 0).isFinite = true := by
    intro k
    cases hk : values.get? k with
    | none => rfl
    | some v => exact h k v hk
  refine ⟨fun hall => ?_, fun htotal k v hk => ?_⟩
  · exact hall "active_energy_total" _ (by rw [get?_computeDerived]; rfl)
  · rw [get?_computeDerived] at hk
    split_ifs at hk
    · exact Option.some.inj hk ▸ hgetD _
    · exact Option.some.inj hk ▸ hgetD _
    · exact Option.some.inj hk ▸ htotal
    · exact h k v hk

/-! ## Derive rules -/

def SQRT3 : PyFloat := .lit (3900231685776981 / 2251799813685248)

/-- `x / len(xs)` for a list of this length. No length is too large to convert. -/
def divLen (x : PyFloat) (len : ℕ) : Except PyExc PyFloat :=
  if len = 0 then .error (.zeroDivisionError "float division by zero")
  else .ok (x.div (.ofMag false (FloatArith.round len)))

/-- `_apply_ratio_split` -/
def applyRatioSplit (values : Sample) (op : DeriveOp) : Except PyExc Sample := do
  let from₀ ← item op.from_ 0
  let total := getValue values from₀
  let weights := op.weights.map (getValue values)
  let weightSum ← fsum (weights.map PyFloat.abs)
  if ¬weightSum.isFinite ∨ weightSum.eq 0 then do
    let share ← divLen total op.targets.length
    return values.setAll op.targets share
  else
    writeTargets (fun _ weight => truediv (total.mul weight.abs) weightSum)
      (op.targets.zip weights) values

/-- One step of `apply_derive`. -/
def applyOp (values : Sample) (op : DeriveOp) : Except PyExc Sample :=
  match op.op with
  | .constant =>
    match op.value with
    | some v => .ok (values.setAll op.targets v)
    | none =>
      .error (.typeError ("float() argument must be a string or a real number, " ++
        "not 'NoneType'"))
  | .copy => do
    let from₀ ← item op.from_ 0
    return values.setAll op.targets (getValue values from₀)
  | .splitEqual => do
    let from₀ ← item op.from_ 0
    let share ← divLen (getValue values from₀) op.targets.length
    return values.setAll op.targets share
  | .phaseFromLine =>
    writeTargets (fun values line => truediv (getValue values line) SQRT3)
      (op.targets.zip op.from_) values
  | .hypot =>
    writeTargets (fun values index => do
      let (a, b) ← pairInputs values op.from_ index
      return a.hypot b) op.targets.zipIdx values
  | .ratioSplit => applyRatioSplit values op
  | .pfFromPS =>
    writeTargets (fun values index => do
      let (p, s) ← pairInputs values op.from_ index
      if s.eq 0 then return 1 else truediv p s) op.targets.zipIdx values

/-- Run the steps in order. -/
def applyDerive (values : Sample) (ops : List DeriveOp) : Except PyExc Sample :=
  ops.foldlM applyOp values

/-! ## The names a rule binds -/

/-- A step binds its targets and nothing else. -/
theorem mem_keys_applyOp {values values' : Sample} {op : DeriveOp} {k : String}
    (h : applyOp values op = .ok values') :
    k ∈ values'.keys ↔ k ∈ op.targets ∨ k ∈ values.keys := by
  have hlen := op.length_from
  unfold applyOp at h
  cases hop : op.op with
  | constant =>
    simp only [hop] at h
    cases hv : op.value with
    | none => simp [hv] at h
    | some v =>
      simp only [hv] at h
      cases h
      exact Dict.mem_keys_setAll
  | copy =>
    simp only [hop] at h
    obtain ⟨a, -, h⟩ := Except.bind_eq_ok.1 h
    cases h
    exact Dict.mem_keys_setAll
  | splitEqual =>
    simp only [hop] at h
    obtain ⟨a, -, h⟩ := Except.bind_eq_ok.1 h
    obtain ⟨share, -, h⟩ := Except.bind_eq_ok.1 h
    cases h
    exact Dict.mem_keys_setAll
  | phaseFromLine =>
    simp only [hop] at h hlen
    rw [mem_keys_writeTargets h, List.map_fst_zip hlen.ge]
  | hypot =>
    simp only [hop] at h
    rw [mem_keys_writeTargets h, List.zipIdx_map_fst]
  | ratioSplit =>
    simp only [hop] at h
    unfold applyRatioSplit at h
    obtain ⟨from₀, -, h⟩ := Except.bind_eq_ok.1 h
    obtain ⟨weightSum, -, h⟩ := Except.bind_eq_ok.1 h
    split_ifs at h with hw
    · obtain ⟨share, -, h⟩ := Except.bind_eq_ok.1 h
      cases h
      exact Dict.mem_keys_setAll
    · rw [mem_keys_writeTargets h, List.map_fst_zip]
      simpa using (op.length_weights hop).ge
  | pfFromPS =>
    simp only [hop] at h
    rw [mem_keys_writeTargets h, List.zipIdx_map_fst]

/-- The steps bind their targets and nothing else. -/
theorem mem_keys_applyDerive {k : String} : ∀ {ops : List DeriveOp} {values values' : Sample},
    applyDerive values ops = .ok values' →
      (k ∈ values'.keys ↔ k ∈ ops.flatMap (·.targets) ∨ k ∈ values.keys)
  | [], values, values', h => by
    cases h
    simp
  | op :: ops, values, values', h => by
    obtain ⟨v, hv, h⟩ := Except.bind_eq_ok.1 h
    rw [mem_keys_applyDerive h, mem_keys_applyOp hv, List.flatMap_cons, List.mem_append]
    tauto

/-! ## When a rule raises -/

omit [FloatArith] in
theorem item_eq_ok {α : Type} (xs : List α) {i : ℕ} (h : i < xs.length) :
    item xs i = .ok xs[i] := by
  rw [item, List.getElem?_eq_getElem h]

theorem divLen_isOk {x : PyFloat} {len : ℕ} (h : len ≠ 0) : ∃ v, divLen x len = .ok v :=
  ⟨_, if_neg h⟩

theorem truediv_isOk {x y : PyFloat} (h : y.eq 0 = false) : ∃ v, truediv x y = .ok v := by
  rw [truediv, PyFloat.truediv?, h]
  exact ⟨_, rfl⟩

/-- The weights of a ratio split add up past the range of a float. -/
def WeightsOverflow (values : Sample) (op : DeriveOp) : Prop :=
  op.op = .ratioSplit ∧
    PyFloat.fsum ((op.weights.map (getValue values)).map PyFloat.abs) = .error .overflow

omit [FloatArith] in
theorem abs_ne_inf_true (x : PyFloat) : x.abs ≠ .inf true := by
  cases x <;> simp [PyFloat.abs]

/-- Magnitudes can only overflow in a sum. -/
theorem fsum_abs_cases (xs : List PyFloat) :
    PyFloat.fsum (xs.map PyFloat.abs) = .error .overflow ∨
      ∃ s, PyFloat.fsum (xs.map PyFloat.abs) = .ok s := by
  refine PyFloat.fsum_cases fun h => ?_
  obtain ⟨x, -, hx⟩ := List.mem_map.1 h
  exact abs_ne_inf_true x hx

/-- A ratio split succeeds unless its weights overflow. -/
theorem applyRatioSplit_isOk {values : Sample} {op : DeriveOp} (hop : op.op = .ratioSplit)
    {s : PyFloat} (hs : PyFloat.fsum ((op.weights.map (getValue values)).map PyFloat.abs) = .ok s) :
    ∃ values', applyRatioSplit values op = .ok values' := by
  have hlen := op.length_from
  simp only [hop] at hlen
  have hfrom := item_eq_ok op.from_ (i := 0) (by omega)
  have hsum : fsum ((op.weights.map (getValue values)).map PyFloat.abs) = .ok s := by
    rw [fsum, hs]
  unfold applyRatioSplit
  simp only [hfrom, hsum, bind, Except.bind]
  split_ifs with hw
  · obtain ⟨share, hshare⟩ := divLen_isOk (x := getValue values op.from_[0])
      (mt List.length_eq_zero_iff.1 op.targets_ne)
    simp only [hshare]
    exact ⟨_, rfl⟩
  · rw [not_or, not_not, Bool.not_eq_true] at hw
    exact exists_writeTargets values fun t _ _ => truediv_isOk hw.2

/-- A step succeeds unless it is a ratio split whose weights overflow. -/
theorem applyOp_isOk {values : Sample} {op : DeriveOp} (h : ¬WeightsOverflow values op) :
    ∃ values', applyOp values op = .ok values' := by
  have hlen := op.length_from
  have hin := op.checkInputs_eq
  have hne : op.targets.length ≠ 0 := mt List.length_eq_zero_iff.1 op.targets_ne
  unfold applyOp
  cases hop : op.op with
  | constant =>
    simp only [hop, DeriveOpFields.checkInputs] at hin ⊢
    split_ifs at hin with hv
    cases hval : op.value with
    | none => simp [hval] at hv
    | some v => exact ⟨_, rfl⟩
  | copy =>
    simp only [hop] at hlen ⊢
    rw [item_eq_ok _ (by omega)]
    exact ⟨_, rfl⟩
  | splitEqual =>
    simp only [hop] at hlen ⊢
    rw [item_eq_ok _ (by omega)]
    obtain ⟨share, hshare⟩ := divLen_isOk (x := getValue values op.from_[0]) hne
    exact ⟨_, Except.bind_eq_ok.2 ⟨_, rfl, Except.bind_eq_ok.2 ⟨share, hshare, rfl⟩⟩⟩
  | phaseFromLine =>
    exact exists_writeTargets values fun t _ _ => truediv_isOk (by decide +kernel)
  | hypot =>
    simp only [hop] at hlen ⊢
    refine exists_writeTargets values fun t ht values => ?_
    have hi := (List.mem_zipIdx' ht).1
    have h1 := item_eq_ok op.from_ (i := 2 * t.2) (by omega)
    have h2 := item_eq_ok op.from_ (i := 2 * t.2 + 1) (by omega)
    simp only [pairInputs, h1, h2, bind, Except.bind]
    exact ⟨_, rfl⟩
  | ratioSplit =>
    rcases fsum_abs_cases (op.weights.map (getValue values)) with hs | ⟨s, hs⟩
    · exact absurd ⟨hop, hs⟩ h
    · exact applyRatioSplit_isOk hop hs
  | pfFromPS =>
    simp only [hop] at hlen ⊢
    refine exists_writeTargets values fun t ht values => ?_
    have hi := (List.mem_zipIdx' ht).1
    have h1 := item_eq_ok op.from_ (i := 2 * t.2) (by omega)
    have h2 := item_eq_ok op.from_ (i := 2 * t.2 + 1) (by omega)
    simp only [pairInputs, h1, h2, bind, Except.bind, pure, Except.pure]
    split_ifs with hz
    · exact ⟨_, rfl⟩
    · exact truediv_isOk (by simpa using hz)

theorem applyOp_of_overflow {values : Sample} {op : DeriveOp} (h : WeightsOverflow values op) :
    applyOp values op = .error (.overflowError "intermediate overflow in fsum") := by
  obtain ⟨hop, hs⟩ := h
  have hlen := op.length_from
  simp only [hop] at hlen
  have hfrom := item_eq_ok op.from_ (i := 0) (by omega)
  have hsum : fsum ((op.weights.map (getValue values)).map PyFloat.abs) =
      .error (.overflowError "intermediate overflow in fsum") := by
    rw [fsum, hs]
  unfold applyOp
  simp only [hop]
  unfold applyRatioSplit
  simp only [hfrom, hsum, bind, Except.bind]

/-- Some rule reached in order has weights that overflow. -/
def DeriveOverflows (values : Sample) (ops : List DeriveOp) : Prop :=
  ∃ pre op post values', ops = pre ++ op :: post ∧ applyDerive values pre = .ok values' ∧
    WeightsOverflow values' op

/-- The rules succeed, or one that is reached overflows. -/
theorem applyDerive_cases : ∀ (ops : List DeriveOp) (values : Sample),
    ((∃ values', applyDerive values ops = .ok values') ∧ ¬DeriveOverflows values ops) ∨
      applyDerive values ops = .error (.overflowError "intermediate overflow in fsum") ∧
        DeriveOverflows values ops
  | [], values => Or.inl ⟨⟨values, rfl⟩, by rintro ⟨pre, op, post, _, h, -⟩; simp at h⟩
  | op :: ops, values => by
    by_cases hop : WeightsOverflow values op
    · refine Or.inr ⟨?_, [], op, ops, values, rfl, rfl, hop⟩
      exact Except.bind_eq_error.2 (Or.inl (applyOp_of_overflow hop))
    · obtain ⟨v, hv⟩ := applyOp_isOk hop
      have hstep : ∀ ops, applyDerive values (op :: ops) = applyDerive v ops := by
        intro ops
        rw [applyDerive, List.foldlM_cons, hv]
        rfl
      have hover : DeriveOverflows values (op :: ops) ↔ DeriveOverflows v ops := by
        refine ⟨?_, ?_⟩
        · rintro ⟨pre, op', post, v', h, hpre, hw⟩
          cases pre with
          | nil =>
            obtain ⟨rfl, rfl⟩ := List.cons.inj h
            cases hpre
            exact absurd hw hop
          | cons p pre =>
            obtain ⟨rfl, rfl⟩ := List.cons.inj h
            exact ⟨pre, op', post, v', rfl, hstep pre ▸ hpre, hw⟩
        · rintro ⟨pre, op', post, v', rfl, hpre, hw⟩
          exact ⟨op :: pre, op', post, v', rfl, (hstep pre).trans hpre, hw⟩
      rw [hstep, hover]
      exact applyDerive_cases ops v

end Derive

end DtsuBridge
