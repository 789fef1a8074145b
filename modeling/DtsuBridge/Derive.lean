import DtsuBridge.Canonical

/-!
# What the derive rules write

The inputs a derive step reads for a target are names that may be missing, and the source
promises that a step whose inputs are missing or not finite writes NaN. `deriveWrites` is
the trace of a run of rules : for every value written, the step, the target and what was
read for it (`applyDerive_eq_writes`). A write is `Honest` if it keeps that promise.

`derive_honest_iff` : a write is honest exactly when the step does not swallow its inputs,
and there are three ways it can. A power factor is 1 where `s` is zero, whatever `p` is,
and 0 where `s` is infinite and `p` is not. A ratio split with a weight that is missing or
not finite falls back to an equal split.
-/

namespace DtsuBridge

/-! ## The trace -/

/-- A value written by a step. -/
structure DeriveWrite where
  op : DeriveOp
  target : String
  /-- What the step read for the target, none for a name that is missing. -/
  inputs : List (Option PyFloat)
  value : PyFloat

/-- `values[target] = value` -/
def DeriveWrite.apply (values : Sample) (w : DeriveWrite) : Sample :=
  values.set w.target w.value

/-- The writes of the steps that compute one value for all targets. -/
def sharedWrites (op : DeriveOp) (inputs : List (Option PyFloat)) (value : PyFloat) :
    List DeriveWrite :=
  op.targets.map fun target => ⟨op, target, inputs, value⟩

/-- The writes of the steps that compute each target from the values before it. -/
def eachWrite {α : Type} (op : DeriveOp) (names : α → List String) (f : Sample → α → PyFloat) :
    List (String × α) → Sample → List DeriveWrite
  | [], _ => []
  | (target, a) :: rest, values =>
    ⟨op, target, (names a).map values.get?, f values a⟩ ::
      eachWrite op names f rest (values.set target (f values a))

/-- The names of the pair at an index. -/
def pairNames (from_ : List String) (index : ℕ) : String × String :=
  (from_.getD (2 * index) "", from_.getD (2 * index + 1) "")

/-- The writes of the steps that consume a pair for each target. -/
def pairWrites (op : DeriveOp) (f : PyFloat → PyFloat → PyFloat) (values : Sample) :
    List DeriveWrite :=
  let names := pairNames op.from_
  eachWrite op (fun index => [(names index).1, (names index).2])
    (fun values index => f (getValue values (names index).1) (getValue values (names index).2))
    op.targets.zipIdx values

section Float

variable [FloatArith]

/-- `total / len(op.targets)` -/
def equalShare (total : PyFloat) (targets : List String) : PyFloat :=
  total.div (.ofMag false (FloatArith.round targets.length))

/-- The writes of `_apply_ratio_split`, none where the weights overflow. -/
def ratioWrites (values : Sample) (op : DeriveOp) : List DeriveWrite :=
  let name := op.from_.headD ""
  let total := getValue values name
  let weights := op.weights.map (getValue values)
  let inputs := values.get? name :: op.weights.map values.get?
  match PyFloat.fsum (weights.map PyFloat.abs) with
  | .error _ => []
  | .ok weightSum =>
    if ¬weightSum.isFinite ∨ weightSum.eq 0 then
      sharedWrites op inputs (equalShare total op.targets)
    else
      (op.targets.zip weights).map fun (target, weight) =>
        ⟨op, target, inputs, (total.mul weight.abs).div weightSum⟩

/-- The writes of one step. -/
def opWrites (values : Sample) (op : DeriveOp) : List DeriveWrite :=
  let name := op.from_.headD ""
  match op.op with
  | .constant => sharedWrites op [] (op.value.getD .nan)
  | .copy => sharedWrites op [values.get? name] (getValue values name)
  | .splitEqual =>
    sharedWrites op [values.get? name] (equalShare (getValue values name) op.targets)
  | .phaseFromLine =>
    eachWrite op (fun line => [line]) (fun values line => (getValue values line).div SQRT3)
      (op.targets.zip op.from_) values
  | .hypot => pairWrites op PyFloat.hypot values
  | .ratioSplit => ratioWrites values op
  | .pfFromPS => pairWrites op (fun p s => if s.eq 0 then 1 else p.div s) values

/-- The writes of a run of steps, until one raises. -/
def deriveWrites : Sample → List DeriveOp → List DeriveWrite
  | _, [] => []
  | values, op :: ops =>
    match applyOp values op with
    | .ok values' => opWrites values op ++ deriveWrites values' ops
    | .error _ => opWrites values op

end Float

/-! ## The trace is what the rules write -/

theorem foldl_sharedWrites (op : DeriveOp) (inputs : List (Option PyFloat)) (value : PyFloat)
    (values : Sample) : (sharedWrites op inputs value).foldl DeriveWrite.apply values =
      values.setAll op.targets value := by
  rw [sharedWrites, List.foldl_map]
  rfl

/-- Targets written in turn from values that do not raise. -/
theorem writeTargets_eq_foldl {α : Type} {op : DeriveOp} {names : α → List String}
    {F : Sample → α → Except PyExc PyFloat} {f : Sample → α → PyFloat} :
    ∀ {ts : List (String × α)} {values : Sample},
      (∀ t ∈ ts, ∀ values, F values t.2 = .ok (f values t.2)) →
        writeTargets F ts values =
          .ok ((eachWrite op names f ts values).foldl DeriveWrite.apply values)
  | [], _, _ => rfl
  | (target, a) :: ts, values, h => by
    obtain ⟨ha, hts⟩ := List.forall_mem_cons.1 h
    rw [writeTargets, ha]
    exact writeTargets_eq_foldl hts

/-- Targets written in turn, none of them read. -/
theorem writeTargets_eq_map {α : Type} {op : DeriveOp} {inputs : List (Option PyFloat)}
    {F : α → Except PyExc PyFloat} {f : α → PyFloat} (h : ∀ a, F a = .ok (f a)) :
    ∀ {ts : List (String × α)} {values : Sample}, writeTargets (fun _ => F) ts values =
      .ok ((ts.map fun t => ⟨op, t.1, inputs, f t.2⟩).foldl DeriveWrite.apply values)
  | [], _ => rfl
  | (target, a) :: ts, values => by
    rw [writeTargets, h]
    exact writeTargets_eq_map h

theorem item_zero {α : Type} {xs : List α} (h : xs.length = 1) (d : α) :
    item xs 0 = .ok (xs.headD d) := by
  obtain ⟨x, rfl⟩ := List.length_eq_one_iff.1 h
  rfl

theorem pairInputs_eq {op : DeriveOp} (h : op.from_.length = 2 * op.targets.length)
    {t : String × ℕ} (ht : t ∈ op.targets.zipIdx) (values : Sample) :
    pairInputs values op.from_ t.2 = .ok (getValue values (pairNames op.from_ t.2).1,
      getValue values (pairNames op.from_ t.2).2) := by
  have hi := (List.mem_zipIdx' ht).1
  have h1 : 2 * t.2 < op.from_.length := by omega
  have h2 : 2 * t.2 + 1 < op.from_.length := by omega
  simp only [pairInputs, item_eq_ok _ h1, item_eq_ok _ h2, pairNames,
    List.getD_eq_getElem _ _ h1, List.getD_eq_getElem _ _ h2]
  rfl

section Float

variable [FloatArith]

theorem truediv_of_ne_zero {x y : PyFloat} (h : y.eq 0 = false) : truediv x y = .ok (x.div y) := by
  rw [truediv, PyFloat.truediv?, h]
  rfl

theorem divLen_eq (x : PyFloat) {targets : List String} (h : targets ≠ []) :
    divLen x targets.length = .ok (equalShare x targets) :=
  if_neg (mt List.length_eq_zero_iff.1 h)

/-- A ratio split that does not raise leaves what its trace writes. -/
theorem applyRatioSplit_eq_writes {values values' : Sample} {op : DeriveOp}
    (hop : op.op = .ratioSplit) (h : applyRatioSplit values op = .ok values') :
    values' = (ratioWrites values op).foldl DeriveWrite.apply values := by
  have hlen := op.length_from
  simp only [hop] at hlen
  unfold applyRatioSplit at h
  rw [item_zero hlen ""] at h
  obtain ⟨name, hname, h⟩ := Except.bind_eq_ok.1 h
  obtain rfl := Except.ok.inj hname
  obtain ⟨weightSum, hsum, h⟩ := Except.bind_eq_ok.1 h
  unfold fsum at hsum
  unfold ratioWrites
  rcases fsum_abs_cases (op.weights.map (getValue values)) with hs | ⟨s, hs⟩
  · rw [hs] at hsum
    cases hsum
  · rw [hs] at hsum
    obtain rfl := Except.ok.inj hsum
    simp only [hs]
    split_ifs at h ⊢ with hw
    · rw [divLen_eq _ op.targets_ne] at h
      rw [foldl_sharedWrites]
      exact (Except.ok.inj h).symm
    · rw [not_or, not_not, Bool.not_eq_true] at hw
      exact Except.ok.inj (h.symm.trans (writeTargets_eq_map fun _ => truediv_of_ne_zero hw.2))

/-- A step that does not raise leaves what its trace writes. -/
theorem applyOp_eq_writes {values values' : Sample} {op : DeriveOp}
    (h : applyOp values op = .ok values') :
    values' = (opWrites values op).foldl DeriveWrite.apply values := by
  have hlen := op.length_from
  have hin := op.checkInputs_eq
  unfold applyOp at h
  unfold opWrites
  cases hop : op.op with
  | constant =>
    simp only [hop] at h ⊢
    cases hv : op.value with
    | none => simp [hv] at h
    | some v =>
      simp only [hv] at h
      rw [foldl_sharedWrites]
      exact (Except.ok.inj h).symm
  | copy =>
    simp only [hop] at h hlen ⊢
    rw [item_zero hlen ""] at h
    rw [foldl_sharedWrites]
    exact (Except.ok.inj h).symm
  | splitEqual =>
    simp only [hop] at h hlen ⊢
    rw [item_zero hlen ""] at h
    obtain ⟨name, hname, h⟩ := Except.bind_eq_ok.1 h
    obtain rfl := Except.ok.inj hname
    rw [divLen_eq _ op.targets_ne] at h
    rw [foldl_sharedWrites]
    exact (Except.ok.inj h).symm
  | phaseFromLine =>
    simp only [hop] at h ⊢
    have hne : SQRT3.eq 0 = false := by decide +kernel
    exact Except.ok.inj (h.symm.trans (writeTargets_eq_foldl fun _ _ _ => truediv_of_ne_zero hne))
  | hypot =>
    simp only [hop] at h hlen ⊢
    refine Except.ok.inj (h.symm.trans (writeTargets_eq_foldl fun t ht values => ?_))
    rw [pairInputs_eq hlen ht]
    rfl
  | ratioSplit =>
    simp only [hop] at h ⊢
    exact applyRatioSplit_eq_writes hop h
  | pfFromPS =>
    simp only [hop] at h hlen ⊢
    refine Except.ok.inj (h.symm.trans (writeTargets_eq_foldl fun t ht values => ?_))
    rw [pairInputs_eq hlen ht]
    simp only [bind, Except.bind]
    split_ifs with hs
    · rfl
    · exact truediv_of_ne_zero (by simpa using hs)

/-- Rules that do not raise leave what their trace writes. -/
theorem applyDerive_eq_writes : ∀ {ops : List DeriveOp} {values values' : Sample},
    applyDerive values ops = .ok values' →
      values' = (deriveWrites values ops).foldl DeriveWrite.apply values
  | [], _, _, h => (Except.ok.inj h).symm
  | op :: ops, values, values', h => by
    obtain ⟨v, hv, h⟩ := Except.bind_eq_ok.1 h
    simp only [deriveWrites, hv, List.foldl_append]
    rw [← applyOp_eq_writes hv]
    exact applyDerive_eq_writes h

end Float

/-! ## Honest writes -/

/-- An input that is there and finite. -/
def present (x : Option PyFloat) : Bool := (x.getD .nan).isFinite

/-- With an input missing or not finite, what is written is not finite. -/
def DeriveWrite.Honest (w : DeriveWrite) : Prop :=
  (∃ x ∈ w.inputs, present x = false) → w.value.isFinite = false

/-- The step does not look at an input that is missing or not finite : `p` where `s` is
zero or infinite, the weights of a ratio split where they do not add up. -/
def DeriveWrite.Swallows (w : DeriveWrite) : Prop :=
  match w.op.op, w.inputs with
  | .pfFromPS, [p, s] =>
    (s.getD .nan).eq 0 = true ∧ present p = false ∨ present p = true ∧ ∃ neg, s = some (.inf neg)
  | .ratioSplit, total :: weights => present total = true ∧ ∃ x ∈ weights, present x = false
  | _, _ => False

theorem isFinite_getValue (values : Sample) (name : String) :
    (getValue values name).isFinite = present (values.get? name) :=
  rfl

theorem mem_eachWrite {α : Type} {op : DeriveOp} {names : α → List String}
    {f : Sample → α → PyFloat} {w : DeriveWrite} :
    ∀ {ts : List (String × α)} {values : Sample}, w ∈ eachWrite op names f ts values →
      ∃ values' a, w.op = op ∧ w.inputs = (names a).map values'.get? ∧ w.value = f values' a
  | (target, a) :: ts, values, h => by
    rcases List.mem_cons.1 h with rfl | h
    · exact ⟨values, a, rfl, rfl, rfl⟩
    · exact mem_eachWrite h

section Float

variable [FloatArith]

/-- A value that is not finite stays so in a share. -/
theorem equalShare_not_finite {total : PyFloat} (h : total.isFinite = false)
    (targets : List String) : (equalShare total targets).isFinite = false := by
  unfold equalShare
  cases FloatArith.round (targets.length : ℚ≥0) <;> cases total <;>
    simp_all [PyFloat.div, PyFloat.ofMag]

theorem hypot_not_finite {a b : PyFloat} (h : a.isFinite = false ∨ b.isFinite = false) :
    (a.hypot b).isFinite = false := by
  cases a <;> cases b <;> simp_all [PyFloat.hypot]

/-- A power factor of two floats is finite although one of them is not exactly where `s` is
zero, or infinite with `p` finite. -/
theorem pf_honest_iff (p s : PyFloat) :
    ((p.isFinite = false ∨ s.isFinite = false) →
        (if s.eq 0 then 1 else p.div s : PyFloat).isFinite = false) ↔
      ¬(s.eq 0 = true ∧ p.isFinite = false ∨ p.isFinite = true ∧ ∃ neg, s = .inf neg) := by
  have h0 : (0 : PyFloat) = .fin false 0 := rfl
  have h1 : (1 : PyFloat).isFinite = true := rfl
  have hnan : PyFloat.nan.eq 0 = false := rfl
  have hinf : ∀ neg, (PyFloat.inf neg).eq 0 = false := by
    rintro (_ | _) <;> rfl
  match p, s with
  | p, .nan => cases p <;> simp [hnan, PyFloat.div]
  | p, .inf b => cases p <;> simp [hinf, PyFloat.div]
  | .fin a m, .fin b n => simp
  | .nan, .fin b n =>
    cases hz : (PyFloat.fin b n).eq 0 <;> simp [h1, PyFloat.div]
  | .inf a, .fin b n =>
    cases hz : (PyFloat.fin b n).eq 0 <;> simp [h1, PyFloat.div]

/-- A write of a ratio split is an equal share, or a weighted one of weights that add up. -/
theorem mem_ratioWrites {values : Sample} {op : DeriveOp} {w : DeriveWrite}
    (hw : w ∈ ratioWrites values op) :
    w.op = op ∧ w.inputs = values.get? (op.from_.headD "") :: op.weights.map values.get? ∧
      (w.value = equalShare (getValue values (op.from_.headD "")) op.targets ∨
        ∃ s, PyFloat.fsum ((op.weights.map (getValue values)).map PyFloat.abs) = .ok s ∧
          s.isFinite = true ∧ ∃ weight ∈ op.weights.map (getValue values),
            w.value = ((getValue values (op.from_.headD "")).mul weight.abs).div s) := by
  unfold ratioWrites at hw
  dsimp only at hw
  rcases fsum_abs_cases (op.weights.map (getValue values)) with hs | ⟨s, hs⟩
  · rw [hs] at hw
    exact absurd hw List.not_mem_nil
  · simp only [hs] at hw
    split_ifs at hw with hfallback
    · obtain ⟨target, -, rfl⟩ := List.mem_map.1 hw
      exact ⟨rfl, rfl, Or.inl rfl⟩
    · rw [not_or, not_not] at hfallback
      obtain ⟨⟨target, weight⟩, hmem, rfl⟩ := List.mem_map.1 hw
      exact ⟨rfl, rfl, Or.inr ⟨s, hs, hfallback.1, weight, (List.of_mem_zip hmem).2, rfl⟩⟩

/-- A write is one of its step. -/
theorem op_of_mem_opWrites {values : Sample} {op : DeriveOp} {w : DeriveWrite}
    (hw : w ∈ opWrites values op) : w.op = op := by
  have hshared : ∀ {inputs v}, w ∈ sharedWrites op inputs v → w.op = op := by
    intro inputs v hmem
    obtain ⟨target, -, rfl⟩ := List.mem_map.1 hmem
    rfl
  have heach : ∀ {α : Type} {names : α → List String} {f ts values},
      w ∈ eachWrite op names f ts values → w.op = op := by
    intro α names f ts values hmem
    obtain ⟨_, _, hop, -, -⟩ := mem_eachWrite hmem
    exact hop
  unfold opWrites at hw
  dsimp only at hw
  split at hw
  · exact hshared hw
  · exact hshared hw
  · exact hshared hw
  · exact heach hw
  · exact heach hw
  · exact (mem_ratioWrites hw).1
  · exact heach hw

/-- A weighted share of a total that is not finite, or an equal one, is not finite. -/
theorem ratio_not_finite {total weight weightSum : PyFloat} (ht : total.isFinite = false)
    (hw : weight.isFinite = true) (hs : weightSum.isFinite = true) :
    ((total.mul weight.abs).div weightSum).isFinite = false := by
  obtain ⟨_, m, rfl⟩ := PyFloat.isFinite_iff.1 hw
  obtain ⟨_, _, rfl⟩ := PyFloat.isFinite_iff.1 hs
  match total, ht with
  | .nan, _ => rfl
  | .inf a, _ =>
    have hmul : (PyFloat.inf a).mul (.fin false m) =
        if m = 0 then .nan else .inf (a ^^ false) := rfl
    rw [PyFloat.abs, hmul]
    split_ifs <;> rfl

/-- The values are floats : rounded where they are finite. -/
def Floats (values : Sample) : Prop :=
  ∀ name v, values.get? name = some v → v.Representable

variable [FloatArith.Lawful]

/-- What an equal split comes to, where a weight is missing or not finite. -/
theorem share_honest_iff {total : Option PyFloat} {weights : List (Option PyFloat)}
    (ht : ∀ v, total = some v → v.Representable) {targets : List String} (hne : targets ≠ []) :
    ((∃ x ∈ total :: weights, present x = false) →
        (equalShare (total.getD .nan) targets).isFinite = false) ↔
      ¬(present total = true ∧ ∃ x ∈ weights, present x = false) := by
  cases hp : present total with
  | false => simpa [hp] using equalShare_not_finite hp targets
  | true =>
    obtain ⟨neg, m, hfin⟩ := PyFloat.isFinite_iff.1 hp
    have hsome : total = some (.fin neg m) := by
      cases total with
      | none => simp at hfin
      | some v => exact congrArg some hfin
    have hshare : (equalShare (total.getD .nan) targets).isFinite = true := by
      rw [hfin]
      exact PyFloat.isFinite_div_count (ht _ hsome) (mt List.length_eq_zero_iff.1 hne)
    simp [hp, hshare]

/-- A ratio split writes a number exactly where its weights are swallowed. -/
theorem ratioWrites_honest_iff {values : Sample} {op : DeriveOp} (hop : op.op = .ratioSplit)
    (hv : Floats values) {w : DeriveWrite}
    (hw : w ∈ ratioWrites values op) : w.Honest ↔ ¬w.Swallows := by
  obtain ⟨hwop, hinputs, hvalue⟩ := mem_ratioWrites hw
  unfold DeriveWrite.Honest DeriveWrite.Swallows
  rw [hwop, hop, hinputs]
  dsimp only
  rcases hvalue with hvalue | ⟨s, hs, hfin, weight, hweight, hvalue⟩
  · rw [hvalue]
    exact share_honest_iff (hv _) op.targets_ne
  · have habs : ∀ x : PyFloat, x.abs.isFinite = x.isFinite := by
      intro x
      cases x <;> rfl
    have hfinite : ∀ x ∈ op.weights.map (getValue values), x.isFinite = true := by
      intro x hx
      rw [← habs]
      exact PyFloat.isFinite_of_fsum hs hfin _ (List.mem_map_of_mem hx)
    have hno : ¬∃ x ∈ op.weights.map values.get?, present x = false := by
      rintro ⟨x, hx, h⟩
      obtain ⟨name, hname, rfl⟩ := List.mem_map.1 hx
      have := hfinite _ (List.mem_map_of_mem hname)
      rw [isFinite_getValue, h] at this
      cases this
    refine ⟨fun _ h => hno h.2, fun _ habsent => ?_⟩
    obtain ⟨x, hx, h⟩ := habsent
    rcases List.mem_cons.1 hx with rfl | hx
    · rw [hvalue]
      exact ratio_not_finite h (hfinite weight hweight) hfin
    · exact absurd ⟨x, hx, h⟩ hno

/-- A write is honest exactly when its step swallows nothing. -/
theorem opWrites_honest_iff {values : Sample} {op : DeriveOp} (hop : op.op ≠ .constant)
    (hv : Floats values) {w : DeriveWrite}
    (hw : w ∈ opWrites values op) : w.Honest ↔ ¬w.Swallows := by
  unfold opWrites at hw
  cases hkind : op.op with
  | constant => exact absurd hkind hop
  | copy =>
    simp only [hkind] at hw
    obtain ⟨target, -, rfl⟩ := List.mem_map.1 hw
    unfold DeriveWrite.Honest DeriveWrite.Swallows
    simp [hkind, ← isFinite_getValue]
  | splitEqual =>
    simp only [hkind] at hw
    obtain ⟨target, -, rfl⟩ := List.mem_map.1 hw
    unfold DeriveWrite.Honest DeriveWrite.Swallows
    simpa [hkind, ← isFinite_getValue] using fun h => equalShare_not_finite h op.targets
  | phaseFromLine =>
    simp only [hkind] at hw
    obtain ⟨values', line, hop, hinputs, hvalue⟩ := mem_eachWrite hw
    have hdiv : ∀ x : PyFloat, x.isFinite = false → (x.div SQRT3).isFinite = false := by
      intro x hx
      cases x <;> simp_all [PyFloat.div, SQRT3, PyFloat.lit]
    unfold DeriveWrite.Honest DeriveWrite.Swallows
    rw [hop, hkind, hinputs, hvalue]
    simpa [← isFinite_getValue] using hdiv (getValue values' line)
  | hypot =>
    simp only [hkind] at hw
    obtain ⟨values', index, hop, hinputs, hvalue⟩ := mem_eachWrite hw
    unfold DeriveWrite.Honest DeriveWrite.Swallows
    rw [hop, hkind, hinputs, hvalue]
    simpa [← isFinite_getValue] using hypot_not_finite
  | ratioSplit =>
    simp only [hkind] at hw
    exact ratioWrites_honest_iff hkind hv hw
  | pfFromPS =>
    simp only [hkind] at hw
    obtain ⟨values', index, hop, hinputs, hvalue⟩ := mem_eachWrite hw
    unfold DeriveWrite.Honest DeriveWrite.Swallows
    rw [hop, hkind, hinputs, hvalue]
    have hinf : ∀ (x : Option PyFloat) neg, x = some (.inf neg) ↔ x.getD .nan = .inf neg := by
      rintro (_ | x) neg <;> simp
    simpa [hinf, present, getValue] using
      pf_honest_iff (getValue values' (pairNames op.from_ index).1)
        (getValue values' (pairNames op.from_ index).2)

/-! ## Every run of rules -/

omit [FloatArith.Lawful] in
theorem floats_foldl : ∀ {ws : List DeriveWrite} {values : Sample}, Floats values →
    (∀ w ∈ ws, w.value.Representable) → Floats (ws.foldl DeriveWrite.apply values)
  | [], _, hv, _ => hv
  | w :: ws, values, hv, h => by
    obtain ⟨hw, hws⟩ := List.forall_mem_cons.1 h
    have hstep : Floats (w.apply values) := by
      intro name v hget
      have hget : (values.set w.target w.value).get? name = some v := hget
      rw [Dict.get?_set] at hget
      split_ifs at hget with heq
      · rwa [← Option.some.inj hget]
      · exact hv name v hget
    exact @floats_foldl ws _ hstep hws

omit [FloatArith.Lawful] in
theorem representable_getValue {values : Sample} (hv : Floats values) (name : String) :
    (getValue values name).Representable := by
  unfold getValue
  cases hg : values.get? name with
  | none => exact PyFloat.representable_nan
  | some v => exact hv name v hg

/-- A step writes floats. -/
theorem representable_opWrites {values : Sample} {op : DeriveOp} (hv : Floats values)
    (hc : ∀ v, op.value = some v → v.Representable) {w : DeriveWrite}
    (hw : w ∈ opWrites values op) : w.value.Representable := by
  have hshared : ∀ {inputs v}, w ∈ sharedWrites op inputs v → w.value = v := by
    intro inputs v hmem
    obtain ⟨target, -, rfl⟩ := List.mem_map.1 hmem
    rfl
  unfold opWrites at hw
  cases hkind : op.op with
  | constant =>
    simp only [hkind] at hw
    rw [hshared hw]
    cases hval : op.value with
    | none => exact PyFloat.representable_nan
    | some v => exact hc v hval
  | copy =>
    simp only [hkind] at hw
    rw [hshared hw]
    exact representable_getValue hv _
  | splitEqual =>
    simp only [hkind] at hw
    rw [hshared hw]
    exact PyFloat.representable_div _ _
  | phaseFromLine =>
    simp only [hkind] at hw
    obtain ⟨_, _, -, -, hvalue⟩ := mem_eachWrite hw
    rw [hvalue]
    exact PyFloat.representable_div _ _
  | hypot =>
    simp only [hkind] at hw
    obtain ⟨_, _, -, -, hvalue⟩ := mem_eachWrite hw
    rw [hvalue]
    exact PyFloat.representable_hypot _ _
  | ratioSplit =>
    simp only [hkind] at hw
    obtain ⟨-, -, hvalue | ⟨_, -, -, _, -, hvalue⟩⟩ := mem_ratioWrites hw
    · rw [hvalue]
      exact PyFloat.representable_div _ _
    · rw [hvalue]
      exact PyFloat.representable_div _ _
  | pfFromPS =>
    simp only [hkind] at hw
    obtain ⟨_, _, -, -, hvalue⟩ := mem_eachWrite hw
    rw [hvalue]
    dsimp only
    split_ifs
    · exact PyFloat.representable_one
    · exact PyFloat.representable_div _ _

/-- Every write of a run of rules is honest exactly where its step swallows nothing. -/
theorem deriveWrites_honest_iff : ∀ {ops : List DeriveOp} {values : Sample}, Floats values →
    (∀ op ∈ ops, ∀ v, op.value = some v → v.Representable) →
      ∀ w ∈ deriveWrites values ops, w.op.op ≠ .constant → (w.Honest ↔ ¬w.Swallows)
  | [], _, _, _ => by simp [deriveWrites]
  | op :: ops, values, hv, hc => by
    obtain ⟨hop, hops⟩ := List.forall_mem_cons.1 hc
    have hhead : ∀ w ∈ opWrites values op, w.op.op ≠ .constant → (w.Honest ↔ ¬w.Swallows) := by
      intro w hw hne
      rw [op_of_mem_opWrites hw] at hne
      exact opWrites_honest_iff hne hv hw
    intro w hw
    unfold deriveWrites at hw
    split at hw
    next values' hok =>
      rcases List.mem_append.1 hw with hw | hw
      · exact hhead w hw
      · refine deriveWrites_honest_iff ?_ hops w hw
        rw [applyOp_eq_writes hok]
        exact floats_foldl hv fun w hw => representable_opWrites hv hop hw
    next => exact hhead w hw

/-- In a run of rules, every value a step writes is not finite where an input of it is
missing or not finite, exactly when no step swallows its inputs. The writes are those of
`applyDerive`. -/
theorem derive_honest_iff {ops : List DeriveOp} {values : Sample} (hv : Floats values)
    (hc : ∀ op ∈ ops, ∀ v, op.value = some v → v.Representable) :
    (∀ values', applyDerive values ops = .ok values' →
        values' = (deriveWrites values ops).foldl DeriveWrite.apply values) ∧
      ((∀ w ∈ deriveWrites values ops, w.op.op ≠ .constant → w.Honest) ↔
        ∀ w ∈ deriveWrites values ops, ¬w.Swallows) := by
  have hiff := deriveWrites_honest_iff hv hc
  refine ⟨fun _ => applyDerive_eq_writes, fun h w hw hs => ?_, fun h w hw hne => ?_⟩
  · have hne : w.op.op ≠ .constant := by
      intro hne
      simp [DeriveWrite.Swallows, hne] at hs
    exact (hiff w hw hne).1 (h w hw hne) hs
  · exact (hiff w hw hne).2 (h w hw)

end Float

/-- Reactive power by the active power of the phases. -/
def splitOp : DeriveOp where
  op := .ratioSplit
  targets := ["q_l1", "q_l2", "q_l3"]
  from_ := ["q_total"]
  weights := ["p_l1", "p_l2", "p_l3"]
  targets_ne := by simp
  arity := rfl

/-- The active power of one phase is missing. -/
def lostWeight : Sample := ⟨[("q_total", .lit 30), ("p_l1", 1), ("p_l3", 1)], by decide⟩

theorem floats_lostWeight : @Floats .double lostWeight := by
  rintro name v hget neg m rfl
  have hmem := Dict.mem_entries_of_get? hget
  simp only [lostWeight, List.mem_cons, List.not_mem_nil, or_false, Prod.mk.injEq] at hmem
  rcases hmem with ⟨-, h⟩ | ⟨-, h⟩ | ⟨-, h⟩ <;> obtain ⟨-, rfl⟩ := PyFloat.fin.inj h <;>
    decide +kernel

/-- The rule is one that the equivalence is about. -/
theorem derive_honest_iff_lostWeight :
    (∀ w ∈ @deriveWrites .double lostWeight [splitOp], w.op.op ≠ .constant → w.Honest) ↔
      ∀ w ∈ @deriveWrites .double lostWeight [splitOp], ¬w.Swallows :=
  (@derive_honest_iff .double inferInstance _ _ floats_lostWeight
    (by simp [splitOp])).2

/-- A third of the total is written to every phase. -/
theorem derive_invents_share :
    (∃ values', @applyDerive .double lostWeight [splitOp] = .ok values' ∧
        ["q_l1", "q_l2", "q_l3"].map values'.get? =
          [some (.lit 10), some (.lit 10), some (.lit 10)]) ∧
      ¬∀ w ∈ @deriveWrites .double lostWeight [splitOp], w.op.op ≠ .constant → w.Honest := by
  have hrun : ((@applyDerive .double lostWeight [splitOp]).toOption.any fun values' =>
      ["q_l1", "q_l2", "q_l3"].map values'.get? =
        [some (.lit 10), some (.lit 10), some (.lit 10)]) = true := by decide +kernel
  obtain ⟨values', hrun, hget⟩ := (Option.any_eq_true _ _).1 hrun
  refine ⟨⟨values', Except.toOption_eq_some.1 hrun, decide_eq_true_iff.1 hget⟩, fun hall => ?_⟩
  have hwrites : ((@deriveWrites .double lostWeight [splitOp]).any fun w =>
      w.op.op ≠ .constant ∧ w.inputs.any (!present ·) ∧ w.value.isFinite) = true := by
    decide +kernel
  obtain ⟨w, hw, hbad⟩ := List.any_eq_true.1 hwrites
  obtain ⟨hne, hinput, hvalue⟩ := decide_eq_true_iff.1 hbad
  obtain ⟨x, hx, habsent⟩ := List.any_eq_true.1 hinput
  have := hall w hw hne ⟨x, hx, by simpa using habsent⟩
  simp [this] at hvalue

end DtsuBridge
