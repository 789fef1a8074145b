import DtsuBridge.Derive
import DtsuBridge.Lib.ExactFloat

/-!
# What a derive rule conserves

A step writes its targets and leaves every other name alone (`get?_applyDerive_of_not_mem`).
Where the arithmetic is exact, a split hands out fractions of the total that add up to one
(`splitWrites_shares`), so that distinct targets sum to what the `from` point was, whether
or not the step overwrites it or one of its weights.

`derive_total_local_conservative` : rules that load run to their end over every sample,
bind their targets, touch nothing else and lose nothing in a split.
-/

namespace DtsuBridge

/-! ## Reading back what a step wrote -/

theorem get?_foldl_apply_of_not_mem {k : String} : ∀ {ws : List DeriveWrite} {values : Sample},
    k ∉ ws.map (·.target) → (ws.foldl DeriveWrite.apply values).get? k = values.get? k
  | [], _, _ => rfl
  | w :: ws, values, h => by
    rw [List.map_cons, List.mem_cons, not_or] at h
    rw [List.foldl_cons, get?_foldl_apply_of_not_mem h.2]
    exact Dict.get?_set_ne _ _ h.1

/-- Targets that are distinct keep what is written to them. -/
theorem get?_foldl_apply_of_mem : ∀ {ws : List DeriveWrite} {values : Sample},
    (ws.map (·.target)).Nodup → ∀ w ∈ ws,
      (ws.foldl DeriveWrite.apply values).get? w.target = some w.value
  | [], _, _ => by simp
  | w :: ws, values, h => by
    rw [List.map_cons, List.nodup_cons] at h
    refine List.forall_mem_cons.2 ⟨?_, get?_foldl_apply_of_mem h.2⟩
    rw [List.foldl_cons, get?_foldl_apply_of_not_mem h.1]
    exact Dict.get?_set_self _ _ _

theorem map_target_sharedWrites (op : DeriveOp) (inputs : List (Option PyFloat))
    (value : PyFloat) : (sharedWrites op inputs value).map (·.target) = op.targets := by
  rw [sharedWrites, List.map_map]
  exact List.map_id _

theorem map_target_eachWrite {α : Type} {op : DeriveOp} {names : α → List String}
    {f : Sample → α → PyFloat} : ∀ {ts : List (String × α)} {values : Sample},
      (eachWrite op names f ts values).map (·.target) = ts.map Prod.fst
  | [], _ => rfl
  | (target, a) :: ts, values => by
    rw [eachWrite, List.map_cons, map_target_eachWrite, List.map_cons]

section Float

variable [FloatArith]

/-- A step that does not raise writes its targets, in order. -/
theorem map_target_opWrites {values values' : Sample} {op : DeriveOp}
    (h : applyOp values op = .ok values') : (opWrites values op).map (·.target) = op.targets := by
  have hlen := op.length_from
  unfold opWrites
  cases hop : op.op with
  | constant => exact map_target_sharedWrites _ _ _
  | copy => exact map_target_sharedWrites _ _ _
  | splitEqual => exact map_target_sharedWrites _ _ _
  | phaseFromLine =>
    simp only [hop] at hlen ⊢
    rw [map_target_eachWrite, List.map_fst_zip hlen.ge]
  | hypot =>
    dsimp only
    rw [pairWrites, map_target_eachWrite, List.zipIdx_map_fst]
  | pfFromPS =>
    dsimp only
    rw [pairWrites, map_target_eachWrite, List.zipIdx_map_fst]
  | ratioSplit =>
    have hweights := op.length_weights hop
    rcases fsum_abs_cases (op.weights.map (getValue values)) with hs | ⟨s, hs⟩
    · rw [applyOp_of_overflow ⟨hop, hs⟩] at h
      cases h
    · simp only [ratioWrites, hs]
      split_ifs
      · exact map_target_sharedWrites _ _ _
      · rw [List.map_map]
        exact List.map_fst_zip (by simpa using hweights.ge)

/-- A step leaves every name that is not a target as it was. -/
theorem get?_applyOp_of_not_mem {values values' : Sample} {op : DeriveOp} {k : String}
    (h : applyOp values op = .ok values') (hk : k ∉ op.targets) :
    values'.get? k = values.get? k := by
  rw [applyOp_eq_writes h]
  exact get?_foldl_apply_of_not_mem (by rwa [map_target_opWrites h])

/-- Rules leave every name that is not a target as it was. -/
theorem get?_applyDerive_of_not_mem {k : String} :
    ∀ {ops : List DeriveOp} {values values' : Sample}, applyDerive values ops = .ok values' →
      k ∉ ops.flatMap (·.targets) → values'.get? k = values.get? k
  | [], _, _, h, _ => by cases h; rfl
  | op :: ops, values, values', h, hk => by
    obtain ⟨v, hv, h⟩ := Except.bind_eq_ok.1 h
    rw [List.flatMap_cons, List.mem_append, not_or] at hk
    rw [get?_applyDerive_of_not_mem h hk.2, get?_applyOp_of_not_mem hv hk.1]

/-- Distinct targets of a step hold what it wrote to them. -/
theorem getValue_targets {values values' : Sample} {op : DeriveOp}
    (h : applyOp values op = .ok values') (hnodup : op.targets.Nodup) :
    op.targets.map (getValue values') = (opWrites values op).map (·.value) := by
  have htargets := map_target_opWrites h
  rw [← htargets] at hnodup ⊢
  rw [List.map_map]
  refine List.map_congr_left fun w hw => ?_
  have hget := @get?_foldl_apply_of_mem _ values hnodup w hw
  rw [← applyOp_eq_writes h] at hget
  rw [Function.comp_apply, getValue, hget]
  rfl

theorem toRat_targets {values values' : Sample} {op : DeriveOp}
    (h : applyOp values op = .ok values') (hnodup : op.targets.Nodup) :
    (op.targets.map fun target => (getValue values' target).toRat) =
      (opWrites values op).map (·.value.toRat) := by
  have hrat := congrArg (List.map PyFloat.toRat) (getValue_targets h hnodup)
  rw [List.map_map, List.map_map] at hrat
  exact hrat

theorem exists_write_of_target {values values' : Sample} {op : DeriveOp}
    (h : applyOp values op = .ok values') (hnodup : op.targets.Nodup) {target : String}
    (ht : target ∈ op.targets) : ∃ w ∈ opWrites values op, w.value = getValue values' target :=
  List.mem_map.1 (getValue_targets h hnodup ▸ List.mem_map_of_mem ht)

/-! ## Fractions of a total -/

variable [FloatArith.Exact]

/-- A step never raises where nothing overflows. -/
theorem not_weightsOverflow (values : Sample) (op : DeriveOp) : ¬WeightsOverflow values op :=
  fun h => PyFloat.fsum_ne_overflow _ h.2

theorem applyDerive_isOk (values : Sample) (ops : List DeriveOp) :
    ∃ values', applyDerive values ops = .ok values' := by
  rcases applyDerive_cases ops values with ⟨h, -⟩ | ⟨-, -, op, -, values', -, -, hover⟩
  · exact h
  · exact absurd hover (not_weightsOverflow values' op)

/-- An equal share of a total is its fraction by the number of targets. -/
theorem equalShare_toRat {total : PyFloat} (ht : total.isFinite = true) (targets : List String) :
    (equalShare total targets).isFinite = true ∧
      (equalShare total targets).toRat = total.toRat * (1 / (targets.length : ℚ)) := by
  unfold equalShare
  refine ⟨PyFloat.isFinite_div ht ?_, ?_⟩
  · rw [PyFloat.ofMag_round, PyFloat.isFinite_fin]
  · rw [PyFloat.toRat_div, PyFloat.ofMag_round, PyFloat.toRat_fin, PyFloat.signed_false]
    rw [NNRat.cast_natCast, mul_one_div]

/-- The writes of a step hand out fractions of a total that add up to one. -/
structure Shares (total : PyFloat) (ws : List DeriveWrite) : Prop where
  finite : ∀ w ∈ ws, w.value.isFinite = true
  fraction : ∀ w ∈ ws, ∃ c : ℚ, 0 ≤ c ∧ c ≤ 1 ∧ w.value.toRat = total.toRat * c
  sum : (ws.map (·.value.toRat)).sum = total.toRat

/-- Equal shares. -/
theorem sharedWrites_shares {op : DeriveOp} {total : PyFloat} (ht : total.isFinite = true)
    (inputs : List (Option PyFloat)) :
    Shares total (sharedWrites op inputs (equalShare total op.targets)) := by
  obtain ⟨hfin, hrat⟩ := equalShare_toRat ht op.targets
  have hpos : 0 < op.targets.length := List.length_pos_iff.2 op.targets_ne
  have hone : (1 : ℚ) ≤ op.targets.length := Nat.one_le_cast.2 hpos
  refine ⟨fun w hw => ?_, fun w hw => ?_, ?_⟩
  · obtain ⟨target, -, rfl⟩ := List.mem_map.1 hw
    exact hfin
  · obtain ⟨target, -, rfl⟩ := List.mem_map.1 hw
    refine ⟨1 / (op.targets.length : ℚ), by positivity, ?_, hrat⟩
    exact div_le_one_of_le₀ hone (by positivity)
  · rw [sharedWrites, List.map_map]
    have hconst : (op.targets.map ((·.value.toRat) ∘ fun target =>
        (⟨op, target, inputs, equalShare total op.targets⟩ : DeriveWrite))) =
          List.replicate op.targets.length (equalShare total op.targets).toRat :=
      List.map_eq_replicate_iff.2 fun _ _ => rfl
    rw [hconst, List.sum_replicate, hrat, nsmul_eq_mul]
    field_simp

/-- The sum of the magnitudes of finite weights. -/
theorem fsum_abs_toRat {weights : List PyFloat} (hw : ∀ w ∈ weights, w.isFinite = true)
    {s : PyFloat} (hs : PyFloat.fsum (weights.map PyFloat.abs) = .ok s) :
    s.isFinite = true ∧ s.toRat = (weights.map fun w => |w.toRat|).sum := by
  have habs : ∀ w ∈ weights.map PyFloat.abs, w.isFinite = true := by
    intro w hmem
    obtain ⟨x, hx, rfl⟩ := List.mem_map.1 hmem
    rw [PyFloat.isFinite_abs]
    exact hw x hx
  have hmap : (weights.map PyFloat.abs).map PyFloat.toRat = weights.map fun w => |w.toRat| := by
    rw [List.map_map]
    exact List.map_congr_left fun w _ => PyFloat.toRat_abs w
  rw [PyFloat.fsum_of_isFinite habs, hmap] at hs
  obtain rfl := Except.ok.inj hs
  exact ⟨PyFloat.isFinite_ofSum _, PyFloat.toRat_ofSum _⟩

/-- Shares in proportion to weights that add up. -/
theorem weightedWrites_shares {op : DeriveOp} {total s : PyFloat} {weights : List PyFloat}
    (ht : total.isFinite = true) (hw : ∀ w ∈ weights, w.isFinite = true)
    (hs : PyFloat.fsum (weights.map PyFloat.abs) = .ok s) (hs0 : s.eq 0 = false)
    (hlen : op.targets.length = weights.length) (inputs : List (Option PyFloat)) :
    Shares total ((op.targets.zip weights).map fun (target, weight) =>
      ⟨op, target, inputs, (total.mul weight.abs).div s⟩) := by
  obtain ⟨hfin, hrat⟩ := fsum_abs_toRat hw hs
  have hne : s.toRat ≠ 0 := by
    rw [Ne, ← PyFloat.eq_zero_iff hfin, hs0]
    exact Bool.false_ne_true
  have hnonneg : ∀ x ∈ weights.map fun w => |w.toRat|, 0 ≤ x := by
    intro x hx
    obtain ⟨w, -, rfl⟩ := List.mem_map.1 hx
    exact abs_nonneg _
  have hpos : 0 < s.toRat := lt_of_le_of_ne (hrat ▸ List.sum_nonneg hnonneg) hne.symm
  have hvalue : ∀ w : PyFloat, ((total.mul w.abs).div s).toRat =
      total.toRat * (|w.toRat| / s.toRat) := by
    intro w
    rw [PyFloat.toRat_div, PyFloat.toRat_mul, PyFloat.toRat_abs, mul_div_assoc]
  refine ⟨fun w hmem => ?_, fun w hmem => ?_, ?_⟩
  · obtain ⟨⟨target, weight⟩, hzip, rfl⟩ := List.mem_map.1 hmem
    have hweight := hw weight (List.of_mem_zip hzip).2
    exact PyFloat.isFinite_div (PyFloat.isFinite_mul ht (by rwa [PyFloat.isFinite_abs])) hfin
  · obtain ⟨⟨target, weight⟩, hzip, rfl⟩ := List.mem_map.1 hmem
    have hle : |weight.toRat| ≤ s.toRat := by
      rw [hrat]
      exact List.single_le_sum hnonneg _ (List.mem_map.2 ⟨_, (List.of_mem_zip hzip).2, rfl⟩)
    refine ⟨|weight.toRat| / s.toRat, by positivity, ?_, hvalue weight⟩
    exact div_le_one_of_le₀ hle hpos.le
  · rw [List.map_map]
    have hsnd : (op.targets.zip weights).map Prod.snd = weights := List.map_snd_zip hlen.ge
    calc ((op.targets.zip weights).map _).sum
        = (((op.targets.zip weights).map Prod.snd).map fun w =>
            total.toRat * (|w.toRat| / s.toRat)).sum := by
          rw [List.map_map]
          exact congrArg List.sum (List.map_congr_left fun p _ => hvalue p.2)
      _ = total.toRat * ((weights.map fun w => |w.toRat|).sum / s.toRat) := by
          simp only [hsnd, div_eq_mul_inv, List.sum_map_mul_left, List.sum_map_mul_right]
      _ = total.toRat := by
          rw [← hrat, div_self hne, mul_one]

/-- A split of inputs that are there and finite hands out its total. -/
theorem splitWrites_shares {op : DeriveOp} (hop : op.op = .splitEqual ∨ op.op = .ratioSplit)
    {values : Sample} (hfrom : (getValue values (op.from_.headD "")).isFinite = true)
    (hweights : ∀ name ∈ op.weights, (getValue values name).isFinite = true) :
    Shares (getValue values (op.from_.headD "")) (opWrites values op) := by
  unfold opWrites
  rcases hop with hop | hop
  · simp only [hop]
    exact sharedWrites_shares hfrom _
  · have hlen := op.length_weights hop
    have hw : ∀ w ∈ op.weights.map (getValue values), w.isFinite = true := by
      intro w hmem
      obtain ⟨name, hname, rfl⟩ := List.mem_map.1 hmem
      exact hweights name hname
    simp only [hop, ratioWrites]
    rcases fsum_abs_cases (op.weights.map (getValue values)) with hs | ⟨s, hs⟩
    · exact absurd hs (PyFloat.fsum_ne_overflow _)
    · simp only [hs]
      split_ifs with hfallback
      · exact sharedWrites_shares hfrom _
      · rw [not_or, not_not, Bool.not_eq_true] at hfallback
        exact weightedWrites_shares hfrom hw hs hfallback.2 (by simpa using hlen.symm) _

omit [FloatArith] [FloatArith.Exact] in
/-- A fraction of a total has its sign or is zero, and is no larger. -/
theorem sign_of_fraction {total share c : ℚ} (h0 : 0 ≤ c) (h1 : c ≤ 1) (h : share = total * c) :
    (SignType.sign share = SignType.sign total ∨ share = 0) ∧ |share| ≤ |total| := by
  subst h
  refine ⟨?_, ?_⟩
  · rcases h0.eq_or_lt with rfl | hpos
    · exact Or.inr (mul_zero total)
    · exact Or.inl (by rw [sign_mul, sign_pos hpos, mul_one])
  · rw [abs_mul, abs_of_nonneg h0]
    exact mul_le_of_le_one_right (abs_nonneg total) h1

/-- Rules never raise, bind their targets and nothing else, and a split of finite inputs
into distinct targets hands out exactly its total, wherever in the run it stands. -/
theorem derive_total_local_conservative (ops : List DeriveOp) (values : Sample) :
    (∃ values', applyDerive values ops = .ok values' ∧
        (∀ op ∈ ops, ∀ target ∈ op.targets, target ∈ values'.keys) ∧
        ∀ k, (∀ op ∈ ops, k ∉ op.targets) → values'.get? k = values.get? k) ∧
      ∀ pre op post before, ops = pre ++ op :: post → applyDerive values pre = .ok before →
        op.op = .splitEqual ∨ op.op = .ratioSplit → op.targets.Nodup →
        (∀ name ∈ op.from_ ++ op.weights, present (before.get? name) = true) →
        ∃ from₀ after, op.from_ = [from₀] ∧ applyDerive values (pre ++ [op]) = .ok after ∧
          let total := (getValue before from₀).toRat
          (op.targets.map fun target => (getValue after target).toRat).sum = total ∧
          ∀ target ∈ op.targets, (getValue after target).isFinite = true ∧
            (op.op = .ratioSplit →
              let share := (getValue after target).toRat
              (SignType.sign share = SignType.sign total ∨ share = 0) ∧ |share| ≤ |total|) := by
  refine ⟨?_, ?_⟩
  · obtain ⟨values', h⟩ := applyDerive_isOk values ops
    refine ⟨values', h, fun op hop target ht => ?_, fun k hk => ?_⟩
    · exact (mem_keys_applyDerive h).2 (Or.inl (List.mem_flatMap.2 ⟨op, hop, ht⟩))
    · refine get?_applyDerive_of_not_mem h fun hmem => ?_
      obtain ⟨op, hop, ht⟩ := List.mem_flatMap.1 hmem
      exact hk op hop ht
  · intro pre op post before _ hbefore hop hnodup hin
    obtain ⟨from₀, hfrom⟩ : ∃ from₀, op.from_ = [from₀] := by
      have hlen := op.length_from
      rcases hop with hop | hop <;> simp only [hop] at hlen <;>
        exact List.length_eq_one_iff.1 hlen
    obtain ⟨after, hafter⟩ := applyOp_isOk (not_weightsOverflow before op)
    have hshares : Shares (getValue before from₀) (opWrites before op) := by
      have hfinite : (getValue before (op.from_.headD "")).isFinite = true := by
        rw [hfrom]
        exact hin from₀ (by simp [hfrom])
      have := splitWrites_shares hop hfinite fun name hname =>
        hin name (List.mem_append_right _ hname)
      rwa [hfrom] at this
    refine ⟨from₀, after, hfrom, ?_, ?_, fun target ht => ?_⟩
    · rw [applyDerive, List.foldlM_append]
      refine Except.bind_eq_ok.2 ⟨before, hbefore, ?_⟩
      exact Except.bind_eq_ok.2 ⟨after, hafter, rfl⟩
    · exact (congrArg List.sum (toRat_targets hafter hnodup)).trans hshares.sum
    · obtain ⟨w, hw, hvalue⟩ := exists_write_of_target hafter hnodup ht
      obtain ⟨c, h0, h1, hc⟩ := hshares.fraction w hw
      rw [← hvalue]
      exact ⟨hshares.finite w hw, fun _ => sign_of_fraction h0 h1 hc⟩

end Float

/-- A split that overwrites its `from` point, which is a weight as well. -/
def selfSplit : DeriveOp where
  op := .ratioSplit
  targets := ["q_l1", "q_total"]
  from_ := ["q_total"]
  weights := ["p_l1", "q_total"]
  targets_ne := by simp
  arity := rfl

/-- The norm plays no part in a split. -/
abbrev exactDouble : FloatArith := .exact fun m n => FloatArith.sqrtBelow 1200 (m * m + n * n)

/-- A total of -30 with weights -10 and -30. -/
theorem derive_total_local_conservative_selfSplit :
    ∃ from₀ after, selfSplit.op = .ratioSplit ∧ selfSplit.from_ = [from₀] ∧
      @applyDerive exactDouble ⟨[("q_total", .fin true 30), ("p_l1", .fin true 10)], by decide⟩
          [selfSplit] = .ok after ∧
        (selfSplit.targets.map fun target => (getValue after target).toRat).sum = -30 := by
  obtain ⟨from₀, after, hfrom, hafter, hsum, -⟩ :=
    (@derive_total_local_conservative exactDouble inferInstance [selfSplit]
      ⟨[("q_total", .fin true 30), ("p_l1", .fin true 10)], by decide⟩).2 [] selfSplit [] _
      rfl rfl (Or.inr rfl) (by decide) (by decide +kernel)
  obtain rfl : "q_total" = from₀ := (List.cons.inj hfrom).1
  exact ⟨_, after, rfl, hfrom, hafter, hsum.trans (by decide +kernel)⟩

end DtsuBridge
