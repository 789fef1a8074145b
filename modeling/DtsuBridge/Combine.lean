import DtsuBridge.Declared
import DtsuBridge.Replies
import DtsuBridge.Split

/-!
# What the e2TANGO devices are combined into

The samples of all devices hold the same names, with finite values (`DeviceSample`), so
that a combined value is the sum of one reading per device, or their mean
(`combine_eq_aggregate`, where the arithmetic is exact).

`combined_declared_iff` : which of the two is looked up by the point, then by the first
derive rule, while the value is that of the last rule. The combination is what that rule
declares exactly where the two agree, or sum and mean do.

`combined_split` : an equal split that nothing overwrites still adds up after the
combination, in particular each of the shipped map (`etangoSource`).
-/

namespace DtsuBridge

/-! ## Sum or mean -/

/-- The sum or the mean of a list. -/
def Aggregate.of (mode : Aggregate) (xs : List ℚ) : ℚ :=
  match mode with
  | .sum => xs.sum
  | .avg => xs.sum / xs.length

theorem Aggregate.of_sum_eq_avg_iff {xs : List ℚ} (h : xs ≠ []) :
    Aggregate.of .sum xs = Aggregate.of .avg xs ↔ xs.length = 1 ∨ xs.sum = 0 := by
  have hlen : (xs.length : ℚ) ≠ 0 := by
    rw [Nat.cast_ne_zero]
    exact mt List.length_eq_zero_iff.1 h
  simp only [Aggregate.of, eq_div_iff hlen]
  rw [mul_right_eq_self₀, Nat.cast_eq_one]

/-- Two modes give the same, or the lists tell them apart. -/
theorem Aggregate.of_eq_iff {mode mode' : Aggregate} {xs : List ℚ} (h : xs ≠ []) :
    Aggregate.of mode xs = Aggregate.of mode' xs ↔
      mode = mode' ∨ xs.length = 1 ∨ xs.sum = 0 := by
  have hsum := Aggregate.of_sum_eq_avg_iff h
  cases mode <;> cases mode' <;> simp [hsum, eq_comm (a := Aggregate.of .avg xs)]

/-- Sums and means pass through a sum. -/
theorem Aggregate.of_sum_map {α β : Type*} (mode : Aggregate) (xs : List α) (ys : List β)
    (f : β → α → ℚ) :
    (ys.map fun y => mode.of (xs.map (f y))).sum =
      mode.of (xs.map fun x => (ys.map fun y => f y x).sum) := by
  have hswap : (ys.map fun y => (xs.map (f y)).sum).sum =
      (xs.map fun x => (ys.map fun y => f y x).sum).sum := by
    induction ys with
    | nil => simp
    | cons y ys ih => simp [ih, List.sum_map_add]
  cases mode with
  | sum => exact hswap
  | avg =>
    simp only [Aggregate.of, List.length_map, div_eq_mul_inv, List.sum_map_mul_right, hswap]

namespace Etango

/-! ## Samples of devices -/

/-- The names a device has a value for. -/
def mapKeys (side : SourceSide) : List String :=
  side.derive.flatMap (·.targets) ++ side.points.keys

/-- The values of a device that was read without fault. -/
structure DeviceSample (side : SourceSide) (values : Sample) : Prop where
  keys : ∀ k, k ∈ values.keys ↔ k ∈ mapKeys side
  finite : ∀ k v, values.get? k = some v → v.isFinite = true

theorem DeviceSample.get? {side : SourceSide} {values : Sample} (h : DeviceSample side values)
    {k : String} (hk : k ∈ mapKeys side) :
    values.get? k = some (getValue values k) ∧ (getValue values k).isFinite = true := by
  obtain ⟨v, hv⟩ := Option.isSome_iff_exists.1 (Dict.isSome_get?_iff.2 ((h.keys k).2 hk))
  rw [getValue, hv]
  exact ⟨rfl, h.finite k v hv⟩

/-- All devices have a name, or none has. -/
theorem filterMap_get? {side : SourceSide} {perDevice : List Sample}
    (h : ∀ values ∈ perDevice, DeviceSample side values) {k : String} (hk : k ∈ mapKeys side) :
    perDevice.filterMap (·.get? k) = perDevice.map (getValue · k) := by
  rw [← List.filterMap_eq_map]
  exact List.filterMap_congr fun values hv => ((h values hv).get? hk).1

section Float

variable [FloatArith]

theorem deviceSample_of_deviceValues {side : SourceSide} {link : DeviceLink} {values : Sample}
    (h : deviceValues side link = .ok values) : DeviceSample side values := by
  refine ⟨fun k => ?_, fun k v hk => ?_⟩
  · rw [mem_keys_deviceValues h, mapKeys, List.mem_append]
  · obtain ⟨_, -, h⟩ := Except.bind_eq_ok.1 h
    obtain ⟨_, -, h⟩ := Except.bind_eq_ok.1 h
    obtain ⟨_, -, h⟩ := Except.bind_eq_ok.1 h
    obtain ⟨_, hfin, h⟩ := Except.bind_eq_ok.1 h
    cases h
    exact checkFinite_eq_ok hfin _ (Dict.mem_entries_of_get? hk)

/-- Values that are combined are those of some device. -/
theorem exists_link_of_mem_aggregating {side : SourceSide} {devices : List DeviceLink}
    {perDevice : List Sample} (h : devices.mapM (deviceValues side) = .ok perDevice) :
    ∀ values ∈ aggregating perDevice devices, ∃ link, deviceValues side link = .ok values := by
  intro values hv
  obtain ⟨i, hi, rfl⟩ := List.mem_iff_getElem.1 (mem_of_mem_aggregating hv)
  have hall := Except.mapM_eq_ok.1 h
  exact ⟨_, hall.get (by rw [hall.length_eq]; exact hi) hi⟩

theorem deviceSample_of_mem_aggregating {side : SourceSide} {devices : List DeviceLink}
    {perDevice : List Sample} (h : devices.mapM (deviceValues side) = .ok perDevice) :
    ∀ values ∈ aggregating perDevice devices, DeviceSample side values := by
  intro values hv
  obtain ⟨link, hlink⟩ := exists_link_of_mem_aggregating h values hv
  exact deviceSample_of_deviceValues hlink

/-! ## What is written once -/

omit [FloatArith] in
/-- Distinct targets hold their values. -/
theorem get?_writeTargets {α : Type} {F : α → Except PyExc PyFloat} :
    ∀ {ts : List (String × α)} {u u' : Sample}, (ts.map Prod.fst).Nodup →
      writeTargets (fun _ => F) ts u = .ok u' →
        (∀ t ∈ ts, ∃ v, F t.2 = .ok v ∧ u'.get? t.1 = some v) ∧
          ∀ k, k ∉ ts.map Prod.fst → u'.get? k = u.get? k
  | [], u, u', _, h => by
    cases h
    simp
  | (target, a) :: ts, u, u', hnodup, h => by
    rw [List.map_cons, List.nodup_cons] at hnodup
    obtain ⟨v, hv, h⟩ := Except.bind_eq_ok.1 h
    obtain ⟨hmem, hframe⟩ := get?_writeTargets hnodup.2 h
    refine ⟨List.forall_mem_cons.2 ⟨⟨v, hv, ?_⟩, hmem⟩, fun k hk => ?_⟩
    · rw [hframe target hnodup.1, Dict.get?_set_self]
    · rw [List.map_cons, List.mem_cons, not_or] at hk
      rw [hframe k hk.2, Dict.get?_set_ne _ _ hk.1]

/-- A combined value is that of its key. -/
theorem get?_combine {perDevice : List Sample} {side : SourceSide} {combined : Sample}
    (h : combine perDevice side = .ok combined) {k : String} (hk : k ∈ combined.keys) :
    ∃ v, combineKey perDevice side k = .ok v ∧ combined.get? k = some v := by
  have hmem : (k, k) ∈ (perDevice.flatMap (·.keys)).dedup.map fun key => (key, key) := by
    obtain ⟨values, hv, hk⟩ := (mem_keys_combine h).1 hk
    exact List.mem_map.2 ⟨k, List.mem_dedup.2 (List.mem_flatMap.2 ⟨values, hv, hk⟩), rfl⟩
  have hnodup : (((perDevice.flatMap (·.keys)).dedup.map fun key => (key, key)).map
      Prod.fst).Nodup := by
    rw [List.map_map]
    exact (List.map_id _).symm ▸ List.nodup_dedup _
  have hwritten := (get?_writeTargets hnodup h).1
  exact hwritten (k, k) hmem

/-- Where some device is combined, all names of the map are. -/
theorem mem_keys_combine_iff {perDevice : List Sample} {side : SourceSide} {combined : Sample}
    (hall : ∀ values ∈ perDevice, DeviceSample side values)
    (h : combine perDevice side = .ok combined) {k : String} :
    k ∈ combined.keys ↔ perDevice ≠ [] ∧ k ∈ mapKeys side := by
  rw [mem_keys_combine h]
  refine ⟨?_, fun ⟨hne, hk⟩ => ?_⟩
  · rintro ⟨values, hv, hk⟩
    exact ⟨List.ne_nil_of_mem hv, ((hall values hv).keys k).1 hk⟩
  · obtain ⟨values, hv⟩ := List.exists_mem_of_ne_nil _ hne
    exact ⟨values, hv, ((hall values hv).keys k).2 hk⟩

/-! ## Exact combination -/

/-- The readings of a key, one per device that is combined. -/
def keyReadings (perDevice : List Sample) (key : String) : List ℚ :=
  perDevice.map fun values => (getValue values key).toRat

variable [FloatArith.Exact]

/-- A key of all devices combines to the sum or the mean of its readings. -/
theorem combineKey_eq_aggregate {side : SourceSide} {perDevice : List Sample}
    (hall : ∀ values ∈ perDevice, DeviceSample side values) (hne : perDevice ≠ []) {key : String}
    (hk : key ∈ mapKeys side) : ∃ v, combineKey perDevice side key = .ok v ∧
      v.isFinite = true ∧ v.toRat = (aggregateMode key side).of (keyReadings perDevice key) := by
  have hfin : ∀ x ∈ perDevice.map (getValue · key), x.isFinite = true := by
    intro x hx
    obtain ⟨values, hv, rfl⟩ := List.mem_map.1 hx
    exact ((hall values hv).get? hk).2
  have hrat : (perDevice.map (getValue · key)).map PyFloat.toRat = keyReadings perDevice key := by
    rw [List.map_map]
    rfl
  have hlen : perDevice.length ≠ 0 := mt List.length_eq_zero_iff.1 hne
  unfold combineKey
  simp only [filterMap_get? hall hk, fsum, PyFloat.fsum_of_isFinite hfin, hrat, List.length_map,
    bind, Except.bind]
  cases aggregateMode key side with
  | sum => exact ⟨_, rfl, PyFloat.isFinite_ofSum _, PyFloat.toRat_ofSum _⟩
  | avg =>
    refine ⟨_, if_neg hlen, PyFloat.isFinite_div (PyFloat.isFinite_ofSum _) ?_, ?_⟩
    · rw [PyFloat.ofMag_round, PyFloat.isFinite_fin]
    · rw [PyFloat.toRat_div, PyFloat.toRat_ofSum, PyFloat.ofMag_round, PyFloat.toRat_fin,
        PyFloat.signed_false, NNRat.cast_natCast, Aggregate.of, keyReadings, List.length_map]

/-- The combined sample has the names of the map where a device is combined, and for each
the sum or the mean of its readings. -/
theorem combine_eq_aggregate {side : SourceSide} {perDevice : List Sample}
    (hall : ∀ values ∈ perDevice, DeviceSample side values) :
    ∃ combined, combine perDevice side = .ok combined ∧
      (∀ key, key ∈ combined.keys ↔ perDevice ≠ [] ∧ key ∈ mapKeys side) ∧
        ∀ key ∈ combined.keys, (getValue combined key).isFinite = true ∧
          (getValue combined key).toRat =
            (aggregateMode key side).of (keyReadings perDevice key) := by
  obtain ⟨combined, hcombined⟩ : ∃ combined, combine perDevice side = .ok combined := by
    refine exists_writeTargets _ fun t ht _ => ?_
    obtain ⟨key, hkey, rfl⟩ := List.mem_map.1 ht
    obtain ⟨values, hv, hkey⟩ := List.mem_flatMap.1 (List.mem_dedup.1 hkey)
    obtain ⟨v, hok, -⟩ := combineKey_eq_aggregate hall (List.ne_nil_of_mem hv)
      (((hall values hv).keys key).1 hkey)
    exact ⟨v, hok⟩
  have hkeys := fun key => mem_keys_combine_iff hall hcombined (k := key)
  refine ⟨combined, hcombined, hkeys, fun key hkey => ?_⟩
  obtain ⟨hne, hmap⟩ := (hkeys key).1 hkey
  obtain ⟨v, hv, hfin, hrat⟩ := combineKey_eq_aggregate hall hne hmap
  obtain ⟨v', hv', hget⟩ := get?_combine hcombined hkey
  obtain rfl := Except.ok.inj (hv.symm.trans hv')
  rw [getValue, hget]
  exact ⟨hfin, hrat⟩

/-! ## The declared aggregate -/

/-- What the rule that produces a value declares : the last derive rule with the key among
its targets, else the point. -/
def declaredAggregate (key : String) (side : SourceSide) : Aggregate :=
  match side.derive.reverse.find? fun op => key ∈ op.targets with
  | some op => op.aggregate
  | none => (side.points.get? key).elim .avg (·.aggregate)

/-- Each combined value is what the rule that produces it declares exactly where that is
the rule looked up, or a single device or a sum of zero makes no difference. -/
theorem combined_declared_iff {side : SourceSide} {devices : List DeviceLink}
    {perDevice : List Sample} (hread : devices.mapM (deviceValues side) = .ok perDevice)
    (hagg : ∃ link ∈ devices, link.aggregate = true) (slave : ℤ)
    (seen : Option (Finset String)) :
    let aggregated := aggregating perDevice devices
    ∃ combined, combine aggregated side = .ok combined ∧
      (pollOnce ⟨devices⟩ side slave seen).result = .ok (computeDerived combined) ∧
      (∀ key, key ∈ combined.keys ↔ key ∈ mapKeys side) ∧
      ((∀ key ∈ combined.keys, (getValue combined key).toRat =
            (declaredAggregate key side).of (keyReadings aggregated key)) ↔
        ∀ key ∈ mapKeys side, aggregateMode key side = declaredAggregate key side ∨
          aggregated.length = 1 ∨ (keyReadings aggregated key).sum = 0) := by
  intro aggregated
  obtain ⟨values, hv⟩ := exists_mem_aggregating (Except.mapM_eq_ok.1 hread) hagg
  have hne : aggregated ≠ [] := List.ne_nil_of_mem hv
  obtain ⟨combined, hcombined, hkeys, hvalue⟩ :=
    combine_eq_aggregate (deviceSample_of_mem_aggregating hread)
  have hmap : ∀ key, key ∈ combined.keys ↔ key ∈ mapKeys side := fun key =>
    (hkeys key).trans (and_iff_right hne)
  refine ⟨combined, hcombined, ?_, hmap, ?_⟩
  · exact Except.bind_eq_ok.2 ⟨perDevice, hread, Except.bind_eq_ok.2 ⟨combined, hcombined, rfl⟩⟩
  · refine forall_congr' fun key => ?_
    rw [← hmap]
    refine forall_congr' fun hkey => ?_
    have hreadings : keyReadings aggregated key ≠ [] := mt List.map_eq_nil_iff.1 hne
    rw [(hvalue key hkey).2, Aggregate.of_eq_iff hreadings, keyReadings, List.length_map]

/-! ## Splits -/

omit [FloatArith.Exact] in
/-- A share that is finite is one of a finite total. -/
theorem isFinite_from_of_splitEqual {op : DeriveOp} (hop : op.op = .splitEqual) {from₀ : String}
    (hfrom : op.from_ = [from₀]) (hnodup : op.targets.Nodup) {before after : Sample}
    (hafter : applyOp before op = .ok after) {target : String} (htarget : target ∈ op.targets)
    (hfin : (getValue after target).isFinite = true) : (getValue before from₀).isFinite = true := by
  obtain ⟨w, hw, hvalue⟩ := exists_write_of_target hafter hnodup htarget
  unfold opWrites at hw
  simp only [hop, hfrom, List.headD_cons] at hw
  obtain ⟨_, -, rfl⟩ := List.mem_map.1 hw
  rw [← hvalue] at hfin
  by_contra hno
  rw [Bool.not_eq_true] at hno
  dsimp only at hfin
  rw [equalShare_not_finite hno] at hfin
  cases hfin

/-- An equal split that nothing overwrites adds up on each device. -/
theorem deviceValues_split {side : SourceSide} {pre post : List DeriveOp} {op : DeriveOp}
    (hderive : side.derive = pre ++ op :: post) (hop : op.op = .splitEqual) {from₀ : String}
    (hfrom : op.from_ = [from₀]) (hnodup : op.targets.Nodup) (hself : from₀ ∉ op.targets)
    (hlater : ∀ later ∈ post, ∀ name ∈ from₀ :: op.targets, name ∉ later.targets)
    {link : DeviceLink} {values : Sample} (h : deviceValues side link = .ok values) :
    from₀ ∈ mapKeys side ∧ (op.targets.map fun target => (getValue values target).toRat).sum =
      (getValue values from₀).toRat := by
  have hsample := deviceSample_of_deviceValues h
  obtain ⟨_, -, h⟩ := Except.bind_eq_ok.1 h
  obtain ⟨decoded, -, h⟩ := Except.bind_eq_ok.1 h
  obtain ⟨derived, hrun, h⟩ := Except.bind_eq_ok.1 h
  obtain ⟨⟨⟩, -, h⟩ := Except.bind_eq_ok.1 h
  cases h
  rw [hderive, applyDerive, List.foldlM_append] at hrun
  obtain ⟨before, -, hrun⟩ := Except.bind_eq_ok.1 hrun
  obtain ⟨after, hafter, hpost⟩ := Except.bind_eq_ok.1 hrun
  have hkeep : ∀ name ∈ from₀ :: op.targets, getValue values name = getValue after name := by
    intro name hname
    rw [getValue, getValue, get?_applyDerive_of_not_mem hpost]
    intro hmem
    obtain ⟨later, hl, ht⟩ := List.mem_flatMap.1 hmem
    exact hlater later hl name hname ht
  have hsame : getValue after from₀ = getValue before from₀ := by
    rw [getValue, getValue, get?_applyOp_of_not_mem hafter hself]
  obtain ⟨target, htarget⟩ := List.exists_mem_of_ne_nil _ op.targets_ne
  have htotal : (getValue before from₀).isFinite = true := by
    have hmem : target ∈ mapKeys side := by
      rw [mapKeys, hderive]
      simp [htarget]
    have hfin := (hsample.get? hmem).2
    rw [hkeep target (List.mem_cons_of_mem _ htarget)] at hfin
    exact isFinite_from_of_splitEqual hop hfrom hnodup hafter htarget hfin
  have hweights : op.weights = [] := op.weights_eq_nil (by rw [hop]; decide)
  have hfinite : (getValue before (op.from_.headD "")).isFinite = true := by rwa [hfrom]
  have hshares := splitWrites_shares (Or.inl hop) hfinite (by simp [hweights])
  refine ⟨?_, ?_⟩
  · refine (hsample.keys from₀).1 (Dict.isSome_get?_iff.1 ?_)
    have hfin : (getValue values from₀).isFinite = true := by
      rw [hkeep from₀ List.mem_cons_self, hsame, htotal]
    cases hget : values.get? from₀ with
    | none => simp [getValue, hget] at hfin
    | some v => rfl
  · rw [hkeep from₀ List.mem_cons_self, hsame]
    have hmap : (op.targets.map fun target => (getValue values target).toRat) =
        (opWrites before op).map (·.value.toRat) := by
      refine (List.map_congr_left fun target ht => ?_).trans (toRat_targets hafter hnodup)
      rw [hkeep target (List.mem_cons_of_mem _ ht)]
    rw [hmap, hshares.sum, hfrom]
    rfl

/-- So it does once the devices are combined, where its names share one aggregate. -/
theorem combine_split {side : SourceSide} {pre post : List DeriveOp} {op : DeriveOp}
    (hderive : side.derive = pre ++ op :: post) (hop : op.op = .splitEqual) {from₀ : String}
    (hfrom : op.from_ = [from₀]) (hnodup : op.targets.Nodup) (hself : from₀ ∉ op.targets)
    (hlater : ∀ later ∈ post, ∀ name ∈ from₀ :: op.targets, name ∉ later.targets)
    (hmode : ∀ target ∈ op.targets, aggregateMode target side = aggregateMode from₀ side)
    {devices : List DeviceLink} {perDevice : List Sample}
    (hread : devices.mapM (deviceValues side) = .ok perDevice) {combined : Sample}
    (hcombined : combine (aggregating perDevice devices) side = .ok combined) :
    (op.targets.map fun target => (getValue combined target).toRat).sum =
        (getValue combined from₀).toRat ∧
      ((∃ link ∈ devices, link.aggregate = true) → ∀ name ∈ from₀ :: op.targets,
        name ∈ combined.keys ∧ (getValue combined name).isFinite = true) := by
  set aggregated := aggregating perDevice devices
  have hdevice : ∀ values ∈ aggregated, from₀ ∈ mapKeys side ∧
      (op.targets.map fun target => (getValue values target).toRat).sum =
        (getValue values from₀).toRat := by
    intro values hv
    obtain ⟨link, hlink⟩ := exists_link_of_mem_aggregating hread values hv
    exact deviceValues_split hderive hop hfrom hnodup hself hlater hlink
  obtain ⟨combined', hcombined', hkeys, hvalue⟩ :=
    combine_eq_aggregate (deviceSample_of_mem_aggregating hread)
  obtain rfl := Except.ok.inj (hcombined.symm.trans hcombined')
  by_cases hne : aggregated = []
  · have hempty : ∀ name, (getValue combined name).toRat = 0 := by
      intro name
      have hget : combined.get? name = none :=
        Dict.get?_eq_none_iff.2 fun hmem => ((hkeys name).1 hmem).1 hne
      rw [getValue, hget]
      rfl
    refine ⟨by simp [hempty], fun hagg => ?_⟩
    obtain ⟨values, hv⟩ := exists_mem_aggregating (Except.mapM_eq_ok.1 hread) hagg
    exact absurd hne (List.ne_nil_of_mem hv)
  · obtain ⟨values, hv⟩ := List.exists_mem_of_ne_nil _ hne
    have hmem : ∀ name ∈ from₀ :: op.targets, name ∈ combined.keys := by
      refine List.forall_mem_cons.2 ⟨(hkeys _).2 ⟨hne, (hdevice values hv).1⟩, fun name hname => ?_⟩
      refine (hkeys _).2 ⟨hne, List.mem_append_left _ ?_⟩
      rw [hderive]
      simp [hname]
    refine ⟨?_, fun _ name hname => ⟨hmem name hname, (hvalue name (hmem name hname)).1⟩⟩
    calc (op.targets.map fun target => (getValue combined target).toRat).sum
        = (op.targets.map fun target =>
            (aggregateMode from₀ side).of (keyReadings aggregated target)).sum := by
          refine congrArg List.sum (List.map_congr_left fun target ht => ?_)
          rw [(hvalue target (hmem target (List.mem_cons_of_mem _ ht))).2, hmode target ht]
      _ = (aggregateMode from₀ side).of (keyReadings aggregated from₀) := by
          refine (Aggregate.of_sum_map _ aggregated op.targets fun target values =>
            (getValue values target).toRat).trans ?_
          exact congrArg _ (List.map_congr_left fun values hv => (hdevice values hv).2)
      _ = (getValue combined from₀).toRat := (hvalue from₀ (hmem _ List.mem_cons_self)).2.symm

end Float

/-! ## The shipped map -/

/-- A float32 of an input register. -/
def etangoPoint (addr : ℤ) (aggregate : Aggregate) (sign : ℤ) (scale : PyFloat) : SourcePoint where
  addr := some addr
  scale := scale
  sign := sign
  aggregate := aggregate
  shape := rfl

/-- A total that is split over the phases, to be summed. -/
def phaseSplit (total l1 l2 l3 : String) : DeriveOp where
  op := .splitEqual
  targets := [l1, l2, l3]
  from_ := [total]
  aggregate := .sum
  targets_ne := by simp
  arity := rfl

/-- `0.001` -/
def milli : PyFloat := .lit ((1152921504606847 : ℕ) / (2 ^ 60 : ℕ))

/-- `etango_source` of registers.json. -/
def etangoSource : SourceSide where
  wordOrder := "little"
  byteOrder := "big"
  addressOffset := 0
  readGroups := some [⟨0, 32, none, by decide, by decide⟩, ⟨48, 6, none, by decide, by decide⟩]
  points := ⟨[
    ("i_l1", etangoPoint 0 .avg 1 1),
    ("i_l2", etangoPoint 2 .avg 1 1),
    ("i_l3", etangoPoint 4 .avg 1 1),
    ("u_l12", etangoPoint 6 .avg 1 1),
    ("u_l23", etangoPoint 8 .avg 1 1),
    ("u_l31", etangoPoint 10 .avg 1 1),
    ("freq", etangoPoint 12 .avg 1 1),
    ("p_total", etangoPoint 14 .sum (-1) 1),
    ("q_total", etangoPoint 16 .sum (-1) 1),
    ("s_total", etangoPoint 18 .sum 1 1),
    ("pf_total", etangoPoint 20 .avg (-1) 1),
    ("imp_energy_total", etangoPoint 24 .sum 1 milli),
    ("exp_energy_total", etangoPoint 26 .sum 1 milli),
    ("reactive_imp_energy_total", etangoPoint 28 .sum 1 milli),
    ("reactive_exp_energy_total", etangoPoint 30 .sum 1 milli),
    ("u_l1", etangoPoint 48 .avg 1 1),
    ("u_l2", etangoPoint 50 .avg 1 1),
    ("u_l3", etangoPoint 52 .avg 1 1)], by simp⟩
  derive := [
    phaseSplit "p_total" "p_l1" "p_l2" "p_l3",
    phaseSplit "q_total" "q_l1" "q_l2" "q_l3",
    phaseSplit "s_total" "s_l1" "s_l2" "s_l3",
    { op := .copy, targets := ["pf_l1", "pf_l2", "pf_l3"], from_ := ["pf_total"],
      targets_ne := by simp, arity := rfl },
    phaseSplit "imp_energy_total" "imp_energy_l1" "imp_energy_l2" "imp_energy_l3",
    phaseSplit "exp_energy_total" "exp_energy_l1" "exp_energy_l2" "exp_energy_l3"]
  covered := rfl

/-- The totals of the shipped map and their phases. -/
def etangoSplits : List (String × List String) :=
  [("p_total", ["p_l1", "p_l2", "p_l3"]), ("q_total", ["q_l1", "q_l2", "q_l3"]),
    ("s_total", ["s_l1", "s_l2", "s_l3"]),
    ("imp_energy_total", ["imp_energy_l1", "imp_energy_l2", "imp_energy_l3"]),
    ("exp_energy_total", ["exp_energy_l1", "exp_energy_l2", "exp_energy_l3"])]

/-- A rule of a map stands between the ones before and after it. -/
theorem split_getElem {α : Type} {xs : List α} {i : ℕ} {x : α} (h : xs[i]? = some x) :
    xs = xs.take i ++ x :: xs.drop (i + 1) := by
  obtain ⟨hi, rfl⟩ := List.getElem?_eq_some_iff.1 h
  rw [← List.drop_eq_getElem_cons hi, List.take_append_drop]

/-- Each total of the shipped map is split by one rule, whose names no later rule writes and
which all sum. -/
theorem exists_etangoSplit {split : String × List String} (h : split ∈ etangoSplits) :
    ∃ i op, etangoSource.derive[i]? = some op ∧ op.op = .splitEqual ∧ op.from_ = [split.1] ∧
      op.targets = split.2 ∧ split.2.Nodup ∧ split.1 ∉ split.2 ∧
        (∀ later ∈ etangoSource.derive.drop (i + 1), ∀ name ∈ split.1 :: split.2,
          name ∉ later.targets) ∧
        (∀ target ∈ split.2,
          aggregateMode target etangoSource = aggregateMode split.1 etangoSource) ∧
        ∀ name ∈ split.1 :: split.2, name ∉ DERIVED_CANONICAL_KEYS := by
  simp only [etangoSplits, List.mem_cons, List.not_mem_nil, or_false] at h
  rcases h with rfl | rfl | rfl | rfl | rfl
  · exact ⟨0, _, rfl, rfl, rfl, rfl, by decide, by decide, by decide, by decide, by decide⟩
  · exact ⟨1, _, rfl, rfl, rfl, rfl, by decide, by decide, by decide, by decide, by decide⟩
  · exact ⟨2, _, rfl, rfl, rfl, rfl, by decide, by decide, by decide, by decide, by decide⟩
  · exact ⟨4, _, rfl, rfl, rfl, rfl, by decide, by decide, by decide, by decide, by decide⟩
  · exact ⟨5, _, rfl, rfl, rfl, rfl, by decide, by decide, by decide, by decide, by decide⟩

/-- An equal split into distinct targets, none of which is its `from` point, adds up after
the combination of any devices, if nothing overwrites these names and they share one
aggregate. The splits of the shipped map do, in every sample that a poll returns. Where some device
is aggregated the names are there, and finite. -/
theorem combined_split [FloatArith] [FloatArith.Exact] :
    (∀ (side : SourceSide) (pre post : List DeriveOp) (op : DeriveOp) (from₀ : String),
        side.derive = pre ++ op :: post → op.op = .splitEqual → op.from_ = [from₀] →
        op.targets.Nodup → from₀ ∉ op.targets →
        (∀ later ∈ post, ∀ name ∈ from₀ :: op.targets, name ∉ later.targets) →
        (∀ target ∈ op.targets, aggregateMode target side = aggregateMode from₀ side) →
        ∀ (devices : List DeviceLink) (perDevice : List Sample),
          devices.mapM (deviceValues side) = .ok perDevice →
          ∃ combined, combine (aggregating perDevice devices) side = .ok combined ∧
            (op.targets.map fun target => (getValue combined target).toRat).sum =
              (getValue combined from₀).toRat ∧
            ((∃ link ∈ devices, link.aggregate = true) → ∀ name ∈ from₀ :: op.targets,
              name ∈ combined.keys ∧ (getValue combined name).isFinite = true)) ∧
      ∀ (devices : List DeviceLink) (slave : ℤ) (seen : Option (Finset String)) (sample : Sample),
        (pollOnce ⟨devices⟩ etangoSource slave seen).result = .ok sample →
        ∀ split ∈ etangoSplits,
          (split.2.map fun phase => (getValue sample phase).toRat).sum =
              (getValue sample split.1).toRat ∧
            ((∃ link ∈ devices, link.aggregate = true) → ∀ name ∈ split.1 :: split.2,
              name ∈ sample.keys ∧ (getValue sample name).isFinite = true) := by
  refine ⟨?_, fun devices slave seen sample h split hsplit => ?_⟩
  · intro side pre post op from₀ hderive hop hfrom hnodup hself hlater hmode devices perDevice
      hread
    obtain ⟨combined, hcombined, -⟩ :=
      combine_eq_aggregate (deviceSample_of_mem_aggregating hread)
    exact ⟨combined, hcombined,
      combine_split hderive hop hfrom hnodup hself hlater hmode hread hcombined⟩
  · obtain ⟨perDevice, hread, h⟩ := Except.bind_eq_ok.1 h
    obtain ⟨combined, hcombined, h⟩ := Except.bind_eq_ok.1 h
    cases h
    obtain ⟨i, op, hget, hop, hfrom, htargets, hnodup, hself, hlater, hmode, halias⟩ :=
      exists_etangoSplit hsplit
    rw [← htargets] at hnodup hself hlater hmode halias ⊢
    obtain ⟨hsum, hpresent⟩ := combine_split (split_getElem hget) hop hfrom hnodup hself hlater
      hmode hread hcombined
    have hkey : ∀ name ∈ split.1 :: op.targets,
        (computeDerived combined).get? name = combined.get? name :=
      fun name hname => get?_computeDerived_of_not_mem combined (halias name hname)
    have hsame : ∀ name ∈ split.1 :: op.targets,
        getValue (computeDerived combined) name = getValue combined name := by
      intro name hname
      rw [getValue, hkey name hname]
      rfl
    refine ⟨?_, fun hagg name hname => ?_⟩
    · rw [hsame _ List.mem_cons_self, ← hsum]
      refine congrArg List.sum (List.map_congr_left fun phase hphase => ?_)
      rw [hsame phase (List.mem_cons_of_mem _ hphase)]
    · obtain ⟨hmem, hfinite⟩ := hpresent hagg name hname
      rw [← Dict.isSome_get?_iff, hkey name hname, Dict.isSome_get?_iff, hsame name hname]
      exact ⟨hmem, hfinite⟩

/-! ## Two relays -/

/-- A relay that answers every block with the same registers. -/
def constantRelay (registers : List ℕ) : DeviceLink where
  client := replyClient fun _ => ⟨registers, none⟩
  unitId := 1
  aggregate := true
  host := "relay"

/-- The registers of 1.0, in the word order of the relays, over both blocks. -/
def onesRelay : DeviceLink := constantRelay ((List.replicate 16 [0, 0x3F80]).flatten)

/-- Two relays of the shipped map. -/
theorem combined_split_onesRelay :
    ∃ sample, (@pollOnce exactDouble ⟨[onesRelay, onesRelay]⟩ etangoSource 1 none).result =
        .ok sample ∧
      (getValue sample "p_l1").toRat + (getValue sample "p_l2").toRat +
        (getValue sample "p_l3").toRat = (getValue sample "p_total").toRat := by
  have hrun : (@pollOnce exactDouble ⟨[onesRelay, onesRelay]⟩ etangoSource 1
      none).result.toOption.isSome = true := by decide +kernel
  obtain ⟨sample, hsample⟩ := Option.isSome_iff_exists.1 hrun
  have hpoll := Except.toOption_eq_some.1 hsample
  obtain ⟨hsum, -⟩ := (@combined_split exactDouble inferInstance).2 _ _ _ _ hpoll
    ("p_total", ["p_l1", "p_l2", "p_l3"]) (by simp [etangoSplits])
  refine ⟨sample, hpoll, ?_⟩
  simpa [add_assoc] using hsum

/-- A mean that a rule to be summed overwrites. -/
def overwrittenSource : SourceSide where
  points := ⟨[("p_total", etangoPoint 0 .sum 1 1), ("s_total", etangoPoint 2 .avg 1 1)], by simp⟩
  readGroups := some [⟨0, 4, none, by decide, by decide⟩]
  derive := [
    { op := .copy, targets := ["s_total"], from_ := ["p_total"], aggregate := .sum,
      targets_ne := by simp, arity := rfl }]
  covered := rfl

/-- Two relays of 10 and 30. -/
def tenAndThirty : List DeviceLink :=
  [constantRelay [0x4120, 0, 0, 0], constantRelay [0x41F0, 0, 0, 0]]

/-- The equivalence at the two relays. -/
theorem combined_declared_iff_tenAndThirty :
    ∃ perDevice combined,
      tenAndThirty.mapM (@deviceValues exactDouble overwrittenSource) = .ok perDevice ∧
        @combine exactDouble (aggregating perDevice tenAndThirty) overwrittenSource =
          .ok combined ∧
        ((∀ key ∈ combined.keys, (getValue combined key).toRat =
              (declaredAggregate key overwrittenSource).of
                (keyReadings (aggregating perDevice tenAndThirty) key)) ↔
          ∀ key ∈ mapKeys overwrittenSource,
            aggregateMode key overwrittenSource = declaredAggregate key overwrittenSource ∨
              (aggregating perDevice tenAndThirty).length = 1 ∨
                (keyReadings (aggregating perDevice tenAndThirty) key).sum = 0) := by
  have hrun : (tenAndThirty.mapM
      (@deviceValues exactDouble overwrittenSource)).toOption.isSome = true := by decide +kernel
  obtain ⟨perDevice, hper⟩ := Option.isSome_iff_exists.1 hrun
  have hread := Except.toOption_eq_some.1 hper
  obtain ⟨combined, hcombined, -, -, hiff⟩ :=
    @combined_declared_iff exactDouble inferInstance overwrittenSource tenAndThirty perDevice hread
      ⟨constantRelay [0x4120, 0, 0, 0], List.mem_cons_self, rfl⟩ 1 none
  exact ⟨perDevice, combined, hread, hcombined, hiff⟩

/-- The rule that gives `s_total` declares a sum, of 40, and the mean is combined. -/
theorem combined_not_declared :
    declaredAggregate "s_total" overwrittenSource = .sum ∧
      ∃ perDevice combined,
        tenAndThirty.mapM (@deviceValues .double overwrittenSource) = .ok perDevice ∧
          @combine .double (aggregating perDevice tenAndThirty) overwrittenSource =
            .ok combined ∧
          (keyReadings (aggregating perDevice tenAndThirty) "s_total").sum = 40 ∧
          combined.get? "s_total" = some (.lit 20) := by
  refine ⟨by decide, ?_⟩
  have hrun : ((do
      let perDevice ← tenAndThirty.mapM (@deviceValues .double overwrittenSource)
      let combined ← @combine .double (aggregating perDevice tenAndThirty) overwrittenSource
      return (perDevice, combined) : Except PyExc _).toOption.any fun p =>
        (keyReadings (aggregating p.1 tenAndThirty) "s_total").sum = 40 ∧
          p.2.get? "s_total" = some (.lit 20)) = true := by decide +kernel
  obtain ⟨⟨perDevice, combined⟩, hok, hp⟩ := (Option.any_eq_true _ _).1 hrun
  obtain ⟨_, hper, hok⟩ := Except.bind_eq_ok.1 (Except.toOption_eq_some.1 hok)
  obtain ⟨_, hcombined, hok⟩ := Except.bind_eq_ok.1 hok
  cases hok
  obtain ⟨hsum, hget⟩ := decide_eq_true_iff.1 hp
  exact ⟨perDevice, combined, hper, hcombined, hsum, hget⟩

end Etango

end DtsuBridge
