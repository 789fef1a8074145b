import DtsuBridge.Datastore
import DtsuBridge.Pollers

/-!
# What a returned sample contains

The load check of a register map takes every section to produce its points, the targets
of its derive rules and the energy aliases. A huawei or an etango poll binds exactly these
names (`Huawei.mem_keys_pollOnce`, `Etango.mem_keys_pollOnce`). An nd45 poll runs no derive
rule and binds only the points and the aliases (`Nd45.mem_keys_pollOnce`).

`sample_complete_iff` : a returned sample has every name the output maps need, except where
the source is an nd45 and a name comes from a derive rule alone.
-/

namespace DtsuBridge

/-! ## The client of a bridge -/

/-- The client `_make_client_factory` builds for a source that is read directly, over the
connection to each of its devices. -/
def makeClient (source : SourceConf) (conn : ℕ → Client) : source.type.Client :=
  match source with
  | .nd45 _ | .huawei _ => conn 0
  | .etango c =>
    ⟨c.devices.zipIdx.map fun (device, i) =>
      ⟨conn i, device.unitId, device.aggregate, device.host⟩⟩

/-- Some device of an etango source is combined. -/
theorem EtangoSourceConf.exists_aggregate (c : EtangoSourceConf) :
    ∃ device ∈ c.devices, device.aggregate = true := by
  have h := c.devicesOk
  unfold checkDevices at h
  split_ifs at h with h1 h2
  simpa using h2

section Float

variable [FloatArith]

/-! ## ND45 -/

namespace Nd45

omit [FloatArith] in
@[simp] theorem keys_record (acc : Gathered) (key : String) (raw si : PyFloat) (k : String) :
    k ∈ (acc.record key raw si).values.keys ↔ k = key ∨ k ∈ acc.values.keys := by
  unfold Gathered.record
  dsimp only
  split_ifs <;> exact Dict.mem_keys_set

theorem mem_keys_pollPoints {side : SourceSide} {groups : Blocks} {k : String} :
    ∀ {points : List (String × SourcePoint)} {acc acc' : Gathered},
      pollPoints side groups points acc = (.ok (), acc') →
        (k ∈ acc'.values.keys ↔ k ∈ points.map Prod.fst ∨ k ∈ acc.values.keys)
  | [], acc, acc', h => by
    obtain rfl := (Prod.mk.inj h).2
    simp
  | (key, pt) :: points, acc, acc', h => by
    unfold pollPoints at h
    split at h
    · cases h
    · rw [mem_keys_pollPoints h, keys_record, List.map_cons, List.mem_cons]
      tauto

/-- A returned sample has the points of the section and the energy aliases. -/
theorem mem_keys_pollOnce {client : Client} {side : SourceSide} {slave : ℤ}
    {seen : Option (Finset String)} {values : Sample}
    (h : (pollOnce client side slave seen).result = .ok values) {k : String} :
    k ∈ values.keys ↔ k ∈ DERIVED_CANONICAL_KEYS ∨ k ∈ side.points.keys := by
  unfold pollOnce at h
  split at h
  · cases h
  · split at h
    · cases h
    · next acc hacc =>
      split_ifs at h
      cases h
      rw [mem_keys_computeDerived, mem_keys_pollPoints hacc, Dict.keys_empty]
      simp only [List.not_mem_nil, or_false]
      rfl

end Nd45

/-! ## SmartLogger -/

namespace Huawei

/-- A returned sample has the points, the derive targets and the energy aliases. -/
theorem mem_keys_pollOnce {client : Client} {side : SourceSide} {slave : ℤ}
    {seen : Option (Finset String)} {values : Sample}
    (h : (pollOnce client side slave seen).result = .ok values) {k : String} :
    k ∈ values.keys ↔ k ∈ side.produced := by
  unfold pollOnce at h
  split at h
  · cases h
  · split at h
    · cases h
    · next decoded hdecoded =>
      dsimp only at h
      split at h
      · cases h
      · next derived hderived =>
        cases h
        rw [mem_keys_computeDerived, scrub, Dict.keys_mapValues, mem_keys_applyDerive hderived,
          scrub, Dict.keys_mapValues, mem_keys_writeTargets_empty hdecoded]
        simp only [SourceSide.produced, List.mem_append, Dict.keys]
        tauto

end Huawei

/-! ## e2TANGO -/

namespace Etango

theorem mem_keys_deviceValues {side : SourceSide} {link : DeviceLink} {values : Sample}
    (h : deviceValues side link = .ok values) {k : String} :
    k ∈ values.keys ↔ k ∈ side.derive.flatMap (·.targets) ∨ k ∈ side.points.keys := by
  obtain ⟨groups, -, h⟩ := Except.bind_eq_ok.1 h
  obtain ⟨decoded, hdecoded, h⟩ := Except.bind_eq_ok.1 h
  obtain ⟨derived, hderived, h⟩ := Except.bind_eq_ok.1 h
  obtain ⟨-, -, h⟩ := Except.bind_eq_ok.1 h
  cases h
  rw [mem_keys_applyDerive hderived, mem_keys_writeTargets_empty hdecoded, List.map_map]
  rfl

theorem mem_keys_combine {perDevice : List Sample} {side : SourceSide} {combined : Sample}
    (h : combine perDevice side = .ok combined) {k : String} :
    k ∈ combined.keys ↔ ∃ values ∈ perDevice, k ∈ values.keys := by
  rw [mem_keys_writeTargets_empty h]
  simp [Function.comp_def]

/-- The samples of a device that is combined are among those combined. -/
theorem exists_mem_aggregating {side : SourceSide} : ∀ {devices : List DeviceLink}
    {perDevice : List Sample},
    List.Forall₂ (fun link values => deviceValues side link = .ok values) devices perDevice →
      (∃ link ∈ devices, link.aggregate = true) → ∃ values, values ∈ aggregating perDevice devices
  | [], _, _, h => by simp at h
  | link :: devices, values :: perDevice, .cons _ hs, h => by
    unfold aggregating
    rw [List.zip_cons_cons, List.filter_cons]
    dsimp only
    split_ifs with hagg
    · exact ⟨values, by simp⟩
    · refine exists_mem_aggregating hs ?_
      simpa [hagg] using h

omit [FloatArith] in
theorem mem_of_mem_aggregating {perDevice : List Sample} {devices : List DeviceLink}
    {values : Sample} (h : values ∈ aggregating perDevice devices) : values ∈ perDevice := by
  obtain ⟨⟨v, link⟩, hmem, rfl⟩ := List.mem_map.1 h
  exact (List.of_mem_zip (List.mem_filter.1 hmem).1).1

omit [FloatArith] in
/-- Which samples are combined is up to the configured devices. -/
theorem aggregating_makeClient (c : EtangoSourceConf) (conn : ℕ → Client)
    (perDevice : List Sample) : aggregating perDevice (makeClient (.etango c) conn).devices =
      ((perDevice.zip c.devices.zipIdx).filter (·.2.1.aggregate)).map Prod.fst := by
  unfold aggregating makeClient
  simp only [List.zip_map_right, List.filter_map, List.map_map, Function.comp_def]
  rfl

/-- A returned sample has the points, the derive targets and the energy aliases. -/
theorem mem_keys_pollOnce {client : MultiHostClient} {side : SourceSide} {slave : ℤ}
    {seen : Option (Finset String)} {values : Sample}
    (hagg : ∃ link ∈ client.devices, link.aggregate = true)
    (h : (pollOnce client side slave seen).result = .ok values) {k : String} :
    k ∈ values.keys ↔ k ∈ side.produced := by
  obtain ⟨perDevice, hper, h⟩ := Except.bind_eq_ok.1 h
  obtain ⟨combined, hcombined, h⟩ := Except.bind_eq_ok.1 h
  cases h
  have hper := Except.mapM_eq_ok.1 hper
  have hkeys : ∀ v ∈ perDevice, ∀ k, k ∈ v.keys ↔
      k ∈ side.derive.flatMap (·.targets) ∨ k ∈ side.points.keys := by
    intro v hv k
    obtain ⟨i, hi, rfl⟩ := List.mem_iff_getElem.1 hv
    exact mem_keys_deviceValues (hper.get (by rw [hper.length_eq]; exact hi) hi)
  rw [mem_keys_computeDerived, mem_keys_combine hcombined]
  have hex : (∃ v ∈ aggregating perDevice client.devices, k ∈ v.keys) ↔
      k ∈ side.derive.flatMap (·.targets) ∨ k ∈ side.points.keys := by
    refine ⟨?_, fun hk => ?_⟩
    · rintro ⟨v, hv, hk⟩
      exact (hkeys v (mem_of_mem_aggregating hv) k).1 hk
    · obtain ⟨v, hv⟩ := exists_mem_aggregating hper hagg
      exact ⟨v, hv, (hkeys v (mem_of_mem_aggregating hv) k).2 hk⟩
  rw [hex]
  simp only [SourceSide.produced, List.mem_append]
  tauto

end Etango

/-! ## Every type -/

/-- The names a sample of a source type has. -/
def boundNames (type : SourceType) (side : SourceSide) : List String :=
  match type with
  | .nd45 => side.points.keys ++ DERIVED_CANONICAL_KEYS
  | .huawei | .etango => side.produced

theorem mem_keys_pollOnceFn {source : SourceConf} {conn : ℕ → Client} {side : SourceSide}
    {seen : Option (Finset String)} {values : Sample}
    (h : (pollOnceFn source.type (makeClient source conn) side source.unitId seen).result =
      .ok values) {k : String} : k ∈ values.keys ↔ k ∈ boundNames source.type side := by
  cases source with
  | nd45 c =>
    rw [Nd45.mem_keys_pollOnce h, or_comm]
    exact List.mem_append.symm
  | huawei c => exact Huawei.mem_keys_pollOnce h
  | etango c =>
    have h : (Etango.pollOnce (makeClient (.etango c) conn) side c.unitId seen).result =
        .ok values := h
    refine Etango.mem_keys_pollOnce ?_ h
    obtain ⟨device, hmem, hagg⟩ := c.exists_aggregate
    obtain ⟨i, hi, rfl⟩ := List.mem_iff_getElem.1 hmem
    refine ⟨_, List.mem_map.2 ⟨(c.devices[i], i), ?_, rfl⟩, hagg⟩
    exact List.mem_zipIdx_iff_getElem?.2 (by simp [hi])

/-- A sample that a poll returns has every name the output maps need exactly when the
source type runs derive rules or no name comes from one alone. -/
theorem sample_complete_iff {m : RegisterMap} {source : SourceConf} {side : SourceSide}
    (hside : m.sourceByName source.base.registerMap = .ok side)
    {conn : ℕ → Client} {seen : Option (Finset String)} {values : Sample}
    (h : (pollOnceFn source.type (makeClient source conn) side source.unitId seen).result =
      .ok values) :
    (∀ k ∈ m.needed, k ∈ values.keys) ↔
      (source.type = .nd45 →
        ∀ k ∈ m.needed, k ∈ side.points.keys ∨ k ∈ DERIVED_CANONICAL_KEYS) := by
  simp only [mem_keys_pollOnceFn h]
  cases ht : source.type with
  | nd45 => simp [boundNames]
  | huawei =>
    simpa [boundNames] using fun k hk => m.produced_of_needed hside hk
  | etango =>
    simpa [boundNames] using fun k hk => m.produced_of_needed hside hk

end Float

/-- A device that answers every read with zeros. -/
def zeroClient : Client := fun _ req => .ok ⟨List.replicate req.count 0, none⟩

/-- A sample of a section with the point `freq` has what the output maps need. -/
theorem sample_complete_freqMap :
    ∃ values, (@pollOnceFn .double .nd45 zeroClient freqSource 1 none).result = .ok values ∧
      ∀ k ∈ (freqMap 102).needed, k ∈ values.keys := by
  have hok : (@pollOnceFn .double .nd45 zeroClient freqSource 1 none).result.toOption.isSome := by
    decide +kernel
  obtain ⟨values, hvalues⟩ := Option.isSome_iff_exists.1 hok
  have h : (@pollOnceFn .double nd45Conf.type (makeClient nd45Conf fun _ => zeroClient) freqSource
      nd45Conf.unitId none).result = .ok values := Except.toOption_eq_some.1 hvalues
  have hside : (freqMap 102).sourceByName nd45Conf.base.registerMap = .ok freqSource := by rfl
  exact ⟨values, h, (@sample_complete_iff .double _ _ _ hside _ _ _ h).2 fun _ => by decide⟩

/-- The derive rule that gives `freq` a constant. -/
def constantFreq : DeriveOp where
  op := .constant
  targets := ["freq"]
  value := some nominalFreq
  targets_ne := by simp
  arity := rfl

/-- An ND45 section that has `freq` from a derive rule alone. -/
def derivedSource : SourceSide where
  points := ⟨[("u_l1", { addr := some 50, shape := rfl })], by simp⟩
  derive := [constantFreq]
  covered := rfl

def derivedMap : RegisterMap where
  toRegisterMapFields := { (freqMap 102).toRegisterMapFields with nd45Source := derivedSource }
  complete := by rfl

/-- That section loads and passes the check of its type, and its samples miss `freq`. -/
theorem sample_incomplete_derivedMap :
    derivedMap.sourceByName "nd45_source" = .ok derivedSource ∧
      validateCoverage .nd45 derivedSource = .ok () ∧
      ∃ values, (@pollOnceFn .double .nd45 zeroClient derivedSource 1 none).result = .ok values ∧
        ¬∀ k ∈ derivedMap.needed, k ∈ values.keys := by
  refine ⟨by rfl, by rfl, ?_⟩
  have hkeys : (@pollOnceFn .double .nd45 zeroClient derivedSource 1 none).result.toOption.map
      Dict.keys = some ["u_l1", "active_energy_total", "net_imp_energy_total",
        "net_exp_energy_total"] := by decide +kernel
  obtain ⟨values, hvalues, hk⟩ := Option.map_eq_some_iff.1 hkeys
  refine ⟨values, Except.toOption_eq_some.1 hvalues, ?_⟩
  rw [hk]
  decide

end DtsuBridge
