import DtsuBridge.FailSafe

/-!
# Static values

In the static mode no source is polled. The configured values are expanded to a sample of every
name the output maps read, encoded once, and then fed to the store and the registers again and
again, under the server supervisor of a live bridge.

`expand_exact` : the expansion keeps every configured value that a map reads, and what it fills in
is zero, or computed from the others. It raises exactly when an apparent power is configured that
no map reads while their sum is not.
`static_served` : once the pipeline is built, no feed raises. In every run the registers are the
image of the expanded values, and a server is held at the end of an iteration of its supervisor
only if the latest feed is recent enough.
-/

namespace DtsuBridge

/-! ## The configured values -/

/-- `STATIC_DEBUG_VALUE_KEYS` -/
def STATIC_DEBUG_VALUE_KEYS : List String :=
  ["u_l1", "u_l2", "u_l3", "u_l12", "u_l23", "u_l31", "i_l1", "i_l2", "i_l3",
    "p_l1", "p_l2", "p_l3", "p_total", "q_l1", "q_l2", "q_l3", "q_total",
    "s_l1", "s_l2", "s_l3", "s_total", "pf_l1", "pf_l2", "pf_l3", "pf_total", "freq",
    "imp_energy_total", "imp_energy_l1", "imp_energy_l2", "imp_energy_l3",
    "exp_energy_total", "exp_energy_l1", "exp_energy_l2", "exp_energy_l3",
    "reactive_imp_energy_total", "reactive_exp_energy_total"]

/-- `StaticDebugConf.values`, as `_validate_values` leaves them. -/
structure StaticValues where
  values : Sample
  known : ∀ name ∈ values.keys, name ∈ STATIC_DEBUG_VALUE_KEYS
  finite : ∀ name v, values.get? name = some v → v.isFinite = true

/-- The apparent power of each phase, with the voltage and the current it is filled in from. -/
def apparentPowers : List (String × String × String) :=
  [("s_l1", "u_l1", "i_l1"), ("s_l2", "u_l2", "i_l2"), ("s_l3", "u_l3", "i_l3")]

/-- The names the expansion may fill in with something else than zero. -/
def filledNames : List String :=
  apparentPowers.map (·.1) ++ "s_total" :: DERIVED_CANONICAL_KEYS

section Float

variable [FloatArith]

/-! ## The expansion -/

/-- Every name that a map reads, zero where it is not configured. The order of the names, which
come from a set, is not used. -/
def zeroFilled (needed : List String) (configured : Sample) : Sample :=
  needed.foldl (fun values name => values.set name ((configured.get? name).getD 0)) .empty

/-- Fill in an apparent power that is not configured. -/
def fillApparent (configured values : Sample) (p : String × String × String) : Sample :=
  if (configured.get? p.1).isSome then values
  else values.set p.1 (((values.get? p.2.1).getD 0).mul ((values.get? p.2.2).getD 0)).abs

/-- `values[name]` -/
def getItem (values : Sample) (name : String) : Except PyExc PyFloat :=
  match values.get? name with
  | some v => .ok v
  | none => .error (.keyError name)

/-- Fill in their sum. -/
def fillTotal (configured values : Sample) : Except PyExc Sample :=
  if (configured.get? "s_total").isSome then .ok values
  else do
    let powers ← apparentPowers.mapM fun p => getItem values p.1
    return values.set "s_total" (.sum powers)

/-- The values before the sum is filled in. -/
def phaseFilled (needed : List String) (configured : Sample) : Sample :=
  apparentPowers.foldl (fillApparent configured) (zeroFilled needed configured)

def expandStaticValues (registers : RegisterMap) (configured : Sample) : Except PyExc Sample := do
  let values ← fillTotal configured (phaseFilled registers.needed configured)
  return computeDerived values

omit [FloatArith] in
theorem get?_zeroFilled (configured : Sample) (name : String) :
    ∀ (needed : List String) (values : Sample),
      (needed.foldl (fun values name => values.set name ((configured.get? name).getD 0))
        values).get? name =
        if name ∈ needed then some ((configured.get? name).getD 0) else values.get? name
  | [], values => by simp
  | n :: needed, values => by
    rw [List.foldl_cons, get?_zeroFilled configured name needed, Dict.get?_set]
    by_cases hmem : name ∈ needed
    · simp [hmem]
    · by_cases hname : name = n
      · simp [hname]
      · simp [hmem, hname]

/-- The other names keep their values. -/
theorem get?_fillApparent_ne {configured values : Sample} {p : String × String × String}
    {name : String} (h : name ≠ p.1) :
    (fillApparent configured values p).get? name = values.get? name := by
  unfold fillApparent
  split_ifs
  · rfl
  · exact Dict.get?_set_ne _ _ h

theorem get?_foldl_fillApparent_ne {configured : Sample} {name : String} :
    ∀ {ps : List (String × String × String)} {values : Sample}, (∀ p ∈ ps, name ≠ p.1) →
      (ps.foldl (fillApparent configured) values).get? name = values.get? name
  | [], _, _ => rfl
  | p :: ps, values, h => by
    obtain ⟨hp, hps⟩ := List.forall_mem_cons.1 h
    rw [List.foldl_cons, get?_foldl_fillApparent_ne hps, get?_fillApparent_ne hp]

/-- What an apparent power is filled in from, where no other one is among it. -/
theorem get?_foldl_fillApparent {configured : Sample} {p : String × String × String} :
    ∀ {ps : List (String × String × String)} {values : Sample}, (ps.map (·.1)).Nodup →
      (∀ q ∈ ps, p.2.1 ≠ q.1 ∧ p.2.2 ≠ q.1) → p ∈ ps →
      (ps.foldl (fillApparent configured) values).get? p.1 =
        if (configured.get? p.1).isSome then values.get? p.1
        else some (((values.get? p.2.1).getD 0).mul ((values.get? p.2.2).getD 0)).abs
  | [], _, _, _, hmem => by cases hmem
  | q :: ps, values, hnodup, hapart, hmem => by
    obtain ⟨hq, hps⟩ := List.forall_mem_cons.1 hapart
    rw [List.map_cons, List.nodup_cons] at hnodup
    rw [List.foldl_cons]
    rcases List.mem_cons.1 hmem with rfl | hmem
    · have hlater : ∀ q ∈ ps, p.1 ≠ q.1 := fun q hq h =>
        hnodup.1 (h ▸ List.mem_map_of_mem hq)
      rw [get?_foldl_fillApparent_ne hlater, fillApparent]
      split_ifs
      · rfl
      · exact Dict.get?_set_self _ _ _
    · have hne : p.1 ≠ q.1 := fun h => hnodup.1 (h ▸ List.mem_map_of_mem hmem)
      rw [get?_foldl_fillApparent hnodup.2 hps hmem, get?_fillApparent_ne hne,
        get?_fillApparent_ne hq.1, get?_fillApparent_ne hq.2]

/-- A name that is no apparent power of a phase is there if it is read. -/
theorem get?_phaseFilled_ne {needed : List String} {configured : Sample} {name : String}
    (h : name ∉ apparentPowers.map (·.1)) : (phaseFilled needed configured).get? name =
      if name ∈ needed then some ((configured.get? name).getD 0) else none := by
  have hne : ∀ p ∈ apparentPowers, name ≠ p.1 := fun p hp heq =>
    h (heq ▸ List.mem_map_of_mem hp)
  rw [phaseFilled, get?_foldl_fillApparent_ne hne, zeroFilled, get?_zeroFilled]
  rfl

omit [FloatArith] in
/-- No apparent power is filled in from another name that is. -/
theorem inputs_apart : ∀ p ∈ apparentPowers, p.2.1 ∉ filledNames ∧ p.2.2 ∉ filledNames := by
  decide

omit [FloatArith] in
theorem not_mem_phases {name : String} (h : name ∉ filledNames) :
    name ∉ apparentPowers.map (·.1) :=
  fun hmem => h (List.mem_append_left _ hmem)

/-- An apparent power of a phase is what is configured, if it is read, or is filled in. -/
theorem get?_phaseFilled {needed : List String} {configured : Sample}
    {p : String × String × String} (hp : p ∈ apparentPowers) :
    (phaseFilled needed configured).get? p.1 =
      if (configured.get? p.1).isSome then if p.1 ∈ needed then configured.get? p.1 else none
      else some ((((phaseFilled needed configured).get? p.2.1).getD 0).mul
        (((phaseFilled needed configured).get? p.2.2).getD 0)).abs := by
  have hapart : ∀ q ∈ apparentPowers, p.2.1 ≠ q.1 ∧ p.2.2 ≠ q.1 := fun q hq =>
    ⟨fun h => not_mem_phases (inputs_apart p hp).1 (h ▸ List.mem_map_of_mem hq),
      fun h => not_mem_phases (inputs_apart p hp).2 (h ▸ List.mem_map_of_mem hq)⟩
  have hinput : ∀ name, (∀ q ∈ apparentPowers, name ≠ q.1) →
      (phaseFilled needed configured).get? name = (zeroFilled needed configured).get? name :=
    fun name h => get?_foldl_fillApparent_ne h
  rw [hinput _ fun q hq => (hapart q hq).1, hinput _ fun q hq => (hapart q hq).2, phaseFilled,
    get?_foldl_fillApparent (by decide) hapart hp, zeroFilled, get?_zeroFilled]
  rcases configured.get? p.1 with _ | v
  · rfl
  · rfl

omit [FloatArith] in
theorem getItem_eq_ok {values : Sample} {name : String} {v : PyFloat} :
    getItem values name = .ok v ↔ values.get? name = some v := by
  unfold getItem
  rcases values.get? name with _ | w
  · simp
  · simp

/-- The sum needs every apparent power of a phase. -/
theorem fillTotal_eq_ok {configured values values' : Sample} :
    fillTotal configured values = .ok values' ↔
      if (configured.get? "s_total").isSome then values' = values
      else ∃ powers, apparentPowers.map (fun p => values.get? p.1) = powers.map some ∧
        values' = values.set "s_total" (.sum powers) := by
  unfold fillTotal
  split_ifs with h
  · rw [Except.ok.injEq, eq_comm]
  · rw [Except.bind_eq_ok]
    refine exists_congr fun powers => and_congr ?_ ?_
    · rw [Except.mapM_eq_ok, ← List.forall₂_eq_eq_eq, List.forall₂_map_left_iff,
        List.forall₂_map_right_iff]
      simp only [getItem_eq_ok]
    · exact ⟨fun h => (Except.ok.inj h).symm, fun h => h ▸ rfl⟩

theorem fillTotal_isOk {configured values : Sample} :
    (∃ values', fillTotal configured values = .ok values') ↔
      (configured.get? "s_total").isSome = true ∨
        ∀ p ∈ apparentPowers, (values.get? p.1).isSome = true := by
  unfold fillTotal
  split_ifs with h
  · simp [h]
  · have hall : (∃ powers, apparentPowers.mapM (fun p => getItem values p.1) = .ok powers) ↔
        ∀ p ∈ apparentPowers, (values.get? p.1).isSome = true := by
      rw [Except.exists_mapM_eq_ok]
      simp only [getItem_eq_ok, Option.isSome_iff_exists]
    rw [or_iff_right h, ← hall]
    simp only [Except.bind_eq_ok]
    constructor
    · rintro ⟨-, powers, hpowers, -⟩
      exact ⟨powers, hpowers⟩
    · rintro ⟨powers, hpowers⟩
      exact ⟨_, powers, hpowers, rfl⟩

/-- Filling in the sum leaves the other names alone. -/
theorem get?_of_fillTotal {configured values values' : Sample}
    (h : fillTotal configured values = .ok values') :
    (∀ name, name ≠ "s_total" → values'.get? name = values.get? name) ∧
      if (configured.get? "s_total").isSome then values'.get? "s_total" = values.get? "s_total"
      else ∃ powers, apparentPowers.map (fun p => values.get? p.1) = powers.map some ∧
        values'.get? "s_total" = some (.sum powers) := by
  rw [fillTotal_eq_ok] at h
  split_ifs at h ⊢ with htotal
  · rw [h]
    exact ⟨fun _ _ => rfl, rfl⟩
  · obtain ⟨powers, hpowers, rfl⟩ := h
    exact ⟨fun name hname => Dict.get?_set_ne _ _ hname, powers, hpowers, Dict.get?_set_self _ _ _⟩

/-- What the expanded values are. -/
structure Expanded (needed : List String) (configured values : Sample) : Prop where
  complete : ∀ name ∈ needed, ∃ v, values.get? name = some v
  kept : ∀ name v, configured.get? name = some v → name ∈ needed → values.get? name = some v
  zero : ∀ name ∈ needed, configured.get? name = none → name ∉ filledNames →
    values.get? name = some 0
  apparent : ∀ p ∈ apparentPowers, configured.get? p.1 = none →
    values.get? p.1 =
      some (((values.get? p.2.1).getD 0).mul ((values.get? p.2.2).getD 0)).abs
  total : configured.get? "s_total" = none →
    ∃ powers, apparentPowers.map (fun p => values.get? p.1) = powers.map some ∧
      values.get? "s_total" = some (.sum powers)
  net : values.get? "net_imp_energy_total" = some ((values.get? "imp_energy_total").getD 0) ∧
    values.get? "net_exp_energy_total" = some ((values.get? "exp_energy_total").getD 0) ∧
    values.get? "active_energy_total" = some (((values.get? "imp_energy_total").getD 0).add
      ((values.get? "exp_energy_total").getD 0))

omit [FloatArith] in
/-- The names of the phases are no derived ones. -/
theorem phases_apart : ∀ p ∈ apparentPowers, p.1 ≠ "s_total" ∧ p.1 ∉ DERIVED_CANONICAL_KEYS := by
  decide

omit [FloatArith] in
/-- No derived name can be configured. -/
theorem keys_apart : ∀ name ∈ STATIC_DEBUG_VALUE_KEYS, name ∉ DERIVED_CANONICAL_KEYS := by
  decide

/-- A name that is read is there, and is what is configured if it is. -/
theorem exists_get?_of_fillTotal {needed : List String} {configured values : Sample}
    (h : fillTotal configured (phaseFilled needed configured) = .ok values) {name : String}
    (hname : name ∈ needed) :
    ∃ v, values.get? name = some v ∧ ∀ w, configured.get? name = some w → v = w := by
  obtain ⟨hother, htotal⟩ := get?_of_fillTotal h
  by_cases hphase : name ∈ apparentPowers.map (·.1)
  · obtain ⟨p, hp, rfl⟩ := List.mem_map.1 hphase
    rw [hother _ (phases_apart p hp).1, get?_phaseFilled hp]
    rcases hconf : configured.get? p.1 with _ | v
    · simp
    · simp [hname]
  · have hfilled : (phaseFilled needed configured).get? name =
        some ((configured.get? name).getD 0) := by
      rw [get?_phaseFilled_ne hphase, if_pos hname]
    by_cases htot : name = "s_total"
    · subst htot
      rcases hconf : configured.get? "s_total" with _ | v
      · simp only [hconf, Option.isSome_none, Bool.false_eq_true, if_false] at htotal
        obtain ⟨powers, -, hsum⟩ := htotal
        exact ⟨_, hsum, by simp⟩
      · simp only [hconf, Option.isSome_some, if_true] at htotal
        rw [htotal, hfilled, hconf]
        exact ⟨v, rfl, by simp⟩
    · rw [hother name htot, hfilled]
      refine ⟨_, rfl, fun w hw => ?_⟩
      rw [hw, Option.getD_some]

theorem expanded_of_fillTotal {needed : List String} {static : StaticValues} {values : Sample}
    (h : fillTotal static.values (phaseFilled needed static.values) = .ok values) :
    Expanded needed static.values (computeDerived values) := by
  obtain ⟨hother, htotal⟩ := get?_of_fillTotal h
  have hderived : ∀ name, name ∉ DERIVED_CANONICAL_KEYS →
      (computeDerived values).get? name = values.get? name :=
    fun name hname => get?_computeDerived_of_not_mem values hname
  have hplain : ∀ name, name ∉ filledNames →
      (computeDerived values).get? name = (phaseFilled needed static.values).get? name := by
    intro name hname
    have hne : name ≠ "s_total" := fun heq => hname (heq ▸ by simp [filledNames])
    have hnot : name ∉ DERIVED_CANONICAL_KEYS := fun hmem =>
      hname (List.mem_append_right _ (List.mem_cons_of_mem _ hmem))
    rw [hderived name hnot, hother name hne]
  have hphase : ∀ p ∈ apparentPowers,
      (computeDerived values).get? p.1 = (phaseFilled needed static.values).get? p.1 := by
    intro p hp
    rw [hderived _ (phases_apart p hp).2, hother _ (phases_apart p hp).1]
  refine ⟨fun name hname => ?_, fun name v hv hname => ?_, fun name hname hconf hnot => ?_,
    fun p hp hconf => ?_, fun hconf => ?_, ?_⟩
  · by_cases hnot : name ∈ DERIVED_CANONICAL_KEYS
    · exact Option.isSome_iff_exists.1
        (Dict.isSome_get?_iff.2 (mem_keys_computeDerived.2 (Or.inl hnot)))
    · obtain ⟨v, hv, -⟩ := exists_get?_of_fillTotal h hname
      exact ⟨v, (hderived name hnot).trans hv⟩
  · have hnot : name ∉ DERIVED_CANONICAL_KEYS := by
      have hkey : name ∈ static.values.keys := Dict.isSome_get?_iff.1 (by rw [hv]; rfl)
      exact keys_apart name (static.known name hkey)
    obtain ⟨w, hw, hsame⟩ := exists_get?_of_fillTotal h hname
    rw [hderived name hnot, hw, hsame v hv]
  · rw [hplain name hnot, get?_phaseFilled_ne (not_mem_phases hnot), if_pos hname, hconf]
    rfl
  · rw [hphase p hp, get?_phaseFilled hp, hconf, hplain _ (inputs_apart p hp).1,
      hplain _ (inputs_apart p hp).2]
    rfl
  · simp only [hconf, Option.isSome_none, Bool.false_eq_true, if_false] at htotal
    obtain ⟨powers, hpowers, hsum⟩ := htotal
    refine ⟨powers, ?_, (hderived "s_total" (by decide)).trans hsum⟩
    rw [← hpowers]
    exact List.map_congr_left hphase
  · rw [hderived "imp_energy_total" (by decide), hderived "exp_energy_total" (by decide)]
    simp [get?_computeDerived]

theorem expanded_of_eq_ok {registers : RegisterMap} {static : StaticValues} {values : Sample}
    (h : expandStaticValues registers static.values = .ok values) :
    Expanded registers.needed static.values values := by
  obtain ⟨filled, hfilled, h⟩ := Except.bind_eq_ok.1 h
  obtain rfl := Except.ok.inj h
  exact expanded_of_fillTotal hfilled

theorem expand_isOk {registers : RegisterMap} {configured : Sample} :
    (∃ values, expandStaticValues registers configured = .ok values) ↔
      ∃ values, fillTotal configured (phaseFilled registers.needed configured) = .ok values := by
  unfold expandStaticValues
  simp only [Except.bind_eq_ok]
  exact ⟨fun ⟨_, v, hv, _⟩ => ⟨v, hv⟩, fun ⟨v, hv⟩ => ⟨_, v, hv, rfl⟩⟩

/-- The expansion raises for an apparent power that is configured and read by no map, if their sum
is not configured, and is exact otherwise. -/
theorem expand_exact (registers : RegisterMap) (static : StaticValues) :
    ((∃ e, expandStaticValues registers static.values = .error e) ↔
      static.values.get? "s_total" = none ∧
        ∃ p ∈ apparentPowers, p.1 ∈ static.values.keys ∧ p.1 ∉ registers.needed) ∧
    ∀ values, expandStaticValues registers static.values = .ok values →
      Expanded registers.needed static.values values := by
  refine ⟨?_, fun values h => ?_⟩
  · rw [Except.exists_error_iff, expand_isOk, fillTotal_isOk, not_or]
    refine and_congr (by simp) ?_
    simp only [not_forall]
    refine exists_congr fun p => ?_
    rw [exists_prop]
    refine and_congr_right fun hp => ?_
    rw [get?_phaseFilled hp, ← Dict.isSome_get?_iff]
    rcases hconf : static.values.get? p.1 with _ | v
    · simp
    · by_cases hneed : p.1 ∈ registers.needed <;> simp [hneed]
  · exact expanded_of_eq_ok h

/-! ## The pipeline -/

omit [FloatArith] in
/-- `select_bridge`. The error is a `SystemExit`. -/
def selectBridge (config : AppConfig) (name : Option String) : Except PyExc BridgeConf :=
  match name with
  | none =>
    match config.bridgeSpecs with
    | [] => .error (.indexError "list index out of range")
    | spec :: _ => .ok spec
  | some name =>
    match config.bridgeSpecs.find? (·.name = name) with
    | some spec => .ok spec
    | none =>
      .error (.other "SystemExit" ("unknown bridge " ++ strRepr name ++ " (configured: " ++
        ", ".intercalate (config.bridgeSpecs.map (·.name)) ++ ")"))

/-- What `build_static_pipeline` builds. -/
structure StaticPipeline where
  registers : RegisterMap
  spec : BridgeConf
  values : Sample
  /-- The registers once the values are encoded for the first time. -/
  seeded : Datastore

def buildStaticPipeline (config : AppConfig) (registers : RegisterMap) (configured : Sample)
    (bridgeName : Option String) : Except PyExc StaticPipeline := do
  let spec ← selectBridge config bridgeName
  let values ← expandStaticValues registers configured
  match updateDatastore (bridgeContext registers spec.dtsu) values registers.targetSides
      spec.ctRatio with
  | (.error e, _) => .error e
  | (.ok (), seeded) => .ok ⟨registers, spec, values, seeded⟩

inductive FeederPc where
  /-- At the test of the stop event. -/
  | top
  /-- Awaiting the stop event or the feed interval. -/
  | waiting
  | ended (how : TaskEnd)

structure StaticRun where
  feeder : FeederPc := .top
  supervisor : Supervisor := {}
  served : Served
  /-- The latest reading of the clock. -/
  clock : Time
  /-- When the store was fed. -/
  feeds : List Time := []

inductive StaticEvent where
  /-- The loop condition of the feeder, and a feed at this reading. -/
  | feed (ts : Time)
  | waitEnds
  /-- The server supervisor starts an iteration. -/
  | check (t : Time) (isActive : Option Bool)
  | server (e : SupervisorEvent)

namespace StaticPipeline

variable (p : StaticPipeline)

def serverConf : SupervisorConf :=
  ⟨⟨p.spec.safety.maxDataAgeS⟩, p.spec.safety.minRestartIntervalS, (5 : ℕ)⟩

/-- A feed. The store is stamped before the values are encoded. -/
def feed (s : StaticRun) (ts : Time) : StaticRun :=
  let (updated, d) := updateDatastore s.served.datastore p.values p.registers.targetSides
    p.spec.ctRatio
  { s with
    feeder := match updated with
      | .ok () => .waiting
      | .error e => .ended (.raised e)
    served := ⟨d, s.served.store.update p.values ts⟩
    clock := ts
    feeds := s.feeds ++ [ts] }

def step (e : StaticEvent) (s : StaticRun) : Option StaticRun :=
  match e, s.feeder with
  | .feed ts, .top =>
    if s.supervisor.stopEvent then some { s with feeder := .ended .returned }
    else if s.clock ≤ ts then some (p.feed s ts)
    else none
  | .waitEnds, .waiting => some { s with feeder := .top }
  | .check t isActive, _ =>
    if s.clock ≤ t then
      (s.supervisor.step p.serverConf (.check t (s.served.store.age t) isActive)).map
        ({ s with supervisor := ·, clock := t })
    else none
  -- What a check reads is not free here.
  | .server (.check ..), _ => none
  | .server e, _ => (s.supervisor.step p.serverConf e).map ({ s with supervisor := · })
  | _, _ => none

/-- The runs of the two coroutines. -/
def system : System StaticRun StaticEvent where
  init s := ∃ clock, s = { served := ⟨p.seeded, {}⟩, clock := clock }
  step := p.step

end StaticPipeline

/-! ## What it serves -/

/-- Values that encode once encode into any registers. -/
theorem updateDatastore_of_targetWrites {values : Sample} {ctRatio : PyFloat}
    {target : List TargetSide} {ws : List RegisterWrite}
    (h : targetWrites values ctRatio target = .ok ws) (d : Datastore) :
    updateDatastore d values target ctRatio = (.ok (), d.writeAll ws) := by
  rcases updateDatastore_eq d values target ctRatio with ⟨ws', hws', hupdate⟩ | ⟨⟨q, hq, hno⟩, -⟩
  · obtain rfl := Except.ok.inj (h.symm.trans hws')
    exact hupdate
  · exact absurd (Except.exists_mapM_eq_ok.1 ⟨ws, h⟩ q hq) hno

/-- What a pipeline that is built has. -/
theorem buildStaticPipeline_eq_ok {config : AppConfig} {registers : RegisterMap}
    {configured : Sample} {bridgeName : Option String} {p : StaticPipeline}
    (h : buildStaticPipeline config registers configured bridgeName = .ok p) :
    p.registers = registers ∧ expandStaticValues registers configured = .ok p.values ∧
      ∃ ws, targetWrites p.values p.spec.ctRatio registers.targetSides = .ok ws ∧
        p.seeded = (bridgeContext registers p.spec.dtsu).writeAll ws := by
  obtain ⟨spec, -, h⟩ := Except.bind_eq_ok.1 h
  obtain ⟨values, hvalues, h⟩ := Except.bind_eq_ok.1 h
  rcases updateDatastore_eq (bridgeContext registers spec.dtsu) values registers.targetSides
    spec.ctRatio with ⟨ws, hws, hupdate⟩ | ⟨-, e, hupdate⟩
  · rw [hupdate] at h
    obtain rfl := Except.ok.inj h
    exact ⟨rfl, hvalues, ws, hws, rfl⟩
  · rw [hupdate] at h
    cases h

/-- The registers are what was written last, and what the supervisor last read of the feeds was no
fresher than they are. -/
structure StaticOk (p : StaticPipeline) (s : StaticRun) : Prop where
  registers : publishAll p.registers.targetSides p.spec.ctRatio
    (List.replicate (s.feeds.length + 1) p.values) (bridgeContext p.registers p.spec.dtsu) =
      some s.served.datastore
  feeder : ∀ exc, s.feeder ≠ .ended (.raised exc)
  stamp : s.served.store.ts = s.feeds.getLast?
  past : ∀ fed, s.feeds.getLast? = some fed → fed ≤ s.clock
  reading : ∀ r, s.supervisor.pc.reading = some r → p.serverConf.gate.shouldServe r.2 = true →
    ∃ fed, s.feeds.getLast? = some fed ∧ r.1 - fed ≤ p.spec.safety.maxDataAgeS
  supervisor : (supervisorSystem p.serverConf).Reachable s.supervisor

variable {p : StaticPipeline} {s s' : StaticRun}

theorem feed_staticOk {ws : List RegisterWrite}
    (hws : targetWrites p.values p.spec.ctRatio p.registers.targetSides = .ok ws)
    (h : StaticOk p s) {ts : Time} (hts : s.clock ≤ ts) : StaticOk p (p.feed s ts) := by
  have hupdate := updateDatastore_of_targetWrites hws s.served.datastore
  have hfeed : p.feed s ts = { s with
      feeder := .waiting
      served := ⟨s.served.datastore.writeAll ws, s.served.store.update p.values ts⟩
      clock := ts
      feeds := s.feeds ++ [ts] } := by
    rw [StaticPipeline.feed, hupdate]
  rw [hfeed]
  refine ⟨?_, nofun, by simp [CanonicalStore.update], ?_, fun r hr hfresh => ?_, h.supervisor⟩
  · rw [List.length_append, List.length_singleton, List.replicate_succ']
    exact publishAll_snoc h.registers hupdate
  · intro fed hfed
    obtain rfl : ts = fed := by simpa using hfed
    exact le_rfl
  · obtain ⟨fed, hfed, hage⟩ := h.reading r hr hfresh
    refine ⟨ts, by simp, le_trans ?_ hage⟩
    exact sub_le_sub_left ((h.past fed hfed).trans hts) r.1

/-- A step of the server supervisor. -/
theorem server_staticOk (h : StaticOk p s) {e : SupervisorEvent} {supervisor : Supervisor}
    (hs : s.supervisor.step p.serverConf e = some supervisor) {clock : Time}
    (hclock : s.clock ≤ clock)
    (hnew : ∀ r, e.reading = some r → r.2 = s.served.store.age r.1) :
    StaticOk p { s with supervisor := supervisor, clock := clock } := by
  refine ⟨h.registers, h.feeder, h.stamp, fun fed hfed => (h.past fed hfed).trans hclock,
    fun r hr hfresh => ?_, h.supervisor.step hs⟩
  rcases (supervisor_reads hs).reading r hr with hr | hr
  · exact h.reading r hr hfresh
  · rw [hnew r hr, HealthGate.shouldServe, decide_eq_true_iff, CanonicalStore.age_le_iff] at hfresh
    obtain ⟨ts, hts, hage⟩ := hfresh
    exact ⟨ts, h.stamp.symm.trans hts, hage⟩

theorem step_staticOk {ws : List RegisterWrite}
    (hws : targetWrites p.values p.spec.ctRatio p.registers.targetSides = .ok ws)
    (h : StaticOk p s) {e : StaticEvent} (hs : p.step e s = some s') : StaticOk p s' := by
  unfold StaticPipeline.step at hs
  split at hs
  next ts =>
    split_ifs at hs with hstop hts
    · obtain rfl := Option.some.inj hs
      exact ⟨h.registers, nofun, h.stamp, h.past, h.reading, h.supervisor⟩
    · obtain rfl := Option.some.inj hs
      exact feed_staticOk hws h hts
  next =>
    obtain rfl := Option.some.inj hs
    exact ⟨h.registers, nofun, h.stamp, h.past, h.reading, h.supervisor⟩
  next t isActive =>
    split_ifs at hs with ht
    obtain ⟨supervisor, hsup, rfl⟩ := Option.map_eq_some_iff.1 hs
    refine server_staticOk h hsup ht fun r hr => ?_
    obtain rfl := Option.some.inj hr
    rfl
  next => cases hs
  next e hno =>
    obtain ⟨supervisor, hsup, rfl⟩ := Option.map_eq_some_iff.1 hs
    refine server_staticOk h hsup le_rfl fun r hr => ?_
    rcases e with ⟨t, age, isActive⟩ | _ | _ | _ | _ | _
    · exact absurd rfl (hno t age isActive)
    all_goals cases hr
  next => cases hs

/-- Once a static pipeline is built, it serves the image of the expanded values, and nothing else,
in every run : no feed raises, and a server that is held at the end of an iteration of its
supervisor was found to be fed recently enough. -/
theorem static_served {config : AppConfig} {registers : RegisterMap} {static : StaticValues}
    {bridgeName : Option String}
    (hbuild : buildStaticPipeline config registers static.values bridgeName = .ok p)
    (hs : p.system.Reachable s) :
    Expanded registers.needed static.values p.values ∧
    (∀ exc, s.feeder ≠ .ended (.raised exc)) ∧
    (∃ ws, targetWrites p.values p.spec.ctRatio registers.targetSides = .ok ws ∧
      (∃ before : Datastore, s.served.datastore = before.writeAll ws) ∧
      (PointsFit registers.targetSides (bridgeContext registers p.spec.dtsu).lengths →
        s.served.datastore = (bridgeContext registers p.spec.dtsu).writeAll ws)) ∧
    s.served.store.ts = s.feeds.getLast? ∧
    ∀ t age, s.supervisor.pc = .waiting t age → s.supervisor.server.isSome = true →
      ∃ fed, s.feeds.getLast? = some fed ∧ t - fed ≤ p.spec.safety.maxDataAgeS := by
  obtain ⟨rfl, hexpand, ws, hws, hseeded⟩ := buildStaticPipeline_eq_ok hbuild
  have hok : StaticOk p s := by
    refine hs.invariant ?_ fun e s s' hok _ (hs : p.step e s = some s') =>
      step_staticOk hws hok hs
    rintro s ⟨clock, rfl⟩
    refine ⟨?_, nofun, rfl, nofun, nofun, .init rfl⟩
    simp [publishAll, updateDatastore_of_targetWrites hws, hseeded]
  have hlast : (List.replicate (s.feeds.length + 1) p.values).getLast? = some p.values := by
    simp [List.getLast?_replicate]
  refine ⟨?_, hok.feeder, ?_, hok.stamp, fun t age hpc hserver => ?_⟩
  · exact expanded_of_eq_ok hexpand
  · obtain ⟨before, ws', hws', hd⟩ := publishAll_getLast hok.registers hlast
    obtain rfl := Except.ok.inj (hws.symm.trans hws')
    refine ⟨ws, hws, ⟨before, hd⟩, fun hfit => ?_⟩
    have heq := publishAll_eq hok.registers hfit
    rw [hlast, sampleWrites] at heq
    simpa only [hws] using heq
  · have hheld := (reachable_ok hok.supervisor).2
    rw [PcOk, hpc] at hheld
    exact hok.reading (t, age) (by rw [hpc]; rfl) (hheld hserver)

end Float

/-- A frequency of 50 Hz. -/
def staticFreq : StaticValues where
  values := freqSample
  known := by decide
  finite := by
    intro name v h
    obtain ⟨-, rfl⟩ := Prod.mk.inj (List.mem_singleton.1 (Dict.mem_entries_of_get? h))
    rfl

/-- A feed, and a check a second later. -/
def oneFeed : List StaticEvent :=
  [.feed 0, .check 1 none]

/-- The check leaves a server held, on values that were fed a second before. -/
theorem static_served_oneFeed : ∃ p s,
    @buildStaticPipeline .double apartApp (freqMap 102) staticFreq.values none = .ok p ∧
    (@StaticPipeline.system .double p).Reachable s ∧
    s.supervisor.server.isSome = true ∧
      ∃ fed, s.feeds.getLast? = some fed ∧ 1 - fed ≤ p.spec.safety.maxDataAgeS := by
  have hrun : (@buildStaticPipeline .double apartApp (freqMap 102) staticFreq.values
      none).toOption.any (fun p => ((@StaticPipeline.system .double p).run oneFeed
        { served := ⟨p.seeded, {}⟩, clock := 0 }).any fun s =>
          s.supervisor.server.isSome && match s.supervisor.pc with
            | .waiting t _ => t = 1
            | .top | .closing _ | .cancelling _ | .returned => false) = true := by
    decide +kernel
  obtain ⟨p, hp, hrun⟩ := (Option.any_eq_true _ _).1 hrun
  obtain ⟨s, hs, hheld⟩ := (Option.any_eq_true _ _).1 hrun
  obtain ⟨hserver, hpc⟩ := (Bool.and_eq_true _ _).mp hheld
  have hbuild := Except.toOption_eq_some.1 hp
  have hreach : (@StaticPipeline.system .double p).Reachable s :=
    System.reachable_of_run (.init ⟨0, rfl⟩) oneFeed hs
  split at hpc
  next t age hwait =>
    obtain rfl : t = 1 := by simpa using hpc
    obtain ⟨-, -, -, -, hfed⟩ := @static_served .double p s apartApp _ staticFreq none hbuild hreach
    exact ⟨p, s, hbuild, hreach, hserver, hfed 1 age hwait hserver⟩
  all_goals cases hpc

end DtsuBridge
