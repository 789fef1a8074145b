import DtsuBridge.HubAge

/-!
# The staleness of the hub and the gate of the bridge

A block that the hub does not refresh is an error to its reader once it is older than
`stalenessThreshold`, the larger of the timeout and of three poll intervals. The product is
one of doubles, so that the threshold may lie next to three poll intervals. The validators
bound the maximum age of a bridge by two poll intervals from below and leave the timeout free.

`trips_before_gate_iff` : in an accepted configuration, the hub reports every block of a
bridge before it is older than the maximum age of the bridge exactly when the timeout is at
most the maximum age and three poll intervals do not pass the midpoint between the maximum
age and the next double.
-/

namespace DtsuBridge

/-! ## What is reported -/

/-- In every run, a read of a declared block errs once all that was delivered for it is older
than the limit. -/
def HubConnection.ReportsOlderThan (limit : Time) (conn₀ : HubConnection) : Prop :=
  ∀ key ∈ conn₀.blocks, ∀ events conn, (hubSystem conn₀).run events conn₀ = some conn →
    ∀ addr count, key.covers key.link key.unitId key.fc addr count = true →
      (∀ d ∈ deliveries conn₀.now events,
        d.covers key.link key.unitId key.fc addr count = true → limit < conn.now - d.receivedAt) →
      (conn.read key.link key.fc addr count key.unitId).isError = true

/-- An update of a block, and then nothing for some time. -/
def stopsAfter (key : BlockKey) (age : Time) : List HubEvent :=
  [.connect, .deliver ⟨key, List.replicate key.count.toNat 0, ""⟩, .advance age]

theorem exists_stopsAfter (blocks : List BlockKey) (maxStaleS : TimeLimit)
    (delayS delayMaxS start : Time) {age : Time} (key : BlockKey) (hage : 0 ≤ age) :
    ∃ conn, (hubSystem (.new blocks maxStaleS delayS delayMaxS start)).run (stopsAfter key age)
      (.new blocks maxStaleS delayS delayMaxS start) = some conn := by
  simp [stopsAfter, hubSystem, HubConnection.step, HubConnection.connect, HubConnection.new,
    HubConnection.deliver, hage]

/-- A block that the hub stops refreshing is served up to the threshold. -/
theorem read_stopsAfter {blocks : List BlockKey} {maxStaleS : TimeLimit}
    {delayS delayMaxS start age : Time} {conn : HubConnection} (key : BlockKey)
    (hrun : (hubSystem (.new blocks maxStaleS delayS delayMaxS start)).run (stopsAfter key age)
      (.new blocks maxStaleS delayS delayMaxS start) = some conn)
    (hage : (age : TimeLimit) ≤ maxStaleS) :
    (conn.read key.link key.fc key.base key.count key.unitId).isError = false := by
  have h := tracks_run hrun
  let d : Delivery := ⟨⟨key, List.replicate key.count.toNat 0, ""⟩, start⟩
  have hds : deliveries start (stopsAfter key age) = [d] := rfl
  have hcov : d.covers key.link key.unitId key.fc key.base key.count = true := by
    simp [d, Delivery.covers, BlockKey.covers]
  have hup : conn.cache.streamError = none := by
    refine h.up.2 ⟨by simp [stopsAfter], [.connect], _, [.advance age], rfl, ?_⟩
    simp
  have hlatest : Latest.IsLatest Delivery.receivedAt
      (·.covers key.link key.unitId key.fc key.base key.count)
      (deliveries start (stopsAfter key age)) d := by
    refine ⟨?_, hcov, ?_⟩
    · simp [hds]
    · simp [hds]
  have hbest := best_eq_some h (by simp [hds]) hlatest
  have hclock : conn.now - d.receivedAt = age := by
    rw [h.now]
    simp [stopsAfter, clockAfter, d]
  have hfresh : ((conn.now - d.receivedAt : Time) : TimeLimit) ≤ conn.cache.maxStaleS := by
    rw [hclock, h.maxStaleS]
    exact hage
  rw [HubConnection.read, BlockCache.lookup_of_best hup hbest rfl hfresh]
  rfl

/-- Between a limit and a later threshold lies an age. -/
theorem exists_age_between {limit : Time} {threshold : WithTop Time} (hpos : 0 ≤ threshold)
    (h : (limit : TimeLimit) < threshold) :
    ∃ age : Time, 0 ≤ age ∧ limit < age ∧ (age : TimeLimit) ≤ threshold := by
  cases threshold with
  | top =>
    refine ⟨|limit| + 1, by positivity, ?_, le_top⟩
    exact (le_abs_self limit).trans_lt (lt_add_one _)
  | coe t => exact ⟨t, WithTop.coe_le_coe.1 hpos, WithTop.coe_lt_coe.1 h, le_rfl⟩

/-- A connection reports every block before it is older than a limit exactly when the
threshold is at most the limit. -/
theorem reportsOlderThan_iff {blocks : List BlockKey} (hne : blocks ≠ []) {maxStaleS : TimeLimit}
    {delayS delayMaxS start : Time} (hpos : 0 ≤ maxStaleS) (limit : Time) :
    (HubConnection.new blocks maxStaleS delayS delayMaxS start).ReportsOlderThan limit ↔
      maxStaleS ≤ limit := by
  refine ⟨fun h => ?_, fun hle key _ events conn hrun addr count _ hold => ?_⟩
  · by_contra hlt
    obtain ⟨key, hkey⟩ := List.exists_mem_of_ne_nil _ hne
    obtain ⟨age, hage, hlimit, hfresh⟩ := exists_age_between hpos (not_le.1 hlt)
    obtain ⟨conn, hrun⟩ := exists_stopsAfter blocks maxStaleS delayS delayMaxS start key hage
    have herr := h key hkey _ conn hrun key.base key.count (by simp [BlockKey.covers]) ?_
    · rw [read_stopsAfter key hrun hfresh] at herr
      cases herr
    · intro d hd _
      obtain rfl := List.mem_singleton.1 hd
      rw [(tracks_run hrun).now]
      simpa [stopsAfter, clockAfter, HubConnection.new] using hlimit
  · by_contra herr
    have hread : (conn.read key.link key.fc addr count key.unitId).isError = false := by
      simpa using herr
    obtain ⟨d, hd, -, hcov, hage, -⟩ := (tracks_run hrun).read_isOk hread
    exact absurd (WithTop.coe_le_coe.1 (hage.trans hle)) (not_le.2 (hold d hd hcov))

/-- A bridge behind the hub has blocks. -/
theorem subscribedBlocks_ne_nil {name : String} {source : SourceConf} {side : SourceSide}
    {blocks : List BlockKey} (h : subscribedBlocks name source side = .ok blocks) :
    blocks ≠ [] := by
  have hblocks : ∀ {type : SourceType} {unitId : ℤ} {link : String} {blocks : List BlockKey},
      blocksForSource type side unitId link = .ok blocks → blocks ≠ [] := by
    intro type unitId link blocks h
    unfold blocksForSource at h
    split at h
    · obtain rfl := Except.ok.inj h
      simp [Nd45.READ_GROUPS]
    · dsimp only at h
      split_ifs at h with hnil
      obtain rfl := Except.ok.inj h
      exact hnil
  have hsingle : ∀ {c : SingleHostSourceConf} {type : SourceType},
      (if c.hubLink = "" then
        .error (.valueError (s!"bridge {strRepr name}: via_hub is set but hub_link is empty; " ++
          "it must name the link in the hub's own config that owns this device"))
      else blocksForSource type side c.unitId c.hubLink) = Except.ok blocks → blocks ≠ [] := by
    intro c type h
    split_ifs at h
    exact hblocks h
  cases source with
  | nd45 c => exact hsingle h
  | huawei c => exact hsingle h
  | etango c =>
    have hdevices := c.devicesOk
    unfold subscribedBlocks at h
    cases hc : c.devices with
    | nil =>
      rw [hc] at hdevices
      simp [checkDevices] at hdevices
    | cons device devices =>
      simp only [hc, deviceBlocks] at h
      split_ifs at h
      obtain ⟨first, hfirst, h⟩ := Except.bind_eq_ok.1 h
      obtain ⟨rest, -, h⟩ := Except.bind_eq_ok.1 h
      obtain rfl := Except.ok.inj h
      simp [hblocks hfirst]

/-! ## The settings of an accepted configuration -/

/-- Three poll intervals do not pass the midpoint between the double numbered `b` and the next
one. The midpoint itself rounds to the even significand. -/
def TripledFits (pollIntervalS : Time) (b : ℕ) : Prop :=
  2 * (pollIntervalS * 3) <
      (BinFormat.binary64.value b + BinFormat.binary64.value (b + 1) : ℚ) ∨
    2 * (pollIntervalS * 3) =
        (BinFormat.binary64.value b + BinFormat.binary64.value (b + 1) : ℚ) ∧
      BinFormat.binary64.mant b % 2 = 0

theorem roundTime_tripled_le_iff {pollIntervalS : Time} (hpos : 0 < pollIntervalS) {b : ℕ}
    (hb : b < BinFormat.binary64.infOrdinal) :
    roundTime (pollIntervalS * 3) ≤ ((BinFormat.binary64.value b : Time) : TimeLimit) ↔
      TripledFits pollIntervalS b := by
  have hnonneg : 0 ≤ pollIntervalS * 3 := by positivity
  have hneg : decide (pollIntervalS * 3 < 0) = false := decide_eq_false (not_lt.2 hnonneg)
  have hcast : ((pollIntervalS * 3).nnabs : ℚ) = pollIntervalS * 3 := by
    rw [Rat.coe_nnabs, abs_of_nonneg hnonneg]
  have hle : ∀ r : WithTop ℚ≥0, r.map (PyFloat.signed false) ≤
      ((BinFormat.binary64.value b : Time) : TimeLimit) ↔ r ≤ BinFormat.binary64.value b := by
    intro r
    cases r with
    | top => simp
    | coe q => simp [PyFloat.signed]
  rw [roundTime, hneg, hle, BinFormat.round_le_value_iff _ hb, TripledFits]
  generalize (pollIntervalS * 3).nnabs = q at hcast ⊢
  rw [← hcast]
  norm_cast

/-- The threshold is at most a double where the timeout is and three poll intervals fit. -/
theorem stalenessThreshold_le_iff {pollIntervalS timeoutS : Time} (hpos : 0 < pollIntervalS)
    {b : ℕ} (hb : b < BinFormat.binary64.infOrdinal) :
    stalenessThreshold pollIntervalS timeoutS ≤ ((BinFormat.binary64.value b : Time) : TimeLimit) ↔
      timeoutS ≤ BinFormat.binary64.value b ∧ TripledFits pollIntervalS b := by
  rw [stalenessThreshold, max_le_iff, WithTop.coe_le_coe, roundTime_tripled_le_iff hpos hb]

/-- In an accepted configuration, with the double numbered `b` as the maximum age of a bridge
behind the hub : the threshold is at most the maximum age, and the connection reports every
block before it is older than that, exactly when the timeout is at most the maximum age and
three poll intervals do not pass the midpoint to the next double. -/
theorem trips_before_gate_iff (c : AppConfig) : ∀ spec ∈ c.bridgeSpecs,
    spec.source.base.viaHub = true →
    ∀ b < BinFormat.binary64.infOrdinal, spec.safety.maxDataAgeS = BinFormat.binary64.value b →
      (stalenessThreshold spec.source.base.pollIntervalS spec.source.base.timeoutS ≤
          spec.safety.maxDataAgeS ↔
        spec.source.base.timeoutS ≤ spec.safety.maxDataAgeS ∧
          TripledFits spec.source.base.pollIntervalS b) ∧
      ∀ side start conn₀, makeHubConnection spec.name spec.source side start = .ok conn₀ →
        (conn₀.ReportsOlderThan spec.safety.maxDataAgeS ↔
          spec.source.base.timeoutS ≤ spec.safety.maxDataAgeS ∧
            TripledFits spec.source.base.pollIntervalS b) := by
  intro spec _ _ b hb hage
  have hiff := @stalenessThreshold_le_iff spec.source.base.pollIntervalS
    spec.source.base.timeoutS spec.source.base.pollInterval_pos b hb
  rw [hage]
  refine ⟨hiff, fun side start conn₀ hconn => ?_⟩
  obtain ⟨blocks, hblocks, hconn⟩ := Except.bind_eq_ok.1 hconn
  obtain rfl := Except.ok.inj hconn
  have hpos : 0 ≤ stalenessThreshold spec.source.base.pollIntervalS spec.source.base.timeoutS :=
    le_max_of_le_left (WithTop.coe_le_coe.2 spec.source.base.timeout_pos.le)
  exact (reportsOlderThan_iff (subscribedBlocks_ne_nil hblocks) hpos _).trans hiff

/-! ## A maximum age below the timeout -/

/-- A poll interval of 0.25 s. -/
theorem quarter_pos : (0 : Time) < (1 : ℕ) / (4 : ℕ) := by norm_num

/-- An ND45 behind the hub, with a timeout of 1 s. -/
def quarterConf : SourceConf := .nd45
  { pollIntervalS := (1 : ℕ) / (4 : ℕ), timeoutS := 1, stallTimeoutS := 30
    registerMap := "nd45_source", viaHub := true, hubLink := "meter", host := "nd45", unitId := 1
    pollInterval_pos := quarter_pos, timeout_pos := hubTimeout_pos
    stallTimeout_pos := hubStallTimeout_pos, ok := by decide +kernel }

/-- Its bridge. -/
def hubBridge (maxAge : Time) : BridgeConf :=
  { mainBridge with
    source := quarterConf
    safety := { maxDataAgeS := maxAge }
    usable := mainBridge.usable }

/-- A maximum age of 3 s. -/
def hubApp : AppConfig where
  toAppFields := { wildcardApp.toAppFields with bridges := [hubBridge (3 : ℕ)] }
  accepted := by decide +kernel

/-- Its connection reports every block in time. -/
theorem trips_before_gate_iff_hubApp : ∃ conn₀,
    makeHubConnection "main" quarterConf freqSource 0 = .ok conn₀ ∧
      conn₀.ReportsOlderThan (3 : ℕ) := by
  have hmem : hubBridge (3 : ℕ) ∈ hubApp.bridgeSpecs := List.mem_singleton_self _
  obtain ⟨-, h⟩ := trips_before_gate_iff hubApp _ hmem rfl (BinFormat.binary64.ordinal (3 : ℕ))
    (by decide +kernel) (by decide +kernel)
  refine ⟨_, rfl, (h freqSource 0 _ rfl).2 ⟨by decide +kernel, Or.inl ?_⟩⟩
  decide +kernel

/-- A maximum age of 0.75 s, which is more than two poll intervals. -/
def briefApp : AppConfig where
  toAppFields := { wildcardApp.toAppFields with bridges := [hubBridge ((3 : ℕ) / (4 : ℕ))] }
  accepted := by decide +kernel

/-- It is accepted, the threshold is above the maximum age, and 0.875 s after the hub stopped
refreshing a block a read of it succeeds. -/
theorem trips_after_gate : ∃ spec ∈ briefApp.bridgeSpecs,
    spec.source.base.viaHub = true ∧
    (spec.safety.maxDataAgeS : TimeLimit) <
      stalenessThreshold spec.source.base.pollIntervalS spec.source.base.timeoutS ∧
    ∃ conn₀ conn key, makeHubConnection spec.name spec.source freqSource 0 = .ok conn₀ ∧
      key ∈ conn₀.blocks ∧
      (hubSystem conn₀).run (stopsAfter key (7 / 8)) conn₀ = some conn ∧
      (conn.read key.link key.fc key.base key.count key.unitId).isError = false ∧
      ∀ d ∈ deliveries 0 (stopsAfter key (7 / 8)), spec.safety.maxDataAgeS <
        conn.now - d.receivedAt := by
  let key : BlockKey := ⟨"meter", 1, 3, 50, 96⟩
  obtain ⟨conn, hrun⟩ := exists_stopsAfter meterKeys (stalenessThreshold ((1 : ℕ) / (4 : ℕ)) 1)
    1 30 0 key (show (0 : Time) ≤ 7 / 8 by decide +kernel)
  refine ⟨_, List.mem_singleton_self _, rfl, by decide +kernel, _, conn, key, rfl,
    List.mem_cons_self, hrun, read_stopsAfter key hrun (by decide +kernel), fun d hd => ?_⟩
  obtain rfl := List.mem_singleton.1 hd
  rw [(tracks_run hrun).now]
  decide +kernel

end DtsuBridge
