import DtsuBridge.AppConfig
import DtsuBridge.HubEquiv
import DtsuBridge.Publish
import DtsuBridge.Registers
import DtsuBridge.Lib.Run

/-!
# How long a poll cycle takes

The loop of `run_poller` in time. A poll awaits its reads one after another, a read that
goes to the device takes up to the timeout of the source, and one that goes to the hub is
a look into its cache. A poll that returns has had an answer to each of its reads
(`pollReads_le_of_isOk`). What it returns is published, and the loop waits for one poll
interval. The runs are those in which every read succeeds in time and every sample is
published, left alone by the supervisor : a teardown cancels a read.

`stamps_in_time_iff` : no gap between two stamps exceeds the maximum age of the bridge, and
the health gate stays open from the first stamp on, exactly when the source is read through
the hub, or no answers of it make a sample that can be published, or the timeouts of all
reads of a poll and one poll interval fit in the maximum age.
-/

namespace DtsuBridge

/-! ## The reads of a poll -/

/-- The reads of a poll, device by device. -/
def pollReads (source : SourceConf) (side : SourceSide) : List Request :=
  (hubDevices source).flatMap fun device => requestsOf source.type side device.1

/-- The reads of one device. -/
def readsPerDevice (source : SourceConf) (side : SourceSide) : ℕ :=
  (requestsOf source.type side source.unitId).length

theorem length_requestsOf (type : SourceType) (side : SourceSide) (slave slave' : ℤ) :
    (requestsOf type side slave).length = (requestsOf type side slave').length := by
  rcases type <;> simp [requestsOf]

theorem length_pollReads (source : SourceConf) (side : SourceSide) :
    (pollReads source side).length = (hubDevices source).length * readsPerDevice source side := by
  unfold pollReads readsPerDevice
  rw [List.length_flatMap, List.map_congr_left fun device _ =>
    length_requestsOf source.type side device.1 source.unitId]
  simp

/-- A source that is built reads something. -/
theorem pollReads_pos {source : SourceConf} {side : SourceSide}
    (hcov : validateCoverage source.type side = .ok ()) : 0 < (pollReads source side).length := by
  rw [length_pollReads]
  refine Nat.mul_pos ?_ ?_
  · rcases source with c | c | c
    · exact Nat.one_pos
    · exact Nat.one_pos
    · obtain ⟨device, hd, -⟩ := c.exists_aggregate
      simpa [hubDevices] using List.length_pos_of_mem hd
  · unfold readsPerDevice
    rcases source with c | c | c
    · simp [requestsOf, SourceConf.type, Nd45.READ_GROUPS]
    · have hne := readGroups_of_huawei hcov
      simpa [requestsOf, SourceConf.type, List.length_pos_iff] using hne
    · have hne := readGroups_of_etango hcov
      simpa [requestsOf, SourceConf.type, List.length_pos_iff] using hne

/-- A device that has answered reads from one place in a list on, the rest pending. -/
def answeredClient (answers : List Response) (start : ℕ) : Client := fun n _ =>
  match answers[start + n]? with
  | some rr => .ok rr
  | none => .error (.other "pending" "")

section Float

variable [FloatArith]

/-- What a poll comes to, given the answers to its first reads. -/
def pollAnswered (source : SourceConf) (side : SourceSide) (answers : List Response)
    (overrangeSeen : Option (Finset String)) : PollOutcome :=
  pollOnceFn source.type
    (makeClient source fun i => answeredClient answers (i * readsPerDevice source side)) side
    source.unitId overrangeSeen

/-- A poll that returns has had an answer to each of its reads. -/
theorem pollReads_le_of_isOk {source : SourceConf} {side : SourceSide} {answers : List Response}
    {seen : Option (Finset String)} {values : Sample}
    (hcov : validateCoverage source.type side = .ok ())
    (h : (pollAnswered source side answers seen).result = .ok values) :
    (pollReads source side).length ≤ answers.length := by
  have hpos := pollReads_pos hcov
  rw [length_pollReads] at hpos ⊢
  have hdevices : 0 < (hubDevices source).length := Nat.pos_of_mul_pos_right hpos
  have hreads : 0 < readsPerDevice source side := Nat.pos_of_mul_pos_left hpos
  -- The last read of the last device.
  obtain ⟨device, hdevice⟩ : ∃ device,
      (hubDevices source)[(hubDevices source).length - 1]? = some device :=
    ⟨_, List.getElem?_eq_getElem (Nat.sub_one_lt_of_lt hdevices)⟩
  have hlen : readsPerDevice source side = (requestsOf source.type side device.1).length :=
    length_requestsOf source.type side source.unitId device.1
  obtain ⟨req, hreq⟩ : ∃ req,
      (requestsOf source.type side device.1)[readsPerDevice source side - 1]? = some req :=
    ⟨_, List.getElem?_eq_getElem (hlen ▸ Nat.sub_one_lt_of_lt hreads)⟩
  obtain ⟨rr, hrr, -⟩ := answered_of_isOk h hdevice hreq
  have hlt : ((hubDevices source).length - 1) * readsPerDevice source side +
      (readsPerDevice source side - 1) < answers.length := by
    by_contra hle
    unfold answeredClient at hrr
    rw [List.getElem?_eq_none (not_lt.1 hle)] at hrr
    cases hrr
  have hall : ((hubDevices source).length - 1 + 1) * readsPerDevice source side =
      (hubDevices source).length * readsPerDevice source side := by
    rw [Nat.sub_add_cancel hdevices]
  rw [Nat.add_mul] at hall
  omega

/-! ## The muted warnings -/

/-- The warnings muted so far have no say in what the point loop of an ND45 gathers. -/
theorem pollPoints_seen {side : SourceSide} {groups : Blocks} :
    ∀ {points : List (String × SourcePoint)} {acc acc' : Nd45.Gathered},
      acc.values = acc'.values → acc.invalidCritical = acc'.invalidCritical →
        (Nd45.pollPoints side groups points acc).1 = (Nd45.pollPoints side groups points acc').1 ∧
        (Nd45.pollPoints side groups points acc).2.values =
          (Nd45.pollPoints side groups points acc').2.values ∧
        (Nd45.pollPoints side groups points acc).2.invalidCritical =
          (Nd45.pollPoints side groups points acc').2.invalidCritical
  | [], acc, acc', hv, hc => ⟨rfl, hv, hc⟩
  | (key, pt) :: points, acc, acc', hv, hc => by
    unfold Nd45.pollPoints
    rcases Nd45.decode side groups pt with e | ⟨raw, si⟩
    · exact ⟨rfl, hv, hc⟩
    · refine pollPoints_seen ?_ ?_
      · unfold Nd45.Gathered.record
        dsimp only
        split_ifs <;> simp [hv]
      · unfold Nd45.Gathered.record
        dsimp only
        split_ifs <;> simp [hc]

/-- Nor in the result of a poll. -/
theorem pollAnswered_seen (source : SourceConf) (side : SourceSide) (answers : List Response)
    (seen : Option (Finset String)) :
    (pollAnswered source side answers seen).result =
      (pollAnswered source side answers none).result := by
  rcases source with c | c | c
  · change (Nd45.pollOnce (answeredClient answers _) side c.unitId seen).result =
      (Nd45.pollOnce (answeredClient answers _) side c.unitId none).result
    unfold Nd45.pollOnce
    rcases Nd45.readGroups (answeredClient answers _) c.unitId with e | groups
    · rfl
    · dsimp only
      obtain ⟨hr, hv, hc⟩ := @pollPoints_seen _ side groups side.points.entries
        { notes := ⟨seen, []⟩ } { notes := ⟨none, []⟩ } rfl rfl
      revert hr hv hc
      rcases Nd45.pollPoints side groups side.points.entries { notes := ⟨seen, []⟩ } with
        ⟨e | ⟨⟩, acc⟩ <;>
        rcases Nd45.pollPoints side groups side.points.entries { notes := ⟨none, []⟩ } with
          ⟨e' | ⟨⟩, acc'⟩ <;> intro hr hv hc
      · cases hr
        rfl
      · cases hr
      · cases hr
      · dsimp only at hv hc ⊢
        rw [hv, hc]
        split_ifs <;> rfl
  · change (Huawei.pollOnce (answeredClient answers _) side c.unitId seen).result =
      (Huawei.pollOnce (answeredClient answers _) side c.unitId none).result
    unfold Huawei.pollOnce
    rcases Huawei.readGroups (answeredClient answers _) side c.unitId with e | groups
    · rfl
    · dsimp only
      rcases Huawei.decodeSource side groups with e | values
      · rfl
      · dsimp only
        rcases applyDerive (Huawei.scrub values) side.derive with e | derived
        · rfl
        · rfl
  · rfl

/-! ## The loop in time -/

/-- The CT ratio of a bridge. -/
def BridgeConf.ctRatio (spec : BridgeConf) : PyFloat := .lit (spec.dtsu.identity.irAt : ℕ)

/-- A bridge with the section it decodes, which `build_pipeline` finds and validates. -/
structure BuiltBridge where
  spec : BridgeConf
  registers : RegisterMap
  side : SourceSide
  found : registers.sourceByName spec.source.base.registerMap = .ok side
  covered : validateCoverage spec.source.type side = .ok ()

namespace BuiltBridge

/-- The reads of one poll. -/
def reads (b : BuiltBridge) : ℕ := (pollReads b.spec.source b.side).length

/-- The longest that a read takes. The cache of the hub is read at once. -/
def readLimit (b : BuiltBridge) : Time :=
  if b.spec.source.base.viaHub then 0 else b.spec.source.base.timeoutS

def interval (b : BuiltBridge) : Time := b.spec.source.base.pollIntervalS

/-- The gate of the server supervisor. -/
def gate (b : BuiltBridge) : HealthGate := ⟨b.spec.safety.maxDataAgeS⟩

end BuiltBridge

/-- Where the loop is, and how long it has been there. -/
inductive TimedPc where
  /-- In the read after those answered. -/
  | reading (answers : List Response) (elapsed : Time)
  /-- In the wait after a poll. -/
  | waiting (elapsed : Time)

structure TimedLoop where
  clock : Time
  pc : TimedPc := .reading [] 0
  overrangeSeen : Option (Finset String) := some ∅
  served : Served
  /-- When the store was stamped. -/
  stamps : List Time := []

inductive TimedEvent where
  | tick (dt : Time)
  | answer (rr : Response)
  /-- The wait times out. -/
  | interval

/-- The step of an event, where the run goes on as it should. -/
def BuiltBridge.step (b : BuiltBridge) (e : TimedEvent) (s : TimedLoop) : Option TimedLoop :=
  match e, s.pc with
  | .tick dt, .reading answers elapsed =>
    if 0 ≤ dt ∧ elapsed + dt ≤ b.readLimit then
      some { s with clock := s.clock + dt, pc := .reading answers (elapsed + dt) }
    else none
  | .tick dt, .waiting elapsed =>
    if 0 ≤ dt ∧ elapsed + dt ≤ b.interval then
      some { s with clock := s.clock + dt, pc := .waiting (elapsed + dt) }
    else none
  | .answer rr, .reading answers _ =>
    let answers := answers ++ [rr]
    let outcome := pollAnswered b.spec.source b.side answers s.overrangeSeen
    match outcome.result with
    | .ok values =>
      match onUpdate b.registers.targetSides b.spec.ctRatio s.served values s.clock with
      | (.ok (), served) =>
        some { s with
          pc := .waiting 0
          overrangeSeen := outcome.notes.overrangeSeen
          served := served
          stamps := s.stamps ++ [s.clock] }
      -- The sample is not encodable.
      | (.error _, _) => none
    | .error _ =>
      -- With all reads answered the poll has raised.
      if answers.length < b.reads then some { s with pc := .reading answers 0 } else none
  | .interval, .waiting elapsed =>
    if elapsed = b.interval then some { s with pc := .reading [] 0 } else none
  | _, _ => none

/-- The runs of the loop in which every read succeeds in time and every sample is
published. -/
def BuiltBridge.timedSystem (b : BuiltBridge) : System TimedLoop TimedEvent where
  init s := ∃ clock, s =
    { clock := clock, served := ⟨bridgeContext b.registers b.spec.dtsu, {}⟩ }
  step := b.step

/-- Answers to all reads of a poll whose sample is published. -/
def BuiltBridge.Publishes (b : BuiltBridge) (answers : List Response) : Prop :=
  answers.length = b.reads ∧
    ∃ values, (pollAnswered b.spec.source b.side answers none).result = .ok values ∧
      ∃ ws, targetWrites values b.spec.ctRatio b.registers.targetSides = .ok ws

/-- No gap between two stamps exceeds the maximum age, and the gate is open from the first
stamp on. -/
structure BuiltBridge.InTime (b : BuiltBridge) (s : TimedLoop) : Prop where
  gaps : s.stamps.IsChain fun t t' => t' - t ≤ b.spec.safety.maxDataAgeS
  gate : s.stamps ≠ [] → b.gate.shouldServe (s.served.store.age s.clock) = true

/-! ## What a step does -/

variable {b : BuiltBridge} {s s' : TimedLoop} {e : TimedEvent}

theorem onUpdate_isOk_iff {target : List TargetSide} {ctRatio : PyFloat} {served : Served}
    {values : Sample} {ts : Time} :
    (onUpdate target ctRatio served values ts).1 = .ok () ↔
      ∃ ws, targetWrites values ctRatio target = .ok ws := by
  unfold onUpdate targetWrites
  rcases updateDatastore_eq served.datastore values target ctRatio with
    ⟨ws, hws, h⟩ | ⟨⟨p, hp, hno⟩, e, h⟩
  · rw [h]
    exact ⟨fun _ => ⟨ws, hws⟩, fun _ => rfl⟩
  · rw [h]
    exact ⟨nofun, fun hws => absurd (Except.exists_mapM_eq_ok.1 hws p hp) hno⟩

/-- Every step of the loop. -/
theorem timedStep_cases (h : b.step e s = some s') :
    (∃ dt answers elapsed, s.pc = .reading answers elapsed ∧ 0 ≤ dt ∧
        elapsed + dt ≤ b.readLimit ∧
        s' = { s with clock := s.clock + dt, pc := .reading answers (elapsed + dt) }) ∨
      (∃ dt elapsed, s.pc = .waiting elapsed ∧ 0 ≤ dt ∧ elapsed + dt ≤ b.interval ∧
        s' = { s with clock := s.clock + dt, pc := .waiting (elapsed + dt) }) ∨
      (∃ rr answers elapsed, s.pc = .reading answers elapsed ∧
        answers.length + 1 < b.reads ∧ s' = { s with pc := .reading (answers ++ [rr]) 0 }) ∨
      (∃ rr answers elapsed values seen d, s.pc = .reading answers elapsed ∧
        (pollAnswered b.spec.source b.side (answers ++ [rr]) s.overrangeSeen).result =
          .ok values ∧
        (∃ ws, targetWrites values b.spec.ctRatio b.registers.targetSides = .ok ws) ∧
        s' = { s with
          pc := .waiting 0
          overrangeSeen := seen
          served := ⟨d, ⟨values, some s.clock⟩⟩
          stamps := s.stamps ++ [s.clock] }) ∨
      s.pc = .waiting b.interval ∧ s' = { s with pc := .reading [] 0 } := by
  unfold BuiltBridge.step at h
  split at h
  next dt answers elapsed hpc =>
    split_ifs at h with hdt
    exact Or.inl ⟨dt, answers, elapsed, hpc, hdt.1, hdt.2, (Option.some.inj h).symm⟩
  next dt elapsed hpc =>
    split_ifs at h with hdt
    exact Or.inr (Or.inl ⟨dt, elapsed, hpc, hdt.1, hdt.2, (Option.some.inj h).symm⟩)
  next rr answers elapsed hpc =>
    dsimp only at h
    split at h
    next values hpoll =>
      rcases onUpdate_cases b.registers.targetSides b.spec.ctRatio s.served values s.clock with
        ⟨e, he⟩ | ⟨d, -, hok⟩
      · rw [he] at h
        cases h
      · have hws := onUpdate_isOk_iff.1 (congrArg Prod.fst hok)
        rw [hok] at h
        exact Or.inr (Or.inr (Or.inr (Or.inl
          ⟨rr, answers, elapsed, values, _, d, hpc, hpoll, hws, (Option.some.inj h).symm⟩)))
    next =>
      split_ifs at h with hlen
      rw [List.length_append, List.length_singleton] at hlen
      exact Or.inr (Or.inr (Or.inl ⟨rr, answers, elapsed, hpc, hlen, (Option.some.inj h).symm⟩))
  next elapsed hpc =>
    split_ifs at h with hel
    exact Or.inr (Or.inr (Or.inr (Or.inr ⟨hel ▸ hpc, (Option.some.inj h).symm⟩)))
  next => cases h

/-! ## The longest cycle -/

omit [FloatArith] in
theorem BuiltBridge.readLimit_nonneg (b : BuiltBridge) : 0 ≤ b.readLimit := by
  unfold readLimit
  split_ifs
  · exact le_rfl
  · exact b.spec.source.base.timeout_pos.le

/-- The longest that a poll and the wait before it take. -/
def BuiltBridge.cycleTime (b : BuiltBridge) : Time := b.interval + b.reads * b.readLimit

/-- The longest that the loop may have spent since the last stamp. -/
def TimedPc.spent (b : BuiltBridge) : TimedPc → Time
  | .reading answers elapsed => b.interval + (answers.length * b.readLimit + elapsed)
  | .waiting elapsed => elapsed

/-- A poll has reads left, and no await has lasted too long. -/
def TimedPc.Ok (b : BuiltBridge) : TimedPc → Prop
  | .reading answers elapsed => answers.length < b.reads ∧ elapsed ≤ b.readLimit
  | .waiting elapsed => elapsed ≤ b.interval

omit [FloatArith] in
theorem TimedPc.Ok.spent_le {pc : TimedPc} (h : pc.Ok b) : pc.spent b ≤ b.cycleTime := by
  have hlimit := b.readLimit_nonneg
  rcases pc with ⟨answers, elapsed⟩ | elapsed
  · obtain ⟨hlen, hel⟩ := h
    have hlen : (answers.length : Time) + 1 ≤ b.reads := by exact_mod_cast hlen
    have := mul_le_mul_of_nonneg_right hlen hlimit
    unfold spent BuiltBridge.cycleTime
    linarith
  · have hpos : (0 : Time) ≤ b.reads * b.readLimit :=
      mul_nonneg (Nat.cast_nonneg _) hlimit
    exact (show elapsed ≤ b.interval from h).trans (le_add_of_nonneg_right hpos)

/-- The loop stamps at least once a cycle, and only what is published. -/
structure Paced (b : BuiltBridge) (s : TimedLoop) : Prop where
  pcOk : s.pc.Ok b
  since : ∀ last ∈ s.stamps.getLast?, s.clock - last ≤ s.pc.spent b
  store : s.served.store.ts = s.stamps.getLast?
  gaps : s.stamps.IsChain fun t t' => t' - t ≤ b.cycleTime
  published : s.stamps ≠ [] → ∃ answers, b.Publishes answers

/-- One step keeps the pace. -/
theorem timedStep_paced (hs : Paced b s) (h : b.step e s = some s') : Paced b s' := by
  obtain ⟨hok, hsince, hstore, hgaps, hpub⟩ := hs
  rcases timedStep_cases h with ⟨dt, answers, elapsed, hpc, hdt, hle, rfl⟩ |
    ⟨dt, elapsed, hpc, hdt, hle, rfl⟩ | ⟨rr, answers, elapsed, hpc, hlen, rfl⟩ |
    ⟨rr, answers, elapsed, values, seen, d, hpc, hpoll, hws, rfl⟩ | ⟨hpc, rfl⟩
  · rw [hpc] at hok hsince
    refine ⟨⟨hok.1, hle⟩, fun last hlast => ?_, hstore, hgaps, hpub⟩
    have := hsince last hlast
    simp only [TimedPc.spent] at this ⊢
    linarith
  · rw [hpc] at hok hsince
    refine ⟨hle, fun last hlast => ?_, hstore, hgaps, hpub⟩
    have := hsince last hlast
    simp only [TimedPc.spent] at this ⊢
    linarith
  · rw [hpc] at hok hsince
    refine ⟨⟨by simpa using hlen, b.readLimit_nonneg⟩, fun last hlast => ?_, hstore, hgaps, hpub⟩
    have := hsince last hlast
    simp only [TimedPc.spent, List.length_append, List.length_singleton, Nat.cast_add,
      Nat.cast_one] at this ⊢
    linarith [hok.2]
  · have hcycle := hok.spent_le
    rw [hpc] at hok
    have hreads := pollReads_le_of_isOk b.covered hpoll
    have hlen : (answers ++ [rr]).length = b.reads := by
      refine le_antisymm ?_ hreads
      simpa using hok.1
    refine ⟨(show (0 : Time) ≤ b.interval from b.spec.source.base.pollInterval_pos.le),
      fun last hlast => ?_, by simp, List.isChain_append.2 ⟨hgaps, List.isChain_singleton _, ?_⟩,
      fun _ => ⟨answers ++ [rr], hlen, values, ?_, hws⟩⟩
    · obtain rfl : s.clock = last := by simpa using hlast
      simp [TimedPc.spent]
    · rintro last hlast t ht
      obtain rfl : s.clock = t := by simpa using ht
      exact (hsince last hlast).trans hcycle
    · rwa [← pollAnswered_seen]
  · rw [hpc] at hsince
    refine ⟨⟨pollReads_pos b.covered, b.readLimit_nonneg⟩, fun last hlast => ?_, hstore, hgaps,
      hpub⟩
    simpa [TimedPc.spent] using hsince last hlast

theorem reachable_paced (h : b.timedSystem.Reachable s) : Paced b s := by
  refine h.invariant ?_ fun e s s' hs _ (hstep : b.step e s = some s') =>
    timedStep_paced hs hstep
  rintro s ⟨clock, rfl⟩
  exact ⟨⟨pollReads_pos b.covered, b.readLimit_nonneg⟩, by simp, rfl, List.isChain_nil, by simp⟩

/-- A cycle that fits in the maximum age keeps the bridge in time. -/
theorem inTime_of_cycleTime_le (hcycle : b.cycleTime ≤ b.spec.safety.maxDataAgeS)
    (h : b.timedSystem.Reachable s) : b.InTime s := by
  obtain ⟨hok, hsince, hstore, hgaps, -⟩ := reachable_paced h
  refine ⟨hgaps.imp fun t t' hgap => hgap.trans hcycle, fun hne => ?_⟩
  obtain ⟨last, hlast⟩ := Option.isSome_iff_exists.1 (List.getLast?_isSome.2 hne)
  refine decide_eq_true (CanonicalStore.age_le_iff.2 ⟨last, hstore.trans hlast, ?_⟩)
  exact (hsince last hlast).trans (hok.spent_le.trans hcycle)

/-! ## The slowest run -/

theorem step_tick_reading {answers : List Response} {elapsed dt : Time}
    (hpc : s.pc = .reading answers elapsed) (hdt : 0 ≤ dt) (hle : elapsed + dt ≤ b.readLimit) :
    b.step (.tick dt) s =
      some { s with clock := s.clock + dt, pc := .reading answers (elapsed + dt) } := by
  unfold BuiltBridge.step
  rw [hpc]
  exact if_pos ⟨hdt, hle⟩

theorem step_tick_waiting {elapsed dt : Time} (hpc : s.pc = .waiting elapsed) (hdt : 0 ≤ dt)
    (hle : elapsed + dt ≤ b.interval) :
    b.step (.tick dt) s =
      some { s with clock := s.clock + dt, pc := .waiting (elapsed + dt) } := by
  unfold BuiltBridge.step
  rw [hpc]
  exact if_pos ⟨hdt, hle⟩

theorem step_interval (hpc : s.pc = .waiting b.interval) :
    b.step .interval s = some { s with pc := .reading [] 0 } := by
  unfold BuiltBridge.step
  rw [hpc]
  exact if_pos rfl

/-- A poll with reads left awaits the next. -/
theorem step_answer_more {answers : List Response} {elapsed : Time} {rr : Response}
    (hpc : s.pc = .reading answers elapsed) (hlen : answers.length + 1 < b.reads) :
    b.step (.answer rr) s = some { s with pc := .reading (answers ++ [rr]) 0 } := by
  have hlen : (answers ++ [rr]).length < b.reads := by simpa using hlen
  unfold BuiltBridge.step
  rw [hpc]
  dsimp only
  rcases hpoll : (pollAnswered b.spec.source b.side (answers ++ [rr]) s.overrangeSeen).result with
    err | values
  · exact if_pos hlen
  · exact absurd (pollReads_le_of_isOk b.covered hpoll) (not_le.2 hlen)

/-- The last answer of a poll whose sample is published. -/
theorem step_answer_last {answers : List Response} {elapsed : Time} {rr : Response}
    (hpc : s.pc = .reading answers elapsed) (hpub : b.Publishes (answers ++ [rr])) :
    ∃ s', b.step (.answer rr) s = some s' ∧ s'.pc = .waiting 0 ∧ s'.clock = s.clock ∧
      s'.stamps = s.stamps ++ [s.clock] := by
  obtain ⟨-, values, hpoll, hws⟩ := hpub
  rw [← pollAnswered_seen _ _ _ s.overrangeSeen] at hpoll
  unfold BuiltBridge.step
  rw [hpc]
  dsimp only
  rw [hpoll]
  dsimp only
  have hisOk : (onUpdate b.registers.targetSides b.spec.ctRatio s.served values s.clock).1 =
    .ok () := onUpdate_isOk_iff.2 hws
  rcases onUpdate_cases b.registers.targetSides b.spec.ctRatio s.served values s.clock with
    ⟨err, herr⟩ | ⟨d, -, hok⟩
  · rw [herr] at hisOk
    cases hisOk
  · rw [hok]
    exact ⟨_, rfl, rfl, rfl, rfl⟩

/-- Every read takes as long as it may. -/
def BuiltBridge.slowReads (b : BuiltBridge) (answers : List Response) : List TimedEvent :=
  answers.flatMap fun rr => [.tick b.readLimit, .answer rr]

theorem run_slowReads : ∀ {rest answers : List Response} {s : TimedLoop},
    b.Publishes (answers ++ rest) → rest ≠ [] → s.pc = .reading answers 0 →
      ∃ s', b.timedSystem.run (b.slowReads rest) s = some s' ∧ s'.pc = .waiting 0 ∧
        s'.clock = s.clock + rest.length * b.readLimit ∧ s'.stamps = s.stamps ++ [s'.clock]
  | [], _, _, _, hne, _ => absurd rfl hne
  | [rr], answers, s, hpub, _, hpc => by
    have htick := step_tick_reading hpc b.readLimit_nonneg (zero_add b.readLimit).le
    let t : TimedLoop :=
      { s with clock := s.clock + b.readLimit, pc := .reading answers (0 + b.readLimit) }
    obtain ⟨s', hs', hpc', hclock, hstamps⟩ :=
      @step_answer_last _ b t answers _ rr rfl hpub
    refine ⟨s', ?_, hpc', by simpa using hclock, by rw [hstamps, hclock]⟩
    exact Option.bind_eq_some_iff.2 ⟨t, htick, Option.bind_eq_some_iff.2 ⟨s', hs', rfl⟩⟩
  | rr :: rr' :: rest, answers, s, hpub, _, hpc => by
    have htick := step_tick_reading hpc b.readLimit_nonneg (zero_add b.readLimit).le
    have hlen : answers.length + 1 < b.reads := by
      have := hpub.1
      simp only [List.length_append, List.length_cons] at this
      omega
    let t : TimedLoop :=
      { s with clock := s.clock + b.readLimit, pc := .reading answers (0 + b.readLimit) }
    have hmore : b.step (.answer rr) t = some { t with pc := .reading (answers ++ [rr]) 0 } :=
      step_answer_more rfl hlen
    have hpub : b.Publishes (answers ++ [rr] ++ rr' :: rest) := by simpa using hpub
    obtain ⟨s', hs', hpc', hclock, hstamps⟩ :=
      run_slowReads (s := { t with pc := .reading (answers ++ [rr]) 0 }) hpub (by simp) rfl
    refine ⟨s', ?_, hpc', ?_, hstamps⟩
    · exact Option.bind_eq_some_iff.2 ⟨t, htick, Option.bind_eq_some_iff.2 ⟨_, hmore, hs'⟩⟩
    · rw [hclock]
      push_cast [List.length_cons]
      ring

/-- Two polls whose every read takes as long as it may. -/
theorem exists_slow_cycle {answers : List Response} (hpub : b.Publishes answers) :
    ∃ s t, b.timedSystem.Reachable s ∧ s.stamps = [t, t + b.cycleTime] := by
  have hne : answers ≠ [] := by
    have hpos : 0 < b.reads := pollReads_pos b.covered
    rintro rfl
    have := hpub.1
    simp only [List.length_nil] at this
    omega
  let s₀ : TimedLoop := { clock := 0, served := ⟨bridgeContext b.registers b.spec.dtsu, {}⟩ }
  obtain ⟨s₁, hrun₁, hpc₁, hclock₁, hstamps₁⟩ :=
    @run_slowReads _ b answers [] s₀ hpub hne rfl
  let s₂ : TimedLoop := { s₁ with clock := s₁.clock + b.interval, pc := .waiting (0 + b.interval) }
  have htick : b.timedSystem.step (.tick b.interval) s₁ = some s₂ :=
    step_tick_waiting hpc₁ b.spec.source.base.pollInterval_pos.le (zero_add b.interval).le
  have hinterval : b.timedSystem.step .interval s₂ = some { s₂ with pc := .reading [] 0 } :=
    @step_interval _ b s₂ (congrArg TimedPc.waiting (zero_add b.interval))
  obtain ⟨s₃, hrun₃, -, hclock₃, hstamps₃⟩ :=
    @run_slowReads _ b answers [] { s₂ with pc := .reading [] 0 } hpub hne rfl
  have hreach₁ : b.timedSystem.Reachable s₁ := System.reachable_of_run (.init ⟨0, rfl⟩) _ hrun₁
  have hreach₃ : b.timedSystem.Reachable s₃ :=
    System.reachable_of_run ((hreach₁.step htick).step hinterval) _ hrun₃
  refine ⟨s₃, s₁.clock, hreach₃, ?_⟩
  have hlen : answers.length = b.reads := hpub.1
  have hclock : s₃.clock = s₁.clock + b.cycleTime := by
    rw [hclock₃, hlen]
    change s₁.clock + b.interval + _ = _
    unfold BuiltBridge.cycleTime
    ring
  rw [hstamps₃, hclock]
  change s₁.stamps ++ _ = _
  rw [hstamps₁]
  rfl

/-- The stamps of a bridge of an accepted configuration are in time exactly when its reads
take no time, or none of its samples is published, or the timeouts of all reads of a poll
and one poll interval fit in the maximum age. -/
theorem stamps_in_time_iff (c : AppConfig) (b : BuiltBridge) (h : b.spec ∈ c.bridgeSpecs) :
    (∀ s, b.timedSystem.Reachable s → b.InTime s) ↔
      b.spec.source.base.viaHub = true ∨ (∀ answers, ¬b.Publishes answers) ∨
        (pollReads b.spec.source b.side).length * b.spec.source.base.timeoutS +
          b.spec.source.base.pollIntervalS ≤ b.spec.safety.maxDataAgeS := by
  refine ⟨fun hall => ?_, ?_⟩
  · by_contra hnot
    push Not at hnot
    obtain ⟨hhub, ⟨answers, hpub⟩, hlt⟩ := hnot
    obtain ⟨s, t, hreach, hstamps⟩ := exists_slow_cycle hpub
    have hgaps := (hall s hreach).gaps
    rw [hstamps, List.isChain_pair, add_sub_cancel_left] at hgaps
    unfold BuiltBridge.cycleTime BuiltBridge.readLimit BuiltBridge.interval at hgaps
    rw [if_neg hhub, add_comm] at hgaps
    exact absurd hgaps (not_le.2 hlt)
  · rintro (hhub | hnone | hle) s hreach
    · refine inTime_of_cycleTime_le ?_ hreach
      have htwo := c.two_intervals_le h
      have hpos := b.spec.source.base.pollInterval_pos
      unfold BuiltBridge.cycleTime BuiltBridge.readLimit BuiltBridge.interval
      rw [if_pos hhub, mul_zero]
      linarith
    · have hnil : s.stamps = [] := by
        by_contra hne
        obtain ⟨answers, hpub⟩ := (reachable_paced hreach).published hne
        exact hnone answers hpub
      exact ⟨by rw [hnil]; exact List.isChain_nil, fun hne => absurd hnil hne⟩
    · refine inTime_of_cycleTime_le ?_ hreach
      unfold BuiltBridge.cycleTime BuiltBridge.readLimit BuiltBridge.interval
      split_ifs
      · rw [mul_zero, add_zero]
        refine le_trans (le_add_of_nonneg_left ?_) hle
        exact mul_nonneg (Nat.cast_nonneg _) b.spec.source.base.timeout_pos.le
      · rw [add_comm]
        exact hle

end Float

/-! ## An ND45 that answers at its timeout -/

/-- An ND45 with the times it has by default, in a bridge of this maximum age. -/
def agedBridge (maxAge : Time) : BridgeConf :=
  { mainBridge with
    safety := { maxDataAgeS := maxAge }
    usable := mainBridge.usable }

def agedBuilt (maxAge : Time) : BuiltBridge where
  spec := agedBridge maxAge
  registers := freqMap 102
  side := freqSource
  found := rfl
  covered := rfl

/-- Blocks in which every quantity reads 50. -/
def nominalAnswers : List Response :=
  Nd45.READ_GROUPS.map fun group =>
    { registers := (List.range group.2).map fun i => if i % 2 = 0 then 0x4248 else 0 }

theorem publishes_nominal (maxAge : Time) : @BuiltBridge.Publishes .double (agedBuilt maxAge)
    nominalAnswers := by
  have hrun : ((@pollAnswered .double nd45Conf freqSource nominalAnswers none).result.toOption.any
      fun values => (@targetWrites .double values (.lit (10 : ℕ))
        (freqMap 102).targetSides).toOption.isSome) = true := by decide +kernel
  obtain ⟨values, hpoll, hwrites⟩ := (Option.any_eq_true _ _).1 hrun
  obtain ⟨ws, hws⟩ := Option.isSome_iff_exists.1 hwrites
  exact ⟨rfl, values, Except.toOption_eq_some.1 hpoll, ws, Except.toOption_eq_some.1 hws⟩

/-- The maximum age that is the default. -/
def defaultApp : AppConfig where
  toAppFields := { wildcardApp.toAppFields with bridges := [agedBridge (3 : ℕ)] }
  accepted := by decide +kernel

/-- It is accepted, and two stamps are 3.3 s apart. -/
theorem stamps_not_in_time :
    (agedBuilt (3 : ℕ)).spec ∈ defaultApp.bridgeSpecs ∧
      ∃ s t, (@BuiltBridge.timedSystem .double (agedBuilt (3 : ℕ))).Reachable s ∧
        s.stamps = [t, t + 33 / 10] ∧ ¬(agedBuilt (3 : ℕ)).InTime s := by
  refine ⟨List.mem_singleton_self _, ?_⟩
  obtain ⟨s, t, hreach, hstamps⟩ := @exists_slow_cycle .double _ _ (publishes_nominal (3 : ℕ))
  have hcycle : (agedBuilt (3 : ℕ)).cycleTime = 33 / 10 := by decide +kernel
  rw [hcycle] at hstamps
  refine ⟨s, t, hreach, hstamps, fun h => ?_⟩
  have hgaps := h.gaps
  rw [hstamps, List.isChain_pair, add_sub_cancel_left] at hgaps
  exact absurd hgaps (by decide +kernel)

/-- A maximum age of 4 s. -/
def patientApp : AppConfig where
  toAppFields := { wildcardApp.toAppFields with bridges := [agedBridge (4 : ℕ)] }
  accepted := by decide +kernel

theorem stamps_in_time_iff_patientApp :
    (agedBuilt (4 : ℕ)).spec ∈ patientApp.bridgeSpecs ∧
      ∀ s, (@BuiltBridge.timedSystem .double (agedBuilt (4 : ℕ))).Reachable s →
        (agedBuilt (4 : ℕ)).InTime s := by
  have hmem : (agedBuilt (4 : ℕ)).spec ∈ patientApp.bridgeSpecs := List.mem_singleton_self _
  refine ⟨hmem, (@stamps_in_time_iff .double patientApp (agedBuilt (4 : ℕ)) hmem).2 ?_⟩
  exact Or.inr (Or.inr (by decide +kernel))

end DtsuBridge
