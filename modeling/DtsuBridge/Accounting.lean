import DtsuBridge.Registers
import DtsuBridge.Lib.Run
import Mathlib.Data.List.DropRight

/-!
# Poll accounting

The callbacks of a bridge keep three accounts of its poll cycles : the counters of
`PollStats`, the fault state of `FaultReporter`, which writes the log, and the store's
stamp. A cycle ends published or with the exception of its poll or of `onUpdate`, which
raises after the heartbeat is touched and before any counter moves.

`poll_accounting` : the accounts agree after every sequence of cycles. Each line of the
log is a function of the run of failed cycles it follows (`Logged`), and from that a
maximal run has one `polling failed`, warnings an interval apart, and one `recovered` with
its length.
-/

namespace DtsuBridge

/-! ## The accounts -/

/-- `type(exc).__name__` -/
def PyExc.className : PyExc → String
  | pollError _ => "PollError"
  | valueError _ => "ValueError"
  | keyError _ => "KeyError"
  | typeError _ => "TypeError"
  | indexError _ => "IndexError"
  | overflowError _ => "OverflowError"
  | zeroDivisionError _ => "ZeroDivisionError"
  | other cls _ => cls

structure PollStats where
  pollsOk : ℕ := 0
  pollsFailed : ℕ := 0
  consecutiveFailures : ℕ := 0
  lastOkTs : Option Time := none
  lastErrorTs : Option Time := none
  lastErrorType : Option String := none

namespace PollStats

def recordOk (s : PollStats) (ts : Time) : PollStats :=
  { s with pollsOk := s.pollsOk + 1, consecutiveFailures := 0, lastOkTs := some ts }

def recordError (s : PollStats) (exc : PyExc) (ts : Time) : PollStats :=
  { s with
    pollsFailed := s.pollsFailed + 1
    consecutiveFailures := s.consecutiveFailures + 1
    lastErrorTs := some ts
    lastErrorType := some exc.className }

end PollStats

/-- What `FaultReporter` logs. -/
inductive FaultLine where
  /-- `{label} polling failed: {exc} (retrying; repeats muted)` -/
  | failed (label : String) (exc : PyExc)
  /-- `{label} still failing: {count} polls failed so far` -/
  | stillFailing (label : String) (count : ℕ)
  /-- `{label} polling recovered after {count} failed poll(s)` -/
  | recovered (label : String) (count : ℕ)
deriving DecidableEq

namespace FaultLine

def isFailed : FaultLine → Bool
  | failed .. => true
  | _ => false

/-- Logged as a warning. -/
def isWarning : FaultLine → Bool
  | recovered .. => false
  | _ => true

end FaultLine

structure FaultReporter where
  summaryInterval : Time := 60
  label : String := "ND45"
  failing : Bool := false
  count : ℕ := 0
  lastSummary : Time := 0

namespace FaultReporter

/-- `failure`, with what it logs. -/
def failure (r : FaultReporter) (exc : PyExc) (now : Time) : FaultReporter × List FaultLine :=
  let count := r.count + 1
  if ¬r.failing then
    ({ r with count := count, failing := true, lastSummary := now }, [.failed r.label exc])
  else if r.summaryInterval ≤ now - r.lastSummary then
    ({ r with count := count, lastSummary := now }, [.stillFailing r.label count])
  else ({ r with count := count }, [])

/-- `success`, with what it logs. -/
def success (r : FaultReporter) : FaultReporter × List FaultLine :=
  ({ r with failing := false, count := 0 },
    if r.failing then [.recovered r.label r.count] else [])

end FaultReporter

/-- `SampleStats` : the last finite values of some points. -/
structure SampleStats where
  points : List String
  window : ℕ := 30
  history : String → List PyFloat := fun _ => []
  samples : ℕ := 0

/-- What one point appends to its history, the last `window` of which are kept. -/
def SampleStats.append (window : ℕ) (values : Sample) (history : String → List PyFloat)
    (name : String) : String → List PyFloat :=
  match values.get? name with
  | some value =>
    if value.isFinite then Function.update history name ((history name ++ [value]).rtake window)
    else history
  | none => history

def SampleStats.record (s : SampleStats) (values : Sample) : SampleStats :=
  { s with
    samples := s.samples + 1
    history := s.points.foldl (append s.window values) s.history }

def SPREAD_POINTS : List String := ["p_total", "p_l1", "p_l2", "p_l3", "pf_total", "u_l1", "i_l1"]

/-! ## A poll cycle -/

/-- The clock readings of a cycle, in order. Those of `on_error` follow those of an
`on_update` that raises. -/
structure Readings where
  /-- The stamp of the sample. -/
  ts : Time
  /-- The heartbeat of `on_update`. -/
  touch : Time
  /-- The heartbeat of `on_error`. -/
  errorTouch : Time
  /-- The clock of the reporter. -/
  report : Time
  /-- The timestamp of the counters. -/
  record : Time

/-- No reading is before the one before it. -/
def Readings.Ordered (r : Readings) (clock : Time) : Prop :=
  clock ≤ r.ts ∧ r.ts ≤ r.touch ∧ r.touch ≤ r.errorTouch ∧ r.errorTouch ≤ r.report ∧
    r.report ≤ r.record

instance (r : Readings) (clock : Time) : Decidable (r.Ordered clock) :=
  inferInstanceAs (Decidable (_ ∧ _))

/-- A cycle that completed. -/
structure CycleRecord where
  /-- The exception `on_error` was called with. -/
  error : Option PyExc
  /-- The stamp, if the store was updated. -/
  stamped : Option Time
  report : Time
  lines : List FaultLine

def CycleRecord.failed (c : CycleRecord) : Bool := c.error.isSome

/-- What the callbacks of `_bridge_coros` share. -/
structure Callbacks where
  served : Served
  heartbeat : Option Time := none
  reporter : FaultReporter
  spread : SampleStats := { points := SPREAD_POINTS }
  stats : PollStats := {}
  /-- The latest reading of the clock. -/
  clock : Time
  /-- The cycles completed so far. -/
  cycles : List CycleRecord := []

section Float

variable [FloatArith] (target : List TargetSide) (ctRatio : PyFloat)

namespace Callbacks

/-- `on_error` : the cycle failed. -/
def onError (s : Callbacks) (exc : PyExc) (r : Readings) : Callbacks :=
  let (reporter, lines) := s.reporter.failure exc r.report
  { s with
    heartbeat := some r.errorTouch
    reporter := reporter
    stats := s.stats.recordError exc r.record
    cycles := s.cycles ++ [⟨some exc, none, r.report, lines⟩] }

/-- The part of `on_update` after the sample is served : the cycle is a good poll. -/
def onPublished (s : Callbacks) (values : Sample) (r : Readings) : Callbacks :=
  let (reporter, lines) := s.reporter.success
  { s with
    reporter := reporter
    spread := s.spread.record values
    stats := s.stats.recordOk r.record
    cycles := s.cycles ++ [⟨none, some r.ts, r.report, lines⟩] }

/-- `on_update`, with the state it leaves where it raises. -/
def update (s : Callbacks) (values : Sample) (r : Readings) : Except PyExc Unit × Callbacks :=
  let s := { s with heartbeat := some r.touch }
  match onUpdate target ctRatio s.served values r.ts with
  | (.error e, served) => (.error e, { s with served := served })
  | (.ok (), served) => (.ok (), { s with served := served }.onPublished values r)

/-- The pass of `run_poller` that a poll ends. -/
def cycle (s : Callbacks) (poll : Except PyExc Sample) (r : Readings) : Callbacks :=
  let s := { s with clock := r.record }
  match poll with
  | .error e => s.onError e r
  | .ok values =>
    match s.update target ctRatio values r with
    | (.ok (), s) => s
    | (.error e, s) => s.onError e r

end Callbacks

/-- The cycles of one bridge, on a clock that does not go back. -/
def cycleSystem (name : String) (summaryInterval : Time) (context : Datastore) :
    System Callbacks (Except PyExc Sample × Readings) where
  init s := ∃ clock, s =
    { served := ⟨context, {}⟩
      reporter := { label := "bridge " ++ strRepr name, summaryInterval := summaryInterval }
      clock := clock }
  step e s := if e.2.Ordered s.clock then some (s.cycle target ctRatio e.1 e.2) else none

variable {target ctRatio}

/-- A cycle publishes its sample, or fails with what was served as it was. -/
theorem cycle_cases (target : List TargetSide) (ctRatio : PyFloat) (s : Callbacks)
    (poll : Except PyExc Sample) (r : Readings) :
    (∃ values d, s.cycle target ctRatio poll r =
        { s with
          clock := r.record
          heartbeat := some r.touch
          served := ⟨d, ⟨values, some r.ts⟩⟩ }.onPublished values r) ∨
      ∃ exc touched, s.cycle target ctRatio poll r =
        { s with clock := r.record, heartbeat := touched }.onError exc r := by
  unfold Callbacks.cycle
  match poll with
  | .error e => exact Or.inr ⟨e, s.heartbeat, rfl⟩
  | .ok values =>
    unfold Callbacks.update
    dsimp only
    rcases onUpdate_cases target ctRatio s.served values r.ts with ⟨e, he⟩ | ⟨d, -, hok⟩
    · rw [he]
      exact Or.inr ⟨e, some r.touch, rfl⟩
    · rw [hok]
      exact Or.inl ⟨values, d, rfl⟩

end Float

/-! ## What a cycle logs -/

/-- The failed cycles a history ends with. -/
def failedRun (cycles : List CycleRecord) : List CycleRecord :=
  cycles.rtakeWhile (·.failed)

/-- When each warning of some cycles was logged. -/
def warningTimes (cycles : List CycleRecord) : List Time :=
  cycles.flatMap fun c => (c.lines.filter (·.isWarning)).map fun _ => c.report

/-- The log of a cycle, by the run of failed cycles before it. -/
def Logged (summaryInterval : Time) (label : String) (pre : List CycleRecord)
    (c : CycleRecord) : Prop :=
  match c.error, failedRun pre with
  | none, [] => c.lines = []
  | none, run => c.lines = [.recovered label run.length]
  | some exc, [] => c.lines = [.failed label exc]
  | some _, run => c.lines = [] ∨ c.lines = [.stillFailing label (run.length + 1)] ∧
      ∀ t, (warningTimes run).getLast? = some t → summaryInterval ≤ c.report - t

/-- The reporter is in the episode of the failed cycles so far. -/
structure FaultReporter.Tracks (r : FaultReporter) (cycles : List CycleRecord) : Prop where
  failing : r.failing = true ↔ failedRun cycles ≠ []
  count : r.count = (failedRun cycles).length
  lastSummary : r.failing = true → (warningTimes (failedRun cycles)).getLast? = some r.lastSummary

/-- The accounts agree with the cycles completed. -/
structure Callbacks.Accounted (s : Callbacks) (summaryInterval : Time) (label : String) : Prop where
  pollsOk : s.stats.pollsOk = s.cycles.countP (·.stamped.isSome)
  pollsFailed : s.stats.pollsFailed = s.cycles.countP (·.failed)
  consecutive : s.stats.consecutiveFailures = (failedRun s.cycles).length
  outcome : ∀ c ∈ s.cycles, c.stamped.isSome = !c.failed
  stamp : s.served.store.ts = (s.cycles.filterMap (·.stamped)).getLast?
  clock : ∀ c ∈ s.cycles, c.report ≤ s.clock
  ordered : s.cycles.Pairwise (·.report ≤ ·.report)
  config : s.reporter.summaryInterval = summaryInterval ∧ s.reporter.label = label
  reporter : s.reporter.Tracks s.cycles
  logged : EachAfter (Logged summaryInterval label) s.cycles

/-! ## The accounts stay in step -/

section Step

variable {summaryInterval : Time} {label : String} {r : FaultReporter} {cycles : List CycleRecord}

theorem failedRun_failed {c : CycleRecord} (h : c.failed = true) :
    failedRun (cycles ++ [c]) = failedRun cycles ++ [c] :=
  List.rtakeWhile_concat_pos _ _ _ h

theorem failedRun_published {c : CycleRecord} (h : c.failed = false) :
    failedRun (cycles ++ [c]) = [] :=
  List.rtakeWhile_concat_neg _ _ _ (by simp [h])

/-- Cycles that stamped nothing are the failed ones. -/
theorem rtakeWhile_stamped : ∀ {cycles : List CycleRecord},
    (∀ c ∈ cycles, c.stamped.isSome = !c.failed) →
      cycles.rtakeWhile (·.stamped.isNone) = failedRun cycles := by
  intro cycles
  induction cycles using List.reverseRecOn with
  | nil => exact fun _ => rfl
  | append_singleton cycles c ih =>
    intro h
    obtain ⟨hcycles, hc⟩ := List.forall_mem_append.1 h
    have hc : c.stamped.isNone = c.failed := by
      rw [← Option.not_isSome, hc c (List.mem_singleton_self c), Bool.not_not]
    unfold failedRun at ih ⊢
    rw [List.rtakeWhile_concat, List.rtakeWhile_concat, hc, ih hcycles]

theorem warningTimes_append (cs cs' : List CycleRecord) :
    warningTimes (cs ++ cs') = warningTimes cs ++ warningTimes cs' := by
  simp [warningTimes]

theorem warningTimes_singleton (error : Option PyExc) (stamped : Option Time) (report : Time)
    (lines : List FaultLine) : warningTimes [⟨error, stamped, report, lines⟩] =
      (lines.filter (·.isWarning)).map fun _ => report := by
  simp [warningTimes]

/-- What `failure` logs, and the episode it leaves the reporter in. -/
theorem failure_tracks (h : r.Tracks cycles) (exc : PyExc) (now : Time) :
    Logged r.summaryInterval r.label cycles ⟨some exc, none, now, (r.failure exc now).2⟩ ∧
      (r.failure exc now).1.Tracks (cycles ++ [⟨some exc, none, now, (r.failure exc now).2⟩]) := by
  have hrun : ∀ lines, failedRun (cycles ++ [⟨some exc, none, now, lines⟩]) =
      failedRun cycles ++ [⟨some exc, none, now, lines⟩] := fun _ => failedRun_failed rfl
  unfold FaultReporter.failure Logged
  dsimp only
  cases hf : r.failing with
  | false =>
    have hnil : failedRun cycles = [] := by
      by_contra hne
      exact absurd (h.failing.2 hne) (by simp [hf])
    have hcount := h.count
    rw [hnil] at hcount
    rw [if_pos (by simp)]
    refine ⟨by simp [hnil], ⟨by simp [hrun], ?_, fun _ => ?_⟩⟩
    · rw [hrun, hnil]
      simpa using hcount
    · rw [hrun, hnil, List.nil_append, warningTimes_singleton]
      rfl
  | true =>
    obtain ⟨c, run, hne⟩ := List.exists_cons_of_ne_nil (h.failing.1 hf)
    have hlast := h.lastSummary hf
    have hcount := h.count
    rw [if_neg (by simp)]
    split_ifs with hsum
    · refine ⟨?_, ⟨by simp [hrun], by simp [hrun, hcount], fun _ => ?_⟩⟩
      · rw [hne] at hlast hcount ⊢
        refine Or.inr ⟨by rw [hcount], fun t ht => ?_⟩
        obtain rfl := Option.some.inj (ht.symm.trans hlast)
        exact hsum
      · rw [hrun, warningTimes_append, warningTimes_singleton]
        simp [FaultLine.isWarning]
    · refine ⟨?_, ⟨by simp [hrun], by simp [hrun, hcount], fun _ => ?_⟩⟩
      · rw [hne]
        exact Or.inl rfl
      · rw [hrun, warningTimes_append, warningTimes_singleton]
        simpa using hlast

/-- What `success` logs, and the episode it ends. -/
theorem success_tracks (h : r.Tracks cycles) (stamped : Option Time) (now : Time) :
    Logged r.summaryInterval r.label cycles ⟨none, stamped, now, r.success.2⟩ ∧
      r.success.1.Tracks (cycles ++ [⟨none, stamped, now, r.success.2⟩]) := by
  have hrun : ∀ lines, failedRun (cycles ++ [⟨none, stamped, now, lines⟩]) = [] :=
    fun _ => failedRun_published rfl
  refine ⟨?_, ⟨by simp [hrun, FaultReporter.success], by simp [hrun, FaultReporter.success],
    by simp [FaultReporter.success]⟩⟩
  unfold FaultReporter.success Logged
  have hfailing := h.failing
  have hcount := h.count
  cases hne : failedRun cycles with
  | nil => simpa [hne] using hfailing
  | cons c run =>
    rw [hne] at hfailing hcount
    simp [hfailing.2 (by simp), hcount]

variable {s : Callbacks}

/-- A good poll keeps the accounts in step. -/
theorem onPublished_accounted (h : s.Accounted summaryInterval label) {d : Datastore}
    {values : Sample} {rd : Readings} (hrd : rd.Ordered s.clock) :
    ({ s with
        clock := rd.record
        heartbeat := some rd.touch
        served := ⟨d, ⟨values, some rd.ts⟩⟩ }.onPublished values rd).Accounted
      summaryInterval label := by
  obtain ⟨hlogged, htracks⟩ := success_tracks h.reporter (some rd.ts) rd.report
  rw [h.config.1, h.config.2] at hlogged
  obtain ⟨h1, h2, h3, h4, h5⟩ := hrd
  have hle : s.clock ≤ rd.report := by linarith
  refine ⟨?_, ?_, ?_, ?_, ?_, ?_, ?_, h.config, htracks, ?_⟩
  · simp [Callbacks.onPublished, PollStats.recordOk, h.pollsOk]
  · simp [Callbacks.onPublished, PollStats.recordOk, h.pollsFailed, CycleRecord.failed]
  · rw [Callbacks.onPublished, failedRun_published rfl]
    rfl
  · refine List.forall_mem_append.2 ⟨h.outcome, by simp [CycleRecord.failed]⟩
  · simp [Callbacks.onPublished]
  · refine List.forall_mem_append.2 ⟨fun c hc => ?_, by simpa [Callbacks.onPublished] using h5⟩
    exact ((h.clock c hc).trans hle).trans h5
  · refine List.pairwise_append.2 ⟨h.ordered, List.pairwise_singleton _ _, fun c hc c' hc' => ?_⟩
    rw [List.mem_singleton.1 hc']
    exact (h.clock c hc).trans hle
  · exact eachAfter_concat.2 ⟨h.logged, hlogged⟩

/-- A failed cycle keeps the accounts in step. -/
theorem onError_accounted (h : s.Accounted summaryInterval label) {touched : Option Time}
    {exc : PyExc} {rd : Readings} (hrd : rd.Ordered s.clock) :
    ({ s with clock := rd.record, heartbeat := touched }.onError exc rd).Accounted
      summaryInterval label := by
  obtain ⟨hlogged, htracks⟩ := failure_tracks h.reporter exc rd.report
  rw [h.config.1, h.config.2] at hlogged
  obtain ⟨h1, h2, h3, h4, h5⟩ := hrd
  have hle : s.clock ≤ rd.report := by linarith
  have hconfig : (s.reporter.failure exc rd.report).1.summaryInterval = s.reporter.summaryInterval ∧
      (s.reporter.failure exc rd.report).1.label = s.reporter.label := by
    unfold FaultReporter.failure
    split_ifs <;> exact ⟨rfl, rfl⟩
  refine ⟨?_, ?_, ?_, ?_, ?_, ?_, ?_, ?_, htracks, ?_⟩
  · simp [Callbacks.onError, PollStats.recordError, h.pollsOk]
  · simp [Callbacks.onError, PollStats.recordError, h.pollsFailed, CycleRecord.failed]
  · rw [Callbacks.onError, failedRun_failed rfl]
    simp [PollStats.recordError, h.consecutive]
  · refine List.forall_mem_append.2 ⟨h.outcome, by simp [CycleRecord.failed]⟩
  · simpa [Callbacks.onError] using h.stamp
  · refine List.forall_mem_append.2 ⟨fun c hc => ?_, by simpa [Callbacks.onError] using h5⟩
    exact ((h.clock c hc).trans hle).trans h5
  · refine List.pairwise_append.2 ⟨h.ordered, List.pairwise_singleton _ _, fun c hc c' hc' => ?_⟩
    rw [List.mem_singleton.1 hc']
    exact (h.clock c hc).trans hle
  · exact ⟨hconfig.1.trans h.config.1, hconfig.2.trans h.config.2⟩
  · exact eachAfter_concat.2 ⟨h.logged, hlogged⟩

end Step

/-! ## Runs of failed cycles -/

/-- A maximal run of failed cycles within a history. -/
structure MaximalRun (pre run post : List CycleRecord) : Prop where
  ne_nil : run ≠ []
  failed : ∀ c ∈ run, c.failed = true
  before : ∀ c, pre.getLast? = some c → c.failed = false
  after : ∀ c, post.head? = some c → c.failed = false

/-- The log of a maximal run, and of the cycle that ends it. -/
structure RunLog (summaryInterval : Time) (label : String) (run post : List CycleRecord) :
    Prop where
  once : (run.flatMap (·.lines)).countP (·.isFailed) = 1
  warnings : ∀ line ∈ run.flatMap (·.lines), line.isWarning = true
  apart : (warningTimes run).Pairwise fun t t' => summaryInterval ≤ t' - t
  recovered : ∀ c, post.head? = some c → c.lines = [.recovered label run.length]

section Runs

variable {summaryInterval : Time} {label : String}

theorem failedRun_eq_nil {pre : List CycleRecord}
    (h : ∀ c, pre.getLast? = some c → c.failed = false) : failedRun pre = [] := by
  refine List.rtakeWhile_eq_nil_iff.2 fun hne => ?_
  simp [h _ (List.getLast?_eq_some_getLast hne)]

theorem failedRun_append {pre : List CycleRecord} (hpre : failedRun pre = []) :
    ∀ {run : List CycleRecord}, (∀ c ∈ run, c.failed = true) → failedRun (pre ++ run) = run := by
  intro run
  induction run using List.reverseRecOn with
  | nil => simp [hpre]
  | append_singleton run c ih =>
    intro h
    obtain ⟨hrun, hc⟩ := List.forall_mem_append.1 h
    rw [← List.append_assoc, failedRun_failed (hc c (List.mem_singleton_self c)), ih hrun]

/-- The last warning is the latest. -/
theorem le_of_getLast?_warningTimes {cs : List CycleRecord}
    (h : cs.Pairwise (·.report ≤ ·.report)) {t : Time} (ht : (warningTimes cs).getLast? = some t) :
    ∀ t' ∈ warningTimes cs, t' ≤ t := by
  have hsorted : (warningTimes cs).Pairwise (· ≤ ·) := by
    refine List.pairwise_flatMap.2 ⟨fun c _ => ?_, h.imp fun {c c'} hle t' ht' t'' ht'' => ?_⟩
    · exact List.pairwise_map.2 (List.pairwise_of_forall fun _ _ => le_rfl)
    · obtain ⟨_, -, rfl⟩ := List.mem_map.1 ht'
      obtain ⟨_, -, rfl⟩ := List.mem_map.1 ht''
      exact hle
  obtain ⟨init, hinit⟩ := List.getLast?_eq_some_iff.1 ht
  rw [hinit] at hsorted ⊢
  intro t' ht'
  rcases List.mem_append.1 ht' with ht' | ht'
  · exact (List.pairwise_append.1 hsorted).2.2 t' ht' t (List.mem_singleton_self t)
  · exact (List.mem_singleton.1 ht').le

/-- The warnings of the failed cycles after a good one. -/
theorem run_warnings {pre : List CycleRecord} (hpre : failedRun pre = []) :
    ∀ {run : List CycleRecord}, (∀ c ∈ run, c.failed = true) →
      EachAfter (Logged summaryInterval label) (pre ++ run) → run.Pairwise (·.report ≤ ·.report) →
        (run.flatMap (·.lines)).countP (·.isFailed) = (if run = [] then 0 else 1) ∧
          (∀ line ∈ run.flatMap (·.lines), line.isWarning = true) ∧
          ((warningTimes run).Pairwise fun t t' => summaryInterval ≤ t' - t) ∧
          (run ≠ [] → warningTimes run ≠ []) := by
  intro run
  induction run using List.reverseRecOn with
  | nil => simp [warningTimes]
  | append_singleton run c ih =>
    intro hfailed hlog hord
    obtain ⟨hrun, hc⟩ := List.forall_mem_append.1 hfailed
    obtain ⟨hord, -, -⟩ := List.pairwise_append.1 hord
    rw [← List.append_assoc, eachAfter_concat] at hlog
    obtain ⟨hcount, hwarn, hapart, hne⟩ := ih hrun hlog.1 hord
    have hlines := hlog.2
    obtain ⟨exc, hexc⟩ := Option.isSome_iff_exists.1 (hc c (List.mem_singleton_self c))
    unfold Logged at hlines
    rw [failedRun_append hpre hrun, hexc] at hlines
    have htimes : warningTimes [c] = (c.lines.filter (·.isWarning)).map fun _ => c.report := by
      simp [warningTimes]
    rw [warningTimes_append, htimes, List.flatMap_append, List.flatMap_singleton,
      List.countP_append, hcount, if_neg (show run ++ [c] ≠ [] by simp)]
    have hcases : run = [] ∧ c.lines = [.failed label exc] ∨
        run ≠ [] ∧ (c.lines = [] ∨ c.lines = [.stillFailing label (run.length + 1)] ∧
          ∀ t, (warningTimes run).getLast? = some t → summaryInterval ≤ c.report - t) := by
      cases run with
      | nil => exact Or.inl ⟨rfl, hlines⟩
      | cons c₀ run => exact Or.inr ⟨List.cons_ne_nil _ _, hlines⟩
    rcases hcases with ⟨rfl, hlines⟩ | ⟨hnil, hlines | ⟨hlines, hmuted⟩⟩
    · simp [hlines, FaultLine.isFailed, FaultLine.isWarning, warningTimes]
    · rw [hlines, if_neg hnil]
      refine ⟨?_, ?_, ?_, fun _ => ?_⟩
      · simp
      · simpa using hwarn
      · simpa using hapart
      · simpa using hne hnil
    · rw [hlines, if_neg hnil]
      have ht := List.getLast?_eq_some_getLast (hne hnil)
      have hle := le_of_getLast?_warningTimes hord ht
      have hlast := hmuted _ ht
      refine ⟨rfl, List.forall_mem_append.2 ⟨hwarn, by simp [FaultLine.isWarning]⟩, ?_,
        fun _ => by simp [FaultLine.isWarning]⟩
      refine List.pairwise_append.2 ⟨hapart, List.pairwise_singleton _ _, fun t' ht' t'' ht'' => ?_⟩
      obtain rfl : t'' = c.report := by simpa [FaultLine.isWarning] using ht''
      have := hle t' ht'
      linarith

/-- A maximal run logs its start once, and its end with its length. -/
theorem runLog_of_logged {pre run post : List CycleRecord} (h : MaximalRun pre run post)
    (hlog : EachAfter (Logged summaryInterval label) (pre ++ run ++ post))
    (hord : (pre ++ run ++ post).Pairwise (·.report ≤ ·.report)) :
    RunLog summaryInterval label run post := by
  have hpre := failedRun_eq_nil h.before
  obtain ⟨hlog, hlog'⟩ := eachAfter_append.1 hlog
  have hordrun := (List.pairwise_append.1 (List.pairwise_append.1 hord).1).2.1
  obtain ⟨hcount, hwarn, hapart, -⟩ := run_warnings hpre h.failed hlog hordrun
  rw [if_neg h.ne_nil] at hcount
  refine ⟨hcount, hwarn, hapart, fun c hc => ?_⟩
  obtain ⟨rest, rfl⟩ := List.head?_eq_some_iff.1 hc
  have hlines := (eachAfter_cons.1 hlog').1
  have herr : c.error = none := by simpa [CycleRecord.failed] using h.after c hc
  obtain ⟨c₀, run', hrun⟩ := List.exists_cons_of_ne_nil h.ne_nil
  unfold Logged at hlines
  rw [List.append_nil, failedRun_append hpre h.failed, herr, hrun] at hlines
  rwa [hrun]

end Runs

section Float

variable [FloatArith] {target : List TargetSide} {ctRatio : PyFloat} {name : String}
  {summaryInterval : Time} {context : Datastore} {s : Callbacks}

theorem reachable_accounted
    (h : (cycleSystem target ctRatio name summaryInterval context).Reachable s) :
    s.Accounted summaryInterval ("bridge " ++ strRepr name) := by
  refine h.invariant (I := fun s => s.Accounted summaryInterval ("bridge " ++ strRepr name)) ?_ ?_
  · rintro s ⟨clock, rfl⟩
    exact ⟨rfl, rfl, rfl, by simp, rfl, by simp, by simp, ⟨rfl, rfl⟩,
      ⟨by simp [failedRun], rfl, by simp⟩, eachAfter_nil⟩
  · rintro ⟨poll, rd⟩ s s' hs - hstep
    have hstep : (if rd.Ordered s.clock then some (s.cycle target ctRatio poll rd) else none) =
      some s' := hstep
    split_ifs at hstep with hrd
    obtain rfl := Option.some.inj hstep
    rcases cycle_cases target ctRatio s poll rd with
      ⟨values, d, h⟩ | ⟨exc, touched, h⟩
    · rw [h]
      exact onPublished_accounted hs hrd
    · rw [h]
      exact onError_accounted hs hrd

/-- After any cycles : each moved one counter, the good ones are those that stamped the
store, the failures since the last of them are counted, every maximal run of failures is
logged as one, and no other cycle logs anything. -/
theorem poll_accounting
    (h : (cycleSystem target ctRatio name summaryInterval context).Reachable s) :
    (∀ e s', (cycleSystem target ctRatio name summaryInterval context).step e s = some s' →
        (s'.stats.pollsOk = s.stats.pollsOk + 1 ∧ s'.stats.pollsFailed = s.stats.pollsFailed) ∨
          (s'.stats.pollsOk = s.stats.pollsOk ∧
            s'.stats.pollsFailed = s.stats.pollsFailed + 1)) ∧
      s.stats.pollsOk = s.cycles.countP (·.stamped.isSome) ∧
      s.served.store.ts = (s.cycles.filterMap (·.stamped)).getLast? ∧
      s.stats.consecutiveFailures = (s.cycles.rtakeWhile (·.stamped.isNone)).length ∧
      (∀ pre run post, s.cycles = pre ++ run ++ post → MaximalRun pre run post →
        RunLog summaryInterval ("bridge " ++ strRepr name) run post) ∧
      ∀ pre c post, s.cycles = pre ++ c :: post → c.failed = false →
        (∀ c', pre.getLast? = some c' → c'.failed = false) → c.lines = [] := by
  have hacc := reachable_accounted h
  refine ⟨fun e s' hstep => ?_, hacc.pollsOk, hacc.stamp, ?_, ?_, ?_⟩
  · have hstep : (if e.2.Ordered s.clock then some (s.cycle target ctRatio e.1 e.2) else none) =
      some s' := hstep
    split_ifs at hstep with hrd
    obtain rfl := Option.some.inj hstep
    rcases cycle_cases target ctRatio s e.1 e.2 with
      ⟨values, d, h⟩ | ⟨exc, touched, h⟩
    · rw [h]
      exact Or.inl ⟨rfl, rfl⟩
    · rw [h]
      exact Or.inr ⟨rfl, rfl⟩
  · rw [rtakeWhile_stamped hacc.outcome, hacc.consecutive]
  · intro pre run post hsplit hmax
    have hlogged := hacc.logged
    have hord := hacc.ordered
    rw [hsplit] at hlogged hord
    exact runLog_of_logged hmax hlogged hord
  · intro pre c post hsplit hc hpre
    have hlines := hacc.logged pre c post hsplit
    have herr : c.error = none := by simpa [CycleRecord.failed] using hc
    unfold Logged at hlines
    rwa [failedRun_eq_nil hpre, herr] at hlines

end Float

/-- All readings of a cycle at once. -/
def Readings.atOnce (t : Time) : Readings := ⟨t, t, t, t, t⟩

/-- A good poll, one whose sample is empty, one that raises, a good poll. -/
def outageCycles : List (Except PyExc Sample × Readings) :=
  [(.ok freqSample, .atOnce 1), (.ok .empty, .atOnce 2),
    (.error (.pollError (.nd45Short 50 0 96)), .atOnce 70), (.ok freqSample, .atOnce 71)]

/-- The cycles of a bridge named `main`. -/
def mainCycles : System Callbacks (Except PyExc Sample × Readings) :=
  @cycleSystem .double (freqMap 102).targetSides (.lit 9) "main" 60
    (bridgeContext (freqMap 102) tcpConf)

def mainStart : Callbacks where
  served := ⟨bridgeContext (freqMap 102) tcpConf, {}⟩
  reporter := { label := "bridge " ++ strRepr "main", summaryInterval := 60 }
  clock := 0

/-- An outage of two cycles is logged as one. -/
theorem poll_accounting_outage :
    ∃ s, mainCycles.run outageCycles mainStart = some s ∧
      ∃ c₀ c₁ c₂ c₃, s.cycles = [c₀, c₁, c₂, c₃] ∧
        RunLog 60 ("bridge " ++ strRepr "main") [c₁, c₂] [c₃] := by
  have hrun : (mainCycles.run outageCycles mainStart).any
      (fun s => s.cycles.map (·.failed) = [false, true, true, false]) = true := by decide +kernel
  obtain ⟨s, hs, hcycles⟩ := (Option.any_eq_true _ _).1 hrun
  have hr : mainCycles.Reachable s := System.reachable_of_run (.init ⟨0, rfl⟩) _ hs
  obtain ⟨-, -, -, -, hruns, -⟩ := @poll_accounting .double _ _ _ _ _ _ hr
  have hcycles := decide_eq_true_iff.1 hcycles
  match hc : s.cycles with
  | [c₀, c₁, c₂, c₃] =>
    simp only [hc, List.map_cons, List.map_nil, List.cons.injEq, and_true] at hcycles
    obtain ⟨h₀, h₁, h₂, h₃⟩ := hcycles
    refine ⟨s, hs, c₀, c₁, c₂, c₃, hc, hruns [c₀] [c₁, c₂] [c₃] hc ?_⟩
    exact ⟨by simp, by simp [h₁, h₂], by simp [h₀], by simp [h₃]⟩
  | [] | [_] | [_, _] | [_, _, _] | _ :: _ :: _ :: _ :: _ :: _ => simp [hc] at hcycles

end DtsuBridge
