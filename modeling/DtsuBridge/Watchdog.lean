import DtsuBridge.Process
import DtsuBridge.StallDetection

/-!
# The watchdog of a process

`watchdog_loop` looks at the heartbeats of all bridges twice in the time that systemd allows, and
pings as long as none of them is too old. The bridges run side by side with it under one clock,
each with the connect of its start, its poll loop and the supervisor of the loop.

`run_app` creates the task of the watchdog before those of the bridges, whose heartbeats its first
iteration finds untouched. The others come after the first step of every one of them.

`ping_iff` : at any iteration the watchdog pings exactly when, of every bridge, the heartbeat was
touched in time, which for a bridge whose poll loop is live is by the loop or the startup connect.
`watchdog_fed` : the first iteration withholds its ping. While the supervisor of each bridge takes
its turns in time, every later one pings, and no two iterations are further apart than systemd
allows, whatever the sources do : a loop that hangs is replaced before the watchdog would see it.
-/

namespace DtsuBridge

/-! ## Bridges that take turns -/

/-- The clock readings of an event, in order. -/
def AppEvent.readings : AppEvent → List Time
  | .poller e => e.readings
  | .cycle _ _ t | .startupRuns t | .startupDelayEnds t => [t]
  | .startupConnectEnds _ | .startupCancelled => []

/-- A bridge, and when its supervisor last resumed. -/
structure Turn where
  app : AppRun
  turn : Time

inductive TurnEvent where
  /-- `supervise_poller` runs for the first time. -/
  | starts (stopEvent : Bool) (t : Time)
  | app (e : AppEvent)

namespace TurnEvent

def readings : TurnEvent → List Time
  | .starts _ t => [t]
  | .app e => e.readings

/-- When a supervisor that has started resumes in an event, if it does. -/
def resumesAt : TurnEvent → Option Time
  | .app (.poller e) => e.readings.head?
  | .starts _ _ | .app _ => none

end TurnEvent

/-- A bridge, none before the first step of its supervisor. -/
def clockedApp (conf : PollerConf) : Clocked (Option Turn) TurnEvent Time where
  init b := b = none
  step e b :=
    match e, b with
    | .starts stopEvent t, none => some (some ⟨.initial stopEvent t, t⟩)
    | .app e, some b =>
      (b.app.step conf e).map fun app => some ⟨app, (TurnEvent.app e).resumesAt.getD b.turn⟩
    | .starts _ _, some _ | .app _, none => none
  readings := TurnEvent.readings
  past b t := ∀ b' ∈ b, b'.app.clock ≤ t

/-! ## The loop -/

inductive WatchdogPc where
  /-- At the test of the stop event. -/
  | top
  /-- Awaiting the stop event or the interval. -/
  | waiting
  | returned

structure WatchdogRun (p : Process) where
  bridges : (Fin p.bridges.length → Option Turn) × Time
  pc : WatchdogPc := .top
  stopEvent : Bool := false
  /-- What every iteration read of the clock, and whether it pinged. -/
  iterations : List (Time × Bool) := []

inductive WatchdogEvent (p : Process) where
  | bridge (i : Fin p.bridges.length) (e : TurnEvent)
  /-- The loop condition, and an iteration at this reading. -/
  | iterate (t : Time)
  | waitEnds
  | stop

variable (p : Process) (watchdogSec : Time)

namespace WatchdogRun

variable {p}

/-- The heartbeat that `run_app` gave the bridge, which nothing has touched before its start. -/
def beat (s : WatchdogRun p) (i : Fin p.bridges.length) : Heartbeat :=
  (s.bridges.1 i).elim {} (·.app.poller.heartbeat)

/-- The heartbeats that `SlowestHeartbeat` tracks. -/
def beats (s : WatchdogRun p) : List Heartbeat :=
  List.ofFn s.beat

/-- The task has taken its first step. -/
def hasRun (s : WatchdogRun p) : Bool :=
  match s.pc with
  | .top => !s.iterations.isEmpty
  | .waiting | .returned => true

/-- An iteration. -/
def iterate (s : WatchdogRun p) (t : Time) : WatchdogRun p :=
  { s with
    bridges := (s.bridges.1, t)
    pc := .waiting
    iterations := s.iterations ++ [(t, decide (slowestAge s.beats t ≤ watchdogSec))] }

/-- The event loop takes the first steps of the tasks in the order they were created, the watchdog
first, before any of them resumes. -/
def step (e : WatchdogEvent p) (s : WatchdogRun p) : Option (WatchdogRun p) :=
  match e, s.pc with
  | .bridge i e, _ =>
    if s.hasRun then
      ((Clocked.interleave fun i => clockedApp (p.bridge i).setup.poller).step (i, e) s.bridges).map
        ({ s with bridges := · })
    else none
  | .iterate t, .top =>
    if s.hasRun && !decide (∀ i, (s.bridges.1 i).isSome) then none
    else if s.stopEvent then some { s with pc := .returned }
    else if s.bridges.2 ≤ t then some (s.iterate watchdogSec t)
    else none
  | .waitEnds, .waiting => some { s with pc := .top }
  | .stop, _ => some { s with stopEvent := true }
  | _, _ => none

/-- The readings of the iterations that called `notify_watchdog()`. -/
def pings (s : WatchdogRun p) : List Time :=
  (s.iterations.filter (·.2)).map (·.1)

end WatchdogRun

/-- The runs of the watchdog and the bridges of its process. -/
def watchdogSystem : System (WatchdogRun p) (WatchdogEvent p) where
  init s := ∃ bridges, (Clocked.interleave fun i => clockedApp (p.bridge i).setup.poller).init
    bridges ∧ s = { bridges := bridges }
  step := WatchdogRun.step watchdogSec

variable {p watchdogSec}

/-! ## What a ping says -/

/-- The heartbeat was touched in the time allowed. -/
def Heartbeat.Recent (beat : Heartbeat) (allowed t : Time) : Prop :=
  ∃ last, beat.last = some last ∧ t - last ≤ allowed

theorem Heartbeat.age_le_iff {beat : Heartbeat} {allowed t : Time} :
    beat.age t ≤ allowed ↔ beat.Recent allowed t := by
  unfold age Recent
  rcases beat.last with _ | last
  · simp
  · rw [WithTop.coe_le_coe]
    simp

theorem slowestAge_le_iff {beats : List Heartbeat} {allowed t : Time} :
    slowestAge beats t ≤ allowed ↔ beats ≠ [] ∧ ∀ beat ∈ beats, beat.Recent allowed t := by
  unfold slowestAge
  rcases hmax : (beats.map (·.age t)).max? with _ | age
  · rw [List.max?_eq_none_iff, List.map_eq_nil_iff] at hmax
    simp [hmax]
  · have hne : beats ≠ [] := by
      rintro rfl
      cases hmax
    rw [hmax, Option.getD_some, List.max?_le_iff hmax]
    simp [hne, Heartbeat.age_le_iff]

/-- What the watchdog compares. -/
theorem WatchdogRun.slowestAge_beats_iff (s : WatchdogRun p) (hne : p.bridges ≠ []) {t : Time} :
    slowestAge s.beats t ≤ watchdogSec ↔
      ∀ i, ∃ b ∈ s.bridges.1 i, b.app.poller.heartbeat.Recent watchdogSec t := by
  rw [slowestAge_le_iff, beats, List.forall_mem_ofFn_iff]
  refine (and_iff_right ?_).trans (forall_congr' fun i => ?_)
  · simpa [List.ofFn_eq_nil_iff] using hne
  · unfold beat
    rcases s.bridges.1 i with _ | b
    · simp [Heartbeat.Recent]
    · simp

namespace WatchdogRun

/-- A step is one of a bridge, after the first of the watchdog, an iteration, which finds the
bridges started unless it is the first, or one that changes neither. -/
theorem step_cases {s s' : WatchdogRun p} {e : WatchdogEvent p}
    (hs : s.step watchdogSec e = some s') :
    (∃ i e' bridges, e = .bridge i e' ∧ s.hasRun = true ∧
      (Clocked.interleave fun i => clockedApp (p.bridge i).setup.poller).step (i, e') s.bridges =
        some bridges ∧ s' = { s with bridges := bridges }) ∨
    (∃ t, e = .iterate t ∧ s.pc = .top ∧ s.stopEvent = false ∧ s.bridges.2 ≤ t ∧
      (s.iterations ≠ [] → ∀ i, (s.bridges.1 i).isSome = true) ∧ s' = s.iterate watchdogSec t) ∨
    s' = { s with pc := .returned } ∨ (s.pc = .waiting ∧ s' = { s with pc := .top }) ∨
    s' = { s with stopEvent := true } := by
  unfold step at hs
  split at hs
  next i e' =>
    obtain ⟨hrun, hs⟩ := Option.ite_none_right_eq_some.1 hs
    obtain ⟨bridges, hstep, rfl⟩ := Option.map_eq_some_iff.1 hs
    exact Or.inl ⟨i, e', bridges, rfl, hrun, hstep, rfl⟩
  next t hpc =>
    split_ifs at hs with hall hstop hle
    · exact Or.inr (Or.inr (Or.inl (Option.some.inj hs).symm))
    · obtain rfl := Option.some.inj hs
      refine Or.inr (Or.inl ⟨t, rfl, hpc, by simpa using hstop, hle, fun hne i => ?_, rfl⟩)
      have hrun : s.hasRun = true := by simpa [hasRun, hpc] using hne
      rw [hrun, Bool.true_and, Bool.not_eq_true, Bool.not_eq_false', decide_eq_true_iff] at hall
      exact hall i
  next hpc => exact Or.inr (Or.inr (Or.inr (Or.inl ⟨hpc, (Option.some.inj hs).symm⟩)))
  next => exact Or.inr (Or.inr (Or.inr (Or.inr (Option.some.inj hs).symm)))
  next => cases hs

/-- In a step the clock does not go back, and a bridge moves at readings that are not before it,
or stays. -/
theorem step_bridge {s s' : WatchdogRun p} {e : WatchdogEvent p}
    (hs : s.step watchdogSec e = some s') (i : Fin p.bridges.length) :
    s.bridges.2 ≤ s'.bridges.2 ∧ (s'.bridges.1 i = s.bridges.1 i ∨ ∃ e', e = .bridge i e' ∧
      (clockedApp (p.bridge i).setup.poller).step e' (s.bridges.1 i) = some (s'.bridges.1 i) ∧
      ∀ r ∈ e'.readings, s.bridges.2 ≤ r ∧ r ≤ s'.bridges.2) := by
  rcases step_cases hs with ⟨j, e', bridges, rfl, -, hstep, rfl⟩ | ⟨t, rfl, -, -, hle, -, rfl⟩ |
    rfl | ⟨-, rfl⟩ | rfl
  · obtain ⟨-, -, -, hle, hreadings, -⟩ := Clocked.step_cases hstep
    refine ⟨hle, ?_⟩
    rcases Clocked.step_component hstep i with ⟨rfl, hmove⟩ | ⟨-, hsame⟩
    · exact Or.inr ⟨e', rfl, hmove, hreadings⟩
    · exact Or.inl hsame
  · exact ⟨hle, Or.inl rfl⟩
  all_goals exact ⟨le_rfl, Or.inl rfl⟩

theorem step_iterate {s s' : WatchdogRun p} (hstop : s.stopEvent = false) {t : Time}
    (hs : s.step watchdogSec (.iterate t) = some s') :
    s.bridges.2 ≤ t ∧ s' = s.iterate watchdogSec t := by
  unfold step at hs
  rcases hpc : s.pc with _ | _ | _
  · simp only [hpc, hstop, Bool.false_eq_true, if_false] at hs
    split_ifs at hs with hall hle
    exact ⟨hle, (Option.some.inj hs).symm⟩
  · simp [hpc] at hs
  · simp [hpc] at hs

end WatchdogRun

/-- The steps of a bridge are its start and what it does then. -/
theorem turn_cases {conf : PollerConf} {b b' : Option Turn} {e : TurnEvent}
    (hs : (clockedApp conf).step e b = some b') :
    (∃ stopEvent t, e = .starts stopEvent t ∧ b = none ∧ b' = some ⟨.initial stopEvent t, t⟩) ∨
    ∃ e' turn app, e = .app e' ∧ b = some turn ∧ turn.app.step conf e' = some app ∧
      b' = some ⟨app, e.resumesAt.getD turn.turn⟩ := by
  rcases e with ⟨stopEvent, t⟩ | e
  · rcases b with _ | turn
    · exact Or.inl ⟨stopEvent, t, rfl, rfl, (Option.some.inj hs).symm⟩
    · cases hs
  · rcases b with _ | turn
    · cases hs
    · obtain ⟨app, happ, rfl⟩ := Option.map_eq_some_iff.1 hs
      exact Or.inr ⟨e, turn, app, rfl, rfl, happ, rfl⟩

/-- A bridge beside the watchdog does what it does alone. -/
theorem reachable_turn {s : WatchdogRun p} (h : (watchdogSystem p watchdogSec).Reachable s)
    (i : Fin p.bridges.length) :
    ∀ b ∈ s.bridges.1 i, (appSystem (p.bridge i).setup.poller).Reachable b.app := by
  refine h.invariant (I := fun s => ∀ b ∈ s.bridges.1 i,
    (appSystem (p.bridge i).setup.poller).Reachable b.app) ?_ ?_
  · rintro s ⟨bridges, hinit, rfl⟩ b hb
    rw [(hinit i).1] at hb
    cases hb
  · intro e s s' hr _ hs
    rcases (WatchdogRun.step_bridge hs i).2 with hsame | ⟨e', -, hmove, -⟩
    · rw [hsame]
      exact hr
    · rcases turn_cases hmove with ⟨stopEvent, t, -, -, heq⟩ | ⟨e', turn, app, -, hb, happ, heq⟩
      · rw [heq]
        rintro _ ⟨⟩
        exact .init ⟨stopEvent, t, rfl⟩
      · rw [heq]
        rintro _ ⟨⟩
        exact (hr turn hb).step happ

/-- The first iteration comes before the first steps of the bridges, and has withheld its ping. -/
structure WatchdogRun.FirstWithheld (s : WatchdogRun p) : Prop where
  untouched : s.pc = .top → s.iterations = [] → ∀ i, s.bridges.1 i = none
  waiting : s.pc = .waiting → s.iterations ≠ []
  withheld : ∀ it ∈ s.iterations.head?, it.2 = false

theorem step_firstWithheld (hne : p.bridges ≠ []) {s s' : WatchdogRun p} {e : WatchdogEvent p}
    (h : s.FirstWithheld) (hs : s.step watchdogSec e = some s') : s'.FirstWithheld := by
  rcases WatchdogRun.step_cases hs with ⟨i, e', bridges, -, hrun, -, rfl⟩ |
    ⟨t, rfl, hpc, -, -, -, rfl⟩ | rfl | ⟨hpc, rfl⟩ | rfl
  · refine ⟨fun (htop : s.pc = .top) (hits : s.iterations = []) => ?_, h.waiting, h.withheld⟩
    simp [WatchdogRun.hasRun, htop, hits] at hrun
  · refine ⟨by rintro ⟨⟩, fun _ => List.append_ne_nil_of_right_ne_nil _ (by simp), ?_⟩
    rcases hits : s.iterations with _ | ⟨it, its⟩
    · have hnot : ¬slowestAge s.beats t ≤ watchdogSec := by
        rw [s.slowestAge_beats_iff hne]
        intro hall
        obtain ⟨b, hb, -⟩ := hall ⟨0, List.length_pos_iff.2 hne⟩
        rw [h.untouched hpc hits] at hb
        cases hb
      simp [WatchdogRun.iterate, hits, hnot]
    · have hwithheld := h.withheld
      simpa [WatchdogRun.iterate, hits] using hwithheld
  · exact ⟨by rintro ⟨⟩, by rintro ⟨⟩, h.withheld⟩
  · exact ⟨fun _ hits => absurd hits (h.waiting hpc), by rintro ⟨⟩, h.withheld⟩
  · exact ⟨h.untouched, h.waiting, h.withheld⟩

theorem reachable_firstWithheld (hne : p.bridges ≠ []) {s : WatchdogRun p}
    (h : (watchdogSystem p watchdogSec).Reachable s) : s.FirstWithheld := by
  refine h.invariant ?_ ?_
  · rintro s ⟨bridges, hinit, rfl⟩
    exact ⟨fun _ _ i => (hinit i).1, by rintro ⟨⟩, by simp⟩
  · intro e s s' hfirst _ (hs : s.step watchdogSec e = some s')
    exact step_firstWithheld hne hfirst hs

/-- An iteration pings exactly when every bridge has started, with a heartbeat that is recent. The
heartbeat of a bridge whose poll loop is live is recent exactly when the loop has made progress in
time, or the startup connect has tried in time. -/
theorem ping_iff {s s' : WatchdogRun p} (h : (watchdogSystem p watchdogSec).Reachable s)
    (hne : p.bridges ≠ []) (hstop : s.stopEvent = false) {t : Time}
    (hs : (watchdogSystem p watchdogSec).step (.iterate t) s = some s') :
    (∃ pinged, s'.iterations = s.iterations ++ [(t, pinged)] ∧
      (pinged = true ↔
        ∀ i, ∃ b ∈ s.bridges.1 i, b.app.poller.heartbeat.Recent watchdogSec t)) ∧
    ∀ i, ∀ b ∈ s.bridges.1 i, b.app.poller.task.isLive = true →
      (b.app.poller.heartbeat.Recent watchdogSec t ↔
        t - b.app.progress ≤ watchdogSec ∨
          ∃ u, b.app.startupTouch = some u ∧ t - u ≤ watchdogSec) := by
  obtain ⟨-, rfl⟩ := WatchdogRun.step_iterate hstop hs
  refine ⟨⟨_, rfl, decide_eq_true_iff.trans (s.slowestAge_beats_iff hne)⟩, fun i b hb hlive => ?_⟩
  obtain ⟨last, hlast, -, hmax⟩ := (reachable_beats (reachable_turn h i b hb)).beat
  unfold Heartbeat.Recent
  rw [hlast, hmax hlive]
  rcases hu : b.app.startupTouch with _ | u
  · simp
  · simp only [Option.some.injEq, exists_eq_left', Option.getD_some]
    rw [sub_le_comm, le_max_iff, sub_le_comm, sub_le_comm (b := watchdogSec) (c := u)]

/-- The process before the first steps of its tasks. -/
def apartStart : WatchdogRun apartProcess :=
  { bridges := (fun _ => none, 0) }

theorem init_apartStart {watchdogSec : Time} :
    (watchdogSystem apartProcess watchdogSec).init apartStart :=
  ⟨(fun _ => none, 0), fun _ => ⟨rfl, fun _ hb => by cases hb⟩, rfl⟩

/-- The first iteration, and the first steps of the supervisors. -/
def firstSteps : List (WatchdogEvent apartProcess) :=
  [.iterate 0, .bridge mainIndex (.starts false 0), .bridge secondIndex (.starts false 0)]

/-- A second after their start the bridges are alive. -/
theorem ping_iff_apartProcess : ∃ s, (watchdogSystem apartProcess 1).Reachable s ∧
    s.iterations = [(0, false), (1, true)] := by
  have hrun : ((watchdogSystem apartProcess 1).run (firstSteps ++ [.waitEnds]) apartStart).any
      (fun s => !s.stopEvent ∧ s.iterations = [(0, false)] ∧
        (∀ i, (s.bridges.1 i).any fun b => b.app.poller.heartbeat.last = some 0) ∧
        ((watchdogSystem apartProcess 1).step (.iterate 1) s).isSome) = true := by
    decide +kernel
  obtain ⟨s, hs, hp⟩ := (Option.any_eq_true _ _).1 hrun
  obtain ⟨hstop, hfirst, hbeats, hp⟩ := decide_eq_true_iff.1 hp
  obtain ⟨s', hs'⟩ := Option.isSome_iff_exists.1 hp
  have hreach : (watchdogSystem apartProcess 1).Reachable s :=
    System.reachable_of_run (.init init_apartStart) _ hs
  obtain ⟨⟨pinged, hiterations, hpinged⟩, -⟩ :=
    ping_iff hreach (List.cons_ne_nil _ _) (by simpa using hstop) hs'
  have htrue : pinged = true := hpinged.2 fun i => by
    obtain ⟨b, hb, hlast⟩ := (Option.any_eq_true _ _).1 (hbeats i)
    exact ⟨b, hb, 0, by simpa using hlast, by norm_num⟩
  rw [htrue, hfirst] at hiterations
  exact ⟨s', hreach.step hs', hiterations⟩

/-! ## Supervisors that take their turns -/

variable {conf : PollerConf}

/-- How much older than the supervisor's last turn a heartbeat may be. -/
def PollerPc.allowance (conf : PollerConf) (lag : Time) : PollerPc → Time
  | .waiting | .connecting _ => conf.stallTimeout
  | .cancelling | .retrying _ => conf.stallTimeout + lag
  | .leaving _ | .ended _ => 0

/-- The heartbeat of a supervisor that goes on is not much older than its last turn. -/
def PollSupervisor.Beating (conf : PollerConf) (lag : Time) (s : PollSupervisor) (turn : Time) :
    Prop :=
  s.pc.leaves = false →
    ∃ last, s.heartbeat.last = some last ∧ turn - last ≤ s.pc.allowance conf lag

theorem allowance_nonneg {lag : Time} (hstall : 0 ≤ conf.stallTimeout) (hlag : 0 ≤ lag)
    (pc : PollerPc) : 0 ≤ pc.allowance conf lag := by
  rcases pc with _ | _ | _ | _ | _ | _
  · exact hstall
  · exact add_nonneg hstall hlag
  · exact hstall
  · exact add_nonneg hstall hlag
  · exact le_rfl
  · exact le_rfl

section Beating

variable {lag : Time} (hstall : 0 ≤ conf.stallTimeout) (hlag : 0 ≤ lag)

include hstall hlag

/-- A heartbeat that is touched is not older than a turn before. -/
theorem beating_touch {s : PollSupervisor} {turn t : Time} (hle : turn ≤ t) :
    { s with heartbeat := s.heartbeat.touch t }.Beating conf lag turn :=
  fun _ => ⟨t, rfl, (sub_nonpos.2 hle).trans (allowance_nonneg hstall hlag _)⟩

theorem beating_start {s : PollSupervisor} {turn t : Time} (hle : turn ≤ t) :
    (s.start t).again.Beating conf lag turn :=
  fun _ => ⟨t, rfl, (sub_nonpos.2 hle).trans (allowance_nonneg hstall hlag _)⟩

theorem beating_retry {s : PollSupervisor} {turn current touchedAt startedAt : Time}
    (htouched : turn ≤ touchedAt) (hstarted : turn ≤ startedAt) :
    (s.retry current touchedAt startedAt).Beating conf lag turn := by
  unfold PollSupervisor.retry
  split_ifs
  · exact beating_start hstall hlag hstarted
  · exact fun _ => ⟨touchedAt, rfl, (sub_nonpos.2 htouched).trans hstall⟩

theorem beating_recover {s : PollSupervisor} {turn : Time} {r : Recovery}
    (htouched : turn ≤ r.touchedAt) (hstarted : turn ≤ r.startedAt) :
    (s.recover conf r).Beating conf lag turn := by
  rcases PollSupervisor.recover_cases conf s r with ⟨exc, -, heq⟩ | ⟨-, heq⟩
  · rw [heq]
    exact fun hleaves => by cases hleaves
  · rw [heq]
    exact beating_retry hstall hlag htouched hstarted

/-- A check that leaves the loop alone has found its heartbeat recent enough, and one that does
not comes no later than a lag after the turn before. -/
theorem beating_check {s : PollSupervisor} {turn t : Time} {r : Recovery}
    (h : s.Beating conf lag turn) (hpc : s.pc = .waiting) (hturn : t ≤ turn + lag)
    (htouched : t ≤ r.touchedAt) (hstarted : t ≤ r.startedAt) :
    (s.check conf t r).Beating conf lag t := by
  obtain ⟨last, hlast, hage⟩ := h (by rw [hpc]; rfl)
  rw [hpc] at hage
  rcases PollSupervisor.check_cases conf s t r with ⟨-, heq⟩ | ⟨-, -, heq⟩ | ⟨-, heq⟩
  · rw [heq]
    exact fun hleaves => by cases hleaves
  · rw [heq]
    exact beating_recover hstall hlag htouched hstarted
  · rw [heq]
    split_ifs with hrecent
    · obtain ⟨last', hlast', hle⟩ := Heartbeat.age_le_iff.1 hrecent
      intro hleaves
      refine ⟨last', hlast', ?_⟩
      unfold PollSupervisor.again at hleaves ⊢
      dsimp only at hleaves ⊢
      split_ifs at hleaves ⊢
      · cases hleaves
      · exact hle
    · refine fun _ => ⟨last, hlast, ?_⟩
      have hdelay : t - last ≤ turn - last + lag := by linarith
      exact hdelay.trans (add_le_add_left hage lag)

/-- A step of the supervisor keeps it, whatever it meets. -/
theorem beating_step {s s' : PollSupervisor} {turn clock : Time} {e : PollEvent}
    (h : s.Beating conf lag turn) (hfree : e.isFree = true)
    (hchain : (clock :: e.readings).IsChain (· ≤ ·))
    (hturn : ∀ t ∈ e.readings.head?, t ≤ turn + lag) (hs : s.step conf e = some s') :
    s'.Beating conf lag (e.readings.head?.getD turn) := by
  have hpairs := List.isChain_iff_pairwise.1 hchain
  unfold PollSupervisor.step at hs
  split at hs
  next i e =>
    obtain ⟨loop, -, hs⟩ := Option.bind_eq_some_iff.1 hs
    obtain ⟨-, pc, reports, rfl, -⟩ := PollSupervisor.loopStep_cases hs
    rcases i with _ | i
    · exact h
    · exact h
  next t r hpc =>
    obtain rfl := Option.some.inj hs
    obtain ⟨-, ht, -⟩ := by simpa [PollEvent.readings] using hpairs
    exact beating_check hstall hlag h hpc (hturn t rfl) ht.2.1 ht.2.2
  next hpc =>
    split_ifs at hs
    obtain rfl := Option.some.inj hs
    exact fun hleaves => by cases hleaves
  next r hpc =>
    obtain rfl := Option.some.inj hs
    obtain ⟨-, hr, -⟩ := by simpa [PollEvent.readings] using hpairs
    exact beating_recover hstall hlag hr.1 hr.2
  next how hpc =>
    obtain rfl := Option.some.inj hs
    exact fun hleaves => by cases hleaves
  next result startedAt current hpc =>
    obtain rfl := Option.some.inj hs
    rcases result with exc | ⟨_ | _⟩
    · exact fun hleaves => by cases hleaves
    · obtain ⟨last, hlast, hage⟩ := h (by rw [hpc]; rfl)
      rw [hpc] at hage
      have hdelay : startedAt - last ≤ turn - last + lag := by
        have := hturn startedAt rfl
        linarith
      exact fun _ => ⟨last, hlast, hdelay.trans (add_le_add_left hage lag)⟩
    · exact beating_start hstall hlag le_rfl
  next touchedAt startedAt current hpc =>
    obtain rfl := Option.some.inj hs
    obtain ⟨-, hle⟩ := by simpa [PollEvent.readings] using hpairs
    exact beating_retry hstall hlag le_rfl hle
  next => cases hfree
  next =>
    obtain rfl := Option.some.inj hs
    exact h
  next => cases hs

/-- A bridge whose supervisor has a heartbeat that is recent enough. -/
structure Turn.Ok (conf : PollerConf) (lag : Time) (b : Turn) : Prop where
  beating : b.app.poller.Beating conf lag b.turn
  turn_le : b.turn ≤ b.app.clock

/-- What touches a heartbeat besides the supervisor reads the clock for it. -/
theorem touched_step {s s' : AppRun} {e : AppEvent} {turn : Time}
    (h : s.poller.Beating conf lag turn) (hle : turn ≤ s.clock) (hpoller : ∀ p, e ≠ .poller p)
    (hs : s.step conf e = some s') : s'.poller.Beating conf lag turn ∧ turn ≤ s'.clock := by
  rcases AppRun.step_cases hs with ⟨p, q, rfl, -⟩ | ⟨i, c, t, q, -, hclock, rfl⟩ |
    ⟨current, t, -, hclock, rfl⟩ | ⟨startup, owned, -, rfl, -⟩
  · exact absurd rfl (hpoller p)
  · exact ⟨beating_touch hstall hlag (hle.trans hclock), hle.trans hclock⟩
  · unfold AppRun.attempt
    split_ifs
    · exact ⟨h, hle⟩
    · exact ⟨beating_touch hstall hlag (hle.trans hclock), hle.trans hclock⟩
  · exact ⟨h, hle⟩

/-- An event of a bridge keeps it, where the supervisor resumes in time if it does. -/
theorem app_step {b : Turn} {app : AppRun} {e : AppEvent} (h : b.Ok conf lag)
    (hturn : ∀ t ∈ (TurnEvent.app e).resumesAt, t ≤ b.turn + lag)
    (happ : b.app.step conf e = some app) :
    Turn.Ok conf lag ⟨app, (TurnEvent.app e).resumesAt.getD b.turn⟩ := by
  by_cases hpoller : ∃ p, e = .poller p
  · obtain ⟨p, rfl⟩ := hpoller
    unfold AppRun.step at happ
    dsimp only at happ
    split_ifs at happ with hp
    obtain ⟨q, hq, rfl⟩ := Option.map_eq_some_iff.1 happ
    refine ⟨beating_step hstall hlag h.beating hp.1 hp.2 hturn hq, ?_⟩
    obtain ⟨hclock, hreadings⟩ := le_of_readings hp.2
    rcases hhead : p.readings.head? with _ | t
    · simpa [TurnEvent.resumesAt, AppRun.moved, hhead] using h.turn_le.trans hclock
    · simpa [TurnEvent.resumesAt, AppRun.moved, hhead] using
        hreadings t (List.mem_of_mem_head? hhead)
  · rw [not_exists] at hpoller
    obtain ⟨hbeating, hle⟩ := touched_step hstall hlag h.beating h.turn_le hpoller happ
    have hsame : (TurnEvent.app e).resumesAt = none := by
      rcases e with p | _ | _ | _ | _ | _
      · exact absurd rfl (hpoller p)
      all_goals rfl
    rw [hsame]
    exact ⟨hbeating, hle⟩

/-- So does a step of a bridge that may not have started. -/
theorem turn_step {b b' : Option Turn} {e : TurnEvent} (h : ∀ turn ∈ b, turn.Ok conf lag)
    (hturn : ∀ turn ∈ b, ∀ t ∈ e.resumesAt, t ≤ turn.turn + lag)
    (hs : (clockedApp conf).step e b = some b') : ∀ turn ∈ b', turn.Ok conf lag := by
  rcases turn_cases hs with ⟨stopEvent, t, -, -, rfl⟩ | ⟨e', turn, app, rfl, hb, happ, rfl⟩
  · rintro _ ⟨⟩
    refine ⟨fun _ => ⟨t, rfl, ?_⟩, le_rfl⟩
    rw [sub_self]
    exact allowance_nonneg hstall hlag _
  · rintro _ ⟨⟩
    exact app_step hstall hlag (h turn hb) (hturn turn hb) happ

end Beating

/-! ## The watchdog is fed -/

/-- The supervisor of each bridge goes on and resumes no later than `lag` after it did before, which
the watchdog sees, and the interval of the watchdog ends no later than `delay`. -/
def WatchdogEvent.Prompt (watchdogSec lag delay : Time) (e : WatchdogEvent p)
    (s : WatchdogRun p) : Prop :=
  match e with
  | .bridge i e => ∀ b ∈ s.bridges.1 i, ∀ t ∈ e.resumesAt, t ≤ b.turn + lag
  | .iterate t => s.stopEvent = false →
    (∀ i, ∀ b ∈ s.bridges.1 i, b.app.poller.pc.leaves = false ∧ t ≤ b.turn + lag) ∧
      ∀ last ∈ s.iterations.getLast?, t ≤ last.1 + watchdogSec / (2 : ℕ) + delay
  | .waitEnds | .stop => True

instance (watchdogSec lag delay : Time) (e : WatchdogEvent p) (s : WatchdogRun p) :
    Decidable (e.Prompt watchdogSec lag delay s) :=
  match e with
  | .bridge i e =>
    inferInstanceAs (Decidable (∀ b ∈ s.bridges.1 i, ∀ t ∈ e.resumesAt, t ≤ b.turn + lag))
  | .iterate t =>
    inferInstanceAs (Decidable (s.stopEvent = false →
      (∀ i, ∀ b ∈ s.bridges.1 i, b.app.poller.pc.leaves = false ∧ t ≤ b.turn + lag) ∧
        ∀ last ∈ s.iterations.getLast?, t ≤ last.1 + watchdogSec / (2 : ℕ) + delay))
  | .waitEnds | .stop => .isTrue trivial

/-- Every iteration after the first has pinged, in time. -/
structure WatchdogRun.Fed (watchdogSec lag delay : Time) (s : WatchdogRun p) : Prop where
  bridges : ∀ i, ∀ b ∈ s.bridges.1 i, b.Ok (p.bridge i).setup.poller lag
  pinged : ∀ it ∈ s.iterations.tail, it.2 = true
  spaced : s.iterations.IsChain fun it it' => it'.1 ≤ it.1 + watchdogSec / (2 : ℕ) + delay

theorem stallTimeout_nonneg (i : Fin p.bridges.length) :
    0 ≤ (p.bridge i).setup.poller.stallTimeout :=
  (p.bridge i).spec.source.base.stallTimeout_pos.le

/-- A bridge whose supervisor has resumed in time has a heartbeat that is recent. -/
theorem recent_of_turn {lag : Time} (hlag : 0 ≤ lag) {b : Turn} (h : b.Ok conf lag)
    (hstall : conf.stallTimeout + lag + lag ≤ watchdogSec)
    (hleaves : b.app.poller.pc.leaves = false) {t : Time} (hturn : t ≤ b.turn + lag) :
    b.app.poller.heartbeat.Recent watchdogSec t := by
  obtain ⟨last, hlast, hage⟩ := h.beating hleaves
  refine ⟨last, hlast, ?_⟩
  have hallowed : b.app.poller.pc.allowance conf lag ≤ conf.stallTimeout + lag := by
    rcases hpc : b.app.poller.pc with _ | _ | _ | _ | _ | _
    · exact le_add_of_nonneg_right hlag
    · exact le_rfl
    · exact le_add_of_nonneg_right hlag
    · exact le_rfl
    all_goals
      rw [hpc] at hleaves
      cases hleaves
  linarith

/-- The pings are those of the iterations after the first. -/
theorem pings_eq {lag delay : Time} {s : WatchdogRun p} (hfirst : s.FirstWithheld)
    (h : s.Fed watchdogSec lag delay) : s.pings = s.iterations.tail.map (·.1) := by
  have hwithheld := hfirst.withheld
  have hpinged := h.pinged
  unfold WatchdogRun.pings
  rcases hits : s.iterations with _ | ⟨it, its⟩
  · rfl
  · rw [hits] at hwithheld hpinged
    rw [List.tail_cons] at hpinged ⊢
    rw [List.filter_cons_of_neg (by simp [hwithheld it rfl]), List.filter_eq_self.2 hpinged]

section Fed

variable {lag delay : Time} (hlag : 0 ≤ lag)
  (hstall : ∀ b ∈ p.bridges, b.setup.poller.stallTimeout + lag + lag ≤ watchdogSec)
  (hne : p.bridges ≠ [])

include hlag hstall hne

/-- Once the bridges have started an iteration pings. -/
theorem iterate_fed {s : WatchdogRun p} (h : s.Fed watchdogSec lag delay) {t : Time}
    (hprompt : (WatchdogEvent.iterate t).Prompt watchdogSec lag delay s)
    (hstop : s.stopEvent = false)
    (hstarted : s.iterations ≠ [] → ∀ i, (s.bridges.1 i).isSome = true) :
    (s.iterate watchdogSec t).Fed watchdogSec lag delay := by
  obtain ⟨hturns, hlast⟩ := hprompt hstop
  refine ⟨h.bridges, ?_, ?_⟩
  · rcases hits : s.iterations with _ | ⟨it, its⟩
    · simp [WatchdogRun.iterate, hits]
    · have hold := h.pinged
      have hpinged : slowestAge s.beats t ≤ watchdogSec := by
        refine (s.slowestAge_beats_iff hne).2 fun i => ?_
        obtain ⟨b, hb⟩ := Option.isSome_iff_exists.1 (hstarted (by simp [hits]) i)
        obtain ⟨hleaves, hturn⟩ := hturns i b hb
        exact ⟨b, hb, recent_of_turn hlag (h.bridges i b hb) (hstall _ (List.getElem_mem i.2))
          hleaves hturn⟩
      simpa [WatchdogRun.iterate, hits, hpinged] using hold
  · refine List.isChain_append.2 ⟨h.spaced, .singleton _, fun last hmem it hit => ?_⟩
    obtain rfl := Option.some.inj hit
    exact hlast last hmem

theorem step_fed {s s' : WatchdogRun p} {e : WatchdogEvent p} (h : s.Fed watchdogSec lag delay)
    (hprompt : e.Prompt watchdogSec lag delay s) (hs : s.step watchdogSec e = some s') :
    s'.Fed watchdogSec lag delay := by
  have hbridges : ∀ i, ∀ b ∈ s'.bridges.1 i, b.Ok (p.bridge i).setup.poller lag := by
    intro i
    rcases (WatchdogRun.step_bridge hs i).2 with hsame | ⟨e', rfl, hmove, -⟩
    · rw [hsame]
      exact h.bridges i
    · exact turn_step (stallTimeout_nonneg i) hlag (h.bridges i) hprompt hmove
  rcases WatchdogRun.step_cases hs with ⟨i, e', bridges, -, -, -, rfl⟩ |
    ⟨t, rfl, -, hstop, -, hstarted, rfl⟩ | rfl | ⟨-, rfl⟩ | rfl
  · exact ⟨hbridges, h.pinged, h.spaced⟩
  · exact iterate_fed hlag hstall hne h hprompt hstop hstarted
  all_goals exact ⟨hbridges, h.pinged, h.spaced⟩

end Fed

/-- The first iteration of every run finds no heartbeat touched and withholds its ping. While the
supervisors take their turns in time, and what a stall and two turns come to is within the time
that systemd allows, the watchdog pings at every later iteration, and iterations are no further
apart than that time. -/
theorem watchdog_fed {lag delay : Time} (hlag : 0 ≤ lag) (hdelay : delay ≤ watchdogSec / (2 : ℕ))
    (hstall : ∀ b ∈ p.bridges, b.setup.poller.stallTimeout + lag + lag ≤ watchdogSec)
    (hne : p.bridges ≠ []) :
    (∀ s, (watchdogSystem p watchdogSec).Reachable s →
      ∀ it ∈ s.iterations.head?, it.2 = false) ∧
    ∀ s, (watchdogSystem p watchdogSec).ReachableBy
        (WatchdogEvent.Prompt watchdogSec lag delay) s →
      s.pings = s.iterations.tail.map (·.1) ∧
        (s.iterations.map (·.1)).IsChain fun t t' => t' - t ≤ watchdogSec := by
  refine ⟨fun s h => (reachable_firstWithheld hne h).withheld, fun s h => ?_⟩
  have hfed : s.Fed watchdogSec lag delay := by
    refine h.invariant ?_ fun e s s' hfed hprompt hs => step_fed hlag hstall hne hfed hprompt hs
    rintro s ⟨bridges, hinit, rfl⟩
    refine ⟨fun i b hb => ?_, by simp, .nil⟩
    rw [(hinit i).1] at hb
    cases hb
  refine ⟨pings_eq (reachable_firstWithheld hne h.reachable) hfed, ?_⟩
  rw [List.isChain_map]
  refine hfed.spaced.imp fun it it' hle => ?_
  have hhalves : watchdogSec / (2 : ℕ) + watchdogSec / (2 : ℕ) = watchdogSec := by
    push_cast
    exact add_halves watchdogSec
  linarith

/-- The poll of the first bridge hangs. Its supervisor tears the loop down after a minute, builds
and connects another client, and starts another loop. The second bridge polls. -/
def hungMain : List (WatchdogEvent apartProcess) :=
  firstSteps ++
  [.bridge mainIndex (.app (.poller (.loop 0 .test))),
    .bridge secondIndex (.app (.poller (.loop 0 .test))),
    .bridge mainIndex (.app (.poller (.check (30 : ℕ) (recoveryAt (30 : ℕ))))),
    .bridge secondIndex (.app (.poller (.check (30 : ℕ) (recoveryAt (30 : ℕ))))),
    .bridge secondIndex (.app (.cycle 0 ⟨.ok Dict.empty, (50 : ℕ), .ok (), .ok ()⟩ (50 : ℕ))),
    .bridge mainIndex (.app (.poller (.check (60 : ℕ) (recoveryAt (60 : ℕ))))),
    .bridge secondIndex (.app (.poller (.check (60 : ℕ) (recoveryAt (60 : ℕ))))),
    .waitEnds, .iterate (60 : ℕ),
    .bridge mainIndex (.app (.poller (.taskEnds (recoveryAt (61 : ℕ))))),
    .bridge mainIndex (.app (.poller (.connectEnds (.ok true) (62 : ℕ)))),
    .bridge secondIndex (.app (.poller (.check (80 : ℕ) (recoveryAt (80 : ℕ))))),
    .bridge mainIndex (.app (.poller (.check (92 : ℕ) (recoveryAt (92 : ℕ))))),
    .bridge secondIndex (.app (.poller (.check (110 : ℕ) (recoveryAt (110 : ℕ))))),
    .waitEnds, .iterate (121 : ℕ)]

/-- The watchdog of two minutes pings during the stall and after the recovery. -/
theorem watchdog_fed_apartProcess : ∃ s,
    (watchdogSystem apartProcess (120 : ℕ)).ReachableBy
      (WatchdogEvent.Prompt (120 : ℕ) (32 : ℕ) 1) s ∧
    ((s.bridges.1 mainIndex).any fun b => b.app.poller.recovery.restarts = 1) = true ∧
    s.iterations.map (·.1) = [0, ((60 : ℕ) : Time), ((121 : ℕ) : Time)] ∧
    s.pings = [((60 : ℕ) : Time), ((121 : ℕ) : Time)] := by
  have hrun : (((watchdogSystem apartProcess (120 : ℕ)).restrict
      (WatchdogEvent.Prompt (120 : ℕ) (32 : ℕ) 1)).run hungMain apartStart).any (fun s =>
        (s.bridges.1 mainIndex).any (fun b => b.app.poller.recovery.restarts = 1) ∧
        s.iterations.map (·.1) = [0, ((60 : ℕ) : Time), ((121 : ℕ) : Time)]) = true := by
    decide +kernel
  obtain ⟨s, hs, hp⟩ := (Option.any_eq_true _ _).1 hrun
  obtain ⟨hrestarts, hiterations⟩ := decide_eq_true_iff.1 hp
  have hreach : (watchdogSystem apartProcess (120 : ℕ)).ReachableBy
      (WatchdogEvent.Prompt (120 : ℕ) (32 : ℕ) 1) s :=
    System.reachableBy_of_restrict <|
      System.reachable_of_run (.init (@init_apartStart (120 : ℕ))) hungMain hs
  have hstall : ∀ b ∈ apartProcess.bridges,
      b.setup.poller.stallTimeout + (32 : ℕ) + (32 : ℕ) ≤ (120 : ℕ) := by
    intro b hb
    have hstall : b.setup.poller.stallTimeout = nd45StallTimeout := by
      obtain ⟨spec, hspec, rfl⟩ := List.mem_pmap.1 hb
      simp only [apartApp, List.mem_cons, List.not_mem_nil, or_false] at hspec
      rcases hspec with rfl | rfl <;> rfl
    rw [hstall]
    norm_num [nd45StallTimeout]
  obtain ⟨hpings, -⟩ :=
    (watchdog_fed (by norm_num) (by norm_num) hstall (List.cons_ne_nil _ _)).2 s hreach
  refine ⟨s, hreach, hrestarts, hiterations, ?_⟩
  rw [hpings, List.map_tail, hiterations]
  rfl

end DtsuBridge
