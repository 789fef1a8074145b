import DtsuBridge.Watchdog

/-!
# The tasks of a process

`run_app` gathers the supervisors of its bridges and the watchdog loop. The startup connects and
the metrics endpoint are tasks beside them. Once the gather ends, whatever of, these are cancelled
and awaited, and the client of each bridge is closed.

The model runs the bridges under one clock and has a state for each `await` of the others. The stop
event is set once, for all of them.

`reachable_mainOk` : in every run, the gather ends as its coroutines have, what is awaited after it
is over before what follows, and the endpoint has closed what it does not serve from.
-/

namespace DtsuBridge

/-! ## The tasks of a bridge -/

/-- The coroutines of a bridge. -/
structure BridgeTasks where
  app : AppRun
  supervisor : Supervisor := {}

inductive TaskEvent where
  | app (e : AppEvent)
  /-- What a check of the server supervisor reads of the store is free here. -/
  | server (e : SupervisorEvent)

namespace TaskEvent

/-- The stop event is set from outside. -/
def setsStop : TaskEvent → Bool
  | .app (.poller .stop) | .server .stop => true
  | _ => false

/-- The startup connect is cancelled by `run_app` alone. -/
def cancels : TaskEvent → Bool
  | .app .startupCancelled => true
  | _ => false

def readings : TaskEvent → List Time
  | .app e => e.readings
  | .server e => e.reading.toList.map (·.1)

end TaskEvent

namespace BridgeTasks

def step (conf : BridgeSetup) (e : TaskEvent) (b : BridgeTasks) : Option BridgeTasks :=
  if e.setsStop then none
  else
    match e with
    | .app e => (b.app.step conf.poller e).map ({ b with app := · })
    | .server e => (b.supervisor.step conf.server e).map ({ b with supervisor := · })

def stop (b : BridgeTasks) : BridgeTasks where
  app := { b.app with poller := { b.app.poller with stopEvent := true } }
  supervisor := { b.supervisor with stopEvent := true }

end BridgeTasks

def clockedTasks (conf : BridgeSetup) : Clocked BridgeTasks TaskEvent Time where
  init b := ∃ t, b = { app := .initial false t }
  step := BridgeTasks.step conf
  readings := TaskEvent.readings
  past b t := b.app.clock ≤ t

/-! ## The endpoint -/

/-- What `asyncio.start_server` comes to. -/
inductive BindEnd where
  | bound
  /-- An `OSError`, an `OverflowError` or a `ValueError`. -/
  | refused
  | raised (exc : PyExc)

/-- Where `serve_metrics` is. -/
inductive MetricsPc where
  /-- At the test of the stop event. -/
  | top
  /-- Awaiting `start_server`. -/
  | binding
  /-- Awaiting the stop event or the delay. -/
  | retrying
  /-- Awaiting the stop event. -/
  | serving
  /-- Awaiting `wait_closed()`, and how the task ends then. -/
  | closing (how : TaskEnd)
  | ended (how : TaskEnd)

/-- The task of `serve_metrics`. -/
structure MetricsTask where
  pc : MetricsPc := .top
  /-- Listeners that `start_server` has returned so far. -/
  opened : ℕ := 0
  /-- Listeners that were closed so far. -/
  closed : ℕ := 0

inductive MetricsEvent where
  | test
  | bindEnds (how : BindEnd)
  | delayEnds
  | stopSeen
  /-- Whatever it raises is caught. -/
  | closeEnds
  | cancelled

/-- `metrics.stop` cancels. -/
def MetricsEvent.cancels : MetricsEvent → Bool
  | .cancelled => true
  | _ => false

namespace MetricsTask

def close (task : MetricsTask) (how : TaskEnd) : MetricsTask :=
  { task with pc := .closing how, closed := task.closed + 1 }

def step (stopEvent : Bool) (e : MetricsEvent) (task : MetricsTask) : Option MetricsTask :=
  match e, task.pc with
  | .test, .top => some { task with pc := if stopEvent then .ended .returned else .binding }
  | .bindEnds .bound, .binding => some { task with pc := .serving, opened := task.opened + 1 }
  | .bindEnds .refused, .binding => some { task with pc := .retrying }
  | .bindEnds (.raised exc), .binding => some { task with pc := .ended (.raised exc) }
  | .delayEnds, .retrying => some { task with pc := .top }
  | .stopSeen, .serving => if stopEvent then some (task.close .returned) else none
  | .closeEnds, .closing how => some { task with pc := .ended how }
  -- The `finally` block closes the listener.
  | .cancelled, .serving => some (task.close .cancelled)
  | .cancelled, .ended _ => none
  | .cancelled, _ => some { task with pc := .ended .cancelled }
  | _, _ => none

def isOver (task : MetricsTask) : Bool :=
  match task.pc with
  | .ended _ => true
  | _ => false

/-- The listener is open. -/
def isServing (task : MetricsTask) : Bool :=
  match task.pc with
  | .serving => true
  | _ => false

end MetricsTask

/-! ## The process -/

/-- The next state of `watchdog_loop`. Whether it pings makes no difference here. -/
def WatchdogPc.next (stopEvent : Bool) : WatchdogPc → Option WatchdogPc
  | .top => some (if stopEvent then .returned else .waiting)
  | .waiting => some .top
  | .returned => none

def WatchdogPc.result : WatchdogPc → Option TaskEnd
  | .returned => some .returned
  | _ => none

/-- How `supervise_server` ended, if it did. -/
def Supervisor.result (s : Supervisor) : Option TaskEnd :=
  match s.pc with
  | .returned => some .returned
  | _ => none

/-- How `asyncio.gather` ends of these results, the first that did not return before the others. -/
def gathers (results : List (Option TaskEnd)) (how : TaskEnd) : Bool :=
  if how = .returned then results.all (· = some .returned) else some how ∈ results

/-- Where `run_app` is. -/
inductive MainPc where
  /-- Awaiting the gather. -/
  | gathering
  /-- In the `finally` block, awaiting the connect task of this index. -/
  | connects (how : TaskEnd) (i : ℕ)
  /-- In `metrics.stop`, awaiting the endpoint. -/
  | stopping (how : TaskEnd)
  | done (how : TaskEnd)
deriving DecidableEq

namespace MainPc

def isGathering : MainPc → Bool
  | .gathering => true
  | _ => false

def isStopping : MainPc → Bool
  | .stopping _ => true
  | _ => false

/-- How the gather has ended. -/
def outcome : MainPc → Option TaskEnd
  | .gathering => none
  | .connects how _ | .stopping how | .done how => some how

/-- How many of so many connect tasks were awaited. -/
def awaited (n : ℕ) : MainPc → ℕ
  | .gathering => 0
  | .connects _ i => i
  | .stopping _ | .done _ => n

end MainPc

structure MainRun (p : Process) where
  tasks : (Fin p.bridges.length → BridgeTasks) × Time
  /-- Where systemd has set the interval. -/
  watchdog : Option WatchdogPc
  /-- Where the endpoint is enabled. -/
  metrics : Option MetricsTask
  stopEvent : Bool := false
  pc : MainPc := .gathering
  /-- The clients that the `finally` block has closed. -/
  closed : List (Fin p.bridges.length × ℕ) := []

inductive MainEvent (p : Process) where
  | task (i : Fin p.bridges.length) (e : TaskEvent)
  | watchdog
  | metrics (e : MetricsEvent)
  | stop
  /-- The gather ends. -/
  | gathered (how : TaskEnd)
  /-- What the `finally` block awaits is over. -/
  | resume

namespace MainRun

variable {p : Process}

/-- What the gathered coroutines have come to. -/
def results (s : MainRun p) : List (Option TaskEnd) :=
  (List.ofFn fun i => (s.tasks.1 i).app.poller.result) ++
    (List.ofFn fun i => (s.tasks.1 i).supervisor.result) ++ s.watchdog.toList.map (·.result)

/-- The end of the `finally` block. Whatever `close()` raises is caught. -/
def finish (s : MainRun p) (how : TaskEnd) : MainRun p :=
  { s with
    pc := .done how
    closed := List.ofFn fun i => (i, (s.tasks.1 i).app.poller.client) }

/-- The `finally` block goes on. -/
def resume (s : MainRun p) : Option (MainRun p) :=
  match s.pc with
  | .connects how i =>
    if h : i < p.bridges.length then
      if (s.tasks.1 ⟨i, h⟩).app.startup.isOver then some { s with pc := .connects how (i + 1) }
      else none
    else some { s with pc := .stopping how }
  | .stopping how => if s.metrics.all (·.isOver) then some (s.finish how) else none
  | _ => none

def step (e : MainEvent p) (s : MainRun p) : Option (MainRun p) :=
  match e with
  | .task i e =>
    if e.cancels && s.pc.isGathering then none
    else
      ((Clocked.interleave fun i => clockedTasks (p.bridge i).setup).step (i, e) s.tasks).map
        ({ s with tasks := · })
  | .watchdog =>
    s.watchdog.bind fun pc => (pc.next s.stopEvent).map ({ s with watchdog := some · })
  | .metrics e =>
    if e.cancels && !s.pc.isStopping then none
    else s.metrics.bind fun task => (task.step s.stopEvent e).map ({ s with metrics := some · })
  | .stop =>
    if s.stopEvent then none
    else some { s with tasks := (fun i => (s.tasks.1 i).stop, s.tasks.2), stopEvent := true }
  | .gathered how =>
    if s.pc.isGathering && gathers s.results how then some { s with pc := .connects how 0 }
    else none
  | .resume => s.resume

end MainRun

/-- The runs of `run_app`, the watchdog loop with it where there is an interval. -/
def mainSystem (p : Process) (watchdogSec : Option Time) : System (MainRun p) (MainEvent p) where
  init s := ∃ tasks, (Clocked.interleave fun i => clockedTasks (p.bridge i).setup).init tasks ∧
    s = {
      tasks := tasks
      watchdog := watchdogSec.map fun _ => .top
      metrics := (p.config.metricsEndpoint p.only).map fun _ => {} }
  step := MainRun.step

/-! ## What a step keeps -/

section Keeps

variable {conf : PollerConf}

/-- What the steps of the supervisor keep, those of the bridge do. -/
theorem AppRun.poller_keeps {I : PollSupervisor → Prop}
    (hI : ∀ {e : PollEvent} {q q' : PollSupervisor}, e ≠ .stop → I q → q.step conf e = some q' →
      I q') {s s' : AppRun} {e : AppEvent} (he : e ≠ .poller .stop) (hs : I s.poller)
    (h : s.step conf e = some s') : I s'.poller := by
  have htouch : ∀ {q : PollSupervisor} (t : Time), I q →
      I { q with heartbeat := q.heartbeat.touch t } := by
    intro q t hq
    have hstep : q.step conf (.touch t) = some { q with heartbeat := q.heartbeat.touch t } := rfl
    exact hI (e := .touch t) nofun hq hstep
  rcases AppRun.step_cases h with ⟨e, q, rfl, -, -, hq, rfl⟩ | ⟨i, c, t, q, hq, -, rfl⟩ |
    ⟨current, t, -, -, rfl⟩ | ⟨startup, owned, -, rfl, -⟩
  · exact hI (fun heq => he (congrArg _ heq)) hs hq
  · exact htouch t (hI (e := .loop i (.cycle c)) nofun hs hq)
  · unfold AppRun.attempt
    split_ifs
    · exact hs
    · exact htouch t hs
  · exact hs

theorem AppRun.startup_keeps {s s' : AppRun} {e : AppEvent} (hover : s.startup.isOver = true)
    (h : s.step conf e = some s') : s'.startup = s.startup := by
  have hnot : s.startup.isOver ≠ false := fun hfalse => Bool.false_ne_true (hfalse.symm.trans hover)
  rcases AppRun.step_cases h with ⟨e, q, rfl, -, -, -, rfl⟩ | ⟨i, c, t, q, -, -, rfl⟩ |
    ⟨current, t, hlive, -⟩ | ⟨startup, owned, hlive, -⟩
  · rfl
  · rfl
  · exact absurd hlive hnot
  · exact absurd hlive hnot

theorem PollSupervisor.loop_keeps {s s' : PollSupervisor} {i : ℕ} {e : LoopEvent}
    (h : s.step conf (.loop i e) = some s') : s'.pc = s.pc ∧ s'.client = s.client ∧
      s'.stopEvent = s.stopEvent ∧ (s.task.isLive = false → s'.task = s.task) := by
  obtain ⟨loop, hi, h⟩ := Option.bind_eq_some_iff.1 h
  obtain ⟨hlive, pc, reports, rfl, -⟩ := loopStep_cases h
  rcases i with _ | i
  · obtain rfl := Option.some.inj hi
    refine ⟨rfl, rfl, rfl, fun hdead => ?_⟩
    cases hdead.symm.trans hlive
  · exact ⟨rfl, rfl, rfl, fun _ => rfl⟩

theorem PollSupervisor.retry_stopEvent (s : PollSupervisor) (current touchedAt startedAt : Time) :
    (s.retry current touchedAt startedAt).stopEvent = s.stopEvent := by
  rcases retry_cases s current touchedAt startedAt with ⟨-, heq⟩ | ⟨-, heq⟩
  · rw [heq]
    rfl
  · rw [heq]

theorem PollSupervisor.recover_stopEvent (s : PollSupervisor) (r : Recovery) :
    (s.recover conf r).stopEvent = s.stopEvent := by
  rcases recover_cases conf s r with ⟨exc, -, heq⟩ | ⟨-, heq⟩
  · rw [heq]
    rfl
  · rw [heq, retry_stopEvent]
    rfl

theorem PollSupervisor.step_stopEvent {e : PollEvent} {s s' : PollSupervisor} (he : e ≠ .stop)
    (h : s.step conf e = some s') : s'.stopEvent = s.stopEvent := by
  unfold PollSupervisor.step at h
  split at h
  · exact (@loop_keeps conf s s' _ _ h).2.2.1
  · obtain rfl := Option.some.inj h
    rcases check_cases conf s _ _ with ⟨-, heq⟩ | ⟨-, -, heq⟩ | ⟨-, heq⟩
    · rw [heq]
    · rw [heq, recover_stopEvent]
    · rw [heq]
      split_ifs <;> rfl
  · split_ifs at h
    rw [← Option.some.inj h]
  · rw [← Option.some.inj h, recover_stopEvent]
  · rw [← Option.some.inj h]
  · obtain rfl := Option.some.inj h
    rename_i result startedAt current hpc
    rcases result with exc | _ | _ <;> rfl
  · rw [← Option.some.inj h, retry_stopEvent]
  · rw [← Option.some.inj h]
  · exact absurd rfl he
  · cases h

/-- A supervisor that has ended keeps its client. -/
theorem PollSupervisor.step_ended {e : PollEvent} {s s' : PollSupervisor} {how : TaskEnd}
    (hpc : s.pc = .ended how) (h : s.step conf e = some s') :
    s'.pc = .ended how ∧ s'.client = s.client := by
  unfold PollSupervisor.step at h
  rw [hpc] at h
  rcases e with ⟨i, e⟩ | ⟨t, r⟩ | _ | r | ⟨result, startedAt⟩ | ⟨touchedAt, startedAt⟩ | t | _ <;>
    try cases h
  · obtain ⟨hkept, hclient, -⟩ := @loop_keeps conf s s' i e h
    exact ⟨hkept.trans hpc, hclient⟩
  · exact ⟨rfl, rfl⟩
  · exact ⟨rfl, rfl⟩

theorem PollSupervisor.again_pc_ne (s : PollSupervisor) (how : TaskEnd) :
    s.again.pc ≠ .ended how := by
  unfold again
  dsimp only
  split_ifs <;> simp

/-- No recovery ends a supervisor at once. -/
theorem PollSupervisor.retry_pc_ne (s : PollSupervisor) (current touchedAt startedAt : Time)
    (how : TaskEnd) : (s.retry current touchedAt startedAt).pc ≠ .ended how := by
  rcases retry_cases s current touchedAt startedAt with ⟨-, heq⟩ | ⟨-, heq⟩ <;> simp [heq]

theorem PollSupervisor.recover_pc_ne (s : PollSupervisor) (r : Recovery) (how : TaskEnd) :
    (s.recover conf r).pc ≠ .ended how := by
  rcases recover_cases conf s r with ⟨exc, -, heq⟩ | ⟨-, heq⟩
  · simp [heq]
  · rw [heq]
    exact retry_pc_ne _ _ _ _ _

/-- Its task has ended with it. -/
theorem PollSupervisor.step_dead {e : PollEvent} {s s' : PollSupervisor}
    (hdead : ∀ how, s.pc = .ended how → s.task.isLive = false) (h : s.step conf e = some s') :
    ∀ how, s'.pc = .ended how → s'.task.isLive = false := by
  intro how hpc'
  by_cases hended : ∃ how, s.pc = .ended how
  · obtain ⟨how', hpc⟩ := hended
    have htask := hdead how' hpc
    unfold PollSupervisor.step at h
    rw [hpc] at h
    rcases e with ⟨i, e⟩ | ⟨t, r⟩ | _ | r | ⟨result, startedAt⟩ | ⟨touchedAt, startedAt⟩ | t | _ <;>
      try cases h
    · rw [(@loop_keeps conf s s' i e h).2.2.2 htask]
      exact htask
    · exact htask
    · exact htask
  · unfold PollSupervisor.step at h
    split at h
    · exact absurd ⟨how, (@loop_keeps conf s s' _ _ h).1.symm.trans hpc'⟩ hended
    · obtain rfl := Option.some.inj h
      rcases check_cases conf s _ _ with ⟨-, heq⟩ | ⟨-, -, heq⟩ | ⟨-, heq⟩
      · rw [heq] at hpc'
        cases hpc'
      · rw [heq] at hpc'
        exact absurd hpc' (recover_pc_ne _ _ _)
      · rw [heq] at hpc'
        split_ifs at hpc'
        exact absurd hpc' (again_pc_ne _ _)
    · split_ifs at h
      rw [← Option.some.inj h] at hpc'
      cases hpc'
    · rw [← Option.some.inj h] at hpc'
      exact absurd hpc' (recover_pc_ne _ _ _)
    · rw [← Option.some.inj h]
      exact PollLoop.isLive_cancel _
    · obtain rfl := Option.some.inj h
      rename_i result startedAt current hpc
      rcases result with exc | _ | _
      · cases hpc'
      · cases hpc'
      · exact absurd hpc' (again_pc_ne _ _)
    · rw [← Option.some.inj h] at hpc'
      exact absurd hpc' (retry_pc_ne _ _ _ _ _)
    · rw [← Option.some.inj h] at hpc'
      exact absurd ⟨how, hpc'⟩ hended
    · rw [← Option.some.inj h] at hpc'
      exact absurd ⟨how, hpc'⟩ hended
    · cases h

end Keeps

/-! ## The invariant -/

structure TasksOk (conf : BridgeSetup) (stop : Bool) (b : BridgeTasks) : Prop where
  swap : Swap b.app.poller
  dead : ∀ how, b.app.poller.pc = .ended how → b.app.poller.task.isLive = false
  supervisor : (supervisorSystem conf.server).Reachable b.supervisor
  pollerStop : b.app.poller.stopEvent = stop
  serverStop : b.supervisor.stopEvent = stop

/-- What has ended has ended. -/
structure BridgeTasks.Persists (b b' : BridgeTasks) : Prop where
  poller : ∀ how, b.app.poller.pc = .ended how →
    b'.app.poller.pc = .ended how ∧ b'.app.poller.client = b.app.poller.client
  supervisor : b.supervisor.pc = .returned → b'.supervisor.pc = .returned
  startup : b.app.startup.isOver = true → b'.app.startup.isOver = true

theorem BridgeTasks.Persists.refl (b : BridgeTasks) : b.Persists b :=
  ⟨fun _ h => ⟨h, rfl⟩, id, id⟩

/-- A step of a bridge is one of its supervisors or of what goes with its polling. -/
theorem BridgeTasks.step_cases {conf : BridgeSetup} {b b' : BridgeTasks} {e : TaskEvent}
    (h : b.step conf e = some b') :
    (∃ a app, e = .app a ∧ a ≠ .poller .stop ∧ b.app.step conf.poller a = some app ∧
        b' = { b with app := app }) ∨
      ∃ a supervisor, e = .server a ∧ a ≠ .stop ∧
        b.supervisor.step conf.server a = some supervisor ∧
        b' = { b with supervisor := supervisor } := by
  unfold BridgeTasks.step at h
  split_ifs at h with hstop
  rcases e with e | e
  · obtain ⟨app, happ, rfl⟩ := Option.map_eq_some_iff.1 h
    refine .inl ⟨e, app, rfl, ?_, happ, rfl⟩
    rintro rfl
    exact hstop rfl
  · obtain ⟨supervisor, hsupervisor, rfl⟩ := Option.map_eq_some_iff.1 h
    refine .inr ⟨e, supervisor, rfl, ?_, hsupervisor, rfl⟩
    rintro rfl
    exact hstop rfl

theorem Supervisor.step_returned {conf : SupervisorConf} {s s' : Supervisor} {e : SupervisorEvent}
    (hpc : s.pc = .returned) (h : s.step conf e = some s') : s'.pc = .returned := by
  unfold Supervisor.step at h
  split at h
  next hpc' => cases hpc.symm.trans hpc'
  next =>
    unfold Supervisor.serveEnds at h
    split at h
    · split_ifs at h
      obtain rfl := Option.some.inj h
      exact hpc
    · cases h
  next hpc' => cases hpc.symm.trans hpc'
  next hpc' => cases hpc.symm.trans hpc'
  next hpc' => cases hpc.symm.trans hpc'
  next =>
    obtain rfl := Option.some.inj h
    exact hpc
  next => cases h

theorem Supervisor.act_stopEvent {conf : SupervisorConf} (s : Supervisor) (t : Time)
    (age : WithTop Time) : (s.act conf t age).stopEvent = s.stopEvent := by
  unfold Supervisor.act
  split
  · rfl
  · split <;> rfl
  · rfl
  · rfl

theorem Supervisor.leave_stopEvent (s : Supervisor) : s.leave.stopEvent = s.stopEvent := by
  unfold Supervisor.leave
  split <;> rfl

theorem Supervisor.check_stopEvent {conf : SupervisorConf} (s : Supervisor) (t : Time)
    (age : WithTop Time) (isActive : Option Bool) :
    (s.check conf t age isActive).stopEvent = s.stopEvent := by
  unfold Supervisor.check
  split
  · exact leave_stopEvent s
  · split
    · exact act_stopEvent _ _ _
    · split_ifs
      · rfl
      · rfl
      · exact act_stopEvent _ _ _

theorem Supervisor.step_stopEvent {conf : SupervisorConf} {s s' : Supervisor} {e : SupervisorEvent}
    (he : e ≠ .stop) (h : s.step conf e = some s') : s'.stopEvent = s.stopEvent := by
  unfold Supervisor.step at h
  split at h
  · obtain rfl := Option.some.inj h
    exact check_stopEvent _ _ _ _
  · unfold Supervisor.serveEnds at h
    split at h
    · split_ifs at h
      rw [← Option.some.inj h]
    · cases h
  · obtain rfl := Option.some.inj h
    rename_i why hpc
    rcases why with _ | _ | _ | _
    · exact act_stopEvent _ _ _
    · rfl
    · rfl
    · rfl
  · obtain rfl := Option.some.inj h
    rename_i why hpc
    rcases why with _ | _ | _ | _
    · exact act_stopEvent _ _ _
    · exact act_stopEvent _ _ _
    · rfl
    · rfl
  · rw [← Option.some.inj h]
  · exact absurd rfl he
  · cases h

theorem TasksOk.step {conf : BridgeSetup} {stop : Bool} {b b' : BridgeTasks} {e : TaskEvent}
    (h : TasksOk conf stop b) (hs : b.step conf e = some b') :
    TasksOk conf stop b' ∧ b.Persists b' := by
  rcases BridgeTasks.step_cases hs with ⟨a, app, -, ha, happ, rfl⟩ |
    ⟨a, supervisor, -, ha, hsup, rfl⟩
  · refine ⟨⟨?_, ?_, h.supervisor, ?_, h.serverStop⟩, ⟨fun how hpc => ?_, id, fun hover => ?_⟩⟩
    · exact AppRun.poller_keeps (fun _ hq hs => step_swap hq _ hs) ha h.swap happ
    · exact AppRun.poller_keeps (I := fun q => ∀ how, q.pc = .ended how → q.task.isLive = false)
        (fun _ hq hs => PollSupervisor.step_dead hq hs) ha h.dead happ
    · exact AppRun.poller_keeps (I := fun q => q.stopEvent = stop)
        (fun he hq hs => (PollSupervisor.step_stopEvent he hs).trans hq) ha h.pollerStop happ
    · exact AppRun.poller_keeps
        (I := fun q => q.pc = .ended how ∧ q.client = b.app.poller.client)
        (fun _ hq hs => (PollSupervisor.step_ended hq.1 hs).imp_right (·.trans hq.2)) ha
        ⟨hpc, rfl⟩ happ
    · show app.startup.isOver = true
      rw [AppRun.startup_keeps hover happ]
      exact hover
  · refine ⟨⟨h.swap, h.dead, h.supervisor.step hsup, h.pollerStop, ?_⟩,
      ⟨fun how hpc => ⟨hpc, rfl⟩, fun hpc => Supervisor.step_returned hpc hsup, id⟩⟩
    exact (Supervisor.step_stopEvent ha hsup).trans h.serverStop

theorem TasksOk.stop {conf : BridgeSetup} {stop : Bool} {b : BridgeTasks}
    (h : TasksOk conf stop b) : TasksOk conf true b.stop where
  swap := by
    have hstep : b.app.poller.step conf.poller .stop =
        some { b.app.poller with stopEvent := true } := rfl
    exact step_swap h.swap _ hstep
  dead := h.dead
  supervisor := by
    have hstep : (supervisorSystem conf.server).step .stop b.supervisor =
        some { b.supervisor with stopEvent := true } := rfl
    exact h.supervisor.step hstep
  pollerStop := rfl
  serverStop := rfl

theorem gathers_returned {results : List (Option TaskEnd)} :
    gathers results .returned = true ↔ ∀ r ∈ results, r = some .returned := by
  simp [gathers]

theorem gathers_of_ne {results : List (Option TaskEnd)} {how : TaskEnd} (hne : how ≠ .returned) :
    gathers results how = true ↔ some how ∈ results := by
  simp [gathers, hne]

theorem PollSupervisor.result_eq_some {s : PollSupervisor} {how : TaskEnd} :
    s.result = some how ↔ s.pc = .ended how := by
  unfold PollSupervisor.result
  rcases hpc : s.pc <;> simp

theorem Supervisor.result_eq_some {s : Supervisor} {how : TaskEnd} :
    s.result = some how ↔ how = .returned ∧ s.pc = .returned := by
  unfold Supervisor.result
  rcases hpc : s.pc <;> simp [eq_comm]

theorem WatchdogPc.result_eq_some {pc : WatchdogPc} {how : TaskEnd} :
    pc.result = some how ↔ how = .returned ∧ pc = .returned := by
  rcases pc with _ | _ | _ <;> simp [WatchdogPc.result, eq_comm]

namespace MainRun

variable {p : Process}

theorem mem_results {s : MainRun p} {r : Option TaskEnd} :
    r ∈ s.results ↔ (∃ i, (s.tasks.1 i).app.poller.result = r) ∨
      (∃ i, (s.tasks.1 i).supervisor.result = r) ∨ ∃ pc ∈ s.watchdog, pc.result = r := by
  simp [results, List.mem_ofFn]

/-- The gather returns once everything has. -/
theorem gathers_returned_iff {s : MainRun p} :
    gathers s.results .returned = true ↔
      (∀ i, (s.tasks.1 i).app.poller.pc = .ended .returned) ∧
      (∀ i, (s.tasks.1 i).supervisor.pc = .returned) ∧ ∀ pc ∈ s.watchdog, pc = .returned := by
  rw [gathers_returned]
  refine ⟨fun h => ⟨fun i => ?_, fun i => ?_, fun pc hpc => ?_⟩, ?_⟩
  · exact PollSupervisor.result_eq_some.1 (h _ (mem_results.2 (.inl ⟨i, rfl⟩)))
  · exact (Supervisor.result_eq_some.1 (h _ (mem_results.2 (.inr (.inl ⟨i, rfl⟩))))).2
  · exact (WatchdogPc.result_eq_some.1 (h _ (mem_results.2 (.inr (.inr ⟨pc, hpc, rfl⟩))))).2
  · rintro ⟨hpollers, hservers, hwatchdog⟩ r hr
    rcases mem_results.1 hr with ⟨i, rfl⟩ | ⟨i, rfl⟩ | ⟨pc, hpc, rfl⟩
    · exact PollSupervisor.result_eq_some.2 (hpollers i)
    · exact Supervisor.result_eq_some.2 ⟨rfl, hservers i⟩
    · exact WatchdogPc.result_eq_some.2 ⟨rfl, hwatchdog pc hpc⟩

/-- Otherwise it ends as a poll supervisor has. -/
theorem gathers_iff {s : MainRun p} {how : TaskEnd} (hne : how ≠ .returned) :
    gathers s.results how = true ↔ ∃ i, (s.tasks.1 i).app.poller.pc = .ended how := by
  rw [gathers_of_ne hne, mem_results]
  refine ⟨?_, fun ⟨i, hpc⟩ => .inl ⟨i, PollSupervisor.result_eq_some.2 hpc⟩⟩
  rintro (⟨i, hr⟩ | ⟨i, hr⟩ | ⟨pc, -, hr⟩)
  · exact ⟨i, PollSupervisor.result_eq_some.1 hr⟩
  · exact absurd (Supervisor.result_eq_some.1 hr).1 hne
  · exact absurd (WatchdogPc.result_eq_some.1 hr).1 hne

/-- What the gather has come to stays. -/
theorem gathers_persists {s s' : MainRun p} {how : TaskEnd}
    (htasks : ∀ i, (s.tasks.1 i).Persists (s'.tasks.1 i))
    (hwatchdog : (∀ pc ∈ s.watchdog, pc = .returned) → ∀ pc ∈ s'.watchdog, pc = .returned)
    (h : gathers s.results how = true) : gathers s'.results how = true := by
  by_cases hne : how = .returned
  · subst hne
    obtain ⟨hpollers, hservers, hw⟩ := gathers_returned_iff.1 h
    exact gathers_returned_iff.2 ⟨fun i => ((htasks i).poller _ (hpollers i)).1,
      fun i => (htasks i).supervisor (hservers i), hwatchdog hw⟩
  · obtain ⟨i, hpc⟩ := (gathers_iff hne).1 h
    exact (gathers_iff hne).2 ⟨i, ((htasks i).poller _ hpc).1⟩

end MainRun

theorem MetricsTask.exists_of_isOver {task : MetricsTask} (h : task.isOver = true) :
    ∃ how, task.pc = .ended how := by
  unfold MetricsTask.isOver at h
  split at h
  next how hpc => exact ⟨how, hpc⟩
  next => cases h

theorem MetricsTask.step_ok {stopEvent : Bool} {task task' : MetricsTask} {e : MetricsEvent}
    (h : task.opened = task.closed + if task.isServing then 1 else 0)
    (hs : task.step stopEvent e = some task') :
    (task'.opened = task'.closed + if task'.isServing then 1 else 0) ∧ task.isOver = false := by
  unfold MetricsTask.step at hs
  rcases hpc : task.pc <;> rw [hpc] at hs <;> simp only [MetricsTask.isServing, hpc] at h <;>
    rcases e with _ | (_ | _ | _) | _ | _ | _ | _ <;> rcases stopEvent with _ | _ <;> cases hs <;>
    simp [MetricsTask.isServing, MetricsTask.isOver, MetricsTask.close, hpc, h]

structure MainOk {p : Process} (s : MainRun p) : Prop where
  tasks : ∀ i, TasksOk (p.bridge i).setup s.stopEvent (s.tasks.1 i)
  metrics : ∀ task ∈ s.metrics, task.opened = task.closed + if task.isServing then 1 else 0
  outcome : ∀ how, s.pc.outcome = some how → gathers s.results how = true
  awaited : ∀ i : Fin p.bridges.length, i.1 < s.pc.awaited p.bridges.length →
    (s.tasks.1 i).app.startup.isOver = true
  finished : ∀ how, s.pc = .done how → (∀ task ∈ s.metrics, task.isOver = true) ∧
    s.closed.map Prod.fst = List.finRange p.bridges.length ∧
    (how = .returned → s.closed = List.ofFn fun i => (i, (s.tasks.1 i).app.poller.client))

namespace MainRun

variable {p : Process} {s s' : MainRun p}

/-- Tasks beside `run_app` move. -/
theorem ok_of_tasks (h : MainOk s) {tasks : (Fin p.bridges.length → BridgeTasks) × Time}
    {watchdog : Option WatchdogPc} {stop : Bool}
    (htasks : ∀ i, TasksOk (p.bridge i).setup stop (tasks.1 i))
    (hpersists : ∀ i, (s.tasks.1 i).Persists (tasks.1 i))
    (hwatchdog : (∀ pc ∈ s.watchdog, pc = .returned) → ∀ pc ∈ watchdog, pc = .returned) :
    MainOk { s with tasks := tasks, watchdog := watchdog, stopEvent := stop } where
  tasks := htasks
  metrics := h.metrics
  outcome how hpc := gathers_persists hpersists hwatchdog (h.outcome how hpc)
  awaited i hi := (hpersists i).startup (h.awaited i hi)
  finished how hpc := by
    obtain ⟨hmetrics, hfst, hclosed⟩ := h.finished how hpc
    refine ⟨hmetrics, hfst, fun hreturned => (hclosed hreturned).trans ?_⟩
    subst hreturned
    have hgather := h.outcome .returned (by rw [show s.pc = _ from hpc]; rfl)
    refine congrArg List.ofFn (funext fun i => ?_)
    rw [((hpersists i).poller _ ((gathers_returned_iff.1 hgather).1 i)).2]

theorem ok_resume (h : MainOk s) (hs : s.resume = some s') : MainOk s' := by
  unfold resume at hs
  split at hs
  next how k hpc =>
    have houtcome := h.outcome how (by rw [hpc]; rfl)
    have hawaited : ∀ i : Fin p.bridges.length, i.1 < k →
        (s.tasks.1 i).app.startup.isOver = true := by
      intro i hi
      exact h.awaited i (by rw [hpc]; exact hi)
    split_ifs at hs with hk hover
    · obtain rfl := Option.some.inj hs
      refine ⟨h.tasks, h.metrics, fun how' heq => ?_, fun i hi => ?_, nofun⟩
      · obtain rfl := Option.some.inj heq
        exact houtcome
      · rcases Nat.lt_succ_iff_lt_or_eq.1 hi with hlt | heq
        · exact hawaited i hlt
        · obtain rfl : i = ⟨k, hk⟩ := Fin.ext heq
          exact hover
    · obtain rfl := Option.some.inj hs
      refine ⟨h.tasks, h.metrics, fun how' heq => ?_, fun i _ => hawaited i (by omega), nofun⟩
      obtain rfl := Option.some.inj heq
      exact houtcome
  next how hpc =>
    split_ifs at hs with hover
    obtain rfl := Option.some.inj hs
    refine ⟨h.tasks, h.metrics, fun how' heq => ?_, fun i hi => ?_, fun how' heq => ⟨?_, ?_, ?_⟩⟩
    · obtain rfl := Option.some.inj heq
      exact h.outcome how (by rw [hpc]; rfl)
    · exact h.awaited i (by rw [hpc]; exact hi)
    · intro task htask
      exact Option.all_eq_true _ _ |>.1 hover task htask
    · show (List.ofFn _).map Prod.fst = _
      rw [List.map_ofFn]
      exact List.ofFn_id _
    · exact fun _ => rfl
  next => cases hs

/-- A step is one of a bridge, of the watchdog loop, of the endpoint or of `run_app`, or sets the
stop event. -/
theorem step_cases {e : MainEvent p} (hs : s.step e = some s') :
    (∃ i a tasks, (Clocked.interleave fun i => clockedTasks (p.bridge i).setup).step (i, a)
        s.tasks = some tasks ∧ s' = { s with tasks := tasks }) ∨
      (∃ pc pc', s.watchdog = some pc ∧ pc.next s.stopEvent = some pc' ∧
        s' = { s with watchdog := some pc' }) ∨
      (∃ a task task', s.metrics = some task ∧ task.step s.stopEvent a = some task' ∧
        s' = { s with metrics := some task' }) ∨
      (s.stopEvent = false ∧ s' = { s with
        tasks := (fun i => (s.tasks.1 i).stop, s.tasks.2), stopEvent := true }) ∨
      (∃ how, s.pc = .gathering ∧ gathers s.results how = true ∧
        s' = { s with pc := .connects how 0 }) ∨
      s.resume = some s' := by
  unfold step at hs
  split at hs
  next i a =>
    split at hs
    · cases hs
    · obtain ⟨tasks, htasks, rfl⟩ := Option.map_eq_some_iff.1 hs
      exact .inl ⟨i, a, tasks, htasks, rfl⟩
  next =>
    obtain ⟨pc, hpc, hs⟩ := Option.bind_eq_some_iff.1 hs
    obtain ⟨pc', hpc', rfl⟩ := Option.map_eq_some_iff.1 hs
    exact .inr (.inl ⟨pc, pc', hpc, hpc', rfl⟩)
  next a =>
    split at hs
    · cases hs
    · obtain ⟨task, htask, hs⟩ := Option.bind_eq_some_iff.1 hs
      obtain ⟨task', htask', rfl⟩ := Option.map_eq_some_iff.1 hs
      exact .inr (.inr (.inl ⟨a, task, task', htask, htask', rfl⟩))
  next =>
    split_ifs at hs with hstop
    exact .inr (.inr (.inr (.inl ⟨by simpa using hstop, (Option.some.inj hs).symm⟩)))
  next how =>
    split_ifs at hs with hgather
    rw [Bool.and_eq_true] at hgather
    have hpc : s.pc = .gathering := by
      rcases hpc : s.pc <;> rw [hpc] at hgather <;> first | rfl | cases hgather.1
    exact .inr (.inr (.inr (.inr (.inl ⟨how, hpc, hgather.2, (Option.some.inj hs).symm⟩))))
  next => exact .inr (.inr (.inr (.inr (.inr hs))))

theorem step_ok {e : MainEvent p} (h : MainOk s) (hs : s.step e = some s') : MainOk s' := by
  rcases step_cases hs with ⟨i, a, tasks, htasks, rfl⟩ | ⟨pc, pc', hpc, hpc', rfl⟩ |
    ⟨a, task, task', htask, htask', rfl⟩ | ⟨-, rfl⟩ | ⟨how, -, hgather, rfl⟩ | hs
  · have hmoved : ∀ j, TasksOk (p.bridge j).setup s.stopEvent (tasks.1 j) ∧
        (s.tasks.1 j).Persists (tasks.1 j) := by
      intro j
      rcases Clocked.step_component htasks j with ⟨-, hstep⟩ | ⟨-, hsame⟩
      · exact (h.tasks j).step hstep
      · rw [hsame]
        exact ⟨h.tasks j, .refl _⟩
    exact ok_of_tasks h (fun j => (hmoved j).1) (fun j => (hmoved j).2) id
  · refine ok_of_tasks h h.tasks (fun i => .refl _) fun hreturned => ?_
    rw [hreturned pc hpc] at hpc'
    cases hpc'
  · obtain ⟨hok, hlive⟩ := MetricsTask.step_ok (h.metrics task htask) htask'
    refine ⟨h.tasks, fun t ht => ?_, h.outcome, h.awaited, fun how hpc => ?_⟩
    · obtain rfl := Option.some.inj ht
      exact hok
    · have hover := (h.finished how hpc).1 task htask
      cases hlive.symm.trans hover
  · exact ok_of_tasks h (fun i => (h.tasks i).stop) (fun i => ⟨fun _ hpc => ⟨hpc, rfl⟩, id, id⟩) id
  · refine ⟨h.tasks, h.metrics, fun how' heq => ?_, fun i hi => ?_, nofun⟩
    · obtain rfl := Option.some.inj heq
      exact hgather
    · exact absurd hi (Nat.not_lt_zero _)
  · exact ok_resume h hs

end MainRun

theorem reachable_mainOk {p : Process} {watchdogSec : Option Time} {s : MainRun p}
    (h : (mainSystem p watchdogSec).Reachable s) : MainOk s := by
  refine h.invariant (I := MainOk) ?_ fun e s s' hs _ hstep => MainRun.step_ok hs hstep
  rintro s ⟨tasks, htasks, rfl⟩
  refine ⟨fun i => ?_, fun task htask => ?_, nofun, fun i hi => ?_, nofun⟩
  · obtain ⟨⟨t, heq⟩, -⟩ := htasks i
    have hpoller : (disturbedSystem (p.bridge i).setup.poller).Reachable (.initial false t) :=
      .init ⟨false, t, rfl⟩
    rw [heq]
    exact ⟨reachable_swap hpoller, nofun, .init rfl, rfl, rfl⟩
  · obtain ⟨endpoint, -, rfl⟩ := Option.map_eq_some_iff.1 htask
    rfl
  · exact absurd hi (Nat.not_lt_zero _)

end DtsuBridge
