import DtsuBridge.Canonical
import DtsuBridge.Lib.Run

/-!
# The server supervisor

`supervise_server` holds at most one server, starts it while the data is fresh and shuts
it down while it is stale, after its task ended and after its transport never opened. The
model is its loop with a state for each `await`, so that the server's task may end and the
stop event be set at any of them. `calls` is the history of what it called.

`supervisor_lifecycle` : in every run, whatever the servers do, a server is shut down
before the next one is created and before the supervisor returns, the status counts what is
held, and starts are as far apart as configured.
-/

namespace DtsuBridge

/-! ## The decision -/

inductive ServerAction where
  | start
  | wait
  | stop
  | none
deriving DecidableEq

/-- `_server_action`. Restarts are throttled. -/
def serverAction (fresh running : Bool) (now : Time) (lastStart : Option Time)
    (minRestartInterval : Time) : ServerAction :=
  if fresh && !running then
    match lastStart with
    | Option.none => .start
    | some last => if minRestartInterval ≤ now - last then .start else .wait
  else if !fresh && running then .stop
  else .none

/-- `_listen_never_opened`. A server without `is_active` is never flagged. -/
def listenNeverOpened (isActive : Option Bool) : Bool :=
  isActive = some false

/-- Whether the server is up, as seen by its supervisor. -/
structure ServerStatus where
  running : Bool := false
  starts : ℕ := 0
  stops : ℕ := 0
  lastStartTs : Option Time := none

namespace ServerStatus

def started (status : ServerStatus) (ts : Time) : ServerStatus where
  running := true
  starts := status.starts + 1
  stops := status.stops
  lastStartTs := some ts

def stopped (status : ServerStatus) : ServerStatus :=
  { status with
    running := false
    stops := if status.running then status.stops + 1 else status.stops }

end ServerStatus

/-! ## The loop -/

/-- How a coroutine ended. -/
inductive Outcome where
  | returned
  | raised (exc : PyExc)

/-- A server and what became of its task, none while it serves. -/
structure Server where
  id : ℕ
  served : Option Outcome := none

/-- A call of the supervisor. -/
inductive ServerCall where
  /-- `factory()`, decided at a clock reading. -/
  | create (id : ℕ) (t : Time)
  | shutdown (id : ℕ)
deriving DecidableEq

/-- Why a server is torn down, with what the iteration read. -/
inductive Teardown where
  | crashed (t : Time) (age : WithTop Time)
  | unopened (t : Time) (age : WithTop Time)
  | stale (t : Time) (age : WithTop Time)
  | exit

/-- Where the supervisor is. -/
inductive SupervisorPc where
  /-- At the test of the stop event. -/
  | top
  /-- Awaiting `shutdown()`. -/
  | closing (why : Teardown)
  /-- Awaiting the cancelled task. -/
  | cancelling (why : Teardown)
  /-- Awaiting the stop event or the check interval, at the end of an iteration. -/
  | waiting (t : Time) (age : WithTop Time)
  | returned

structure SupervisorConf where
  gate : HealthGate
  minRestartInterval : Time
  deadStartGrace : Time

structure Supervisor where
  pc : SupervisorPc := .top
  server : Option Server := none
  lastStart : Option Time := none
  status : ServerStatus := {}
  stopEvent : Bool := false
  /-- Servers created so far. -/
  created : ℕ := 0
  calls : List ServerCall := []

namespace Supervisor

variable (conf : SupervisorConf)

/-- Call `shutdown()`. Whatever it raises is caught. -/
def callShutdown (s : Supervisor) (srv : Server) (why : Teardown) : Supervisor :=
  { s with pc := .closing why, calls := s.calls ++ [.shutdown srv.id] }

/-- `server, serve_task = None, None` and `_mark_down()`. -/
def release (s : Supervisor) : Supervisor :=
  { s with server := none, status := s.status.stopped }

def start (s : Supervisor) (t : Time) : Supervisor :=
  { s with
    server := some { id := s.created }
    lastStart := some t
    status := s.status.started t
    created := s.created + 1
    calls := s.calls ++ [.create s.created t] }

/-- The second half of an iteration. -/
def act (s : Supervisor) (t : Time) (age : WithTop Time) : Supervisor :=
  match serverAction (conf.gate.shouldServe age) s.server.isSome t s.lastStart
      conf.minRestartInterval with
  | .start => { s.start t with pc := .waiting t age }
  | .stop =>
    match s.server with
    | some srv => s.callShutdown srv (.stale t age)
    | none => { s with pc := .waiting t age }
  | .wait | .none => { s with pc := .waiting t age }

/-- The `finally` block. -/
def leave (s : Supervisor) : Supervisor :=
  match s.server with
  | some srv => s.callShutdown srv .exit
  | none => { s with status := s.status.stopped, pc := .returned }

/-- The first half of an iteration. -/
def check (s : Supervisor) (t : Time) (age : WithTop Time) (isActive : Option Bool) :
    Supervisor :=
  if s.stopEvent then s.leave
  else
    match s.server with
    | none => s.act conf t age
    | some srv =>
      if srv.served.isSome then s.callShutdown srv (.crashed t age)
      else if listenNeverOpened isActive &&
          s.lastStart.any fun last => conf.deadStartGrace ≤ t - last then
        s.callShutdown srv (.unopened t age)
      else s.act conf t age

/-- `shutdown()` has ended. Only a crashed task needs no cancelling. -/
def closed (s : Supervisor) : Teardown → Supervisor
  | .crashed t age => s.release.act conf t age
  | why => { s with pc := .cancelling why }

/-- The cancelled task has ended. -/
def cancelled (s : Supervisor) : Teardown → Supervisor
  | .crashed t age | .unopened t age => s.release.act conf t age
  | .stale t age => { s.release with pc := .waiting t age }
  | .exit => { s.release with pc := .returned }

/-- The task of the held server ends by itself. -/
def serveEnds (s : Supervisor) (outcome : Outcome) : Option Supervisor :=
  match s.server with
  | some srv =>
    if srv.served.isNone then some { s with server := some { srv with served := some outcome } }
    else none
  | none => none

end Supervisor

inductive SupervisorEvent where
  /-- The loop condition, and a first half at these readings. -/
  | check (t : Time) (age : WithTop Time) (isActive : Option Bool)
  | serveEnds (outcome : Outcome)
  | shutdownEnds (outcome : Outcome)
  | taskEnds (outcome : Outcome)
  | waitEnds
  | stop

/-- The step of an event, where it can happen. -/
def Supervisor.step (conf : SupervisorConf) (e : SupervisorEvent) (s : Supervisor) :
    Option Supervisor :=
  match e, s.pc with
  | .check t age isActive, .top => some (s.check conf t age isActive)
  | .serveEnds outcome, _ => s.serveEnds outcome
  | .shutdownEnds _, .closing why => some (s.closed conf why)
  | .taskEnds _, .cancelling why => some (s.cancelled conf why)
  | .waitEnds, .waiting _ _ => some { s with pc := .top }
  | .stop, _ => some { s with stopEvent := true }
  | _, _ => none

/-- The runs of a supervisor. -/
def supervisorSystem (conf : SupervisorConf) : System Supervisor SupervisorEvent where
  init := (· = {})
  step := Supervisor.step conf

/-! ## The calls made -/

/-- The clock readings that decided the creations. -/
def startTimes : List ServerCall → List Time
  | [] => []
  | .create _ t :: calls => t :: startTimes calls
  | .shutdown _ :: calls => startTimes calls

/-- Every server created before another is shut down before it. -/
def ShutBeforeNext (calls : List ServerCall) : Prop :=
  EachAfter (fun pre call => ∀ id t, call = .create id t →
    ∀ id' t', ServerCall.create id' t' ∈ pre → ServerCall.shutdown id' ∈ pre) calls

theorem startTimes_append : ∀ as bs : List ServerCall,
    startTimes (as ++ bs) = startTimes as ++ startTimes bs
  | [], _ => rfl
  | .create _ t :: as, bs => congrArg (t :: ·) (startTimes_append as bs)
  | .shutdown _ :: as, bs => startTimes_append as bs

theorem shutBeforeNext_shutdown {calls : List ServerCall} (h : ShutBeforeNext calls) (id : ℕ) :
    ShutBeforeNext (calls ++ [.shutdown id]) := by
  rw [ShutBeforeNext, eachAfter_append]
  exact ⟨h, by simp⟩

/-- A creation follows once every server has been shut down. -/
theorem shutBeforeNext_create {calls : List ServerCall} (h : ShutBeforeNext calls)
    (hall : ∀ id t, ServerCall.create id t ∈ calls → ServerCall.shutdown id ∈ calls)
    (id : ℕ) (t : Time) : ShutBeforeNext (calls ++ [.create id t]) := by
  rw [ShutBeforeNext, eachAfter_append]
  refine ⟨h, ?_⟩
  simpa using hall

/-! ## The invariant -/

/-- The calls and the status agree with the held server. -/
structure Ledger (conf : SupervisorConf) (s : Supervisor) : Prop where
  running : s.status.running = s.server.isSome
  count : s.status.starts = s.status.stops + if s.status.running then 1 else 0
  /-- Whatever is not held has been shut down. -/
  shut : ∀ id t, ServerCall.create id t ∈ s.calls →
    (∀ srv, s.server = some srv → srv.id ≠ id) → ServerCall.shutdown id ∈ s.calls
  ordered : ShutBeforeNext s.calls
  lastStart : s.lastStart = (startTimes s.calls).getLast?
  spaced : (startTimes s.calls).IsChain fun t t' => conf.minRestartInterval ≤ t' - t

/-- What holds where the supervisor is. -/
def PcOk (conf : SupervisorConf) (s : Supervisor) : Prop :=
  match s.pc with
  | .top => True
  | .closing why | .cancelling why =>
    (∃ srv, s.server = some srv ∧ ServerCall.shutdown srv.id ∈ s.calls) ∧
      (why = .exit → s.stopEvent = true)
  | .waiting _ age => s.server.isSome = true → conf.gate.shouldServe age = true
  | .returned => s.server = none ∧ s.stopEvent = true

variable {conf : SupervisorConf}

theorem ledger_init : Ledger conf {} where
  running := rfl
  count := rfl
  shut := by simp
  ordered := by simp [ShutBeforeNext]
  lastStart := rfl
  spaced := .nil

theorem ledger_callShutdown {s : Supervisor} (h : Ledger conf s) (srv : Server) (why : Teardown) :
    Ledger conf (s.callShutdown srv why) where
  running := h.running
  count := h.count
  shut id t hmem hne := by
    have hmem : ServerCall.create id t ∈ s.calls := by
      simpa [Supervisor.callShutdown] using hmem
    exact List.mem_append_left _ (h.shut id t hmem hne)
  ordered := shutBeforeNext_shutdown h.ordered srv.id
  lastStart := by simpa [Supervisor.callShutdown, startTimes_append, startTimes] using h.lastStart
  spaced := by simpa [Supervisor.callShutdown, startTimes_append, startTimes] using h.spaced

theorem pcOk_callShutdown {s : Supervisor} {srv : Server} (hsrv : s.server = some srv)
    {why : Teardown} (hexit : why = .exit → s.stopEvent = true) :
    PcOk conf (s.callShutdown srv why) :=
  ⟨⟨srv, hsrv, by simp [Supervisor.callShutdown]⟩, hexit⟩

/-- A server that has been shut down can be let go. -/
theorem ledger_release {s : Supervisor} (h : Ledger conf s) {srv : Server}
    (hsrv : s.server = some srv) (hshut : ServerCall.shutdown srv.id ∈ s.calls) :
    Ledger conf s.release where
  running := rfl
  count := by
    have hrun := h.running
    have hcount := h.count
    rw [hsrv] at hrun
    simp only [Supervisor.release, ServerStatus.stopped, hrun] at hcount ⊢
    simpa using hcount
  shut id t hmem _ := by
    by_cases hid : srv.id = id
    · exact hid ▸ hshut
    · refine h.shut id t hmem fun srv' hsrv' => ?_
      obtain rfl := Option.some.inj (hsrv.symm.trans hsrv')
      exact hid
  ordered := h.ordered
  lastStart := h.lastStart
  spaced := h.spaced

theorem serverAction_cases (fresh running : Bool) (now : Time) (lastStart : Option Time)
    (minRestart : Time) :
    match serverAction fresh running now lastStart minRestart with
    | .start => fresh = true ∧ running = false ∧
        ∀ last, lastStart = some last → minRestart ≤ now - last
    | .wait => running = false
    | .stop => fresh = false ∧ running = true
    | .none => running = true → fresh = true := by
  unfold serverAction
  cases fresh <;> cases running <;> cases lastStart with
  | none => simp
  | some last =>
    first
    | simp; done
    | (simp only [Bool.not_false, Bool.and_self, if_true]; split_ifs with h <;> simp [h])

/-- A server is created only while none is held. -/
theorem ledger_start {s : Supervisor} (h : Ledger conf s) (hnone : s.server = none) {t : Time}
    (hspaced : ∀ last, s.lastStart = some last → conf.minRestartInterval ≤ t - last) :
    Ledger conf (s.start t) where
  running := rfl
  count := by
    have hrun := h.running
    have hcount := h.count
    rw [hnone] at hrun
    simp only [Supervisor.start, ServerStatus.started, hrun] at hcount ⊢
    simpa using hcount
  shut id t' hmem hne := by
    rcases List.mem_append.1 hmem with hmem | hmem
    · exact List.mem_append_left _ (h.shut id t' hmem (by simp [hnone]))
    · obtain ⟨rfl, -⟩ := ServerCall.create.inj (List.mem_singleton.1 hmem)
      exact absurd rfl (hne _ rfl)
  ordered := shutBeforeNext_create h.ordered (fun id t hmem => h.shut id t hmem (by simp [hnone]))
    _ _
  lastStart := by simp [Supervisor.start, startTimes_append, startTimes]
  spaced := by
    simp only [Supervisor.start, startTimes_append, startTimes]
    refine List.isChain_append.2 ⟨h.spaced, .singleton _, fun last hlast t' ht' => ?_⟩
    obtain rfl : t = t' := by simpa using ht'
    exact hspaced last (h.lastStart.trans hlast)

theorem Ledger.at_pc {s : Supervisor} (h : Ledger conf s) (pc : SupervisorPc) :
    Ledger conf { s with pc := pc } :=
  ⟨h.running, h.count, h.shut, h.ordered, h.lastStart, h.spaced⟩

/-! ## Steps keep it -/

theorem act_ok {s : Supervisor} (h : Ledger conf s) (t : Time) (age : WithTop Time) :
    Ledger conf (s.act conf t age) ∧ PcOk conf (s.act conf t age) := by
  have hcases := serverAction_cases (conf.gate.shouldServe age) s.server.isSome t s.lastStart
    conf.minRestartInterval
  unfold Supervisor.act
  cases hact : serverAction (conf.gate.shouldServe age) s.server.isSome t s.lastStart
      conf.minRestartInterval with
  | start =>
    rw [hact] at hcases
    obtain ⟨hfresh, hrun, hspaced⟩ := hcases
    have hnone : s.server = none := by simpa using hrun
    exact ⟨(ledger_start h hnone hspaced).at_pc _, fun _ => hfresh⟩
  | wait =>
    rw [hact] at hcases
    exact ⟨h.at_pc _, fun hsome => absurd hsome (by simp [hcases])⟩
  | stop =>
    rw [hact] at hcases
    obtain ⟨srv, hsrv⟩ := Option.isSome_iff_exists.1 hcases.2
    simp only [hsrv]
    exact ⟨ledger_callShutdown h srv _, pcOk_callShutdown hsrv nofun⟩
  | none =>
    rw [hact] at hcases
    exact ⟨h.at_pc _, hcases⟩

theorem leave_ok {s : Supervisor} (h : Ledger conf s) (hstop : s.stopEvent = true) :
    Ledger conf s.leave ∧ PcOk conf s.leave := by
  unfold Supervisor.leave
  split
  · next srv hsrv =>
    exact ⟨ledger_callShutdown h srv _, pcOk_callShutdown hsrv fun _ => hstop⟩
  · next hsrv =>
    have hrun : s.status.running = false := by simp [h.running, hsrv]
    refine ⟨⟨?_, ?_, h.shut, h.ordered, h.lastStart, h.spaced⟩, hsrv, hstop⟩
    · simp [ServerStatus.stopped, hsrv]
    · simpa [ServerStatus.stopped, hrun] using h.count

theorem check_ok {s : Supervisor} (h : Ledger conf s) (t : Time) (age : WithTop Time)
    (isActive : Option Bool) :
    Ledger conf (s.check conf t age isActive) ∧ PcOk conf (s.check conf t age isActive) := by
  unfold Supervisor.check
  by_cases hstop : s.stopEvent = true
  · rw [if_pos hstop]
    exact leave_ok h hstop
  rw [if_neg hstop]
  split
  · exact act_ok h t age
  · next srv hsrv =>
    split_ifs
    · exact ⟨ledger_callShutdown h srv _, pcOk_callShutdown hsrv nofun⟩
    · exact ⟨ledger_callShutdown h srv _, pcOk_callShutdown hsrv nofun⟩
    · exact act_ok h t age

theorem closed_ok {s : Supervisor} (h : Ledger conf s) {why : Teardown} (hpc : s.pc = .closing why)
    (hok : PcOk conf s) : Ledger conf (s.closed conf why) ∧ PcOk conf (s.closed conf why) := by
  rw [PcOk, hpc] at hok
  obtain ⟨⟨srv, hsrv, hshut⟩, hexit⟩ := hok
  cases why with
  | crashed t age => exact act_ok (ledger_release h hsrv hshut) t age
  | unopened t age | stale t age | exit => exact ⟨h.at_pc _, ⟨srv, hsrv, hshut⟩, hexit⟩

theorem cancelled_ok {s : Supervisor} (h : Ledger conf s) {why : Teardown}
    (hpc : s.pc = .cancelling why) (hok : PcOk conf s) :
    Ledger conf (s.cancelled conf why) ∧ PcOk conf (s.cancelled conf why) := by
  rw [PcOk, hpc] at hok
  obtain ⟨⟨srv, hsrv, hshut⟩, hexit⟩ := hok
  have hrelease := ledger_release h hsrv hshut
  cases why with
  | crashed t age | unopened t age => exact act_ok hrelease t age
  | stale t age => exact ⟨hrelease.at_pc _, nofun⟩
  | exit => exact ⟨hrelease.at_pc _, rfl, hexit rfl⟩

/-- The end of the held server's task changes nothing that is counted. -/
theorem serveEnds_ok {s s' : Supervisor} (h : Ledger conf s) (hok : PcOk conf s)
    {outcome : Outcome} (hs : s.serveEnds outcome = some s') : Ledger conf s' ∧ PcOk conf s' := by
  unfold Supervisor.serveEnds at hs
  cases hsrv : s.server with
  | none => simp [hsrv] at hs
  | some srv =>
    simp only [hsrv] at hs
    split_ifs at hs
    obtain rfl := Option.some.inj hs
    refine ⟨⟨?_, h.count, fun id t hmem hne => h.shut id t hmem fun srv' hsrv' => ?_, h.ordered,
      h.lastStart, h.spaced⟩, ?_⟩
    · simp [h.running, hsrv]
    · obtain rfl := Option.some.inj (hsrv.symm.trans hsrv')
      exact hne { srv with served := some outcome } rfl
    · unfold PcOk at hok ⊢
      cases hpc : s.pc with
      | top => trivial
      | closing why | cancelling why =>
        rw [hpc] at hok
        obtain ⟨⟨srv', hsrv', hshut⟩, hexit⟩ := hok
        obtain rfl := Option.some.inj (hsrv.symm.trans hsrv')
        exact ⟨⟨_, rfl, hshut⟩, hexit⟩
      | waiting t age =>
        rw [hpc] at hok
        exact fun _ => hok (by simp [hsrv])
      | returned =>
        rw [hpc] at hok
        simp [hsrv] at hok

theorem step_ok (e : SupervisorEvent) (s s' : Supervisor) (h : Ledger conf s ∧ PcOk conf s)
    (hs : s.step conf e = some s') : Ledger conf s' ∧ PcOk conf s' := by
  obtain ⟨h, hok⟩ := h
  unfold Supervisor.step at hs
  split at hs
  · obtain rfl := Option.some.inj hs
    exact check_ok h _ _ _
  · exact serveEnds_ok h hok hs
  · next why hpc =>
    obtain rfl := Option.some.inj hs
    exact closed_ok h hpc hok
  · next why hpc =>
    obtain rfl := Option.some.inj hs
    exact cancelled_ok h hpc hok
  · obtain rfl := Option.some.inj hs
    exact ⟨h.at_pc _, trivial⟩
  · obtain rfl := Option.some.inj hs
    refine ⟨⟨h.running, h.count, h.shut, h.ordered, h.lastStart, h.spaced⟩, ?_⟩
    unfold PcOk at hok ⊢
    cases hpc : s.pc <;> simp_all
  · cases hs

theorem reachable_ok {s : Supervisor} (h : (supervisorSystem conf).Reachable s) :
    Ledger conf s ∧ PcOk conf s := by
  refine System.ReachableBy.invariant ?_ (fun e s s' hs _ => step_ok e s s' hs) h
  rintro s rfl
  exact ⟨ledger_init, trivial⟩

/-! ## The lifecycle -/

/-- In every run : at most one server is not shut down yet, each is before the next one is
created and before the supervisor returns, the status agrees with what is held, starts are
apart, and the supervisor leaves its loop for the stop event alone. -/
theorem supervisor_lifecycle {s : Supervisor} (h : (supervisorSystem conf).Reachable s) :
    (∀ id t id' t', ServerCall.create id t ∈ s.calls → ServerCall.create id' t' ∈ s.calls →
      ServerCall.shutdown id ∉ s.calls → ServerCall.shutdown id' ∉ s.calls → id = id') ∧
    ShutBeforeNext s.calls ∧
    (s.pc = .returned → ∀ id t, ServerCall.create id t ∈ s.calls →
      ServerCall.shutdown id ∈ s.calls) ∧
    (s.status.running = s.server.isSome ∧
      s.status.starts = s.status.stops + if s.status.running then 1 else 0) ∧
    (startTimes s.calls).IsChain (fun t t' => conf.minRestartInterval ≤ t' - t) ∧
    (s.pc = .closing .exit ∨ s.pc = .cancelling .exit ∨ s.pc = .returned →
      s.stopEvent = true) := by
  obtain ⟨hl, hok⟩ := reachable_ok h
  have hheld : ∀ id t, ServerCall.create id t ∈ s.calls → ServerCall.shutdown id ∉ s.calls →
      ∃ srv, s.server = some srv ∧ srv.id = id := by
    intro id t hmem hno
    by_contra hne
    exact hno (hl.shut id t hmem fun srv hsrv hid => hne ⟨srv, hsrv, hid⟩)
  refine ⟨?_, hl.ordered, ?_, ⟨hl.running, hl.count⟩, hl.spaced, ?_⟩
  · intro id t id' t' hmem hmem' hno hno'
    obtain ⟨srv, hsrv, rfl⟩ := hheld id t hmem hno
    obtain ⟨srv', hsrv', rfl⟩ := hheld id' t' hmem' hno'
    rw [Option.some.inj (hsrv.symm.trans hsrv')]
  · intro hpc id t hmem
    rw [PcOk, hpc] at hok
    exact hl.shut id t hmem (by simp [hok.1])
  · unfold PcOk at hok
    rintro (hpc | hpc | hpc) <;> rw [hpc] at hok
    · exact hok.2 rfl
    · exact hok.2 rfl
    · exact hok.2

/-- A gate of three seconds and no throttling. -/
def promptConf : SupervisorConf := ⟨⟨3⟩, 0, 5⟩

/-- One server, whose `shutdown()` raises. -/
def oneServer : List SupervisorEvent :=
  [.check 0 0 none, .stop, .waitEnds, .check 1 1 none,
    .shutdownEnds (.raised (.other "OSError" "gone")), .taskEnds .returned]

/-- It is shut down when the supervisor returns. -/
theorem supervisor_lifecycle_oneServer : ∃ s,
    (supervisorSystem promptConf).run oneServer {} = some s ∧
      s.calls = [.create 0 0, .shutdown 0] ∧
      ∀ id t, ServerCall.create id t ∈ s.calls → ServerCall.shutdown id ∈ s.calls := by
  refine ⟨_, rfl, rfl, ?_⟩
  have hreach : (supervisorSystem promptConf).Reachable _ :=
    System.reachable_of_run (.init rfl) oneServer rfl
  exact (supervisor_lifecycle hreach).2.2.1 rfl

end DtsuBridge
