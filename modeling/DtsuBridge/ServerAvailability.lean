import DtsuBridge.Process
import DtsuBridge.Lib.Refine

/-!
# When the server is up

An iteration of `supervise_server` is over once it has shut down what it lets go and started
what it may start, with awaits between. A `Keeper` decides at once : it keeps the server it has
while that is of use, lets it go otherwise, and starts the next one on fresh data, unless the
last start was too short a time ago.

`supervisor_refines` : every run of the supervisor is a run of a keeper that makes the same
decisions in the same order, with what the server tasks do while they are not being torn down.
`iteration_exact` : what an iteration ends with is what its readings say, whatever happened in
its awaits. `held_throughout` : a bridge whose checks all find a sample that is recent enough
keeps the server it has, and calls nothing.
-/

namespace DtsuBridge

/-! ## A keeper -/

/-- What a supervisor holds between two iterations. -/
structure Keeper where
  held : Option Server := none
  lastStart : Option Time := none
  /-- Servers created so far. -/
  created : ℕ := 0
  calls : List ServerCall := []
  left : Bool := false

inductive KeeperAction where
  /-- Decide at a clock reading, on fresh data or not, and on `is_active` of the server held. -/
  | decide (t : Time) (fresh : Bool) (isActive : Option Bool)
  /-- The server's task ends by itself. -/
  | ends (outcome : Outcome)
  | leave

namespace Keeper

variable (conf : SupervisorConf)

/-- The next server may be created. -/
def mayStart (k : Keeper) (t : Time) : Bool :=
  k.lastStart.all fun last => conf.minRestartInterval ≤ t - last

/-- The server is not of use : its task has ended, or its transport is not open in time. -/
def lost (k : Keeper) (t : Time) (isActive : Option Bool) (srv : Server) : Bool :=
  srv.served.isSome ||
    (listenNeverOpened isActive && k.lastStart.any fun last => conf.deadStartGrace ≤ t - last)

def release (k : Keeper) : Keeper :=
  { k with held := none }

/-- Shut down the server and let it go. -/
def shut (k : Keeper) : Keeper :=
  { k with held := none, calls := k.calls ++ k.held.toList.map fun srv => .shutdown srv.id }

def start (k : Keeper) (t : Time) : Keeper :=
  { k with
    held := some { id := k.created }
    lastStart := some t
    created := k.created + 1
    calls := k.calls ++ [.create k.created t] }

def leave (k : Keeper) : Keeper :=
  { k with left := true }

/-- Hold a server on fresh data only. -/
def settle (k : Keeper) (t : Time) (fresh : Bool) : Keeper :=
  if fresh then if k.held.isSome || !k.mayStart conf t then k else k.start t
  else k.shut

def decide (k : Keeper) (t : Time) (fresh : Bool) (isActive : Option Bool) : Keeper :=
  if k.held.any (k.lost conf t isActive) then k.shut.settle conf t fresh
  else k.settle conf t fresh

def ends (k : Keeper) (outcome : Outcome) : Option Keeper :=
  match k.held with
  | some srv =>
    if srv.served.isNone then some { k with held := some { srv with served := some outcome } }
    else none
  | none => none

def step (e : KeeperAction) (k : Keeper) : Option Keeper :=
  if k.left then none
  else
    match e with
    | .decide t fresh isActive => some (k.decide conf t fresh isActive)
    | .ends outcome => k.ends outcome
    | .leave => some k.shut.leave

end Keeper

/-- The runs of a keeper. -/
def keeperSystem (conf : SupervisorConf) : System Keeper KeeperAction where
  init := (· = {})
  step := Keeper.step conf

/-! ## The keeper of a supervisor -/

/-- What is held, whatever the supervisor is about to do with it. -/
def Supervisor.holding (s : Supervisor) : Keeper where
  held := s.server
  lastStart := s.lastStart
  created := s.created
  calls := s.calls

variable (conf : SupervisorConf)

/-- What is held once a teardown and the rest of its iteration are over. -/
def Teardown.settled (k : Keeper) : Teardown → Keeper
  | .crashed t age | .unopened t age => k.release.settle conf t (conf.gate.shouldServe age)
  | .stale _ _ => k.release
  | .exit => k.release.leave

/-- The keeper is done where its supervisor still awaits. -/
def Supervisor.keeper (s : Supervisor) : Keeper :=
  match s.pc with
  | .top | .waiting _ _ => s.holding
  | .closing why | .cancelling why => why.settled conf s.holding
  | .returned => s.holding.release.leave

/-- What the keeper does in a step of its supervisor. -/
def Supervisor.seen (e : SupervisorEvent) (s : Supervisor) : List KeeperAction :=
  match e, s.pc with
  | .check t age isActive, _ =>
    if s.stopEvent then [.leave] else [.decide t (conf.gate.shouldServe age) isActive]
  | .serveEnds outcome, .top | .serveEnds outcome, .waiting _ _ => [.ends outcome]
  | _, _ => []

variable {conf} {s s' : Supervisor}

/-- Calling `shutdown()` is the first half of shutting down. -/
theorem holding_callShutdown {srv : Server} (hsrv : s.server = some srv) (why : Teardown) :
    (s.callShutdown srv why).holding.release = s.holding.shut := by
  simp [Supervisor.holding, Supervisor.callShutdown, Keeper.release, Keeper.shut, hsrv]

/-- The second half of an iteration settles what is held. -/
theorem act_keeper (s : Supervisor) (t : Time) (age : WithTop Time) :
    (s.act conf t age).keeper conf = s.holding.settle conf t (conf.gate.shouldServe age) := by
  unfold Supervisor.act serverAction Keeper.settle Keeper.mayStart
  rcases hsrv : s.server with _ | srv <;> rcases hfresh : conf.gate.shouldServe age
  · simp [Supervisor.keeper, Supervisor.holding, Keeper.shut, hsrv]
  · rcases hlast : s.lastStart with _ | last
    · simp [Supervisor.keeper, Supervisor.holding, Supervisor.start, Keeper.start, hsrv, hlast]
    · by_cases h : conf.minRestartInterval ≤ t - last <;>
        simp [Supervisor.keeper, Supervisor.holding, Supervisor.start, Keeper.start, hsrv, hlast, h]
  · exact holding_callShutdown hsrv _
  · simp [Supervisor.keeper, Supervisor.holding, hsrv]

theorem leave_keeper (s : Supervisor) : s.leave.keeper conf = s.holding.shut.leave := by
  unfold Supervisor.leave
  split
  next srv hsrv => exact congrArg Keeper.leave (holding_callShutdown hsrv _)
  next hsrv => simp [Supervisor.keeper, Supervisor.holding, Keeper.release, Keeper.shut, hsrv]

theorem check_keeper (hstop : s.stopEvent = false) (t : Time) (age : WithTop Time)
    (isActive : Option Bool) : (s.check conf t age isActive).keeper conf =
      s.holding.decide conf t (conf.gate.shouldServe age) isActive := by
  unfold Supervisor.check Keeper.decide
  rw [if_neg (by simp [hstop])]
  rcases hsrv : s.server with _ | srv
  · simpa [Supervisor.holding, hsrv] using act_keeper s t age
  · have hlost : s.holding.held.any (s.holding.lost conf t isActive) =
        (srv.served.isSome || (listenNeverOpened isActive &&
          s.lastStart.any fun last => decide (conf.deadStartGrace ≤ t - last))) := by
      simp [Supervisor.holding, Keeper.lost, hsrv]
    rw [hlost, ← holding_callShutdown hsrv .exit]
    by_cases hended : srv.served.isSome = true
    · simp only [hended, if_true, Bool.true_or]
      rfl
    · rw [Bool.not_eq_true] at hended
      simp only [hended, Bool.false_or, Bool.false_eq_true, if_false]
      split_ifs
      · rfl
      · exact act_keeper s t age

/-- The end of a task that is being torn down changes nothing. -/
theorem serveEnds_keeper {outcome : Outcome} (hs : s.serveEnds outcome = some s') :
    s'.pc = s.pc ∧ s.holding.ends outcome = some s'.holding ∧
      ∀ why : Teardown, why.settled conf s'.holding = why.settled conf s.holding := by
  unfold Supervisor.serveEnds at hs
  unfold Keeper.ends
  rcases hsrv : s.server with _ | srv
  · simp [hsrv] at hs
  · simp only [hsrv] at hs
    split_ifs at hs with hserved
    obtain rfl := Option.some.inj hs
    refine ⟨rfl, by simp [Supervisor.holding, hsrv, hserved], fun why => ?_⟩
    rcases why <;> rfl

/-! ## The refinement -/

theorem step_refines {e : SupervisorEvent} (hok : PcOk conf s) (hs : s.step conf e = some s') :
    (keeperSystem conf).run (s.seen conf e) (s.keeper conf) = some (s'.keeper conf) := by
  unfold Supervisor.step at hs
  split at hs
  next t age isActive hpc =>
    obtain rfl := Option.some.inj hs
    have hkeeper : s.keeper conf = s.holding := by rw [Supervisor.keeper, hpc]
    rw [hkeeper, Supervisor.seen]
    by_cases hstop : s.stopEvent = true
    · rw [if_pos hstop, Supervisor.check, if_pos hstop, leave_keeper]
      rfl
    · rw [if_neg hstop, check_keeper (by simpa using hstop)]
      rfl
  next outcome =>
    obtain ⟨hpc, hends, hsettled⟩ := @serveEnds_keeper conf _ _ _ hs
    unfold Supervisor.seen Supervisor.keeper
    rw [hpc]
    rcases hat : s.pc with _ | why | why | ⟨t, age⟩ | _
    · rw [System.run_singleton]
      exact hends
    · simp [hsettled]
    · simp [hsettled]
    · rw [System.run_singleton]
      exact hends
    · rw [PcOk, hat] at hok
      simp [Supervisor.serveEnds, hok.1] at hs
  next outcome why hpc =>
    obtain rfl := Option.some.inj hs
    simp only [Supervisor.seen, Supervisor.keeper, hpc]
    rcases why with ⟨t, age⟩ | ⟨t, age⟩ | ⟨t, age⟩ | _
    · exact congrArg some (act_keeper s.release t age).symm
    all_goals rfl
  next outcome why hpc =>
    obtain rfl := Option.some.inj hs
    simp only [Supervisor.seen, Supervisor.keeper, hpc]
    rcases why with ⟨t, age⟩ | ⟨t, age⟩ | ⟨t, age⟩ | _
    · exact congrArg some (act_keeper s.release t age).symm
    · exact congrArg some (act_keeper s.release t age).symm
    all_goals rfl
  next t age hpc =>
    obtain rfl := Option.some.inj hs
    simp only [Supervisor.seen, Supervisor.keeper, hpc]
    rfl
  next =>
    obtain rfl := Option.some.inj hs
    rfl
  next => cases hs

theorem supervisorSystem_refines :
    (supervisorSystem conf).Refines (keeperSystem conf) (Supervisor.keeper conf)
      (Supervisor.seen conf) where
  init s hs := by
    obtain rfl := hs
    rfl
  step e s s' hs := step_refines (reachable_ok hs).2

/-- Every run of a supervisor is one of a keeper. -/
theorem supervisor_refines {es : List SupervisorEvent}
    (h : (supervisorSystem conf).run es {} = some s) :
    (keeperSystem conf).run ((supervisorSystem conf).traces (Supervisor.seen conf) es {}) {} =
      some (s.keeper conf) :=
  supervisorSystem_refines.run es (.init rfl) h

/-- The keeper of a supervisor that returns has let its server go. -/
theorem supervisor_refines_oneServer : ∃ s : Supervisor, s.calls = [.create 0 0, .shutdown 0] ∧
    (keeperSystem promptConf).run
      ((supervisorSystem promptConf).traces (Supervisor.seen promptConf) oneServer {}) {} =
      some (s.keeper promptConf) :=
  ⟨_, rfl, supervisor_refines (s := ((supervisorSystem promptConf).run oneServer {}).get rfl) rfl⟩

/-! ## One iteration -/

/-- What a server's task does leaves the rest as it was. -/
structure Keeper.SameBut (k k' : Keeper) : Prop where
  held : k'.held.map (·.id) = k.held.map (·.id)
  lastStart : k'.lastStart = k.lastStart
  created : k'.created = k.created
  calls : k'.calls = k.calls

theorem sameBut_of_ends : ∀ {as : List KeeperAction} {k k' : Keeper},
    (∀ a ∈ as, ∃ outcome, a = .ends outcome) → (keeperSystem conf).run as k = some k' →
    k.SameBut k'
  | [], _, _, _, h => by
    obtain rfl := Option.some.inj h
    exact ⟨rfl, rfl, rfl, rfl⟩
  | a :: as, k, k', has, h => by
    obtain ⟨⟨outcome, rfl⟩, hrest⟩ := List.forall_mem_cons.1 has
    obtain ⟨k₁, hk₁, h⟩ := Option.bind_eq_some_iff.1 h
    obtain ⟨hheld, hlast, hcreated, hcalls⟩ := sameBut_of_ends hrest h
    obtain ⟨hid, rest⟩ : k₁.held.map (·.id) = k.held.map (·.id) ∧
        k₁.lastStart = k.lastStart ∧ k₁.created = k.created ∧ k₁.calls = k.calls := by
      simp only [keeperSystem, Keeper.step, Keeper.ends] at hk₁
      rcases hk : k.held with _ | srv
      · simp [hk] at hk₁
      · simp only [hk] at hk₁
        split_ifs at hk₁
        obtain rfl := Option.some.inj hk₁
        exact ⟨rfl, rfl, rfl, rfl⟩
    exact ⟨hheld.trans hid, hlast.trans rest.1, hcreated.trans rest.2.1, hcalls.trans rest.2.2⟩

/-- Between two checks the keeper decides nothing. -/
theorem traces_of_no_check : ∀ {es : List SupervisorEvent} {s : Supervisor},
    (∀ e ∈ es, e.reading = none) →
    ∀ a ∈ (supervisorSystem conf).traces (Supervisor.seen conf) es s, ∃ outcome, a = .ends outcome
  | [], _, _, _, ha => by cases ha
  | e :: es, s, hes, a, ha => by
    obtain ⟨he, hes⟩ := List.forall_mem_cons.1 hes
    rcases List.mem_append.1 ha with ha | ha
    · rcases e with ⟨t, age, isActive⟩ | outcome | outcome | outcome | _ | _
      · cases he
      · simp only [Supervisor.seen] at ha
        rcases hpc : s.pc with _ | why | why | ⟨t, age⟩ | _ <;> simp [hpc] at ha
        · exact ⟨outcome, ha⟩
        · exact ⟨outcome, ha⟩
      all_goals simp [Supervisor.seen] at ha
    · rcases hstep : (supervisorSystem conf).step e s with _ | s₁
      · simp [hstep] at ha
      · rw [hstep] at ha
        exact traces_of_no_check hes a ha

/-- Without a check in between, what an iteration has read stays what it was. -/
theorem reading_of_no_check : ∀ {es : List SupervisorEvent} {s s' : Supervisor},
    (∀ e ∈ es, e.reading = none) → (supervisorSystem conf).run es s = some s' →
    ∀ r, s'.pc.reading = some r → s.pc.reading = some r
  | [], _, _, _, h, r, hr => by
    obtain rfl := Option.some.inj h
    exact hr
  | e :: es, s, s', hes, h, r, hr => by
    obtain ⟨he, hes⟩ := List.forall_mem_cons.1 hes
    obtain ⟨s₁, hs₁, h⟩ := Option.bind_eq_some_iff.1 h
    rcases (supervisor_reads hs₁).reading r (reading_of_no_check hes h r hr) with hr | hr
    · exact hr
    · cases he.symm.trans hr

namespace Keeper

/-- The server held, while it is of use. -/
def useful (conf : SupervisorConf) (k : Keeper) (t : Time) (isActive : Option Bool) :
    Option Server :=
  k.held.filter fun srv => !k.lost conf t isActive srv

/-- The calls of a shutdown. -/
def shutdowns (k : Keeper) : List ServerCall :=
  k.held.toList.map fun srv => .shutdown srv.id

/-- A start is due. -/
def due (conf : SupervisorConf) (k : Keeper) (t : Time) (held : Option Server) : Bool :=
  held.isNone && k.mayStart conf t

theorem settle_fresh (k : Keeper) (t : Time) : k.settle conf t true =
    if k.due conf t k.held then k.start t else k := by
  unfold settle due
  rcases k.held with _ | srv <;> rcases k.mayStart conf t <;> rfl

theorem decide_useful (k : Keeper) (t : Time) (fresh : Bool) (isActive : Option Bool) :
    k.decide conf t fresh isActive =
      (if (k.useful conf t isActive).isSome then k else k.shut).settle conf t fresh := by
  unfold decide useful
  rcases hk : k.held with _ | srv
  · have hshut : k.shut = k := by
      rcases k with ⟨held, lastStart, created, calls, left⟩
      obtain rfl : held = none := hk
      simp [shut]
    simp [hshut]
  · rcases hlost : k.lost conf t isActive srv <;> simp [Option.filter, hlost]

/-- On fresh data a keeper has a server that is of use, or the one that is due. -/
theorem decide_fresh (k : Keeper) (t : Time) (isActive : Option Bool) :
    (k.decide conf t true isActive).held.map (·.id) =
        (if k.due conf t (k.useful conf t isActive) then some k.created
          else (k.useful conf t isActive).map (·.id)) ∧
      (k.decide conf t true isActive).calls = k.calls ++
        (if (k.useful conf t isActive).isSome then [] else k.shutdowns) ++
        (if k.due conf t (k.useful conf t isActive) then [.create k.created t] else []) := by
  have huseful : ∀ srv, k.useful conf t isActive = some srv → k.held = some srv :=
    fun srv h => (Option.filter_eq_some_iff.1 h).1
  rw [decide_useful, settle_fresh]
  rcases hu : k.useful conf t isActive with _ | srv
  · have hdue : k.shut.due conf t k.shut.held = k.due conf t none := rfl
    simp only [Option.isSome_none, Bool.false_eq_true, if_false, hdue]
    split_ifs <;> simp [start, shut, shutdowns]
  · simp [due, huseful srv hu]

theorem decide_stale (k : Keeper) (t : Time) (isActive : Option Bool) :
    (k.decide conf t false isActive).held = none ∧
      (k.decide conf t false isActive).calls = k.calls ++ k.shutdowns := by
  rw [decide_useful]
  split_ifs <;> simp [settle, shut, shutdowns]

end Keeper

/-- An iteration that reads `t`, `age` and `isActive` ends with what they say, and has called
nothing else, whatever happened in its awaits. On fresh data a server that is of use is kept,
and one that is not is replaced unless it is too soon. On stale data none is held. -/
theorem iteration_exact (hs : (supervisorSystem conf).Reachable s) (hpc : s.pc = .top)
    (hstop : s.stopEvent = false) {t : Time} {age : WithTop Time} {isActive : Option Bool}
    {es : List SupervisorEvent} (hes : ∀ e ∈ es, e.reading = none)
    (h : (supervisorSystem conf).run (.check t age isActive :: es) s = some s')
    {t' : Time} {age' : WithTop Time} (hend : s'.pc = .waiting t' age') :
    (t', age') = (t, age) ∧
    (conf.gate.shouldServe age = true →
      s'.server.map (·.id) =
          (if s.holding.due conf t (s.holding.useful conf t isActive) then some s.created
            else (s.holding.useful conf t isActive).map (·.id)) ∧
        s'.calls = s.calls ++
          (if (s.holding.useful conf t isActive).isSome then [] else s.holding.shutdowns) ++
          (if s.holding.due conf t (s.holding.useful conf t isActive) then [.create s.created t]
            else [])) ∧
    (conf.gate.shouldServe age = false →
      s'.server = none ∧ s'.calls = s.calls ++ s.holding.shutdowns) := by
  obtain ⟨s₁, hs₁, hrest⟩ := Option.bind_eq_some_iff.1 h
  have hcheck : s₁ = s.check conf t age isActive := by
    simpa [supervisorSystem, Supervisor.step, hpc] using hs₁.symm
  have hread : s₁.pc.reading = some (t', age') :=
    reading_of_no_check hes hrest _ (by rw [hend]; rfl)
  have hkeeper : s₁.keeper conf = s.holding.decide conf t (conf.gate.shouldServe age) isActive := by
    rw [hcheck, check_keeper hstop]
  have hrun := supervisorSystem_refines.run es (hs.step hs₁) hrest
  have hsame := sameBut_of_ends (traces_of_no_check hes) hrun
  have hwaiting : s'.keeper conf = s'.holding := by rw [Supervisor.keeper, hend]
  rw [hkeeper, hwaiting] at hsame
  refine ⟨?_, fun hfresh => ?_, fun hstale => ?_⟩
  · have hr := (supervisor_reads hs₁).reading _ hread
    rw [hpc] at hr
    rcases hr with hr | hr
    · cases hr
    · exact (Option.some.inj hr).symm
  · rw [hfresh] at hsame
    obtain ⟨hheld, hcalls⟩ := @Keeper.decide_fresh conf s.holding t isActive
    exact ⟨hsame.held.trans hheld, hsame.calls.trans hcalls⟩
  · rw [hstale] at hsame
    obtain ⟨hheld, hcalls⟩ := @Keeper.decide_stale conf s.holding t isActive
    refine ⟨?_, hsame.calls.trans hcalls⟩
    have hnone := hsame.held
    rw [hheld] at hnone
    exact Option.map_eq_none_iff.1 hnone

/-- A server whose task fails. -/
def failedServer : List SupervisorEvent :=
  [.check 0 0 none, .serveEnds (.raised (.other "OSError" "busy")), .waitEnds]

/-- It is shut down and replaced within one iteration. -/
theorem iteration_exact_failedServer : ∃ s s' : Supervisor,
    (supervisorSystem promptConf).run failedServer {} = some s ∧
    (supervisorSystem promptConf).run [.check 1 1 none, .shutdownEnds .returned] s = some s' ∧
    s'.server.map (·.id) = some 1 ∧ s'.calls = [.create 0 0, .shutdown 0, .create 1 1] := by
  let s : Supervisor := ((supervisorSystem promptConf).run failedServer {}).get rfl
  have hrun : ((supervisorSystem promptConf).run [.check 1 1 none, .shutdownEnds .returned] s).any
      (fun s' => match s'.pc with
        | .waiting _ _ => true
        | .top | .closing _ | .cancelling _ | .returned => false) = true := by
    decide +kernel
  obtain ⟨s', hs', hp⟩ := (Option.any_eq_true _ _).1 hrun
  have hreach : (supervisorSystem promptConf).Reachable s :=
    System.reachable_of_run (.init rfl) failedServer rfl
  have huseful : s.holding.useful promptConf 1 none = none := rfl
  have hdue : s.holding.due promptConf 1 (s.holding.useful promptConf 1 none) = true := by
    decide +kernel
  split at hp
  next t age hend =>
    obtain ⟨-, hfresh, -⟩ := iteration_exact hreach rfl rfl (by simp [SupervisorEvent.reading]) hs'
      hend
    obtain ⟨hserver, hcalls⟩ := hfresh (by decide +kernel)
    rw [hdue, if_pos rfl] at hserver
    rw [hdue, huseful, if_pos rfl] at hcalls
    exact ⟨s, s', rfl, hs', hserver, hcalls⟩
  all_goals cases hp

/-! ## A bridge that keeps its server -/

section Float

variable [FloatArith] {bridge : BridgeSetup}

/-- Every check finds a sample that is recent enough and a transport that is open, if it can be
asked, and neither the server's task nor the supervisor is to end. -/
def BridgeEvent.Calm (bridge : BridgeSetup) (e : BridgeEvent) (s : Bridge) : Prop :=
  match e with
  | .check t isActive =>
    s.freshAt bridge.server.gate.maxAge t = true ∧ listenNeverOpened isActive = false
  | .server (.serveEnds _) | .server .stop => False
  | .cycle .. | .poller _ | .server _ => True

/-- The server is held and left alone. -/
structure Steady (srv : Server) (calls : List ServerCall) (s : Supervisor) : Prop where
  server : s.server = some srv
  calls : s.calls = calls
  running : s.stopEvent = false
  pc : s.pc = .top ∨ ∃ t age, s.pc = .waiting t age

omit [FloatArith] in
/-- A check on fresh data leaves a server alone that serves. -/
theorem check_steady {srv : Server} {calls : List ServerCall} (h : Steady srv calls s)
    (hlive : srv.served = none) {t : Time} {age : WithTop Time} {isActive : Option Bool}
    (hfresh : conf.gate.shouldServe age = true) (hopen : listenNeverOpened isActive = false) :
    Steady srv calls (s.check conf t age isActive) := by
  have hact : s.check conf t age isActive = { s with pc := .waiting t age } := by
    simp [Supervisor.check, Supervisor.act, serverAction, h.running, h.server, hlive, hopen, hfresh]
  rw [hact]
  exact ⟨h.server, h.calls, h.running, Or.inr ⟨t, age, rfl⟩⟩

omit [FloatArith] in
theorem step_steady {srv : Server} {calls : List ServerCall} (h : Steady srv calls s)
    {e : SupervisorEvent} (hs : s.step conf e = some s') (hcheck : e.reading = none)
    (hends : ∀ outcome, e ≠ .serveEnds outcome) (hstop : e ≠ .stop) : Steady srv calls s' := by
  have hpc := h.pc
  unfold Supervisor.step at hs
  split at hs
  next => cases hcheck
  next outcome => exact absurd rfl (hends outcome)
  next hat => simp [hat] at hpc
  next hat => simp [hat] at hpc
  next =>
    obtain rfl := Option.some.inj hs
    exact ⟨h.server, h.calls, h.running, Or.inl rfl⟩
  next => exact absurd rfl hstop
  next => cases hs

omit [FloatArith] in
theorem eq_check_of_step {t : Time} {age : WithTop Time} {isActive : Option Bool}
    (hs : s.step conf (.check t age isActive) = some s') : s' = s.check conf t age isActive := by
  rcases hpc : s.pc <;> simp [Supervisor.step, hpc] at hs
  exact hs.symm

/-- The runs of a bridge from one of its states. -/
def bridgeFrom (bridge : BridgeSetup) (s : Bridge) : System Bridge BridgeEvent where
  init := (· = s)
  step := Bridge.step bridge

/-- A bridge that serves keeps its server, and calls nothing, for as long as each check finds
that its latest sample is recent enough, whatever its poll loops go through. -/
theorem held_throughout {s s' : Bridge} (hs : (bridgeSystem bridge).Reachable s) {srv : Server}
    (hserver : s.supervisor.server = some srv) (hlive : srv.served = none)
    (hstop : s.supervisor.stopEvent = false)
    (hpc : s.supervisor.pc = .top ∨ ∃ t age, s.supervisor.pc = .waiting t age)
    (h : (bridgeFrom bridge s).ReachableBy (BridgeEvent.Calm bridge) s') :
    s'.supervisor.server = some srv ∧ s'.supervisor.calls = s.supervisor.calls := by
  suffices hinv : (bridgeSystem bridge).Reachable s' ∧
      Steady srv s.supervisor.calls s'.supervisor from ⟨hinv.2.server, hinv.2.calls⟩
  refine h.invariant (I := fun s' => (bridgeSystem bridge).Reachable s' ∧
    Steady srv s.supervisor.calls s'.supervisor) ?_ ?_
  · rintro s' rfl
    exact ⟨hs, hserver, rfl, hstop, hpc⟩
  · rintro e s₁ s₂ ⟨hreach, hsteady⟩ hcalm hstep
    refine ⟨hreach.step hstep, ?_⟩
    change s₁.step bridge e = some s₂ at hstep
    unfold Bridge.step at hstep
    split at hstep
    next =>
      split_ifs at hstep
      rw [(Bridge.cycle_cases hstep).1]
      exact hsteady
    next => cases hstep
    next => cases hstep
    next =>
      obtain ⟨poller, -, rfl⟩ := Option.map_eq_some_iff.1 hstep
      exact hsteady
    next t isActive =>
      split_ifs at hstep
      obtain ⟨supervisor, hsup, rfl⟩ := Option.map_eq_some_iff.1 hstep
      obtain ⟨hfresh, hopen⟩ := hcalm
      rw [← shouldServe_eq_freshAt hreach] at hfresh
      rw [eq_check_of_step hsup]
      exact check_steady hsteady hlive hfresh hopen
    next e hno =>
      obtain ⟨supervisor, hsup, rfl⟩ := Option.map_eq_some_iff.1 hstep
      rcases e with ⟨t, age, isActive⟩ | outcome | outcome | outcome | _ | _
      · exact absurd rfl (hno t age isActive)
      · exact hcalm.elim
      · exact step_steady hsteady hsup rfl nofun nofun
      · exact step_steady hsteady hsup rfl nofun nofun
      · exact step_steady hsteady hsup rfl nofun nofun
      · exact hcalm.elim

end Float

/-- A bridge that serves makes another check. -/
def nextCheck : List BridgeEvent :=
  [.server .waitEnds, .check 2 none]

/-- It serves on. -/
theorem held_throughout_nextCheck : ∃ s s', (@bridgeSystem .double freqBridge).Reachable s ∧
    (@bridgeFrom .double freqBridge s).run nextCheck s = some s' ∧
    s'.supervisor.server = some { id := 0 } ∧ s'.supervisor.calls = s.supervisor.calls := by
  let s0 : Bridge :=
    { poller := .initial false 0, served := ⟨bridgeContext (freqMap 102) tcpConf, {}⟩, clock := 0 }
  have hrun : ((@bridgeSystem .double freqBridge).run onePoll s0).any (fun s =>
      s.supervisor.server.any (fun srv => srv.id = 0 && srv.served.isNone) &&
      !s.supervisor.stopEvent && s.freshAt freqBridge.server.gate.maxAge 2 &&
      ((@bridgeFrom .double freqBridge s).run nextCheck s).isSome &&
      match s.supervisor.pc with
        | .waiting _ _ => true
        | .top | .closing _ | .cancelling _ | .returned => false) = true := by
    decide +kernel
  obtain ⟨s, hs, hp⟩ := (Option.any_eq_true _ _).1 hrun
  simp only [Bool.and_eq_true] at hp
  obtain ⟨⟨⟨⟨hserver, hstop⟩, hfresh⟩, hnext⟩, hpc⟩ := hp
  have hreach : (@bridgeSystem .double freqBridge).Reachable s :=
    System.reachable_of_run (.init ⟨_, _, ⟨false, 0, rfl⟩, rfl⟩) onePoll hs
  obtain ⟨⟨id, served⟩, hsrv, hlive⟩ := (Option.any_eq_true _ _).1 hserver
  obtain ⟨rfl, rfl⟩ : id = 0 ∧ served = none := by simpa using hlive
  obtain ⟨s', hs'⟩ := Option.isSome_iff_exists.1 hnext
  obtain ⟨s₁, hs₁, hlast⟩ := Option.bind_eq_some_iff.1 hs'
  obtain ⟨s₂, hs₂, hlast⟩ := Option.bind_eq_some_iff.1 hlast
  obtain rfl := Option.some.inj hlast
  have hkept : s₁.published = s.published := by
    obtain ⟨_, -, rfl⟩ := Option.map_eq_some_iff.1 hs₁
    rfl
  have hcalm : BridgeEvent.Calm freqBridge (.check 2 none) s₁ := by
    refine ⟨?_, rfl⟩
    rwa [Bridge.freshAt, hkept]
  have hwait : BridgeEvent.Calm freqBridge (.server .waitEnds) s := trivial
  have hrest : (@bridgeFrom .double freqBridge s).ReachableBy (BridgeEvent.Calm freqBridge) s₂ :=
    .step (.step (.init rfl) hwait hs₁) hcalm hs₂
  refine ⟨s, s₂, hreach, hs', ?_⟩
  refine @held_throughout .double freqBridge s s₂ hreach _ hsrv rfl (by simpa using hstop) ?_ hrest
  split at hpc
  next t age hat => exact Or.inr ⟨t, age, hat⟩
  all_goals cases hpc

end DtsuBridge
