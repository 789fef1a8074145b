import DtsuBridge.Lib.Ranking
import DtsuBridge.RunApp

/-!
# The end of a process

After the stop event no task of `run_app` waits for another event. Each of its steps lowers the
number of those that are left (`MainRun.ranking`), and while `run_app` is not over one of them can
be taken (`MainRun.exists_step`).

`exit_releases` : in every run, when `run_app` is over, no startup connect and no endpoint is left,
every listener that `start_server` has returned is closed, and each bridge has had its client
closed. If `run_app` has returned, so has everything else : no poll loop is alive, no client is
open, every output server created was shut down, and nothing is left to do. Otherwise a poll
supervisor ended as it did.

`stop_exits` : once the stop event is set, every run takes a bounded number of steps, whatever is
awaited comes to, and can be continued until `run_app` is over.
-/

namespace DtsuBridge

/-! ## Polling after the stop event -/

/-- Steps that a task can take after the stop event. -/
def PollLoop.rank (loop : PollLoop) : ℕ :=
  match loop.pc with
  | .ended _ => 0
  | .top => 1
  | .waiting => 2
  | .polling => 3

def PollerPc.rank : PollerPc → ℕ
  | .ended _ => 0
  | .leaving _ => 1
  | .cancelling | .retrying _ => 3
  | .waiting | .connecting _ => 4

def ConnectPc.rank : ConnectPc → ℕ
  | .ended _ => 0
  | .created | .retrying _ => 1
  | .connecting _ => 2

namespace PollSupervisor

def loopsRank (s : PollSupervisor) : ℕ :=
  ((s.task :: s.former).map PollLoop.rank).sum

/-- Steps that the supervisor and its tasks can take after the stop event. -/
def rank (s : PollSupervisor) : ℕ :=
  s.pc.rank + s.loopsRank

theorem rank_eq {s : PollSupervisor} {pc : PollerPc} (h : s.pc = pc) :
    s.rank = pc.rank + s.loopsRank := by
  rw [rank, h]

theorem loopsRank_start (s : PollSupervisor) (t : Time) :
    (s.start t).loopsRank = 1 + s.loopsRank := by
  simp [loopsRank, start, PollLoop.rank]

theorem loopsRank_cancel (s : PollSupervisor) :
    loopsRank { s with task := s.task.cancel } ≤ s.loopsRank := by
  have htask : s.task.cancel.rank ≤ s.task.rank := by
    unfold PollLoop.cancel
    split_ifs
    · exact Nat.zero_le _
    · exact le_rfl
  simp only [loopsRank, List.map_cons, List.sum_cons]
  omega

theorem loopsRank_setLoop {s : PollSupervisor} {i : ℕ} {loop loop' : PollLoop}
    (hi : s.loop? i = some loop) (hlt : loop'.rank < loop.rank) :
    (s.setLoop i loop').loopsRank < s.loopsRank := by
  rcases i with _ | i
  · obtain rfl := Option.some.inj hi
    simpa [loopsRank, setLoop] using hlt
  · have hsum := sum_set_lt hi hlt
    simpa [loopsRank, setLoop] using hsum

variable {conf : PollerConf} {s s' : PollSupervisor}

/-- A recovery does not connect. -/
theorem rank_retry (hstop : s.stopEvent = true) (current touchedAt startedAt : Time) :
    (s.retry current touchedAt startedAt).rank = 2 + s.loopsRank := by
  rcases retry_cases s current touchedAt startedAt with ⟨-, heq⟩ | ⟨hrun, -⟩
  · have hloops := loopsRank_start s startedAt
    rw [heq]
    show 1 + (s.start startedAt).loopsRank = _
    omega
  · cases hrun.symm.trans hstop

theorem rank_recover (hstop : s.stopEvent = true) (r : Recovery) :
    (s.recover conf r).rank ≤ 2 + s.loopsRank := by
  rcases recover_cases conf s r with ⟨exc, -, heq⟩ | ⟨-, heq⟩
  · rw [heq]
    show 1 + s.loopsRank ≤ _
    omega
  · have hretry := @rank_retry (s.replaced r) hstop conf.reconnectDelay r.touchedAt r.startedAt
    rw [heq, hretry]
    exact le_rfl

theorem rank_loop (hstop : s.stopEvent = true) {i : ℕ} {e : LoopEvent}
    (h : s.step conf (.loop i e) = some s') : s'.rank < s.rank := by
  obtain ⟨loop, hi, h⟩ := Option.bind_eq_some_iff.1 h
  have hset : ∀ loop' : PollLoop, loop'.rank < loop.rank →
      (s.setLoop i loop').rank < s.rank := by
    intro loop' hlt
    have hpc : (s.setLoop i loop').pc = s.pc := by
      rcases i with _ | i <;> rfl
    have hloops := loopsRank_setLoop hi hlt
    unfold rank
    rw [hpc]
    omega
  unfold loopStep at h
  split at h
  · split at h
    next hpc =>
      obtain rfl := Option.some.inj h
      refine hset _ ?_
      simp [PollLoop.rank, hpc, hstop]
    next => cases h
  · rename_i c
    split at h
    next hpc =>
      obtain rfl := Option.some.inj h
      refine hset _ ?_
      rw [PollCycle.body_eq_ok]
      simp [PollLoop.rank, hpc]
    next => cases h
  · split at h
    next hpc =>
      obtain rfl := Option.some.inj h
      refine hset _ ?_
      simp [PollLoop.rank, hpc]
    next => cases h

theorem rank_check (hstop : s.stopEvent = true) (hpc : s.pc = .waiting) (t : Time) (r : Recovery) :
    (s.check conf t r).rank < s.rank := by
  have hrank : s.rank = 4 + s.loopsRank := rank_eq hpc
  rcases check_cases conf s t r with ⟨-, heq⟩ | ⟨-, -, heq⟩ | ⟨-, heq⟩
  · rw [heq, hrank]
    show 1 + s.loopsRank < _
    omega
  · rw [heq, hrank]
    have := @rank_recover conf s hstop r
    omega
  · rw [heq, hrank]
    split_ifs
    · rw [again, if_pos hstop]
      show 1 + s.loopsRank < _
      omega
    · show 3 + s.loopsRank < _
      omega

/-- A step after the stop event, of the supervisor or one of its tasks. -/
theorem rank_step (hstop : s.stopEvent = true) {e : PollEvent} (hfree : e.isFree = true)
    (he : e ≠ .stop) (h : s.step conf e = some s') : s'.rank < s.rank := by
  unfold step at h
  split at h
  next => exact @rank_loop conf s s' hstop _ _ h
  next t r hpc =>
    obtain rfl := Option.some.inj h
    exact rank_check hstop hpc t r
  next hpc =>
    rw [if_pos hstop] at h
    obtain rfl := Option.some.inj h
    rw [rank_eq hpc]
    show 1 + s.loopsRank < 4 + s.loopsRank
    omega
  next r hpc =>
    obtain rfl := Option.some.inj h
    have hcancel := loopsRank_cancel s
    have hrecover := @rank_recover conf { s with task := s.task.cancel } hstop r
    rw [rank_eq hpc]
    show _ < 3 + s.loopsRank
    omega
  next how hpc =>
    obtain rfl := Option.some.inj h
    have hcancel := loopsRank_cancel s
    rw [rank_eq hpc]
    show 0 + loopsRank { s with task := s.task.cancel } < 1 + s.loopsRank
    omega
  next result startedAt current hpc =>
    obtain rfl := Option.some.inj h
    rw [rank_eq hpc]
    rcases result with exc | _ | _
    · show 1 + s.loopsRank < 4 + s.loopsRank
      omega
    · show 3 + s.loopsRank < 4 + s.loopsRank
      omega
    · have hloops := loopsRank_start s startedAt
      have hagain : ((s.start startedAt).again).rank = 1 + (s.start startedAt).loopsRank := by
        rw [again, if_pos (show (s.start startedAt).stopEvent = true from hstop)]
        rfl
      show ((s.start startedAt).again).rank < 4 + s.loopsRank
      omega
  next current hpc =>
    obtain rfl := Option.some.inj h
    rw [rank_eq hpc, rank_retry hstop]
    show 2 + s.loopsRank < 3 + s.loopsRank
    omega
  next => cases hfree
  next => exact absurd rfl he
  next => cases h

end PollSupervisor

/-! ## Serving after the stop event -/

def SupervisorPc.rank : SupervisorPc → ℕ
  | .returned => 0
  | .cancelling .exit => 1
  | .closing .exit => 2
  | .top => 3
  | .waiting .. => 4
  | .cancelling _ => 6
  | .closing _ => 7

namespace Supervisor

/-- The task of the held server has not ended by itself. -/
def serving (s : Supervisor) : ℕ :=
  if s.server.any (·.served.isNone) then 1 else 0

/-- Steps that the supervisor can take after the stop event. -/
def rank (s : Supervisor) : ℕ :=
  s.pc.rank + s.serving

theorem rank_eq {s : Supervisor} {pc : SupervisorPc} (h : s.pc = pc) :
    s.rank = pc.rank + s.serving := by
  rw [rank, h]

theorem serving_le (s : Supervisor) : s.serving ≤ 1 := by
  unfold serving
  split_ifs
  · exact le_rfl
  · exact Nat.zero_le _

variable {conf : SupervisorConf} {s s' : Supervisor}

/-- An iteration that goes on without a server ends at its wait. -/
theorem pc_act (hnone : s.server = none) (t : Time) (age : WithTop Time) :
    (s.act conf t age).pc = .waiting t age := by
  unfold act
  split
  · rfl
  · rw [hnone]
  · rfl
  · rfl

theorem rank_act (hnone : s.server = none) (t : Time) (age : WithTop Time) :
    (s.act conf t age).rank ≤ 5 := by
  have hserving := serving_le (s.act conf t age)
  rw [rank, pc_act hnone]
  show 4 + _ ≤ 5
  omega

theorem rank_leave (s : Supervisor) : s.leave.rank ≤ 2 + s.serving := by
  unfold leave
  split
  · exact le_rfl
  next hnone =>
    show 0 + serving { s with status := s.status.stopped, pc := .returned } ≤ _
    have hsame : serving { s with status := s.status.stopped, pc := .returned } = s.serving := rfl
    omega

theorem rank_step (hstop : s.stopEvent = true) {e : SupervisorEvent} (he : e ≠ .stop)
    (h : s.step conf e = some s') : s'.rank < s.rank := by
  unfold step at h
  split at h
  next hpc =>
    obtain rfl := Option.some.inj h
    have := rank_leave s
    rw [rank_eq hpc, check, if_pos hstop]
    show _ < 3 + s.serving
    omega
  next =>
    unfold serveEnds at h
    split at h
    next srv hsrv =>
      split_ifs at h with hlive
      obtain rfl := Option.some.inj h
      have hserving : s.serving = 1 := by
        simp [serving, hsrv, hlive]
      unfold rank
      rw [hserving]
      simp [serving]
    next => cases h
  next why hpc =>
    obtain rfl := Option.some.inj h
    rw [rank_eq hpc]
    rcases why with ⟨t, age⟩ | ⟨t, age⟩ | ⟨t, age⟩ | _
    · have := @rank_act conf s.release rfl t age
      show _ < 7 + s.serving
      exact lt_of_le_of_lt this (by omega)
    · show 6 + s.serving < 7 + s.serving
      omega
    · show 6 + s.serving < 7 + s.serving
      omega
    · show 1 + s.serving < 2 + s.serving
      omega
  next why hpc =>
    obtain rfl := Option.some.inj h
    rw [rank_eq hpc]
    rcases why with ⟨t, age⟩ | ⟨t, age⟩ | ⟨t, age⟩ | _
    · have := @rank_act conf s.release rfl t age
      show _ < 6 + s.serving
      exact lt_of_le_of_lt this (by omega)
    · have := @rank_act conf s.release rfl t age
      show _ < 6 + s.serving
      exact lt_of_le_of_lt this (by omega)
    · show 4 + 0 < 6 + s.serving
      omega
    · show 0 + 0 < 1 + s.serving
      omega
  next t age hpc =>
    obtain rfl := Option.some.inj h
    rw [rank_eq hpc]
    show 3 + s.serving < 4 + s.serving
    omega
  next => exact absurd rfl he
  next => cases h

end Supervisor

/-! ## The other tasks after the stop event -/

def WatchdogPc.rank : WatchdogPc → ℕ
  | .returned => 0
  | .top => 1
  | .waiting => 2

theorem WatchdogPc.rank_next {pc pc' : WatchdogPc} (h : pc.next true = some pc') :
    pc'.rank < pc.rank := by
  rcases pc with _ | _ | _
  · obtain rfl := Option.some.inj h
    exact Nat.zero_lt_one
  · obtain rfl := Option.some.inj h
    exact Nat.one_lt_two
  · cases h

def MetricsPc.rank : MetricsPc → ℕ
  | .ended _ => 0
  | .top | .closing _ => 1
  | .retrying | .serving => 2
  | .binding => 3

theorem MetricsTask.rank_step {task task' : MetricsTask} {e : MetricsEvent}
    (h : task.step true e = some task') : task'.pc.rank < task.pc.rank := by
  unfold MetricsTask.step at h
  rcases hpc : task.pc <;> rw [hpc] at h <;> rcases e with _ | (_ | _ | _) | _ | _ | _ | _ <;>
    cases h <;> simp [MetricsPc.rank, MetricsTask.close]

def MainPc.rank (n : ℕ) : MainPc → ℕ
  | .gathering => n + 3
  | .connects _ i => n - i + 2
  | .stopping _ => 1
  | .done _ => 0

namespace AppRun

variable {conf : PollerConf} {s s' : AppRun}

/-- Steps that a bridge's polling and its startup connect can take after the stop event. -/
def rank (s : AppRun) : ℕ :=
  s.poller.rank + s.startup.rank

theorem rank_eq {pc : ConnectPc} (h : s.startup = pc) : s.rank = s.poller.rank + pc.rank := by
  rw [rank, h]

theorem rank_attempt (hstop : s.poller.stopEvent = true) (current touchedAt : Time) :
    (s.attempt current touchedAt).rank = s.poller.rank := by
  rw [attempt, if_pos hstop]
  rfl

theorem rank_step (hstop : s.poller.stopEvent = true) {e : AppEvent} (he : e ≠ .poller .stop)
    (h : s.step conf e = some s') : s'.rank < s.rank := by
  unfold step at h
  split at h
  next _ p =>
    split_ifs at h with hp
    obtain ⟨q, hq, rfl⟩ := Option.map_eq_some_iff.1 h
    have hp' : p ≠ .stop := fun heq => he (congrArg _ heq)
    exact Nat.add_lt_add_right (PollSupervisor.rank_step hstop hp.1 hp' hq) _
  next =>
    split at h
    next =>
      obtain ⟨q, hq, rfl⟩ := Option.map_eq_some_iff.1 h
      exact Nat.add_lt_add_right (PollSupervisor.rank_loop hstop hq) _
    next => cases h
  next t hs =>
    split_ifs at h
    obtain rfl := Option.some.inj h
    rw [rank_attempt hstop, rank_eq hs]
    show _ < _ + 1
    omega
  next current hs =>
    obtain rfl := Option.some.inj h
    rw [rank_eq hs]
    show s.poller.rank + 0 < _ + 2
    omega
  next current hs =>
    obtain rfl := Option.some.inj h
    rw [rank_eq hs]
    show s.poller.rank + 1 < _ + 2
    omega
  next exc current hs =>
    obtain rfl := Option.some.inj h
    rw [rank_eq hs]
    show s.poller.rank + 0 < _ + 2
    omega
  next t current hs =>
    split_ifs at h
    obtain rfl := Option.some.inj h
    rw [rank_attempt hstop, rank_eq hs]
    show _ < _ + 1
    omega
  next =>
    split_ifs at h with hover
    obtain rfl := Option.some.inj h
    show s.poller.rank + 0 < s.poller.rank + s.startup.rank
    rcases hs : s.startup with _ | current | current | how
    · exact Nat.add_lt_add_left Nat.zero_lt_one _
    · exact Nat.add_lt_add_left Nat.zero_lt_two _
    · exact Nat.add_lt_add_left Nat.zero_lt_one _
    · rw [hs] at hover
      exact absurd rfl hover
  next => cases h

end AppRun

def BridgeTasks.rank (b : BridgeTasks) : ℕ :=
  b.app.rank + b.supervisor.rank

theorem BridgeTasks.rank_step {conf : BridgeSetup} {b b' : BridgeTasks} {e : TaskEvent}
    (hpoller : b.app.poller.stopEvent = true) (hserver : b.supervisor.stopEvent = true)
    (h : b.step conf e = some b') : b'.rank < b.rank := by
  rcases BridgeTasks.step_cases h with ⟨e, app, -, he, happ, rfl⟩ |
    ⟨e, supervisor, -, he, hsupervisor, rfl⟩
  · exact Nat.add_lt_add_right (AppRun.rank_step hpoller he happ) _
  · exact Nat.add_lt_add_left (Supervisor.rank_step hserver he hsupervisor) _

namespace MainRun

variable {p : Process}

/-- Steps that are left after the stop event. -/
def rank (s : MainRun p) : ℕ :=
  ∑ i, (s.tasks.1 i).rank + s.watchdog.elim 0 WatchdogPc.rank +
    s.metrics.elim 0 (·.pc.rank) + s.pc.rank p.bridges.length

theorem rank_resume {s s' : MainRun p} (h : s.resume = some s') : s'.rank < s.rank := by
  have hpcs : ∀ {pc : MainPc} {closed : List (Fin p.bridges.length × ℕ)},
      pc.rank p.bridges.length < s.pc.rank p.bridges.length →
        rank { s with pc := pc, closed := closed } < s.rank :=
    fun hlt => Nat.add_lt_add_left hlt _
  unfold resume at h
  split at h
  next how i hpc =>
    split_ifs at h with hi
    · obtain rfl := Option.some.inj h
      refine hpcs ?_
      rw [hpc]
      show p.bridges.length - (i + 1) + 2 < p.bridges.length - i + 2
      omega
    · obtain rfl := Option.some.inj h
      refine hpcs ?_
      rw [hpc]
      show 1 < p.bridges.length - i + 2
      omega
  next how hpc =>
    split_ifs at h
    obtain rfl := Option.some.inj h
    refine hpcs ?_
    rw [hpc]
    exact Nat.zero_lt_one
  next => cases h

end MainRun

/-! ## After the stop event -/

theorem PollLoop.rank_of_dead {loop : PollLoop} (h : loop.isLive = false) : loop.rank = 0 := by
  unfold PollLoop.isLive at h
  unfold PollLoop.rank
  rcases hpc : loop.pc <;> rw [hpc] at h <;> first | rfl | cases h

theorem Swap.loopsRank_eq {s : PollSupervisor} (h : Swap s) : s.loopsRank = s.task.rank := by
  have hformer : (s.former.map PollLoop.rank).sum = 0 := by
    rw [List.sum_eq_zero_iff_forall_eq_nat, List.forall_mem_map]
    exact fun loop hloop => PollLoop.rank_of_dead (h.former loop hloop)
  rw [PollSupervisor.loopsRank, List.map_cons, List.sum_cons, hformer, Nat.add_zero]

/-- A bridge has so many steps left at most. -/
theorem TasksOk.rank_le {conf : BridgeSetup} {stop : Bool} {b : BridgeTasks}
    (h : TasksOk conf stop b) : b.rank ≤ 17 := by
  have htask : b.app.poller.task.rank ≤ 3 := by
    unfold PollLoop.rank
    split <;> omega
  have hpoller : b.app.poller.pc.rank ≤ 4 := by
    unfold PollerPc.rank
    split <;> omega
  have hstartup : b.app.startup.rank ≤ 2 := by
    unfold ConnectPc.rank
    split <;> omega
  have hserver : b.supervisor.pc.rank ≤ 7 := by
    unfold SupervisorPc.rank
    split <;> omega
  have hserving := b.supervisor.serving_le
  unfold BridgeTasks.rank AppRun.rank PollSupervisor.rank Supervisor.rank
  rw [h.swap.loopsRank_eq]
  omega

namespace MainRun

variable {p : Process} {s s' : MainRun p} {watchdogSec : Option Time}

theorem rank_le (h : MainOk s) : s.rank ≤ 18 * p.bridges.length + 8 := by
  have hsum : ∑ i, (s.tasks.1 i).rank ≤ 17 * p.bridges.length := by
    have hle := Finset.sum_le_card_nsmul Finset.univ (fun i => (s.tasks.1 i).rank) 17
      fun i _ => (h.tasks i).rank_le
    rw [Finset.card_univ, Fintype.card_fin, smul_eq_mul, Nat.mul_comm] at hle
    exact hle
  have hwatchdog : s.watchdog.elim 0 WatchdogPc.rank ≤ 2 := by
    rcases s.watchdog with _ | _ | _ | _ <;> simp [WatchdogPc.rank]
  have hmetrics : s.metrics.elim 0 (·.pc.rank) ≤ 3 := by
    rcases s.metrics with _ | ⟨_ | _ | _ | _ | _ | _, opened, closed⟩ <;> simp [MetricsPc.rank]
  have hpc : s.pc.rank p.bridges.length ≤ p.bridges.length + 3 := by
    unfold MainPc.rank
    split <;> omega
  unfold rank
  omega

theorem step_stopEvent {e : MainEvent p} (hstop : s.stopEvent = true) (hs : s.step e = some s') :
    s'.stopEvent = true := by
  rcases step_cases hs with ⟨i, a, tasks, -, rfl⟩ | ⟨pc, pc', -, -, rfl⟩ |
    ⟨a, task, task', -, -, rfl⟩ | ⟨-, rfl⟩ | ⟨how, -, -, rfl⟩ | hs
  · exact hstop
  · exact hstop
  · exact hstop
  · rfl
  · exact hstop
  · unfold resume at hs
    split at hs
    · split_ifs at hs <;> obtain rfl := Option.some.inj hs <;> exact hstop
    · split_ifs at hs
      obtain rfl := Option.some.inj hs
      exact hstop
    · cases hs

/-- Every step after the stop event is one of those that are left. -/
theorem rank_step {e : MainEvent p} (h : MainOk s) (hstop : s.stopEvent = true)
    (hs : s.step e = some s') : s'.rank < s.rank := by
  rcases step_cases hs with ⟨i, a, tasks, htasks, rfl⟩ | ⟨pc, pc', hpc, hpc', rfl⟩ |
    ⟨a, task, task', htask, htask', rfl⟩ | ⟨hrun, -⟩ | ⟨how, hpc, -, rfl⟩ | hs
  · have hmoved : (tasks.1 i).rank < (s.tasks.1 i).rank := by
      rcases Clocked.step_component htasks i with ⟨-, hstep⟩ | ⟨hne, -⟩
      · have hi := h.tasks i
        exact BridgeTasks.rank_step (hi.pollerStop.trans hstop) (hi.serverStop.trans hstop) hstep
      · exact absurd rfl hne
    have hsum := Clocked.sum_rank_lt htasks hmoved
    exact Nat.add_lt_add_right (Nat.add_lt_add_right (Nat.add_lt_add_right hsum _) _) _
  · rw [hstop] at hpc'
    have hlt := WatchdogPc.rank_next hpc'
    unfold rank
    rw [hpc]
    exact Nat.add_lt_add_right (Nat.add_lt_add_right (Nat.add_lt_add_left hlt _) _) _
  · rw [hstop] at htask'
    have hlt := MetricsTask.rank_step htask'
    unfold rank
    rw [htask]
    exact Nat.add_lt_add_right (Nat.add_lt_add_left hlt _) _
  · cases hrun.symm.trans hstop
  · refine Nat.add_lt_add_left ?_ _
    rw [hpc]
    exact Nat.lt_succ_self _
  · exact rank_resume hs

theorem ranking : (mainSystem p watchdogSec).Ranking (fun s => MainOk s ∧ s.stopEvent = true)
    rank where
  keeps h hs := ⟨step_ok h.1 hs, step_stopEvent h.2 hs⟩
  lowers h hs := rank_step h.1 h.2 hs

end MainRun

/-! ## What can be done next -/

/-- Readings at one time that is not before the clock are in order. -/
theorem isChain_of_forall_eq {now t : Time} (h : now ≤ t) : ∀ {ts : List Time},
    (∀ u ∈ ts, u = t) → (now :: ts).IsChain (· ≤ ·)
  | [], _ => .singleton now
  | u :: ts, hall => by
    obtain ⟨rfl, hts⟩ := List.forall_mem_cons.1 hall
    exact .cons_cons h (isChain_of_forall_eq le_rfl hts)

/-- A supervisor that has not ended goes on once what it awaits ends. -/
theorem PollSupervisor.exists_step {conf : PollerConf} {s : PollSupervisor}
    (hstop : s.stopEvent = true) (t : Time) : (∃ how, s.pc = .ended how) ∨
      ∃ e, e.isFree = true ∧ e ≠ .stop ∧ (∀ u ∈ e.readings, u = t) ∧ (s.step conf e).isSome := by
  let r : Recovery := ⟨t, none, .ok (), t, t⟩
  rcases hpc : s.pc with _ | _ | current | current | how | how
  · exact .inr ⟨.stopSeen, rfl, by simp, by simp [PollEvent.readings],
      by simp [step, hpc, hstop]⟩
  · exact .inr ⟨.taskEnds r, rfl, by simp, by simp [PollEvent.readings, r], by simp [step, hpc]⟩
  · exact .inr ⟨.connectEnds (.ok true) t, rfl, by simp, by simp [PollEvent.readings],
      by simp [step, hpc]⟩
  · exact .inr ⟨.delayEnds t t, rfl, by simp, by simp [PollEvent.readings], by simp [step, hpc]⟩
  · exact .inr ⟨.taskEnds r, rfl, by simp, by simp [PollEvent.readings, r], by simp [step, hpc]⟩
  · exact .inl ⟨how, rfl⟩

theorem Supervisor.exists_step {conf : SupervisorConf} (s : Supervisor) (t : Time) :
    s.pc = .returned ∨ ∃ e, e ≠ .stop ∧ (∀ r ∈ e.reading, r.1 = t) ∧ (s.step conf e).isSome := by
  rcases hpc : s.pc with _ | why | why | ⟨u, age⟩ | _
  · exact .inr ⟨.check t ⊤ none, by simp, by simp [SupervisorEvent.reading], by simp [step, hpc]⟩
  · exact .inr ⟨.shutdownEnds .returned, by simp, by simp [SupervisorEvent.reading],
      by simp [step, hpc]⟩
  · exact .inr ⟨.taskEnds .returned, by simp, by simp [SupervisorEvent.reading],
      by simp [step, hpc]⟩
  · exact .inr ⟨.waitEnds, by simp, by simp [SupervisorEvent.reading],
      by simp [step, hpc]⟩
  · exact .inl rfl

/-- `metrics.stop` ends an endpoint that goes on, or makes it close. -/
theorem MetricsTask.isSome_step_cancelled {task : MetricsTask} (h : task.isOver ≠ true)
    (stopEvent : Bool) : (task.step stopEvent .cancelled).isSome := by
  rcases hpc : task.pc with _ | _ | _ | _ | how | how
  case ended => simp [isOver, hpc] at h
  all_goals simp [step, hpc]

namespace MainRun

variable {p : Process} {s : MainRun p}

/-- A step of a bridge is one of the process. -/
theorem isSome_step_task {i : Fin p.bridges.length} {e : TaskEvent}
    (hcancels : (e.cancels && s.pc.isGathering) = false)
    (hchain : (s.tasks.2 :: e.readings).IsChain (· ≤ ·))
    (h : ((s.tasks.1 i).step (p.bridge i).setup e).isSome) : (s.step (.task i e)).isSome := by
  obtain ⟨b, hb⟩ := Option.isSome_iff_exists.1 h
  obtain ⟨tasks, htasks⟩ : ∃ tasks, (Clocked.interleave fun i => clockedTasks
      (p.bridge i).setup).step (i, e) s.tasks = some tasks :=
    ⟨_, (if_pos hchain).trans (congrArg (Option.map _) hb)⟩
  unfold step
  dsimp only
  rw [hcancels, if_neg Bool.false_ne_true, htasks]
  rfl

theorem exists_poller (h : MainOk s) (hstop : s.stopEvent = true) (i : Fin p.bridges.length) :
    (∃ how, (s.tasks.1 i).app.poller.pc = .ended how) ∨ ∃ e, (s.step e).isSome := by
  let t := max (s.tasks.1 i).app.clock s.tasks.2
  rcases @PollSupervisor.exists_step (p.bridge i).setup.poller _
    ((h.tasks i).pollerStop.trans hstop) t with hended | ⟨e, hfree, he, hreadings, hsome⟩
  · exact .inl hended
  · refine .inr ⟨.task i (.app (.poller e)), isSome_step_task rfl
      (isChain_of_forall_eq (le_max_right _ _) hreadings) ?_⟩
    obtain ⟨q, hq⟩ := Option.isSome_iff_exists.1 hsome
    have hchain := isChain_of_forall_eq (le_max_left (s.tasks.1 i).app.clock s.tasks.2) hreadings
    have happ : (s.tasks.1 i).app.step (p.bridge i).setup.poller (.poller e) =
        some ((s.tasks.1 i).app.moved e q) := by
      unfold AppRun.step
      dsimp only
      rw [if_pos ⟨hfree, hchain⟩, hq]
      rfl
    have hsets : (TaskEvent.app (.poller e)).setsStop = false := by
      rcases e <;> first | rfl | exact absurd rfl he
    unfold BridgeTasks.step
    rw [hsets, if_neg Bool.false_ne_true]
    dsimp only
    rw [happ]
    rfl

theorem exists_server (i : Fin p.bridges.length) :
    (s.tasks.1 i).supervisor.pc = .returned ∨ ∃ e, (s.step e).isSome := by
  rcases @Supervisor.exists_step (p.bridge i).setup.server (s.tasks.1 i).supervisor s.tasks.2 with
    hreturned | ⟨e, he, hreading, hsome⟩
  · exact .inl hreturned
  · refine .inr ⟨.task i (.server e), isSome_step_task rfl (isChain_of_forall_eq le_rfl ?_) ?_⟩
    · intro u hu
      obtain ⟨r, hr, rfl⟩ := List.mem_map.1 hu
      exact hreading r (Option.mem_toList.1 hr)
    · obtain ⟨supervisor, hsupervisor⟩ := Option.isSome_iff_exists.1 hsome
      have hsets : (TaskEvent.server e).setsStop = false := by
        rcases e <;> first | rfl | exact absurd rfl he
      unfold BridgeTasks.step
      rw [hsets, if_neg Bool.false_ne_true]
      dsimp only
      rw [hsupervisor]
      rfl

/-- The gather can end once none of its coroutines goes on. -/
theorem exists_step_gathering (h : MainOk s) (hstop : s.stopEvent = true)
    (hpc : s.pc = .gathering) : ∃ e, (s.step e).isSome := by
  by_contra hstep
  have hpollers := fun i => (exists_poller h hstop i).resolve_right hstep
  have hservers := fun i => (@exists_server _ s i).resolve_right hstep
  have hwatchdog : ∀ pc ∈ s.watchdog, pc = .returned := by
    intro pc hwatchdog
    have hno : ¬(s.step .watchdog).isSome := fun hsome => hstep ⟨_, hsome⟩
    unfold step at hno
    rw [Option.mem_def.1 hwatchdog] at hno
    rcases pc with _ | _ | _
    · exact absurd rfl hno
    · exact absurd rfl hno
    · rfl
  obtain ⟨how, hhow⟩ : ∃ how, gathers s.results how = true := by
    by_cases hall : ∀ i, (s.tasks.1 i).app.poller.pc = .ended .returned
    · exact ⟨.returned, gathers_returned_iff.2 ⟨hall, hservers, hwatchdog⟩⟩
    · push Not at hall
      obtain ⟨i, hi⟩ := hall
      obtain ⟨how, hhow⟩ := hpollers i
      refine ⟨how, (gathers_iff ?_).2 ⟨i, hhow⟩⟩
      rintro rfl
      exact hi hhow
  refine hstep ⟨.gathered how, ?_⟩
  simp [step, hpc, MainPc.isGathering, hhow]

/-- A connect that is awaited and goes on was cancelled. -/
theorem exists_step_connects {how : TaskEnd} {k : ℕ} (hpc : s.pc = .connects how k) :
    ∃ e, (s.step e).isSome := by
  by_cases hk : k < p.bridges.length
  · by_cases hover : (s.tasks.1 ⟨k, hk⟩).app.startup.isOver = true
    · exact ⟨.resume, by simp [step, resume, hpc, hk, hover]⟩
    · refine ⟨.task ⟨k, hk⟩ (.app .startupCancelled),
        isSome_step_task (by rw [hpc]; rfl) (.singleton _) ?_⟩
      simp [BridgeTasks.step, TaskEvent.setsStop, AppRun.step, hover]
  · exact ⟨.resume, by simp [step, resume, hpc, hk]⟩

/-- So was an endpoint that goes on. -/
theorem exists_step_stopping {how : TaskEnd} (hpc : s.pc = .stopping how) :
    ∃ e, (s.step e).isSome := by
  by_cases hover : ∀ task ∈ s.metrics, task.isOver = true
  · exact ⟨.resume, by simpa [step, resume, hpc, Option.all_eq_true] using hover⟩
  · push Not at hover
    obtain ⟨task, hmetrics, hgoes⟩ := hover
    obtain ⟨task', htask'⟩ :=
      Option.isSome_iff_exists.1 (MetricsTask.isSome_step_cancelled hgoes s.stopEvent)
    refine ⟨.metrics .cancelled, ?_⟩
    simp [step, hpc, MainPc.isStopping, Option.mem_def.1 hmetrics, htask']

/-- While `run_app` is not over, something it awaits can end. -/
theorem exists_step (h : MainOk s) (hstop : s.stopEvent = true) :
    (∃ how, s.pc = .done how) ∨ ∃ e, (s.step e).isSome := by
  rcases hpc : s.pc with _ | ⟨how, k⟩ | how | how
  · exact .inr (exists_step_gathering h hstop hpc)
  · exact .inr (exists_step_connects hpc)
  · exact .inr (exists_step_stopping hpc)
  · exact .inl ⟨how, rfl⟩

end MainRun

/-! ## The exit -/

/-- Nothing of a bridge is left open by its supervisors. -/
structure BridgeTasks.Released (b : BridgeTasks) : Prop where
  loops : ∀ loop ∈ b.app.poller.task :: b.app.poller.former, loop.isLive = false
  /-- A recovery has closed each client but the last. -/
  clients : ∀ c < b.app.poller.client, b.app.poller.calls.countP (·.closes c) = 1
  server : b.supervisor.server = none
  servers : ∀ id t, ServerCall.create id t ∈ b.supervisor.calls →
    ServerCall.shutdown id ∈ b.supervisor.calls

theorem TasksOk.released {conf : BridgeSetup} {stop : Bool} {b : BridgeTasks} {how : TaskEnd}
    (h : TasksOk conf stop b) (hpoller : b.app.poller.pc = .ended how)
    (hserver : b.supervisor.pc = .returned) : b.Released ∧ stop = true := by
  obtain ⟨hledger, hok⟩ := reachable_ok h.supervisor
  rw [PcOk, hserver] at hok
  refine ⟨⟨?_, h.swap.calls.closed, hok.1, fun id t hmem => ?_⟩, h.serverStop.symm.trans hok.2⟩
  · exact List.forall_mem_cons.2 ⟨h.dead how hpoller, h.swap.former⟩
  · exact hledger.shut id t hmem (by simp [hok.1])

theorem TasksOk.rank_eq_zero {conf : BridgeSetup} {stop : Bool} {b : BridgeTasks} {how : TaskEnd}
    (h : TasksOk conf stop b) (hpoller : b.app.poller.pc = .ended how)
    (hserver : b.supervisor.pc = .returned) (hover : b.app.startup.isOver = true) :
    b.rank = 0 := by
  have hstartup : b.app.startup.rank = 0 := by
    unfold ConnectPc.isOver at hover
    split at hover
    next hended =>
      rw [hended]
      rfl
    next => cases hover
  have hserving : b.supervisor.serving = 0 := by
    rw [Supervisor.serving, (h.released hpoller hserver).1.server]
    rfl
  unfold BridgeTasks.rank AppRun.rank PollSupervisor.rank Supervisor.rank
  rw [h.swap.loopsRank_eq, PollLoop.rank_of_dead (h.dead how hpoller), hpoller, hserver, hstartup,
    hserving]
  rfl

namespace MainRun

variable {p : Process} {s s' : MainRun p} {watchdogSec : Option Time}

/-- No step is left once everything has returned. -/
theorem rank_eq_zero (h : MainOk s) (hpc : s.pc = .done .returned) : s.rank = 0 := by
  obtain ⟨hpollers, hservers, hwatchdog⟩ :=
    gathers_returned_iff.1 (h.outcome .returned (by rw [hpc]; rfl))
  obtain ⟨hmetrics, -⟩ := h.finished .returned hpc
  have hsum : ∑ i, (s.tasks.1 i).rank = 0 := Finset.sum_eq_zero fun i _ =>
    (h.tasks i).rank_eq_zero (hpollers i) (hservers i) (h.awaited i (by rw [hpc]; exact i.2))
  have hw : s.watchdog.elim 0 WatchdogPc.rank = 0 := by
    rcases hs : s.watchdog with _ | pc
    · rfl
    · rw [hwatchdog pc hs]
      rfl
  have hm : s.metrics.elim 0 (·.pc.rank) = 0 := by
    rcases hs : s.metrics with _ | task
    · rfl
    · obtain ⟨how, hended⟩ := MetricsTask.exists_of_isOver (hmetrics task hs)
      show task.pc.rank = 0
      rw [hended]
      rfl
  rw [rank, hsum, hw, hm, hpc]
  rfl

end MainRun

variable {p : Process} {s s' : MainRun p} {watchdogSec : Option Time}

/-- In every run, when `run_app` is over, the startup connects and the endpoint are, each listener
that the endpoint was returned is closed, and the client of each bridge was closed, in order. If it
returned, nothing of its bridges is left open, and no task can do anything more. Otherwise a poll
supervisor has ended as `run_app` does. -/
theorem exit_releases (h : (mainSystem p watchdogSec).Reachable s) {how : TaskEnd}
    (hpc : s.pc = .done how) :
    (∀ i, (s.tasks.1 i).app.startup.isOver = true) ∧
    (∀ task ∈ s.metrics, task.isOver = true ∧ task.opened = task.closed) ∧
    s.closed.map Prod.fst = List.finRange p.bridges.length ∧
    (how = .returned →
      (∀ i, (s.tasks.1 i).Released ∧ (i, (s.tasks.1 i).app.poller.client) ∈ s.closed) ∧
        (p.bridges ≠ [] → ∀ e, (mainSystem p watchdogSec).step e s = none)) ∧
    (how ≠ .returned → ∃ i, (s.tasks.1 i).app.poller.pc = .ended how) := by
  have hok := reachable_mainOk h
  have houtcome := hok.outcome how (by rw [hpc]; rfl)
  obtain ⟨hmetrics, hfst, hclosed⟩ := hok.finished how hpc
  refine ⟨fun i => hok.awaited i (by rw [hpc]; exact i.2), fun task htask => ?_, hfst,
    fun hreturned => ?_, fun hne => (MainRun.gathers_iff hne).1 houtcome⟩
  · have hover := hmetrics task htask
    refine ⟨hover, (hok.metrics task htask).trans ?_⟩
    obtain ⟨how, hended⟩ := MetricsTask.exists_of_isOver hover
    simp [MetricsTask.isServing, hended]
  · subst hreturned
    obtain ⟨hpollers, hservers, -⟩ := MainRun.gathers_returned_iff.1 houtcome
    have hreleased := fun i => (hok.tasks i).released (hpollers i) (hservers i)
    refine ⟨fun i => ⟨(hreleased i).1, ?_⟩, fun hne e => ?_⟩
    · rw [hclosed rfl]
      exact List.mem_ofFn.2 ⟨i, rfl⟩
    · have hstop := (hreleased ⟨0, List.length_pos_iff.2 hne⟩).2
      by_contra hsome
      obtain ⟨s', hs'⟩ := Option.ne_none_iff_exists'.1 hsome
      have hlt := MainRun.rank_step hok hstop hs'
      rw [MainRun.rank_eq_zero hok hpc] at hlt
      exact Nat.not_lt_zero _ hlt

/-- A process at its start. -/
def apartMain : MainRun apartProcess where
  tasks := (fun _ => { app := .initial false 0 }, 0)
  watchdog := some .top
  metrics := some {}

theorem init_apartMain : (mainSystem apartProcess (some 1)).init apartMain :=
  ⟨apartMain.tasks, fun _ => ⟨⟨0, rfl⟩, le_rfl⟩, rfl⟩

/-- The first bridge connects, and the endpoint listens, before everything is stopped. -/
def stoppedRun : List (MainEvent apartProcess) :=
  [.task mainIndex (.app (.startupRuns 0)), .metrics .test, .metrics (.bindEnds .bound),
    .task mainIndex (.app (.startupConnectEnds (.ok true))), .watchdog, .stop, .watchdog, .watchdog,
    .task mainIndex (.app (.poller .stopSeen)),
    .task mainIndex (.app (.poller (.taskEnds (recoveryAt 1)))),
    .task secondIndex (.app (.poller .stopSeen)),
    .task secondIndex (.app (.poller (.taskEnds (recoveryAt 1)))),
    .task mainIndex (.server (.check 1 ⊤ none)), .task secondIndex (.server (.check 1 ⊤ none)),
    .gathered .returned, .resume, .task secondIndex (.app .startupCancelled), .resume, .resume,
    .metrics .cancelled, .metrics .closeEnds, .resume]

/-- Nothing is left to do. -/
theorem exit_releases_apartProcess : ∃ s, (mainSystem apartProcess (some 1)).Reachable s ∧
    s.pc = .done .returned ∧ ∀ e, (mainSystem apartProcess (some 1)).step e s = none := by
  have hrun : ((mainSystem apartProcess (some 1)).run stoppedRun apartMain).any
      (fun s => s.pc = .done .returned) = true := by
    decide +kernel
  obtain ⟨s, hs, hpc⟩ := (Option.any_eq_true _ _).1 hrun
  have hpc := of_decide_eq_true hpc
  have hreach := System.reachable_of_run (.init init_apartMain) _ hs
  obtain ⟨-, -, -, hreturned, -⟩ := exit_releases hreach hpc
  exact ⟨s, hreach, hpc, (hreturned rfl).2 (List.cons_ne_nil _ _)⟩

/-- Once the stop event is set, every run takes so many steps at most, and can be continued until
`run_app` is over. -/
theorem stop_exits (h : (mainSystem p watchdogSec).Reachable s) (hstop : s.stopEvent = true)
    {es : List (MainEvent p)} (hrun : (mainSystem p watchdogSec).run es s = some s') :
    es.length ≤ 18 * p.bridges.length + 8 ∧
      ∃ es' s'' how, (mainSystem p watchdogSec).run es' s' = some s'' ∧ s''.pc = .done how := by
  have hok := reachable_mainOk h
  obtain ⟨⟨hok', hstop'⟩, hle⟩ := MainRun.ranking.length_le es ⟨hok, hstop⟩ hrun
  refine ⟨by have := MainRun.rank_le hok; omega, ?_⟩
  obtain ⟨es', s'', hrun', how, hpc⟩ := (@MainRun.ranking p watchdogSec).exists_run
    (Q := fun s => ∃ how, s.pc = .done how) (fun s hs => MainRun.exists_step hs.1 hs.2)
    ⟨hok', hstop'⟩
  exact ⟨es', s'', how, hrun', hpc⟩

/-- A process that is stopped at once is over. -/
theorem stop_exits_apartProcess : ∃ es s how,
    (mainSystem apartProcess (some 1)).run (.stop :: es) apartMain = some s ∧ s.pc = .done how := by
  obtain ⟨t, ht⟩ : ∃ t, (mainSystem apartProcess (some 1)).step .stop apartMain = some t := ⟨_, rfl⟩
  have hstop : t.stopEvent = true := by
    rw [← Option.some.inj ht]
  have hreach : (mainSystem apartProcess (some 1)).Reachable t :=
    System.Reachable.step (.init init_apartMain) ht
  obtain ⟨-, es, s, how, hrun, hpc⟩ := stop_exits hreach hstop (System.run_nil _ t)
  exact ⟨es, s, how, Option.bind_eq_some_iff.2 ⟨t, ht, hrun⟩, hpc⟩

end DtsuBridge
