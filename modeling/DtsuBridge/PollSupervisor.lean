import DtsuBridge.Canonical
import DtsuBridge.Lib.Run

/-!
# The poll loop and its supervisor

`run_poller` polls a client and reports each result through two callbacks.
`supervise_poller` watches it : a loop that made no progress is cancelled, one that ended
is taken as is, and then the client is closed and replaced, connected with retries, and a
new loop started. The model has a state for each `await` of either, every task ever
created, and `calls`, the history of what was reported, closed and built.

`poll_supervision_contained` : neither ends before the stop event, provided that no
client built or connected by a recovery raises (`supervise_poller_dies` : it does end
otherwise).
-/

namespace DtsuBridge

/-! ## The poll loop -/

/-- How a coroutine or its task ended. -/
inductive TaskEnd where
  | returned
  | raised (exc : PyExc)
  | cancelled
deriving DecidableEq

/-- One pass of the loop of `run_poller` : what `poll_once` comes to, and what the callbacks
would do if called. -/
structure PollCycle where
  poll : Except PyExc Sample
  /-- `loop.time()` at the call of `on_update`. -/
  ts : Time
  onUpdate : Except PyExc Unit
  onError : Except PyExc Unit

/-- A call of the poll loop or its supervisor. Clients are numbered in the order built. -/
inductive PollCall where
  /-- `on_update(values, ts)`, polled through a client. -/
  | update (client : ℕ) (values : Sample) (ts : Time)
  | error (client : ℕ) (exc : PyExc)
  /-- `_close_quietly(client)` : `close()`, where the client has one. -/
  | close (client : ℕ)
  /-- `replace_client()`, to build this client. -/
  | replace (client : ℕ)

namespace PollCall

/-- The client whose sample or error a call reports. -/
def reporter : PollCall → Option ℕ
  | .update client _ _ | .error client _ => some client
  | .close _ | .replace _ => none

def closes (client : ℕ) : PollCall → Bool
  | .close c => c = client
  | _ => false

def isReplace : PollCall → Bool
  | .replace _ => true
  | _ => false

end PollCall

/-- The calls of a recovery : the client is closed and the next one built. -/
def recoveryCalls (client : ℕ) : List PollCall :=
  [.close client, .replace (client + 1)]

namespace PollCycle

/-- The `try` statement of the loop. -/
def body (c : PollCycle) : Except PyExc Unit :=
  tryCatch (c.poll.bind fun _ => c.onUpdate) fun _ => tryCatch c.onError fun _ => .ok ()

/-- The callbacks it calls. -/
def reports (c : PollCycle) (client : ℕ) : List PollCall :=
  match c.poll with
  | .error exc => [.error client exc]
  | .ok values =>
    match c.onUpdate with
    | .ok () => [.update client values c.ts]
    | .error exc => [.update client values c.ts, .error client exc]

theorem reporter_of_mem_reports {c : PollCycle} {client : ℕ} {call : PollCall}
    (h : call ∈ c.reports client) : call.reporter = some client := by
  unfold reports at h
  split at h
  · obtain rfl := List.mem_singleton.1 h
    rfl
  · split at h
    · obtain rfl := List.mem_singleton.1 h
      rfl
    · rcases List.mem_cons.1 h with rfl | h
      · rfl
      · obtain rfl := List.mem_singleton.1 h
        rfl

/-- Nothing that a poll or a callback raises leaves the loop. -/
theorem body_eq_ok (c : PollCycle) : c.body = .ok () := by
  unfold body
  rcases c.poll.bind fun _ => c.onUpdate with exc | ⟨⟩
  · rcases c.onError with exc' | ⟨⟩
    · rfl
    · rfl
  · rfl

end PollCycle

inductive LoopPc where
  /-- At the test of the stop event, also before its first step. -/
  | top
  /-- Awaiting `poll_once`. -/
  | polling
  /-- Awaiting the stop event or the poll interval. -/
  | waiting
  | ended (how : TaskEnd)

/-- A task running `run_poller`. -/
structure PollLoop where
  /-- The client it was given. -/
  client : ℕ
  pc : LoopPc := .top

namespace PollLoop

/-- `not task.done()` -/
def isLive (loop : PollLoop) : Bool :=
  match loop.pc with
  | .ended _ => false
  | _ => true

/-- The task of an awaited cancellation. -/
def cancel (loop : PollLoop) : PollLoop :=
  if loop.isLive then { loop with pc := .ended .cancelled } else loop

@[simp] theorem isLive_cancel (loop : PollLoop) : loop.cancel.isLive = false := by
  unfold cancel
  split_ifs with h
  · rfl
  · simpa using h

end PollLoop

inductive LoopEvent where
  | test
  | cycle (c : PollCycle)
  | waitEnds

/-! ## The supervisor -/

structure Heartbeat where
  last : Option Time := none

namespace Heartbeat

def touch (_beat : Heartbeat) (ts : Time) : Heartbeat :=
  ⟨some ts⟩

def age (beat : Heartbeat) (now : Time) : WithTop Time :=
  match beat.last with
  | none => ⊤
  | some last => ((now - last : Time) : WithTop Time)

end Heartbeat

structure RecoveryStats where
  restarts : ℕ := 0
  lastRestartTs : Option Time := none

def RecoveryStats.record (stats : RecoveryStats) (ts : Time) : RecoveryStats :=
  ⟨stats.restarts + 1, some ts⟩

inductive PollerPc where
  /-- Awaiting the stop event or the check interval. -/
  | waiting
  /-- Awaiting the cancelled task, to recover from a stall. -/
  | cancelling
  /-- In `connect_with_retry`, awaiting `connect()`. -/
  | connecting (current : Time)
  /-- In `connect_with_retry`, awaiting the stop event or the delay. -/
  | retrying (current : Time)
  /-- In the `finally` block, awaiting the cancelled task. -/
  | leaving (how : TaskEnd)
  | ended (how : TaskEnd)

structure PollerConf where
  stallTimeout : Time
  reconnectDelay : Time
  reconnectDelayMax : Time

structure PollSupervisor where
  pc : PollerPc := .waiting
  /-- `bridge.client`. The ones before it are superseded. -/
  client : ℕ := 0
  /-- The task that the variable of this name holds. -/
  task : PollLoop := { client := 0 }
  /-- The tasks it held before. -/
  former : List PollLoop := []
  heartbeat : Heartbeat := {}
  recovery : RecoveryStats := {}
  stopEvent : Bool := false
  calls : List PollCall := []

/-- What a recovery meets up to its first `await` : its clock readings, and what closing
the client and building another come to. -/
structure Recovery where
  recordedAt : Time
  /-- `close()`, none for a client without one. -/
  close : Option (Except PyExc Unit)
  build : Except PyExc Unit
  touchedAt : Time
  startedAt : Time

/-- `_close_quietly` -/
def closeQuietly : Option (Except PyExc Unit) → Except PyExc Unit
  | none => .ok ()
  | some close => tryCatch close fun _ => .ok ()

@[simp] theorem closeQuietly_eq_ok (close : Option (Except PyExc Unit)) :
    closeQuietly close = .ok () := by
  rcases close with _ | _ | ⟨⟩ <;> rfl

namespace PollSupervisor

variable (conf : PollerConf)

def calling (s : PollSupervisor) (call : PollCall) : PollSupervisor :=
  { s with calls := s.calls ++ [call] }

/-- The condition of the `while` statement. -/
def again (s : PollSupervisor) : PollSupervisor :=
  { s with pc := if s.stopEvent then .leaving .returned else .waiting }

/-- `task = start()`, where a task was held before. -/
def start (s : PollSupervisor) (t : Time) : PollSupervisor :=
  { s with
    heartbeat := s.heartbeat.touch t
    task := { client := s.client }
    former := s.task :: s.former }

/-- The loop of `connect_with_retry`. Its result is not used. -/
def retry (s : PollSupervisor) (current touchedAt startedAt : Time) : PollSupervisor :=
  if s.stopEvent then (s.start startedAt).again
  else { s with heartbeat := s.heartbeat.touch touchedAt, pc := .connecting current }

/-- `bridge.replace_client()` and what follows. -/
def replaceClient (s : PollSupervisor) (r : Recovery) : PollSupervisor :=
  let s := s.calling (.replace (s.client + 1))
  match r.build with
  | .error exc => { s with pc := .leaving (.raised exc) }
  | .ok () =>
    { s with client := s.client + 1 }.retry conf.reconnectDelay r.touchedAt r.startedAt

/-- The recovery, once the task has ended. -/
def recover (s : PollSupervisor) (r : Recovery) : PollSupervisor :=
  let s := { s with recovery := s.recovery.record r.recordedAt }.calling (.close s.client)
  match closeQuietly r.close with
  | .error exc => { s with pc := .leaving (.raised exc) }
  | .ok () => s.replaceClient conf r

/-- The wait timed out : look at the task. -/
def check (s : PollSupervisor) (t : Time) (r : Recovery) : PollSupervisor :=
  match s.task.pc with
  -- `task.exception()` raises for a cancelled task.
  | .ended .cancelled => { s with pc := .leaving .cancelled }
  | .ended _ => s.recover conf r
  | _ => if s.heartbeat.age t ≤ conf.stallTimeout then s.again else { s with pc := .cancelling }

/-- `connect()` has ended. -/
def connected (s : PollSupervisor) (current startedAt : Time) :
    Except PyExc Bool → PollSupervisor
  | .ok true => (s.start startedAt).again
  | .ok false => { s with pc := .retrying current }
  | .error exc => { s with pc := .leaving (.raised exc) }

/-- The task with this index, the one held first. -/
def loop? (s : PollSupervisor) : ℕ → Option PollLoop
  | 0 => some s.task
  | i + 1 => s.former[i]?

def setLoop (s : PollSupervisor) (i : ℕ) (loop : PollLoop) : PollSupervisor :=
  match i with
  | 0 => { s with task := loop }
  | i + 1 => { s with former := s.former.set i loop }

/-- A step of a task. -/
def loopStep (s : PollSupervisor) (i : ℕ) (loop : PollLoop) : LoopEvent → Option PollSupervisor
  | .test =>
    match loop.pc with
    | .top =>
      let pc := if s.stopEvent then .ended .returned else .polling
      some (s.setLoop i { loop with pc := pc })
    | _ => none
  | .cycle c =>
    match loop.pc with
    | .polling =>
      let pc := match c.body with
        | .ok () => .waiting
        | .error exc => .ended (.raised exc)
      some { s.setLoop i { loop with pc := pc } with calls := s.calls ++ c.reports loop.client }
    | _ => none
  | .waitEnds =>
    match loop.pc with
    | .waiting => some (s.setLoop i { loop with pc := .top })
    | _ => none

theorem setLoop_calls (s : PollSupervisor) (i : ℕ) (loop : PollLoop) :
    s.setLoop i loop = { s.setLoop i loop with calls := s.calls ++ [] } := by
  rw [List.append_nil]
  cases i <;> rfl

/-- A step of a task moves it alone, reports through its client, and ends it only where it
tests the stop event. -/
theorem loopStep_cases {s s' : PollSupervisor} {i : ℕ} {loop : PollLoop} {e : LoopEvent}
    (h : s.loopStep i loop e = some s') : loop.isLive = true ∧ ∃ pc reports,
      s' = { s.setLoop i { loop with pc := pc } with calls := s.calls ++ reports } ∧
      (∀ call ∈ reports, call.reporter = some loop.client) ∧
      ∀ how, pc = .ended how → how = .returned ∧ s.stopEvent = true := by
  unfold loopStep at h
  split at h
  · split at h
    · next hpc =>
      obtain rfl := Option.some.inj h
      refine ⟨by simp [PollLoop.isLive, hpc], _, [], s.setLoop_calls _ _, by simp,
        fun how hend => ?_⟩
      split_ifs at hend with hstop
      exact ⟨(LoopPc.ended.inj hend).symm, hstop⟩
    · cases h
  · split at h
    · next hpc =>
      obtain rfl := Option.some.inj h
      refine ⟨by simp [PollLoop.isLive, hpc], _, _, rfl,
        fun call => PollCycle.reporter_of_mem_reports, fun how hend => ?_⟩
      rw [PollCycle.body_eq_ok] at hend
      cases hend
    · cases h
  · split at h
    · next hpc =>
      obtain rfl := Option.some.inj h
      exact ⟨by simp [PollLoop.isLive, hpc], _, [], s.setLoop_calls _ _, by simp, nofun⟩
    · cases h

/-- The client is closed and another asked for. -/
def superseded (s : PollSupervisor) (r : Recovery) : PollSupervisor :=
  { s with
    recovery := s.recovery.record r.recordedAt
    calls := s.calls ++ recoveryCalls s.client }

def replaced (s : PollSupervisor) (r : Recovery) : PollSupervisor :=
  { s.superseded r with client := s.client + 1 }

/-- A recovery closes the client and replaces it, whatever closing comes to. -/
theorem recover_cases (s : PollSupervisor) (r : Recovery) :
    (∃ exc, r.build = .error exc ∧
        s.recover conf r = { s.superseded r with pc := .leaving (.raised exc) }) ∨
      r.build = .ok () ∧ s.recover conf r =
        (s.replaced r).retry conf.reconnectDelay r.touchedAt r.startedAt := by
  have hcalls : s.calls ++ [PollCall.close s.client] ++ [.replace (s.client + 1)] =
      s.calls ++ recoveryCalls s.client := by simp [recoveryCalls]
  unfold recover replaceClient
  simp only [closeQuietly_eq_ok, calling, hcalls, superseded, replaced]
  rcases r.build with exc | ⟨⟩
  · exact Or.inl ⟨exc, rfl, rfl⟩
  · exact Or.inr ⟨rfl, rfl⟩

/-- A check of a task that has ended recovers, unless it was cancelled. -/
theorem check_cases (s : PollSupervisor) (t : Time) (r : Recovery) :
    (s.task.pc = .ended .cancelled ∧ s.check conf t r = { s with pc := .leaving .cancelled }) ∨
      (s.task.pc ≠ .ended .cancelled ∧ s.task.isLive = false ∧
        s.check conf t r = s.recover conf r) ∨
      s.task.isLive = true ∧ s.check conf t r =
        if s.heartbeat.age t ≤ conf.stallTimeout then s.again
        else { s with pc := .cancelling } := by
  unfold check PollLoop.isLive
  split
  · next hpc => exact Or.inl ⟨hpc, rfl⟩
  · next how hne hpc =>
    refine Or.inr (Or.inl ⟨fun hc => ?_, by rw [hpc], rfl⟩)
    exact hne (LoopPc.ended.inj (hpc.symm.trans hc))
  · next hlive =>
    refine Or.inr (Or.inr ⟨?_, rfl⟩)
    split
    · next how hpc => exact absurd hpc (hlive how)
    · rfl

/-- How `supervise_poller` ended, if it did. -/
def result (s : PollSupervisor) : Option TaskEnd :=
  match s.pc with
  | .ended how => some how
  | _ => none

end PollSupervisor

inductive PollEvent where
  | loop (i : ℕ) (e : LoopEvent)
  /-- The wait of the supervisor times out, at a clock reading. -/
  | check (t : Time) (r : Recovery)
  /-- The wait of the supervisor ends with the stop event. -/
  | stopSeen
  /-- The awaited cancelled task ends. -/
  | taskEnds (r : Recovery)
  | connectEnds (result : Except PyExc Bool) (startedAt : Time)
  | delayEnds (touchedAt startedAt : Time)
  /-- The callbacks and the connect task of the start touch the heartbeat. -/
  | touch (t : Time)
  | stop

/-- The step of an event, where it can happen. -/
def PollSupervisor.step (conf : PollerConf) (e : PollEvent) (s : PollSupervisor) :
    Option PollSupervisor :=
  match e, s.pc with
  | .loop i e, _ => (s.loop? i).bind fun loop => s.loopStep i loop e
  | .check t r, .waiting => some (s.check conf t r)
  | .stopSeen, .waiting => if s.stopEvent then some { s with pc := .leaving .returned } else none
  | .taskEnds r, .cancelling => some ({ s with task := s.task.cancel }.recover conf r)
  | .taskEnds _, .leaving how => some { s with task := s.task.cancel, pc := .ended how }
  | .connectEnds result startedAt, .connecting current =>
    some (s.connected current startedAt result)
  | .delayEnds touchedAt startedAt, .retrying current =>
    some (s.retry (min (current * 2) conf.reconnectDelayMax) touchedAt startedAt)
  | .touch t, _ => some { s with heartbeat := s.heartbeat.touch t }
  | .stop, _ => some { s with stopEvent := true }
  | _, _ => none

namespace PollSupervisor

variable {conf : PollerConf} {s s' : PollSupervisor} {r : Recovery}

theorem step_check {t : Time} :
    s.step conf (.check t r) = some s' ↔ s.pc = .waiting ∧ s.check conf t r = s' := by
  unfold step
  cases s.pc <;> simp

theorem step_connectEnds {result : Except PyExc Bool} {startedAt : Time} :
    s.step conf (.connectEnds result startedAt) = some s' ↔
      ∃ current, s.pc = .connecting current ∧ s.connected current startedAt result = s' := by
  unfold step
  cases s.pc <;> simp

theorem step_taskEnds (hpc : s.pc = .cancelling) :
    s.step conf (.taskEnds r) = some ({ s with task := s.task.cancel }.recover conf r) := by
  unfold step
  simp [hpc]

theorem step_leaving {how : TaskEnd} (hpc : s.pc = .leaving how) : s.step conf (.taskEnds r) =
    some { s with task := s.task.cancel, pc := .ended how } := by
  unfold step
  simp [hpc]

end PollSupervisor

/-- The state once the first task is created. -/
def PollSupervisor.initial (stopEvent : Bool) (t : Time) : PollSupervisor :=
  { heartbeat := ⟨some t⟩, stopEvent := stopEvent : PollSupervisor }.again

/-- The runs of one bridge's polling, from the first task on. -/
def pollSystem (conf : PollerConf) : System PollSupervisor PollEvent where
  init s := ∃ stopEvent t, s = .initial stopEvent t
  step := PollSupervisor.step conf

/-- What `asyncio.gather` makes of its coroutines : it ends once one raises or all return. -/
def gatherEnds (results : List (Option TaskEnd)) : Bool :=
  results.any (fun r => r.any (· ≠ .returned)) || results.all Option.isSome

/-! ## Nothing ends before the stop event -/

/-- No task ends by itself before the stop event. -/
def TasksContained (s : PollSupervisor) : Prop :=
  ∀ loop ∈ s.task :: s.former, ∀ how, loop.pc = .ended how →
    how = .cancelled ∨ how = .returned ∧ s.stopEvent = true

/-- Nor does the supervisor, and it does not look at a cancelled task. -/
def PollerContained (s : PollSupervisor) : Prop :=
  match s.pc with
  | .waiting => s.task.pc ≠ .ended .cancelled
  | .leaving _ | .ended _ => s.stopEvent = true
  | .cancelling | .connecting _ | .retrying _ => True

/-- No client that a recovery builds or connects before the stop event raises. -/
def RecoveryOk (e : PollEvent) (s : PollSupervisor) : Prop :=
  s.stopEvent = false →
    match e with
    | .check _ r => s.task.isLive = false → r.build = .ok ()
    | .taskEnds r => s.pc = .cancelling → r.build = .ok ()
    | .connectEnds result _ => ∃ reached, result = .ok reached
    | _ => True

variable {conf : PollerConf}

theorem again_contained {s : PollSupervisor} (h : TasksContained s)
    (htask : s.task.pc ≠ .ended .cancelled) : TasksContained s.again ∧ PollerContained s.again := by
  refine ⟨h, ?_⟩
  by_cases hstop : s.stopEvent = true
  · simp [PollSupervisor.again, PollerContained, hstop]
  · simpa [PollSupervisor.again, PollerContained, hstop] using htask

theorem start_contained {s : PollSupervisor} (h : TasksContained s) (t : Time) :
    TasksContained (s.start t).again ∧ PollerContained (s.start t).again := by
  refine again_contained ?_ nofun
  intro loop hloop how hpc
  rcases List.mem_cons.1 hloop with rfl | hloop
  · cases hpc
  · exact h loop hloop how hpc

theorem retry_contained {s : PollSupervisor} (h : TasksContained s)
    (current touchedAt startedAt : Time) :
    TasksContained (s.retry current touchedAt startedAt) ∧
      PollerContained (s.retry current touchedAt startedAt) := by
  unfold PollSupervisor.retry
  split_ifs
  · exact start_contained h startedAt
  · exact ⟨h, trivial⟩

theorem recover_contained {s : PollSupervisor} (h : TasksContained s) {r : Recovery}
    (hr : s.stopEvent = false → r.build = .ok ()) :
    TasksContained (s.recover conf r) ∧ PollerContained (s.recover conf r) := by
  rcases PollSupervisor.recover_cases conf s r with ⟨exc, hexc, heq⟩ | ⟨-, heq⟩
  · rw [heq]
    refine ⟨h, ?_⟩
    cases hstop : s.stopEvent with
    | true => exact hstop
    | false =>
      rw [hr hstop] at hexc
      cases hexc
  · rw [heq]
    have hrep : TasksContained (s.replaced r) := h
    exact retry_contained hrep _ _ _

theorem check_contained {s : PollSupervisor} (h : TasksContained s)
    (htask : s.task.pc ≠ .ended .cancelled) (t : Time) {r : Recovery}
    (hr : s.stopEvent = false → s.task.isLive = false → r.build = .ok ()) :
    TasksContained (s.check conf t r) ∧ PollerContained (s.check conf t r) := by
  rcases PollSupervisor.check_cases conf s t r with ⟨hc, -⟩ | ⟨-, hdead, heq⟩ | ⟨-, heq⟩
  · exact absurd hc htask
  · rw [heq]
    exact recover_contained h fun hstop => hr hstop hdead
  · rw [heq]
    split_ifs
    · exact again_contained h htask
    · exact ⟨h, trivial⟩

theorem connected_contained {s : PollSupervisor} (h : TasksContained s) (current startedAt : Time)
    {result : Except PyExc Bool} (hr : s.stopEvent = false → ∃ reached, result = .ok reached) :
    TasksContained (s.connected current startedAt result) ∧
      PollerContained (s.connected current startedAt result) := by
  unfold PollSupervisor.connected
  split
  · exact start_contained h startedAt
  · exact ⟨h, trivial⟩
  · refine ⟨h, ?_⟩
    by_cases hstop : s.stopEvent = true
    · exact hstop
    · obtain ⟨reached, hreached⟩ := hr (by simpa using hstop)
      cases hreached

/-- A task set in place is one of the tasks. -/
theorem mem_setLoop {s : PollSupervisor} {i : ℕ} {loop l : PollLoop}
    (h : l ∈ (s.setLoop i loop).task :: (s.setLoop i loop).former) :
    l = loop ∨ l ∈ s.task :: s.former := by
  cases i with
  | zero =>
    rcases List.mem_cons.1 h with h | h
    · exact Or.inl h
    · exact Or.inr (List.mem_cons_of_mem _ h)
  | succ i =>
    rcases List.mem_cons.1 h with h | h
    · exact Or.inr (h ▸ List.mem_cons_self)
    · rcases List.mem_or_eq_of_mem_set h with h | h
      · exact Or.inr (List.mem_cons_of_mem _ h)
      · exact Or.inl h

theorem setLoop_contained {s : PollSupervisor} (h : TasksContained s ∧ PollerContained s) (i : ℕ)
    {loop : PollLoop}
    (hloop : ∀ how, loop.pc = .ended how → how = .returned ∧ s.stopEvent = true) :
    TasksContained (s.setLoop i loop) ∧ PollerContained (s.setLoop i loop) := by
  have hpc : (s.setLoop i loop).pc = s.pc ∧ (s.setLoop i loop).stopEvent = s.stopEvent := by
    cases i <;> exact ⟨rfl, rfl⟩
  refine ⟨fun l hl how hend => ?_, ?_⟩
  · rw [hpc.2]
    rcases mem_setLoop hl with rfl | hl
    · exact Or.inr (hloop how hend)
    · exact h.1 l hl how hend
  · have hok := h.2
    unfold PollerContained at hok ⊢
    rw [hpc.1, hpc.2]
    cases hs : s.pc with
    | waiting =>
      rw [hs] at hok
      cases i with
      | zero => exact fun hend => nomatch (hloop _ hend).1
      | succ i => exact hok
    | leaving how | ended how =>
      rw [hs] at hok
      exact hok
    | cancelling | connecting current | retrying current => trivial

theorem cancel_contained {s : PollSupervisor} (h : TasksContained s) :
    TasksContained { s with task := s.task.cancel } := by
  intro loop hloop how hpc
  rcases List.mem_cons.1 hloop with rfl | hloop
  · unfold PollLoop.cancel at hpc
    split_ifs at hpc
    · exact Or.inl (LoopPc.ended.inj hpc).symm
    · exact h _ List.mem_cons_self how hpc
  · exact h loop (List.mem_cons_of_mem _ hloop) how hpc

theorem poller_step_contained (e : PollEvent) (s s' : PollSupervisor)
    (h : TasksContained s ∧ PollerContained s) (he : RecoveryOk e s)
    (hs : s.step conf e = some s') : TasksContained s' ∧ PollerContained s' := by
  obtain ⟨h, hok⟩ := h
  unfold PollSupervisor.step at hs
  split at hs
  · next i e =>
    obtain ⟨loop, -, hs⟩ := Option.bind_eq_some_iff.1 hs
    obtain ⟨-, pc, reports, rfl, -, hend⟩ := PollSupervisor.loopStep_cases hs
    exact setLoop_contained ⟨h, hok⟩ i hend
  · next hpc =>
    obtain rfl := Option.some.inj hs
    rw [PollerContained, hpc] at hok
    exact check_contained h hok _ he
  · split_ifs at hs with hstop
    obtain rfl := Option.some.inj hs
    exact ⟨h, hstop⟩
  · next hpc =>
    obtain rfl := Option.some.inj hs
    exact recover_contained (cancel_contained h) fun hstop => he hstop hpc
  · next how hpc =>
    obtain rfl := Option.some.inj hs
    rw [PollerContained, hpc] at hok
    exact ⟨cancel_contained h, hok⟩
  · obtain rfl := Option.some.inj hs
    exact connected_contained h _ _ he
  · obtain rfl := Option.some.inj hs
    exact retry_contained h _ _ _
  · obtain rfl := Option.some.inj hs
    exact ⟨h, hok⟩
  · obtain rfl := Option.some.inj hs
    refine ⟨fun loop hloop how hpc => (h loop hloop how hpc).imp_right fun hr => ⟨hr.1, rfl⟩, ?_⟩
    unfold PollerContained at hok ⊢
    cases hpc : s.pc <;> rw [hpc] at hok <;> exact hok
  · cases hs

theorem poller_contained {s : PollSupervisor}
    (h : (pollSystem conf).ReachableBy RecoveryOk s) :
    TasksContained s ∧ PollerContained s := by
  refine h.invariant ?_ fun e s s' h he hs => poller_step_contained e s s' h he hs
  rintro s ⟨stopEvent, t, rfl⟩
  refine again_contained ?_ nofun
  intro loop hloop how hpc
  obtain rfl : loop = { client := 0 } := by simpa using hloop
  cases hpc

/-- Where a recovery's client raises, the supervisor leaves its loop. -/
theorem leaves_of_not_recoveryOk {s s' : PollSupervisor} {e : PollEvent}
    (htask : s.pc = .waiting → s.task.pc ≠ .ended .cancelled) (he : ¬RecoveryOk e s)
    (hs : s.step conf e = some s') :
    s'.stopEvent = false ∧ ∃ exc, s'.pc = .leaving (.raised exc) := by
  obtain ⟨hstop, he⟩ := Classical.not_imp.1 he
  have hrecover : ∀ {t : PollSupervisor} {r : Recovery}, t.stopEvent = false → r.build ≠ .ok () →
      (t.recover conf r).stopEvent = false ∧
        ∃ exc, (t.recover conf r).pc = .leaving (.raised exc) := by
    intro t r hstop hbuild
    rcases PollSupervisor.recover_cases conf t r with ⟨exc, -, heq⟩ | ⟨hok, -⟩
    · rw [heq]
      exact ⟨hstop, exc, rfl⟩
    · exact absurd hok hbuild
  cases e with
  | check t r =>
    obtain ⟨hpc, rfl⟩ := PollSupervisor.step_check.1 hs
    obtain ⟨hended, hbuild⟩ := Classical.not_imp.1 he
    rcases PollSupervisor.check_cases conf s t r with ⟨hc, -⟩ | ⟨-, -, heq⟩ | ⟨hlive, -⟩
    · exact absurd hc (htask hpc)
    · rw [heq]
      exact hrecover hstop hbuild
    · cases hended.symm.trans hlive
  | taskEnds r =>
    obtain ⟨hpc, hbuild⟩ := Classical.not_imp.1 he
    rw [PollSupervisor.step_taskEnds hpc] at hs
    obtain rfl := Option.some.inj hs
    exact hrecover hstop hbuild
  | connectEnds result startedAt =>
    obtain ⟨current, -, rfl⟩ := PollSupervisor.step_connectEnds.1 hs
    rcases result with exc | reached
    · exact ⟨hstop, exc, rfl⟩
    · exact absurd ⟨reached, rfl⟩ he
  | loop i e | stopSeen | delayEnds touchedAt startedAt | touch t | stop => exact absurd trivial he

/-- Before the stop event neither `supervise_poller` nor `run_poller` ends, the latter
unless a recovery cancels it, and so this bridge does not end the `gather` of them all. This
holds as long as the clients that recoveries build and connect do not raise : from the first
that does, `supervise_poller` raises as soon as its task has ended. -/
theorem poll_supervision_contained (conf : PollerConf) :
    (∀ s, (pollSystem conf).ReachableBy RecoveryOk s → s.stopEvent = false →
      s.result = none ∧
        (∀ loop ∈ s.task :: s.former, ∀ how, loop.pc = .ended how → how = .cancelled) ∧
        ∀ pre post, gatherEnds (pre ++ s.result :: post) =
          (pre ++ post).any fun r => r.any (· ≠ .returned)) ∧
    ∀ s e s', (pollSystem conf).ReachableBy RecoveryOk s → ¬RecoveryOk e s →
      s.step conf e = some s' → ∀ r, ∃ s'', s'.step conf (.taskEnds r) = some s'' ∧
        s''.stopEvent = false ∧ ∃ exc, s''.result = some (.raised exc) := by
  refine ⟨fun s h hstop => ?_, fun s e s' h he hs r => ?_⟩
  · obtain ⟨htasks, hok⟩ := poller_contained h
    have hresult : s.result = none := by
      unfold PollSupervisor.result
      cases hpc : s.pc with
      | ended how =>
        rw [PollerContained, hpc] at hok
        simp [hstop] at hok
      | waiting | cancelling | connecting current | retrying current | leaving how => rfl
    refine ⟨hresult, fun loop hloop how hpc => ?_, fun pre post => ?_⟩
    · rcases htasks loop hloop how hpc with hc | ⟨-, hs⟩
      · exact hc
      · simp [hstop] at hs
    · simp [hresult, gatherEnds]
  · obtain ⟨-, hok⟩ := poller_contained h
    have htask : s.pc = .waiting → s.task.pc ≠ .ended .cancelled := by
      intro hpc
      rwa [PollerContained, hpc] at hok
    obtain ⟨hstop, exc, hpc⟩ := leaves_of_not_recoveryOk htask he hs
    refine ⟨{ s' with task := s'.task.cancel, pc := .ended (.raised exc) }, ?_, hstop, exc, rfl⟩
    exact PollSupervisor.step_leaving hpc

/-- A stall timeout of a minute. -/
def minuteConf : PollerConf := ⟨60, 1, 30⟩

/-- Closing raises, building does not. -/
def closeRaises : Recovery := ⟨61, some (.error (.other "OSError" "gone")), .ok (), 61, 61⟩

/-- A first poll that hangs, until the supervisor has its loop cancelled. -/
def hungPoll : List PollEvent := [.loop 0 .test, .check 61 closeRaises, .taskEnds closeRaises]

/-- The bridge recovers from it where the new client connects. -/
theorem poll_supervision_contained_hungPoll : ∃ s,
    (pollSystem minuteConf).ReachableBy RecoveryOk s ∧
      s.client = 1 ∧ s.result = none := by
  have hrun : ((pollSystem minuteConf).run hungPoll (.initial false 0)).any
      (fun s => s.client = 1 ∧ s.stopEvent = false) = true := by
    decide +kernel
  obtain ⟨s, hs, hp⟩ := (Option.any_eq_true _ _).1 hrun
  obtain ⟨hclient, hstop⟩ := decide_eq_true_iff.1 hp
  have hreach : (pollSystem minuteConf).ReachableBy RecoveryOk s :=
    System.reachableBy_of_run (.init ⟨false, 0, rfl⟩) hungPoll
      (by simp [hungPoll, RecoveryOk, closeRaises]) hs
  exact ⟨s, hreach, hclient, ((poll_supervision_contained minuteConf).1 s hreach hstop).1⟩

/-- The supervisor ends, the stop event not set, where the new client's `connect()` raises. -/
theorem supervise_poller_dies :
    ¬∀ s, (pollSystem minuteConf).Reachable s → s.stopEvent = false → s.result = none := by
  intro h
  have hrun : ((pollSystem minuteConf).run (hungPoll ++
      [.connectEnds (.error (.other "OSError" "no route")) 62, .taskEnds closeRaises])
        (.initial false 0)).any (fun s => s.stopEvent = false ∧
          s.result = some (.raised (.other "OSError" "no route"))) = true := by
    decide +kernel
  obtain ⟨s, hs, hp⟩ := (Option.any_eq_true _ _).1 hrun
  obtain ⟨hstop, hres⟩ := decide_eq_true_iff.1 hp
  have := h s (System.reachable_of_run (.init ⟨false, 0, rfl⟩) _ hs) hstop
  simp [hres] at this

end DtsuBridge
