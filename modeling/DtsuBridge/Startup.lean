import DtsuBridge.PollRecovery
import Mathlib.Data.Finset.Card

/-!
# The startup connect of a bridge

`run_app` connects the client a bridge starts with in a task of its own, beside the
supervisor of its poll loop. Both tasks run `connect_with_retry`, both touch the heartbeat
that stall detection reads, and only the supervisor knows of the clients it replaced.

`superseded_not_connected` : as long as the startup task is over, or the stop event set,
whenever the supervisor replaces the client, no client is connected after it was replaced
and at most one is connected and not closed. From the first replacement where neither
holds, some continuation connects the client that was replaced.
-/

namespace DtsuBridge

/-! ## The model -/

/-- A coroutine in `connect_with_retry`, run as a task. -/
inductive ConnectPc where
  /-- Not run yet. -/
  | created
  /-- Awaiting `connect()`. -/
  | connecting (current : Time)
  /-- Awaiting the stop event or the delay. -/
  | retrying (current : Time)
  | ended (how : TaskEnd)

def ConnectPc.isOver : ConnectPc → Bool
  | .ended _ => true
  | _ => false

def PollerPc.isConnecting : PollerPc → Bool
  | .connecting _ => true
  | _ => false

def PollerPc.isCancelling : PollerPc → Bool
  | .cancelling => true
  | _ => false

/-- What is called on a client. -/
inductive ClientCall where
  | connect (client : ℕ)
  /-- `supervise_poller` has closed the client and replaced it. -/
  | supersede (client : ℕ)
deriving DecidableEq

/-- One bridge of `run_app`. -/
structure AppRun where
  poller : PollSupervisor
  /-- The startup connect, of the first client. -/
  startup : ConnectPc := .created
  /-- The latest reading of the clock. -/
  clock : Time
  /-- When the poll loop held last called back, or was started. -/
  progress : Time
  /-- When the startup connect last touched the heartbeat. -/
  startupTouch : Option Time := none
  calls : List ClientCall := []
  /-- The clients that are connected and were not closed since. -/
  owned : Finset ℕ := ∅

inductive AppEvent where
  | poller (e : PollEvent)
  /-- A poll of the task with this index ends, and its last callback reads the clock. -/
  | cycle (i : ℕ) (c : PollCycle) (calledAt : Time)
  /-- The startup connect runs for the first time. -/
  | startupRuns (touchedAt : Time)
  | startupConnectEnds (result : Except PyExc Bool)
  | startupDelayEnds (touchedAt : Time)
  | startupCancelled

/-- The clock readings of an event of the supervisor, in order. -/
def PollEvent.readings : PollEvent → List Time
  | .check t r => [t, r.recordedAt, r.touchedAt, r.startedAt]
  | .taskEnds r => [r.recordedAt, r.touchedAt, r.startedAt]
  | .connectEnds _ startedAt => [startedAt]
  | .delayEnds touchedAt startedAt => [touchedAt, startedAt]
  | .loop .. | .stopSeen | .touch _ | .stop => []

/-- What a cycle or a touch reads is not free here. -/
def PollEvent.isFree : PollEvent → Bool
  | .loop _ (.cycle _) | .touch _ => false
  | _ => true

/-- When the event starts a task, if it does. -/
def PollEvent.startedAt (e : PollEvent) (clock : Time) : Time :=
  e.readings.getLast?.getD clock

namespace AppRun

variable (conf : PollerConf)

/-- The calls of a step of the supervisor. -/
def callsOf (s p : PollSupervisor) : List ClientCall :=
  (if p.client = s.client then [] else [.supersede s.client]) ++
    if p.pc.isConnecting && !s.pc.isConnecting then [.connect p.client] else []

/-- The clients owned after a step of the supervisor. -/
def ownedAfter (owned : Finset ℕ) (e : PollEvent) (s p : PollSupervisor) : Finset ℕ :=
  let owned := if p.recovery.restarts = s.recovery.restarts then owned else owned.erase s.client
  match e with
  | .connectEnds (.ok true) _ => insert s.client owned
  | _ => owned

/-- The supervisor has made a step. -/
def moved (s : AppRun) (e : PollEvent) (p : PollSupervisor) : AppRun :=
  { s with
    poller := p
    clock := e.startedAt s.clock
    progress :=
      if p.former.length = s.poller.former.length then s.progress else e.startedAt s.clock
    calls := s.calls ++ callsOf s.poller p
    owned := ownedAfter s.owned e s.poller p }

/-- A touch of the heartbeat. -/
def touch (s : AppRun) (t : Time) : AppRun :=
  { s with poller := { s.poller with heartbeat := s.poller.heartbeat.touch t }, clock := t }

/-- The loop of `connect_with_retry`, of the client that the task was created with. -/
def attempt (s : AppRun) (current touchedAt : Time) : AppRun :=
  if s.poller.stopEvent then { s with startup := .ended .returned }
  else
    { s.touch touchedAt with
      startup := .connecting current
      startupTouch := some touchedAt
      calls := s.calls ++ [.connect 0] }

/-- The step of an event, where it can happen. -/
def step (e : AppEvent) (s : AppRun) : Option AppRun :=
  match e, s.startup with
  | .poller e, _ =>
    if e.isFree ∧ (s.clock :: e.readings).IsChain (· ≤ ·) then
      (s.poller.step conf e).map (s.moved e)
    else none
  | .cycle i c calledAt, _ =>
    if s.clock ≤ calledAt then
      (s.poller.step conf (.loop i (.cycle c))).map fun p =>
        { { s with poller := p }.touch calledAt with
          progress := if i = 0 then calledAt else s.progress }
    else none
  | .startupRuns touchedAt, .created =>
    if s.clock ≤ touchedAt then some (s.attempt conf.reconnectDelay touchedAt) else none
  | .startupConnectEnds (.ok true), .connecting _ =>
    some { s with startup := .ended .returned, owned := insert 0 s.owned }
  | .startupConnectEnds (.ok false), .connecting current =>
    some { s with startup := .retrying current }
  | .startupConnectEnds (.error exc), .connecting _ =>
    some { s with startup := .ended (.raised exc) }
  | .startupDelayEnds touchedAt, .retrying current =>
    if s.clock ≤ touchedAt then
      some (s.attempt (min (current * 2) conf.reconnectDelayMax) touchedAt)
    else none
  | .startupCancelled, startup =>
    if startup.isOver then none else some { s with startup := .ended .cancelled }
  | _, _ => none

end AppRun

/-- The state once the first poll loop is created. -/
def AppRun.initial (stopEvent : Bool) (t : Time) : AppRun :=
  { poller := .initial stopEvent t, clock := t, progress := t }

/-- The runs of one bridge of `run_app`. -/
def appSystem (conf : PollerConf) : System AppRun AppEvent where
  init s := ∃ stopEvent t, s = .initial stopEvent t
  step := AppRun.step conf

/-! ## The steps of the supervisor -/

/-- A step that builds a client in the place of the one before. -/
def Replaces (e : PollEvent) (s : PollSupervisor) : Prop :=
  match e with
  | .check _ r => s.task.isLive = false ∧ s.task.pc ≠ .ended .cancelled ∧ r.build = .ok ()
  | .taskEnds r => s.pc = .cancelling ∧ r.build = .ok ()
  | _ => False

/-- A step that neither replaces nor connects the client. -/
structure Quiet (s s' : PollSupervisor) : Prop where
  client : s'.client = s.client
  connecting : s'.pc.isConnecting = true → s.pc.isConnecting = true
  stop : s.stopEvent = true → s'.stopEvent = true
  leaves : s.pc.leaves = true → s'.pc.leaves = true

/-- A step that neither starts a task nor touches the heartbeat. -/
structure Beatless (s s' : PollSupervisor) : Prop where
  heartbeat : s'.heartbeat = s.heartbeat
  former : s'.former.length = s.former.length
  live : s'.task.isLive = true → s.task.isLive = true

/-- A client takes the place of the one before, whose task has ended. -/
structure Replaced (s q : PollSupervisor) : Prop where
  client : q.client = s.client + 1
  heartbeat : q.heartbeat = s.heartbeat
  former : q.former = s.former
  dead : q.task.isLive = false
  restarts : q.recovery.restarts = s.recovery.restarts + 1
  stop : q.stopEvent = s.stopEvent
  pc : q.pc = s.pc

/-- A step of the supervisor is quiet, starts a task once connected, or goes on in
`connect_with_retry`, of the same client or of one that takes its place. -/
structure Retries (conf : PollerConf) (e : PollEvent) (s q s' : PollSupervisor) : Prop where
  eq : ∃ current touchedAt startedAt, s' = q.retry current touchedAt startedAt ∧
    touchedAt ∈ e.readings ∧ e.readings.getLast? = some startedAt
  from_ : (q = s ∧ ∃ current, s.pc = .retrying current) ∨
    Replaces e s ∧ Replaced s q ∧ s.pc.leaves = false ∧ s.pc.isConnecting = false

variable {conf : PollerConf}

/-- A step of a poll loop. -/
theorem quiet_loop {s s' : PollSupervisor} {i : ℕ} {e : LoopEvent}
    (h : s.step conf (.loop i e) = some s') : Quiet s s' ∧ Beatless s s' := by
  obtain ⟨loop, hi, h⟩ := Option.bind_eq_some_iff.1 h
  obtain ⟨hlive, pc, reports, rfl, -⟩ := PollSupervisor.loopStep_cases h
  rcases i with _ | i
  · obtain rfl := Option.some.inj hi
    exact ⟨⟨rfl, id, id, id⟩, ⟨rfl, rfl, fun _ => hlive⟩⟩
  · exact ⟨⟨rfl, id, id, id⟩, ⟨rfl, List.length_set, id⟩⟩

/-- The supervisor moves on and connects nothing. -/
theorem quiet_at {s : PollSupervisor} {pc : PollerPc} {task : PollLoop} {r : RecoveryStats}
    {calls : List PollCall} (hpc : pc.isConnecting = false)
    (hleaves : s.pc.leaves = true → pc.leaves = true)
    (hlive : task.isLive = true → s.task.isLive = true) :
    Quiet s { s with pc := pc, task := task, recovery := r, calls := calls } ∧
      Beatless s { s with pc := pc, task := task, recovery := r, calls := calls } :=
  ⟨⟨rfl, fun hc => absurd (hpc.symm.trans hc) Bool.false_ne_true, id, hleaves⟩,
    ⟨rfl, rfl, hlive⟩⟩

/-- A recovery raises, or goes on with a client in the place of the one before. -/
theorem recover_moves {s : PollSupervisor} {task : PollLoop} {r : Recovery} {e : PollEvent}
    (hdead : task.isLive = false) (hleaves : s.pc.leaves = false)
    (hconn : s.pc.isConnecting = false) (hrep : r.build = .ok () → Replaces e s)
    (htouched : r.touchedAt ∈ e.readings) (hstarted : e.readings.getLast? = some r.startedAt) :
    (Quiet s ({ s with task := task }.recover conf r) ∧
        Beatless s ({ s with task := task }.recover conf r)) ∨
      ∃ q, Retries conf e s q ({ s with task := task }.recover conf r) := by
  rcases PollSupervisor.recover_cases conf { s with task := task } r with
    ⟨exc, -, heq⟩ | ⟨hok, heq⟩
  · rw [heq]
    exact Or.inl (quiet_at rfl (fun _ => rfl) fun hl =>
      absurd (hdead.symm.trans hl) Bool.false_ne_true)
  · exact Or.inr ⟨_, ⟨_, _, _, heq, htouched, hstarted⟩,
      Or.inr ⟨hrep hok, ⟨rfl, rfl, rfl, hdead, rfl, rfl, rfl⟩, hleaves, hconn⟩⟩

theorem check_moves {s : PollSupervisor} (hpc : s.pc = .waiting) (t : Time) (r : Recovery) :
    (Quiet s (s.check conf t r) ∧ Beatless s (s.check conf t r)) ∨
      ∃ q, Retries conf (.check t r) s q (s.check conf t r) := by
  have hleaves : s.pc.leaves = false := by rw [hpc]; rfl
  rcases PollSupervisor.check_cases conf s t r with ⟨-, heq⟩ | ⟨hnot, hdead, heq⟩ | ⟨-, heq⟩
  · rw [heq]
    exact Or.inl (quiet_at rfl (fun _ => rfl) id)
  · rw [heq]
    have hrep : r.build = .ok () → Replaces (.check t r) s := fun hok => ⟨hdead, hnot, hok⟩
    exact recover_moves hdead hleaves (by rw [hpc]; rfl) hrep (by simp [PollEvent.readings]) rfl
  · rw [heq]
    split_ifs
    · refine Or.inl (quiet_at ?_ ?_ id)
      · split_ifs <;> rfl
      · simp [hleaves]
    · exact Or.inl (quiet_at rfl (by simp [hleaves]) id)

theorem pollStep_cases {s s' : PollSupervisor} {e : PollEvent} (hfree : e.isFree = true)
    (h : s.step conf e = some s') :
    (Quiet s s' ∧ Beatless s s') ∨
      (∃ current startedAt, s.pc = .connecting current ∧
        e = .connectEnds (.ok true) startedAt ∧ s' = (s.start startedAt).again) ∨
      ∃ q, Retries conf e s q s' := by
  unfold PollSupervisor.step at h
  split at h
  next i e => exact Or.inl (@quiet_loop conf _ _ _ _ h)
  next t r hpc =>
    obtain rfl := Option.some.inj h
    exact (check_moves hpc t r).imp_right Or.inr
  next hpc =>
    split_ifs at h
    obtain rfl := Option.some.inj h
    exact Or.inl (quiet_at rfl (fun _ => rfl) id)
  next r hpc =>
    obtain rfl := Option.some.inj h
    have hrep : r.build = .ok () → Replaces (.taskEnds r) s := fun hok => ⟨hpc, hok⟩
    exact (recover_moves (PollLoop.isLive_cancel _) (by rw [hpc]; rfl) (by rw [hpc]; rfl) hrep
      (by simp [PollEvent.readings]) rfl).imp_right Or.inr
  next how hpc =>
    obtain rfl := Option.some.inj h
    exact Or.inl (quiet_at rfl (fun _ => rfl) (by simp))
  next result startedAt current hpc =>
    obtain rfl := Option.some.inj h
    rcases result with exc | ⟨_ | _⟩
    · exact Or.inl (quiet_at rfl (fun _ => rfl) id)
    · refine Or.inl (quiet_at rfl (fun hl => ?_) id)
      rw [hpc] at hl
      cases hl
    · exact Or.inr (Or.inl ⟨current, startedAt, hpc, rfl, rfl⟩)
  next touchedAt startedAt current hpc =>
    obtain rfl := Option.some.inj h
    exact Or.inr (Or.inr ⟨s, ⟨_, _, _, rfl, by simp [PollEvent.readings], rfl⟩,
      Or.inl ⟨rfl, current, hpc⟩⟩)
  next => cases hfree
  next =>
    obtain rfl := Option.some.inj h
    exact Or.inl ⟨⟨rfl, id, fun _ => rfl, id⟩, ⟨rfl, rfl, id⟩⟩
  next => cases h

theorem retry_cases (q : PollSupervisor) (current touchedAt startedAt : Time) :
    (q.stopEvent = true ∧ q.retry current touchedAt startedAt =
        { q.start startedAt with pc := .leaving .returned }) ∨
      q.stopEvent = false ∧ q.retry current touchedAt startedAt =
        { q with heartbeat := q.heartbeat.touch touchedAt, pc := .connecting current } := by
  unfold PollSupervisor.retry PollSupervisor.again
  by_cases hstop : q.stopEvent = true
  · refine Or.inl ⟨hstop, ?_⟩
    rw [if_pos hstop, if_pos (show (q.start startedAt).stopEvent = true from hstop)]
  · exact Or.inr ⟨by simpa using hstop, if_neg hstop⟩

/-! ## The steps of a bridge -/

/-- A step is one of the supervisor, a cycle of a poll loop, a try of the startup connect, or
the end of what the startup connect awaits. -/
theorem AppRun.step_cases {s s' : AppRun} {e : AppEvent} (h : s.step conf e = some s') :
    (∃ p q, e = .poller p ∧ p.isFree = true ∧ (s.clock :: p.readings).IsChain (· ≤ ·) ∧
        s.poller.step conf p = some q ∧ s' = s.moved p q) ∨
      (∃ i c t q, s.poller.step conf (.loop i (.cycle c)) = some q ∧ s.clock ≤ t ∧
        s' = { { s with poller := q }.touch t with
          progress := if i = 0 then t else s.progress }) ∨
      (∃ current t, s.startup.isOver = false ∧ s.clock ≤ t ∧ s' = s.attempt current t) ∨
      ∃ startup owned, s.startup.isOver = false ∧
        s' = { s with startup := startup, owned := owned } ∧
        (owned = s.owned ∨ owned = insert 0 s.owned) := by
  unfold AppRun.step at h
  split at h
  next _ p =>
    split_ifs at h with hp
    obtain ⟨q, hq, rfl⟩ := Option.map_eq_some_iff.1 h
    exact Or.inl ⟨p, q, rfl, hp.1, hp.2, hq, rfl⟩
  next _ i c t =>
    split at h
    next hle =>
      obtain ⟨q, hq, rfl⟩ := Option.map_eq_some_iff.1 h
      exact Or.inr (Or.inl ⟨i, c, t, q, hq, hle, rfl⟩)
    next => cases h
  next t hs =>
    split_ifs at h with hle
    exact Or.inr (Or.inr (Or.inl ⟨_, t, by rw [hs]; rfl, hle, (Option.some.inj h).symm⟩))
  next current hs =>
    exact Or.inr (Or.inr (Or.inr ⟨_, _, by rw [hs]; rfl, (Option.some.inj h).symm, Or.inr rfl⟩))
  next current hs =>
    exact Or.inr (Or.inr (Or.inr ⟨_, _, by rw [hs]; rfl, (Option.some.inj h).symm, Or.inl rfl⟩))
  next exc current hs =>
    exact Or.inr (Or.inr (Or.inr ⟨_, _, by rw [hs]; rfl, (Option.some.inj h).symm, Or.inl rfl⟩))
  next t current hs =>
    split_ifs at h with hle
    exact Or.inr (Or.inr (Or.inl ⟨_, t, by rw [hs]; rfl, hle, (Option.some.inj h).symm⟩))
  next =>
    split_ifs at h with hover
    exact Or.inr (Or.inr (Or.inr ⟨_, _, by simpa using hover, (Option.some.inj h).symm,
      Or.inl rfl⟩))
  next => cases h

theorem AppRun.step_poller {s s' : AppRun} {e : PollEvent} (h : s.step conf (.poller e) = some s') :
    ∃ p, s.poller.step conf e = some p ∧ s' = s.moved e p := by
  unfold AppRun.step at h
  dsimp only at h
  split_ifs at h
  obtain ⟨p, hp, rfl⟩ := Option.map_eq_some_iff.1 h
  exact ⟨p, hp, rfl⟩

/-! ## Superseded clients -/

/-- The startup connect is over, or will not try again, where the client is replaced. -/
def StartupOver (e : AppEvent) (s : AppRun) : Prop :=
  ∀ p, e = .poller p → Replaces p s.poller →
    s.startup.isOver = true ∨ s.poller.stopEvent = true

/-- No client is connected once it was replaced. -/
def NotSuperseded (pre : List ClientCall) (call : ClientCall) : Prop :=
  ∀ c, call = .connect c → .supersede c ∉ pre

/-- Where the startup connect may have left clients. -/
inductive Owns (s : AppRun) : Prop
  /-- It knows the client in use, or is over. -/
  | current (owned : ∀ c ∈ s.owned, c = s.poller.client)
      (first : s.poller.client = 0 ∨ s.startup.isOver = true)
  /-- No other client will be connected. -/
  | stopped (stop : s.poller.stopEvent = true) (leaves : s.poller.pc.leaves = true)
      (owned : ∀ c ∈ s.owned, c = 0)

structure Superseded (s : AppRun) : Prop where
  mem : ∀ c, .supersede c ∈ s.calls ↔ c < s.poller.client
  each : EachAfter NotSuperseded s.calls
  owns : Owns s

theorem mem_ownedAfter {owned : Finset ℕ} {e : PollEvent} {s p : PollSupervisor} {c : ℕ}
    (h : c ∈ AppRun.ownedAfter owned e s p) :
    (c ∈ owned ∧ (p.recovery.restarts ≠ s.recovery.restarts → c ≠ s.client)) ∨
      ∃ startedAt, e = .connectEnds (.ok true) startedAt ∧ c = s.client := by
  have hkept : ∀ {c}, c ∈ (if p.recovery.restarts = s.recovery.restarts then owned
      else owned.erase s.client) →
        c ∈ owned ∧ (p.recovery.restarts ≠ s.recovery.restarts → c ≠ s.client) := by
    intro c hc
    split_ifs at hc with hr
    · exact ⟨hc, fun hne => absurd hr hne⟩
    · exact ⟨(Finset.mem_erase.1 hc).2, fun _ => (Finset.mem_erase.1 hc).1⟩
  unfold AppRun.ownedAfter at h
  dsimp only at h
  split at h
  next startedAt =>
    rcases Finset.mem_insert.1 h with rfl | h
    · exact Or.inr ⟨startedAt, rfl, rfl⟩
    · exact Or.inl (hkept h)
  next => exact Or.inl (hkept h)

/-- A quiet step and what goes with it. -/
theorem Superseded.of_quiet {s s' : AppRun} (h : Superseded s) (hq : Quiet s.poller s'.poller)
    (hcalls : s'.calls = s.calls) (hstartup : s.startup.isOver = true → s'.startup.isOver = true)
    (howned : ∀ c ∈ s'.owned, c ∈ s.owned ∨ c = s.poller.client ∧ s.poller.pc.leaves = false ∨
      c = 0 ∧ s.startup.isOver = false) : Superseded s' := by
  refine ⟨fun c => by rw [hcalls, hq.client, h.mem], hcalls ▸ h.each, ?_⟩
  rcases h.owns with ⟨hc, hfirst⟩ | ⟨hstop, hleaves, hzero⟩
  · refine .current (fun c hmem => ?_) (hq.client ▸ hfirst.imp_right hstartup)
    rw [hq.client]
    rcases howned c hmem with hmem | ⟨rfl, -⟩ | ⟨rfl, hnot⟩
    · exact hc c hmem
    · rfl
    · rcases hfirst with h0 | hover
      · exact h0.symm
      · cases hnot.symm.trans hover
  · refine .stopped (hq.stop hstop) (hq.leaves hleaves) fun c hmem => ?_
    rcases howned c hmem with hmem | ⟨-, hnot⟩ | ⟨rfl, -⟩
    · exact hzero c hmem
    · cases hnot.symm.trans hleaves
    · rfl

/-- The startup connect connects the first client where it is not replaced. -/
theorem attempt_superseded {s : AppRun} (h : Superseded s) (hover : s.startup.isOver = false)
    (current touchedAt : Time) : Superseded (s.attempt current touchedAt) := by
  unfold AppRun.attempt
  by_cases hstop : s.poller.stopEvent = true
  · rw [if_pos hstop]
    exact h.of_quiet ⟨rfl, id, id, id⟩ rfl (fun _ => rfl) fun c hc => Or.inl hc
  · rw [if_neg hstop]
    rcases h.owns with ⟨hc, hfirst⟩ | ⟨hstop', -⟩
    · have hzero : s.poller.client = 0 := by simpa [hover] using hfirst
      refine ⟨fun c => ?_, eachAfter_concat.2 ⟨h.each, ?_⟩, .current hc (Or.inl hzero)⟩
      · simpa [AppRun.touch] using h.mem c
      · intro c hc hmem
        obtain rfl := ClientCall.connect.inj hc
        exact absurd ((h.mem 0).1 hmem) (by omega)
    · exact absurd hstop' hstop

/-- The calls, and the one that supersedes the client where `q` has another. -/
def AppRun.supersedes (s : AppRun) (q : PollSupervisor) : List ClientCall :=
  s.calls ++ if q.client = s.poller.client then [] else [.supersede s.poller.client]

/-- `connect_with_retry` connects the client it is given, if any. -/
theorem retry_calls {s : AppRun} {q : PollSupervisor} (e : PollEvent)
    (current touchedAt startedAt : Time) (hconn : s.poller.pc.isConnecting = false)
    (hmem : ∀ c, .supersede c ∈ s.supersedes q ↔ c < q.client)
    (heach : EachAfter NotSuperseded (s.supersedes q)) :
    (∀ c, .supersede c ∈ (s.moved e (q.retry current touchedAt startedAt)).calls ↔
        c < (q.retry current touchedAt startedAt).client) ∧
      EachAfter NotSuperseded (s.moved e (q.retry current touchedAt startedAt)).calls := by
  rcases retry_cases q current touchedAt startedAt with ⟨-, heq⟩ | ⟨-, heq⟩
  · have hcalls : (s.moved e (q.retry current touchedAt startedAt)).calls = s.supersedes q := by
      simp [AppRun.moved, AppRun.callsOf, AppRun.supersedes, heq, PollSupervisor.start,
        show (PollerPc.leaving .returned).isConnecting = false from rfl]
    refine ⟨fun c => ?_, hcalls ▸ heach⟩
    rw [hcalls, heq]
    exact hmem c
  · have hcalls : (s.moved e (q.retry current touchedAt startedAt)).calls =
        s.supersedes q ++ [.connect q.client] := by
      simp [AppRun.moved, AppRun.callsOf, AppRun.supersedes, heq, hconn,
        show (PollerPc.connecting current).isConnecting = true from rfl]
    refine ⟨fun c => ?_, ?_⟩
    · rw [hcalls, heq]
      simpa using hmem c
    · rw [hcalls]
      refine eachAfter_concat.2 ⟨heach, fun c hc hsup => ?_⟩
      obtain rfl := ClientCall.connect.inj hc
      exact lt_irrefl _ ((hmem _).1 hsup)

/-- The supervisor tries its client again. -/
theorem moved_retrying {s : AppRun} (h : Superseded s) {current touchedAt startedAt c : Time}
    (e : PollEvent) (hpc : s.poller.pc = .retrying c) :
    Superseded (s.moved e (s.poller.retry current touchedAt startedAt)) := by
  rcases h.owns with ⟨howned, hfirst⟩ | ⟨-, hleaves, -⟩
  swap
  · rw [hpc] at hleaves
    cases hleaves
  have hkeep : ∀ {t : PollSupervisor}, t.client = s.poller.client →
      ∀ c ∈ AppRun.ownedAfter s.owned e s.poller t, c = t.client := by
    intro t ht c hc
    rcases mem_ownedAfter hc with ⟨hc, -⟩ | ⟨-, -, rfl⟩
    · exact ht ▸ howned c hc
    · exact ht.symm
  have hsame : s.supersedes s.poller = s.calls := by simp [AppRun.supersedes]
  obtain ⟨hmem, heach⟩ := retry_calls e current touchedAt startedAt (by rw [hpc]; rfl)
    (fun c => by rw [hsame, h.mem]) (hsame ▸ h.each)
  have hclient : (s.poller.retry current touchedAt startedAt).client = s.poller.client := by
    rcases retry_cases s.poller current touchedAt startedAt with ⟨-, heq⟩ | ⟨-, heq⟩
    · rw [heq]
      rfl
    · rw [heq]
  exact ⟨hmem, heach, .current (hkeep hclient) (hfirst.imp_left hclient.trans)⟩

/-- The supervisor replaces its client, which nobody connects any more. -/
theorem moved_replaced {s : AppRun} (h : Superseded s) {e : PollEvent} {q : PollSupervisor}
    {current touchedAt startedAt : Time} (hrep : Replaces e s.poller) (hq : Replaced s.poller q)
    (hleaves : s.poller.pc.leaves = false) (hconn : s.poller.pc.isConnecting = false)
    (hover : s.startup.isOver = true ∨ s.poller.stopEvent = true) :
    Superseded (s.moved e (q.retry current touchedAt startedAt)) := by
  rcases h.owns with ⟨howned, hfirst⟩ | ⟨-, hleaves', -⟩
  swap
  · cases hleaves.symm.trans hleaves'
  have hempty : ∀ {t : PollSupervisor}, t.recovery.restarts = s.poller.recovery.restarts + 1 →
      ∀ c, c ∉ AppRun.ownedAfter s.owned e s.poller t := by
    intro t ht c hc
    rcases mem_ownedAfter hc with ⟨hc, hne⟩ | ⟨t', rfl, -⟩
    · exact hne (by omega) (howned c hc)
    · exact hrep
  have hsup : s.supersedes q = s.calls ++ [.supersede s.poller.client] := by
    rw [AppRun.supersedes, hq.client, if_neg (Nat.succ_ne_self _)]
  have hmem : ∀ c, .supersede c ∈ s.supersedes q ↔ c < q.client := by
    intro c
    rw [hsup, List.mem_append, List.mem_singleton, h.mem, ClientCall.supersede.injEq, hq.client]
    omega
  have heach : EachAfter NotSuperseded (s.supersedes q) := by
    rw [hsup]
    exact eachAfter_concat.2 ⟨h.each, nofun⟩
  obtain ⟨hmem', heach'⟩ := retry_calls e current touchedAt startedAt hconn hmem heach
  refine ⟨hmem', heach', ?_⟩
  rcases retry_cases q current touchedAt startedAt with ⟨hstop, heq⟩ | ⟨hstop, heq⟩
  · rw [heq]
    exact .stopped hstop rfl fun c hc => absurd hc (hempty hq.restarts c)
  · rw [heq]
    refine .current (fun c hc => absurd hc (hempty hq.restarts c)) (Or.inr ?_)
    refine hover.resolve_right fun hs => ?_
    rw [← hq.stop, hstop] at hs
    cases hs

/-- The supervisor neither replaces nor connects its client. -/
theorem moved_quiet {s : AppRun} (h : Superseded s) {e : PollEvent} {p : PollSupervisor}
    (hq : Quiet s.poller p) (hs : s.poller.step conf e = some p) : Superseded (s.moved e p) := by
  have hnot : (p.pc.isConnecting && !s.poller.pc.isConnecting) = false := by
    rcases hp : p.pc.isConnecting with _ | _
    · rfl
    · simp [hq.connecting hp]
  refine h.of_quiet hq ?_ id fun c hc => ?_
  · simp [AppRun.moved, AppRun.callsOf, hq.client, hnot]
  · rcases mem_ownedAfter hc with ⟨hc, -⟩ | ⟨t, rfl, rfl⟩
    · exact Or.inl hc
    · obtain ⟨current, hpc, -⟩ := PollSupervisor.step_connectEnds.1 hs
      exact Or.inr (Or.inl ⟨rfl, by rw [hpc]; rfl⟩)

/-- The supervisor has connected its client and starts a poll loop. -/
theorem moved_started {s : AppRun} (h : Superseded s) {current : Time} (e : PollEvent)
    (hpc : s.poller.pc = .connecting current) (startedAt : Time) :
    Superseded (s.moved e (s.poller.start startedAt).again) := by
  have hleaves : s.poller.pc.leaves = false := by rw [hpc]; rfl
  have hconn : (s.poller.start startedAt).again.pc.isConnecting = false := by
    unfold PollSupervisor.again
    dsimp only
    split_ifs <;> rfl
  have hclient : (s.poller.start startedAt).again.client = s.poller.client := rfl
  refine h.of_quiet ⟨rfl, fun hc => absurd (hconn.symm.trans hc) Bool.false_ne_true, id,
    fun hl => absurd (hleaves.symm.trans hl) Bool.false_ne_true⟩ ?_ id fun c hc => ?_
  · simp [AppRun.moved, AppRun.callsOf, hconn, hclient]
  · rcases mem_ownedAfter hc with ⟨hc, -⟩ | ⟨-, -, rfl⟩
    · exact Or.inl hc
    · exact Or.inr (Or.inl ⟨rfl, hleaves⟩)

/-- One step keeps superseded clients unconnected. -/
theorem appStep_superseded {s s' : AppRun} {e : AppEvent} (h : Superseded s)
    (hover : StartupOver e s) (hs : s.step conf e = some s') : Superseded s' := by
  rcases AppRun.step_cases hs with ⟨p, q, rfl, hfree, -, hq, rfl⟩ |
    ⟨i, c, t, q, hq, -, rfl⟩ | ⟨current, t, hnot, -, rfl⟩ | ⟨startup, owned, hnot, rfl, hends⟩
  · rcases pollStep_cases hfree hq with ⟨hquiet, -⟩ | ⟨current, startedAt, hpc, -, rfl⟩ |
      ⟨r, ⟨⟨current, touchedAt, startedAt, rfl, -⟩, hfrom⟩⟩
    · exact moved_quiet h hquiet hq
    · exact moved_started h p hpc startedAt
    · rcases hfrom with ⟨rfl, c, hpc⟩ | ⟨hrep, hr, hleaves, hconn⟩
      · exact moved_retrying h p hpc
      · exact moved_replaced h hrep hr hleaves hconn (hover p rfl hrep)
  · have hquiet := (quiet_loop hq).1
    exact h.of_quiet ⟨hquiet.client, hquiet.connecting, hquiet.stop, hquiet.leaves⟩ rfl id
      fun c hc => Or.inl hc
  · exact attempt_superseded h hnot current t
  · refine h.of_quiet ⟨rfl, id, id, id⟩ rfl (fun hc => absurd (hnot.symm.trans hc)
      Bool.false_ne_true) fun c hc => ?_
    rcases hends with rfl | rfl
    · exact Or.inl hc
    · rcases Finset.mem_insert.1 hc with rfl | hc
      · exact Or.inr (Or.inr ⟨rfl, hnot⟩)
      · exact Or.inl hc

theorem reachable_superseded {s : AppRun} (h : (appSystem conf).ReachableBy StartupOver s) :
    Superseded s := by
  refine h.invariant ?_ fun e s s' hs hover (hstep : s.step conf e = some s') =>
    appStep_superseded hs hover hstep
  rintro s ⟨stopEvent, t, rfl⟩
  refine ⟨fun c => ?_, eachAfter_nil, .current (by simp [AppRun.initial]) (Or.inl rfl)⟩
  simp [AppRun.initial, PollSupervisor.initial, PollSupervisor.again]

/-! ## A client that is connected again -/

/-- The step of a supervisor that replaces its client. -/
theorem step_of_replaces {s s' : PollSupervisor} {e : PollEvent} (hrep : Replaces e s)
    (h : s.step conf e = some s') :
    s'.client = s.client + 1 ∧ s'.stopEvent = s.stopEvent := by
  have hrecover : ∀ {t : PollSupervisor} {r : Recovery}, r.build = .ok () →
      (t.recover conf r).client = t.client + 1 ∧ (t.recover conf r).stopEvent = t.stopEvent := by
    intro t r hok
    rcases PollSupervisor.recover_cases conf t r with ⟨exc, hexc, -⟩ | ⟨-, heq⟩
    · cases hok.symm.trans hexc
    · rw [heq]
      rcases retry_cases (t.replaced r) conf.reconnectDelay r.touchedAt r.startedAt with
        ⟨-, hr⟩ | ⟨-, hr⟩
      · rw [hr]
        exact ⟨rfl, rfl⟩
      · rw [hr]
        exact ⟨rfl, rfl⟩
  unfold Replaces at hrep
  split at hrep
  next t r =>
    obtain ⟨hdead, hnot, hok⟩ := hrep
    obtain ⟨-, rfl⟩ := PollSupervisor.step_check.1 h
    rcases PollSupervisor.check_cases conf s t r with ⟨hc, -⟩ | ⟨-, -, heq⟩ | ⟨hlive, -⟩
    · exact absurd hc hnot
    · rw [heq]
      exact hrecover hok
    · cases hdead.symm.trans hlive
  next r =>
    rw [PollSupervisor.step_taskEnds hrep.1] at h
    obtain rfl := Option.some.inj h
    exact hrecover hrep.2
  next => exact hrep.elim

/-- A startup connect that is not over tries once more. -/
theorem exists_attempt {s : AppRun} (hover : s.startup.isOver = false)
    (hstop : s.poller.stopEvent = false) :
    ∃ es s', (appSystem conf).run es s = some s' ∧ s'.calls = s.calls ++ [.connect 0] := by
  have hcalls : ∀ {t : AppRun} (current : Time), t.poller = s.poller → t.calls = s.calls →
      (t.attempt current t.clock).calls = s.calls ++ [.connect 0] := by
    intro t current hpoller ht
    unfold AppRun.attempt
    rw [hpoller, hstop, if_neg Bool.false_ne_true, ht]
  have hdelay : ∀ {t : AppRun} {current : Time}, t.startup = .retrying current →
      t.step conf (.startupDelayEnds t.clock) =
        some (t.attempt (min (current * 2) conf.reconnectDelayMax) t.clock) := by
    intro t current ht
    unfold AppRun.step
    rw [ht]
    exact if_pos le_rfl
  rcases hs : s.startup with _ | current | current | how
  · have hruns : s.step conf (.startupRuns s.clock) =
        some (s.attempt conf.reconnectDelay s.clock) := by
      unfold AppRun.step
      rw [hs]
      exact if_pos le_rfl
    exact ⟨[.startupRuns s.clock], _, Option.bind_eq_some_iff.2 ⟨_, hruns, rfl⟩,
      hcalls _ rfl rfl⟩
  · have hends : s.step conf (.startupConnectEnds (.ok false)) =
        some { s with startup := .retrying current } := by
      unfold AppRun.step
      rw [hs]
    have hagain := @hdelay { s with startup := .retrying current } current rfl
    exact ⟨[.startupConnectEnds (.ok false), .startupDelayEnds s.clock], _,
      Option.bind_eq_some_iff.2 ⟨_, hends, Option.bind_eq_some_iff.2 ⟨_, hagain, rfl⟩⟩,
      hcalls _ rfl rfl⟩
  · exact ⟨[.startupDelayEnds s.clock], _, Option.bind_eq_some_iff.2 ⟨_, hdelay hs, rfl⟩,
      hcalls _ rfl rfl⟩
  · rw [hs] at hover
    cases hover

/-- No client is connected after it was closed and replaced, and at most one is connected and
not closed. -/
structure OneConnection (s : AppRun) : Prop where
  each : EachAfter NotSuperseded s.calls
  owned : s.owned.card ≤ 1

theorem Superseded.oneConnection {s : AppRun} (h : Superseded s) : OneConnection s := by
  refine ⟨h.each, Finset.card_le_one.2 fun c hc c' hc' => ?_⟩
  rcases h.owns with ⟨howned, -⟩ | ⟨-, -, howned⟩
  · rw [howned c hc, howned c' hc']
  · rw [howned c hc, howned c' hc']

/-- In the runs in which the startup connect is over, or the stop event set, at every step of
the supervisor that replaces the client, no client that was replaced is connected again. The
first step at which neither holds has a continuation that connects the one it replaced. -/
theorem superseded_not_connected (conf : PollerConf) :
    (∀ s, (appSystem conf).ReachableBy StartupOver s →
      (∀ c, .supersede c ∈ s.calls ↔ c < s.poller.client) ∧ OneConnection s) ∧
    ∀ s e s', (appSystem conf).ReachableBy StartupOver s → ¬StartupOver e s →
      s.step conf e = some s' →
        ∃ es s'', (appSystem conf).run es s' = some s'' ∧ ¬OneConnection s'' := by
  refine ⟨fun s h => ?_, fun s e s' h hnot hs => ?_⟩
  · have hsup := reachable_superseded h
    exact ⟨hsup.mem, hsup.oneConnection⟩
  unfold StartupOver at hnot
  push Not at hnot
  obtain ⟨p, rfl, hrep, hover, hstop⟩ := hnot
  have hover : s.startup.isOver = false := by simpa using hover
  have hstop : s.poller.stopEvent = false := by simpa using hstop
  have hzero : s.poller.client = 0 := by
    rcases (reachable_superseded h).owns with ⟨-, hfirst⟩ | ⟨hstop', -⟩
    · exact hfirst.resolve_right (by simp [hover])
    · cases hstop.symm.trans hstop'
  obtain ⟨q, hq, rfl⟩ := AppRun.step_poller hs
  obtain ⟨hclient, hstop'⟩ := step_of_replaces hrep hq
  obtain ⟨es, s'', hrun, hcalls⟩ :=
    @exists_attempt conf (s.moved p q) hover (hstop'.trans hstop)
  refine ⟨es, s'', hrun, fun hone => ?_⟩
  have hlast := hone.each _ _ [] hcalls 0 rfl
  refine hlast (List.mem_append_right _ ?_)
  simp [AppRun.callsOf, hclient, hzero]

/-- The times of an ND45. -/
def nd45Times : PollerConf := ⟨(30 : ℕ), 1, (30 : ℕ)⟩

/-- A recovery at one clock reading. -/
def recoveryAt (t : Time) : Recovery := ⟨t, some (.ok ()), .ok (), t, t⟩

/-- A source that cannot be reached at startup, and a poll of it that hangs. -/
def unreachableStart : List AppEvent :=
  [.startupRuns 0, .poller (.loop 0 .test), .startupConnectEnds (.ok false),
    .startupDelayEnds (2 : ℕ), .startupConnectEnds (.ok false), .startupDelayEnds (5 : ℕ),
    .startupConnectEnds (.ok false), .startupDelayEnds (10 : ℕ), .startupConnectEnds (.ok false),
    .startupDelayEnds (19 : ℕ), .startupConnectEnds (.ok false), .startupDelayEnds (36 : ℕ)]

/-- The stall is detected while the startup connect waits for its longest delay. Then both
clients are connected. -/
def connectedTwice : List AppEvent :=
  unreachableStart ++ [.startupConnectEnds (.ok false),
    .poller (.check (67 : ℕ) (recoveryAt (67 : ℕ))), .poller (.taskEnds (recoveryAt (67 : ℕ))),
    .startupDelayEnds (67 : ℕ), .startupConnectEnds (.ok true),
    .poller (.connectEnds (.ok true) (68 : ℕ))]

/-- The startup connect connects the client that was replaced, and the bridge owns two
connections. -/
theorem superseded_connected : ∃ s, (appSystem nd45Times).Reachable s ∧
    s.calls = List.replicate 6 (.connect 0) ++ [.supersede 0, .connect 1, .connect 0] ∧
    s.owned = {0, 1} ∧ ¬OneConnection s := by
  have hrun : ((appSystem nd45Times).run connectedTwice (.initial false 0)).any (fun s =>
      s.calls = List.replicate 6 (.connect 0) ++ [.supersede 0, .connect 1, .connect 0] ∧
        s.owned = {0, 1}) = true := by
    decide +kernel
  obtain ⟨s, hs, hp⟩ := (Option.any_eq_true _ _).1 hrun
  obtain ⟨hcalls, howned⟩ := decide_eq_true_iff.1 hp
  refine ⟨s, System.reachable_of_run (.init ⟨false, 0, rfl⟩) _ hs, hcalls, howned, fun hone => ?_⟩
  have := hone.owned
  rw [howned] at this
  exact absurd this (by decide)

/-- The startup connect succeeds, and then the poll hangs. -/
def connectedStart : List AppEvent :=
  [.startupRuns 0, .startupConnectEnds (.ok true), .poller (.loop 0 .test)]

theorem superseded_not_connected_hungPoll : ∃ s,
    (appSystem nd45Times).ReachableBy StartupOver s ∧ s.poller.client = 1 ∧ OneConnection s := by
  have hstart : ((appSystem nd45Times).run connectedStart (.initial false 0)).any (fun s =>
      s.startup.isOver ∧ ((appSystem nd45Times).step
        (.poller (.check (31 : ℕ) (recoveryAt (31 : ℕ)))) s).any fun s =>
          s.startup.isOver ∧ ((appSystem nd45Times).step
            (.poller (.taskEnds (recoveryAt (31 : ℕ)))) s).any (·.poller.client = 1)) = true := by
    decide +kernel
  obtain ⟨s₁, hs₁, hp₁⟩ := (Option.any_eq_true _ _).1 hstart
  obtain ⟨hover₁, hp₁⟩ := decide_eq_true_iff.1 hp₁
  obtain ⟨s₂, hs₂, hp₂⟩ := (Option.any_eq_true _ _).1 hp₁
  obtain ⟨hover₂, hp₂⟩ := decide_eq_true_iff.1 hp₂
  obtain ⟨s₃, hs₃, hclient⟩ := (Option.any_eq_true _ _).1 hp₂
  have hreach₁ : (appSystem nd45Times).ReachableBy StartupOver s₁ := by
    refine System.reachableBy_of_run (.init ⟨false, 0, rfl⟩) connectedStart ?_ hs₁
    simp [connectedStart, StartupOver, Replaces]
  have hreach₃ : (appSystem nd45Times).ReachableBy StartupOver s₃ :=
    (hreach₁.step (fun _ _ _ => Or.inl hover₁) hs₂).step (fun _ _ _ => Or.inl hover₂) hs₃
  exact ⟨s₃, hreach₃, by simpa using hclient, ((superseded_not_connected _).1 s₃ hreach₃).2⟩

end DtsuBridge
