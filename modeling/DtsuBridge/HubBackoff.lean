import DtsuBridge.HubCache

/-!
# The waits between stream sessions

`_run` opens one stream session after another and sleeps before the next. Its delay is
doubled up to a maximum after every session that raises, and set back where
`_stream_once` returns. But `_stream_once` raises however the session ends
(`streamOnce_eq_error`), so that the delay is never set back.

`waits_eq_backoff_iff` : in a run, the wait after a session with a delivery is the initial
delay, and the wait after any other the one before it doubled up to the maximum, exactly
when no session but the first has a delivery or the initial delay is its own successor.
-/

namespace DtsuBridge

/-! ## The loop over sessions -/

/-- A stream session that has ended. -/
structure StreamSession where
  updates : List BlockUpdate
  /-- What the stream raised, none where the hub closed it. -/
  raised : Option String

/-- What `_stream_once` comes to. -/
def streamOnce (session : StreamSession) : Except String Unit :=
  match session.raised with
  | some exc => .error exc
  | none => .error "modbus-hub closed the Subscribe stream"

/-- The delay after a wait. -/
def nextDelay (delayMaxS delay : Time) : Time :=
  min (delay * 2) delayMaxS

/-- The waits of `_run` over sessions. -/
def runWaits (delayS delayMaxS : Time) : Time → List StreamSession → List Time
  | _, [] => []
  | delay, session :: sessions =>
    match streamOnce session with
    | .ok () => runWaits delayS delayMaxS delayS sessions
    | .error _ => delay :: runWaits delayS delayMaxS (nextDelay delayMaxS delay) sessions

/-- The waits as they should be : the initial delay after a session with a delivery, and
after any other the wait before doubled up to the maximum. -/
def backoff (delayS delayMaxS : Time) : Option Time → List StreamSession → List Time
  | _, [] => []
  | previous, session :: sessions =>
    let wait := if session.updates = [] then (previous.map (nextDelay delayMaxS)).getD delayS
      else delayS
    wait :: backoff delayS delayMaxS (some wait) sessions

/-- A session never ends but with an exception. -/
theorem streamOnce_eq_error (session : StreamSession) : ∃ exc, streamOnce session = .error exc := by
  unfold streamOnce
  split
  · exact ⟨_, rfl⟩
  · exact ⟨_, rfl⟩

@[simp] theorem runWaits_nil (delayS delayMaxS delay : Time) :
    runWaits delayS delayMaxS delay [] = [] :=
  rfl

/-- Every session is followed by the delay, which is then doubled. -/
@[simp] theorem runWaits_cons (delayS delayMaxS delay : Time) (session : StreamSession)
    (sessions : List StreamSession) :
    runWaits delayS delayMaxS delay (session :: sessions) =
      delay :: runWaits delayS delayMaxS (nextDelay delayMaxS delay) sessions := by
  obtain ⟨exc, h⟩ := streamOnce_eq_error session
  rw [runWaits, h]

theorem nextDelay_monotone (delayMaxS : Time) : Monotone (nextDelay delayMaxS) := by
  intro x y h
  have h2 : x * 2 ≤ y * 2 := mul_le_mul_of_nonneg_right h zero_le_two
  exact min_le_min h2 le_rfl

/-- A delay that the first doubling changes never comes back. -/
theorem iterate_nextDelay_ne {delayS delayMaxS : Time} (h : nextDelay delayMaxS delayS ≠ delayS)
    (n : ℕ) : (nextDelay delayMaxS)^[n + 1] delayS ≠ delayS := by
  have hmono := nextDelay_monotone delayMaxS
  rcases lt_or_gt_of_ne h with hlt | hlt
  · have hanti := hmono.antitone_iterate_of_map_le hlt.le
    exact ((hanti (Nat.le_add_left 1 n)).trans_lt hlt).ne
  · have hiter := hmono.monotone_iterate_of_le_map hlt.le
    exact (hlt.trans_le (hiter (Nat.le_add_left 1 n))).ne'

/-- After a wait, the loop and the backoff go on alike as long as nothing is delivered. -/
theorem runWaits_eq_backoff_iff {delayS delayMaxS : Time}
    (h : nextDelay delayMaxS delayS ≠ delayS) : ∀ (n : ℕ) (sessions : List StreamSession),
      runWaits delayS delayMaxS ((nextDelay delayMaxS)^[n + 1] delayS) sessions =
          backoff delayS delayMaxS (some ((nextDelay delayMaxS)^[n] delayS)) sessions ↔
        ∀ session ∈ sessions, session.updates = []
  | _, [] => by simp [backoff]
  | n, session :: sessions => by
    have ih := runWaits_eq_backoff_iff h (n + 1) sessions
    have hsucc := Function.iterate_succ_apply' (nextDelay delayMaxS)
    rw [runWaits_cons, backoff, List.cons.injEq, List.forall_mem_cons]
    by_cases hs : session.updates = []
    · simp only [hs, if_true, Option.map_some, Option.getD_some, true_and, ← hsucc]
      exact ih
    · have hne := iterate_nextDelay_ne h n
      simp only [hs, if_false, false_and, iff_false, not_and]
      exact fun heq => absurd heq hne

/-- A delay that does not change is what the loop waits, and the backoff. -/
theorem runWaits_eq_backoff_of_fixed {delayS delayMaxS : Time}
    (h : nextDelay delayMaxS delayS = delayS) : ∀ sessions : List StreamSession,
      runWaits delayS delayMaxS delayS sessions =
        backoff delayS delayMaxS (some delayS) sessions
  | [] => rfl
  | session :: sessions => by
    rw [runWaits_cons, backoff, h, runWaits_eq_backoff_of_fixed h sessions]
    simp [h]

/-- The loop waits as it should exactly when only the first session delivers, or the delay
does not change. -/
theorem runWaits_delayS_eq_backoff_iff (delayS delayMaxS : Time) (sessions : List StreamSession) :
    runWaits delayS delayMaxS delayS sessions = backoff delayS delayMaxS none sessions ↔
      nextDelay delayMaxS delayS = delayS ∨ ∀ session ∈ sessions.tail, session.updates = [] := by
  cases sessions with
  | nil => simp [backoff]
  | cons session sessions =>
    have hwait : (if session.updates = [] then
        ((none : Option Time).map (nextDelay delayMaxS)).getD delayS else delayS) = delayS :=
      ite_self delayS
    rw [runWaits_cons, backoff, hwait, List.cons.injEq, List.tail_cons]
    by_cases h : nextDelay delayMaxS delayS = delayS
    · simpa [h] using runWaits_eq_backoff_of_fixed h sessions
    · simpa [h] using runWaits_eq_backoff_iff h 0 sessions

/-! ## The waits of a run -/

/-- How long the task sleeps from here. -/
def HubConnection.sleepS (conn : HubConnection) : Option Time :=
  match conn.task with
  | .waiting wakeAt => some (wakeAt - conn.now)
  | _ => none

/-- The wait an event starts. -/
def waitAfter (e : HubEvent) (conn : HubConnection) : List Time :=
  match e with
  | .fail _ => conn.sleepS.toList
  | _ => []

/-- The waits of the events of a run. -/
def waits : List HubEvent → HubConnection → List Time
  | [], _ => []
  | e :: events, conn => (conn.step e).elim [] fun conn' => waitAfter e conn' ++ waits events conn'

/-- The sessions that end in the events, where these updates came of the current one. -/
def sessions : List BlockUpdate → List HubEvent → List StreamSession
  | _, [] => []
  | updates, .deliver u :: events => sessions (updates ++ [u]) events
  | updates, .fail exc :: events => ⟨updates, some exc⟩ :: sessions [] events
  | updates, _ :: events => sessions updates events

theorem sessions_cons_of_quiet {e : HubEvent} {events : List HubEvent}
    (updates : List BlockUpdate) (hdeliver : ∀ u, e ≠ .deliver u) (hfail : ∀ exc, e ≠ .fail exc) :
    sessions updates (e :: events) = sessions updates events := by
  cases e with
  | deliver u => exact absurd rfl (hdeliver u)
  | fail exc => exact absurd rfl (hfail exc)
  | _ => rfl

/-- The wait after the session that runs or comes next. -/
def HubConnection.nextWait (conn : HubConnection) : Time :=
  match conn.task with
  | .none => conn.reconnectDelayS
  | .streaming => conn.delay
  | .waiting _ => nextDelay conn.reconnectDelayMaxS conn.delay

/-- A closed connection has no task, which does not start again. -/
theorem ended_step {e : HubEvent} {conn conn' : HubConnection}
    (h : conn.closed = true → conn.task = .none) (hs : conn.step e = some conn') :
    conn'.closed = true → conn'.task = .none := by
  intro hc
  cases HubConnection.moves_of_step hs with
  | advance | connected | closedBefore => exact h hc
  | started hclosed => exact absurd (hclosed.symm.trans hc) Bool.false_ne_true
  | deliver ht | fail ht | wake ht =>
    rw [h hc] at ht
    cases ht
  | close => rfl

/-- The delays of a connection stay. -/
theorem delays_step {e : HubEvent} {conn conn' : HubConnection} (hs : conn.step e = some conn') :
    conn'.reconnectDelayS = conn.reconnectDelayS ∧
      conn'.reconnectDelayMaxS = conn.reconnectDelayMaxS := by
  cases HubConnection.moves_of_step hs <;> exact ⟨rfl, rfl⟩

/-- Any event but a failure and a close leaves the wait to come, and starts none. -/
theorem nextWait_step {e : HubEvent} {conn conn' : HubConnection} (hs : conn.step e = some conn')
    (hfail : ∀ exc, e ≠ .fail exc) (hclose : e ≠ .close) :
    conn'.nextWait = conn.nextWait ∧ waitAfter e conn' = [] := by
  cases HubConnection.moves_of_step hs with
  | advance | connected => exact ⟨rfl, rfl⟩
  | deliver => exact ⟨rfl, rfl⟩
  | started hclosed ht => exact ⟨by simp [HubConnection.nextWait, ht], rfl⟩
  | wake ht =>
    exact ⟨by simp [HubConnection.nextWait, ht, HubConnection.wake, nextDelay], rfl⟩
  | fail => exact absurd rfl (hfail _)
  | closedBefore | close => exact absurd rfl hclose

/-- A failure starts the wait that was to come, and doubles the one after. -/
theorem nextWait_fail {conn conn' : HubConnection} {exc : String}
    (hs : conn.step (.fail exc) = some conn') :
    waitAfter (.fail exc) conn' = [conn.nextWait] ∧
      conn'.nextWait = nextDelay conn.reconnectDelayMaxS conn.nextWait := by
  cases HubConnection.moves_of_step hs with
  | fail ht =>
    simp [waitAfter, HubConnection.sleepS, HubConnection.fail, HubConnection.nextWait, ht]

/-- No session of a closed connection ends. -/
theorem sessions_of_closed {conn₀ : HubConnection} : ∀ {events : List HubEvent}
    {conn conn' : HubConnection} (updates : List BlockUpdate), conn.closed = true →
      conn.task = .none → (hubSystem conn₀).run events conn = some conn' →
        sessions updates events = [] ∧ waits events conn = []
  | [], _, _, _, _, _, _ => ⟨rfl, rfl⟩
  | e :: events, conn, conn', updates, hclosed, htask, hrun => by
    obtain ⟨c, hs, hrun⟩ := Option.bind_eq_some_iff.1 hrun
    have hs : conn.step e = some c := hs
    have hmove := HubConnection.moves_of_step hs
    have ih := @sessions_of_closed conn₀ events c conn'
    rw [waits, hs]
    cases hmove with
    | advance | connected | closedBefore => exact ih updates hclosed htask hrun
    | started hopen => exact absurd (hopen.symm.trans hclosed) Bool.false_ne_true
    | close hopen => exact absurd (hopen.symm.trans hclosed) Bool.false_ne_true
    | deliver ht | fail ht | wake ht =>
      rw [htask] at ht
      cases ht

/-- The waits of a run are those of the loop over its sessions. -/
theorem waits_eq_runWaits {conn₀ : HubConnection} : ∀ {events : List HubEvent}
    {conn conn' : HubConnection} (updates : List BlockUpdate),
      (conn.closed = true → conn.task = .none) →
        (hubSystem conn₀).run events conn = some conn' →
          waits events conn = runWaits conn.reconnectDelayS conn.reconnectDelayMaxS conn.nextWait
            (sessions updates events)
  | [], _, _, _, _, _ => rfl
  | e :: events, conn, conn', updates, hended, hrun => by
    obtain ⟨c, hs, hrest⟩ := Option.bind_eq_some_iff.1 hrun
    have hs : conn.step e = some c := hs
    obtain ⟨hdelay, hmax⟩ := delays_step hs
    have ih := fun updates => waits_eq_runWaits updates (ended_step hended hs) hrest
    rw [hdelay, hmax] at ih
    cases e with
    | fail exc =>
      obtain ⟨hwait, hnext⟩ := nextWait_fail hs
      rw [waits, hs, sessions, runWaits_cons, ← hnext, ← ih []]
      simp [hwait]
    | close =>
      have hc : c.closed = true := by
        cases HubConnection.moves_of_step hs with
        | closedBefore h => exact h
        | close => rfl
      obtain ⟨hsessions, hwaits⟩ := sessions_of_closed updates hc (ended_step hended hs hc) hrest
      rw [waits, hs, sessions_cons_of_quiet updates (by simp) (by simp), hsessions]
      simpa [waitAfter] using hwaits
    | deliver u =>
      obtain ⟨hnext, hwait⟩ := nextWait_step hs (by simp) (by simp)
      rw [waits, hs, sessions, ← hnext, ← ih]
      simp [hwait]
    | advance dt | connect | wake =>
      obtain ⟨hnext, hwait⟩ := nextWait_step hs (by simp) (by simp)
      rw [waits, hs, sessions_cons_of_quiet updates (by simp) (by simp), ← hnext, ← ih]
      simp [hwait]

/-- In a run from the start, the wait after a session with a delivery is the initial delay,
and after any other the wait before doubled up to the maximum, exactly when no session but
the first has a delivery or doubling does not change the initial delay. -/
theorem waits_eq_backoff_iff {blocks : List BlockKey} {maxStaleS : TimeLimit}
    {delayS delayMaxS start : Time}
    {events : List HubEvent} {conn : HubConnection}
    (hrun : (hubSystem (.new blocks maxStaleS delayS delayMaxS start)).run events
      (.new blocks maxStaleS delayS delayMaxS start) = some conn) :
    waits events (.new blocks maxStaleS delayS delayMaxS start) =
        backoff delayS delayMaxS none (sessions [] events) ↔
      nextDelay delayMaxS delayS = delayS ∨
        ∀ session ∈ (sessions [] events).tail, session.updates = [] := by
  have hwaits := waits_eq_runWaits [] (by simp [HubConnection.new]) hrun
  rw [hwaits]
  exact runWaits_delayS_eq_backoff_iff delayS delayMaxS (sessions [] events)

/-- One block, with waits from one second up to thirty. -/
def meterConnection : HubConnection :=
  .new [⟨"meter", 1, 3, 50, 2⟩] 1 1 30 0

/-- A session with a delivery. -/
def workingSession : List HubEvent :=
  [.deliver ⟨⟨"meter", 1, 3, 50, 2⟩, [1, 2], ""⟩, .fail "unavailable"]

/-- An outage that outlasts the first retry is waited out as it should be. -/
theorem waits_eq_backoff_iff_longOutage :
    waits (.connect :: workingSession ++ [.advance 1, .wake, .fail "unavailable"])
        meterConnection =
      backoff 1 30 none
        (sessions [] (.connect :: workingSession ++ [.advance 1, .wake, .fail "unavailable"])) := by
  obtain ⟨conn, hrun⟩ : ∃ conn, (hubSystem meterConnection).run
      (.connect :: workingSession ++ [.advance 1, .wake, .fail "unavailable"]) meterConnection =
        some conn := Option.isSome_iff_exists.1 (by decide +kernel)
  refine (waits_eq_backoff_iff hrun).2 (Or.inr fun session hsession => ?_)
  obtain rfl := List.mem_singleton.1 hsession
  rfl

/-- Where the stream works again before the next failure, it is retried after two seconds
and not after one. -/
theorem waits_ne_backoff :
    ((hubSystem meterConnection).run (.connect :: workingSession ++ .advance 1 :: .wake ::
      workingSession) meterConnection).isSome = true ∧
    waits (.connect :: workingSession ++ .advance 1 :: .wake :: workingSession)
        meterConnection ≠
      backoff 1 30 none
        (sessions [] (.connect :: workingSession ++ .advance 1 :: .wake :: workingSession)) := by
  decide +kernel

end DtsuBridge
