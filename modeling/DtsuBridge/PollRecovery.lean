import DtsuBridge.PollSupervisor

/-!
# Recovery swaps the poll loop

The poll loops of `supervise_poller` may here end for reasons of their own as well.

`recovery_swaps_cleanly` : at most one is live, it reads through the current client, a
client is closed once before its replacement is built, and nothing is reported through one
that was replaced. Each recovery appends `recoveryCalls` to the calls and each poll its
reports, and both keep what is proved of them (`callsOk_recovery`, `callsOk_reports`).
-/

namespace DtsuBridge

variable {conf : PollerConf}

/-! ## The calls of a recovery -/

/-- What was called before a call : nothing is reported through a client after another one
is asked for, which happens once every client before is closed. -/
def CallOk (pre : List PollCall) (call : PollCall) : Prop :=
  (∀ c, call.reporter = some c → ∀ c', .replace c' ∈ pre → c' ≤ c) ∧
    ∀ c, call = .replace c → ∀ c' < c, .close c' ∈ pre

/-- The calls of a supervisor whose client has this number. -/
structure CallsOk (client : ℕ) (calls : List PollCall) : Prop where
  each : EachAfter CallOk calls
  closed : ∀ c < client, calls.countP (·.closes c) = 1

/-- The client is still in use. -/
structure InUse (client : ℕ) (calls : List PollCall) : Prop where
  unclosed : ∀ c, client ≤ c → calls.countP (·.closes c) = 0
  newest : ∀ c, .replace c ∈ calls → c ≤ client

theorem close_mem_of_countP {c : ℕ} {calls : List PollCall}
    (h : calls.countP (·.closes c) = 1) : .close c ∈ calls := by
  obtain ⟨call, hmem, hc⟩ := List.countP_pos_iff.1 (h ▸ Nat.one_pos)
  cases call with
  | close c' =>
    obtain rfl : c' = c := by simpa [PollCall.closes] using hc
    exact hmem
  | update | error | replace => cases hc

theorem countP_closes_reports {client c : ℕ} {reports : List PollCall}
    (h : ∀ call ∈ reports, call.reporter = some client) : reports.countP (·.closes c) = 0 := by
  refine List.countP_eq_zero.2 fun call hcall hc => ?_
  have := h call hcall
  cases call <;> simp_all [PollCall.reporter, PollCall.closes]

theorem callsOk_reports {client : ℕ} {calls reports : List PollCall} (h : CallsOk client calls)
    (huse : InUse client calls) (hr : ∀ call ∈ reports, call.reporter = some client) :
    CallsOk client (calls ++ reports) ∧ InUse client (calls ++ reports) := by
  have hnot : ∀ c, .replace c ∉ reports := fun c hc => nomatch hr _ hc
  refine ⟨⟨eachAfter_append.2 ⟨h.each, ?_⟩, fun c hc => ?_⟩, fun c hc => ?_, fun c hc => ?_⟩
  · intro pre call post hsplit
    have hcall : call ∈ reports := by simp [hsplit]
    refine ⟨fun c hc c' hc' => ?_, fun c hc => absurd (hc ▸ hcall) (hnot c)⟩
    obtain rfl := Option.some.inj (hc.symm.trans (hr call hcall))
    rcases List.mem_append.1 hc' with hc' | hc'
    · exact huse.newest c' hc'
    · exact absurd (by simp [hsplit, hc']) (hnot c')
  · rw [List.countP_append, h.closed c hc, countP_closes_reports hr]
  · rw [List.countP_append, huse.unclosed c hc, countP_closes_reports hr]
  · rcases List.mem_append.1 hc with hc | hc
    · exact huse.newest c hc
    · exact absurd hc (hnot c)

theorem countP_closes_recoveryCalls (client c : ℕ) :
    (recoveryCalls client).countP (·.closes c) = if c = client then 1 else 0 := by
  by_cases hc : c = client
  · simp [recoveryCalls, PollCall.closes, hc]
  · simp [recoveryCalls, PollCall.closes, hc, Ne.symm hc]

/-- The client is closed and the next one asked for. -/
theorem callsOk_recovery {client : ℕ} {calls : List PollCall} (h : CallsOk client calls)
    (huse : InUse client calls) : CallsOk (client + 1) (calls ++ recoveryCalls client) ∧
      InUse (client + 1) (calls ++ recoveryCalls client) := by
  have hcount : ∀ c, (calls ++ recoveryCalls client).countP (·.closes c) =
      calls.countP (·.closes c) + if c = client then 1 else 0 := by
    intro c
    rw [List.countP_append, countP_closes_recoveryCalls]
  have hclosed : ∀ c < client + 1,
      (calls ++ recoveryCalls client).countP (·.closes c) = 1 := by
    intro c hc
    rcases Nat.lt_succ_iff_lt_or_eq.1 hc with hlt | rfl
    · rw [hcount, h.closed c hlt, if_neg hlt.ne]
    · rw [hcount, huse.unclosed c le_rfl, if_pos rfl]
  refine ⟨⟨eachAfter_append.2 ⟨h.each, ?_⟩, hclosed⟩, fun c hc => ?_, fun c hc => ?_⟩
  · rw [recoveryCalls, eachAfter_cons, eachAfter_cons]
    refine ⟨⟨by simp [PollCall.reporter], by simp⟩, ⟨by simp [PollCall.reporter],
      fun c hc c' hc' => ?_⟩, eachAfter_nil⟩
    obtain rfl := PollCall.replace.inj hc
    have := close_mem_of_countP (hclosed c' hc')
    simpa [recoveryCalls] using this
  · rw [hcount, huse.unclosed c (by omega), if_neg (by omega)]
  · rcases List.mem_append.1 hc with hc | hc
    · exact (huse.newest c hc).trans (Nat.le_succ _)
    · obtain rfl : c = client + 1 := by simpa [recoveryCalls] using hc
      exact le_rfl

/-! ## The system -/

/-- A poll loop may also end for reasons of its own. -/
inductive DisturbedEvent where
  | event (e : PollEvent)
  | loopExits (i : ℕ) (how : TaskEnd)

def PollSupervisor.disturbedStep (conf : PollerConf) (e : DisturbedEvent) (s : PollSupervisor) :
    Option PollSupervisor :=
  match e with
  | .event e => s.step conf e
  | .loopExits i how => (s.loop? i).bind fun loop =>
    if loop.isLive then some (s.setLoop i { loop with pc := .ended how }) else none

def disturbedSystem (conf : PollerConf) : System PollSupervisor DisturbedEvent where
  init := (pollSystem conf).init
  step := PollSupervisor.disturbedStep conf

theorem disturbedSystem_step_event {s s' : PollSupervisor} {e : PollEvent}
    (hs : s.step conf e = some s') : (disturbedSystem conf).step (.event e) s = some s' :=
  hs

namespace PollerPc

/-- In `connect_with_retry`, after which a task is created. -/
def reconnects : PollerPc → Bool
  | .connecting _ | .retrying _ => true
  | _ => false

/-- The loop of the supervisor is left, no recovery follows. -/
def leaves : PollerPc → Bool
  | .leaving _ | .ended _ => true
  | _ => false

/-- An exception left the loop of the supervisor. -/
def raises : PollerPc → Bool
  | .leaving (.raised _) | .ended (.raised _) => true
  | _ => false

theorem leaves_of_raises {pc : PollerPc} (h : pc.leaves = false) : pc.raises = false := by
  cases pc <;> first | rfl | cases h

end PollerPc

/-! ## The invariant -/

structure Swap (s : PollSupervisor) : Prop where
  former : ∀ loop ∈ s.former, loop.isLive = false
  task : s.task.isLive = true → s.task.client = s.client
  idle : s.pc.reconnects = true → s.task.isLive = false
  calls : CallsOk s.client s.calls
  inUse : s.task.isLive = true ∨ s.pc.leaves = false → InUse s.client s.calls
  restarts : s.recovery.restarts = s.calls.countP PollCall.isReplace
  replaced : s.pc.raises = false → s.recovery.restarts = s.client

/-- The supervisor moves on. -/
theorem Swap.at_pc {s : PollSupervisor} (h : Swap s) {pc : PollerPc}
    (hidle : pc.reconnects = true → s.task.isLive = false)
    (hleaves : s.pc.leaves = true → pc.leaves = true)
    (hraises : s.pc.raises = true → pc.raises = true) : Swap { s with pc := pc } where
  former := h.former
  task := h.task
  idle := hidle
  calls := h.calls
  inUse hs := h.inUse (hs.imp_right fun hpc => by
    by_contra hno
    exact absurd (hleaves (by simpa using hno)) (by simp [hpc]))
  restarts := h.restarts
  replaced hpc := h.replaced (by
    by_contra hno
    exact absurd (hraises (by simpa using hno)) (by simp [hpc]))

theorem swap_again {s : PollSupervisor} (h : Swap s) (hpc : s.pc.leaves = false) :
    Swap s.again := by
  refine h.at_pc ?_ (by simp [hpc]) (by simp [PollerPc.leaves_of_raises hpc])
  split_ifs <;> nofun

/-- A task is created once the one before it has ended. -/
theorem swap_start {s : PollSupervisor} (h : Swap s) (hpc : s.pc.leaves = false)
    (hended : s.task.isLive = false) (t : Time) : Swap (s.start t).again := by
  have hstart : Swap { s.start t with pc := .waiting } := by
    refine ⟨?_, fun _ => rfl, nofun, h.calls, fun _ => h.inUse (Or.inr hpc), h.restarts,
      fun _ => h.replaced (PollerPc.leaves_of_raises hpc)⟩
    intro loop hloop
    rcases List.mem_cons.1 hloop with rfl | hloop
    · exact hended
    · exact h.former loop hloop
  have hagain := swap_again hstart rfl
  exact hagain

theorem swap_retry {s : PollSupervisor} (h : Swap s) (hpc : s.pc.leaves = false)
    (hended : s.task.isLive = false) (current touchedAt startedAt : Time) :
    Swap (s.retry current touchedAt startedAt) := by
  unfold PollSupervisor.retry
  split_ifs
  · exact swap_start h hpc hended startedAt
  · have htouch : Swap { s with heartbeat := s.heartbeat.touch touchedAt } :=
      ⟨h.former, h.task, h.idle, h.calls, h.inUse, h.restarts, h.replaced⟩
    exact htouch.at_pc (fun _ => hended) (by simp [hpc]) (by simp [PollerPc.leaves_of_raises hpc])

/-- The client is replaced once its task has ended. -/
theorem swap_recover {s : PollSupervisor} (h : Swap s) (hpc : s.pc.leaves = false)
    (hended : s.task.isLive = false) (r : Recovery) : Swap (s.recover conf r) := by
  obtain ⟨hcalls, huse⟩ := callsOk_recovery h.calls (h.inUse (Or.inr hpc))
  have hrestarts : s.recovery.restarts + 1 =
      (s.calls ++ recoveryCalls s.client).countP PollCall.isReplace := by
    rw [List.countP_append, h.restarts]
    rfl
  have hreplaced := h.replaced (PollerPc.leaves_of_raises hpc)
  rcases PollSupervisor.recover_cases conf s r with ⟨exc, -, heq⟩ | ⟨-, heq⟩
  · rw [heq]
    have hclosed : CallsOk s.client (s.calls ++ recoveryCalls s.client) :=
      ⟨hcalls.each, fun c hc => hcalls.closed c (Nat.lt_succ_of_lt hc)⟩
    exact ⟨h.former, h.task, nofun, hclosed,
      fun hs => absurd hs (by simp [PollSupervisor.superseded, hended, PollerPc.leaves]),
      hrestarts, nofun⟩
  · rw [heq]
    have hrep : Swap (s.replaced r) :=
      ⟨h.former, fun hlive => absurd (hended.symm.trans hlive) Bool.false_ne_true,
        fun _ => hended, hcalls, fun _ => huse, hrestarts,
        fun _ => congrArg (· + 1) hreplaced⟩
    exact swap_retry hrep hpc hended _ _ _

theorem swap_check {s : PollSupervisor} (h : Swap s) (hpc : s.pc = .waiting) (t : Time)
    (r : Recovery) : Swap (s.check conf t r) := by
  have hleaves : s.pc.leaves = false := by rw [hpc]; rfl
  have hraises : s.pc.raises = false := PollerPc.leaves_of_raises hleaves
  rcases PollSupervisor.check_cases conf s t r with ⟨-, heq⟩ | ⟨-, hdead, heq⟩ | ⟨-, heq⟩
  · rw [heq]
    exact h.at_pc (by simp [PollerPc.reconnects]) (fun _ => rfl) (by simp [hraises])
  · rw [heq]
    exact swap_recover h hleaves hdead r
  · rw [heq]
    split_ifs
    · exact swap_again h hleaves
    · exact h.at_pc (by simp [PollerPc.reconnects]) (by simp [hleaves]) (by simp [hraises])

theorem swap_connected {s : PollSupervisor} (h : Swap s) {current : Time}
    (hpc : s.pc = .connecting current) (startedAt : Time) (result : Except PyExc Bool) :
    Swap (s.connected current startedAt result) := by
  have hleaves : s.pc.leaves = false := by rw [hpc]; rfl
  have hended : s.task.isLive = false := h.idle (by rw [hpc]; rfl)
  unfold PollSupervisor.connected
  split
  · exact swap_start h hleaves hended startedAt
  · exact h.at_pc (fun _ => hended) (by simp [hleaves]) (by rw [hpc]; nofun)
  · exact h.at_pc nofun (fun _ => rfl) (fun _ => rfl)

/-- Only the task held is live, and what it reports comes through the client in use. -/
theorem swap_setLoop {s : PollSupervisor} (h : Swap s) {i : ℕ} {loop : PollLoop}
    (hi : s.loop? i = some loop) (hlive : loop.isLive = true) (pc : LoopPc)
    {reports : List PollCall} (hr : ∀ call ∈ reports, call.reporter = some loop.client) :
    Swap { s.setLoop i { loop with pc := pc } with calls := s.calls ++ reports } := by
  cases i with
  | succ i =>
    have := h.former loop (List.mem_of_getElem? hi)
    rw [hlive] at this
    cases this
  | zero =>
    obtain rfl := Option.some.inj hi
    have hclient := h.task hlive
    obtain ⟨hcalls, huse⟩ := callsOk_reports h.calls (h.inUse (Or.inl hlive)) (hclient ▸ hr)
    have hreplace : reports.countP PollCall.isReplace = 0 := by
      refine List.countP_eq_zero.2 fun call hcall hc => ?_
      have := hr call hcall
      cases call <;> simp_all [PollCall.reporter, PollCall.isReplace]
    refine ⟨h.former, fun _ => hclient, fun hpc => ?_, hcalls, fun _ => huse, ?_, h.replaced⟩
    · have := h.idle hpc
      rw [hlive] at this
      cases this
    · rw [List.countP_append, hreplace]
      exact h.restarts

theorem swap_cancel {s : PollSupervisor} (h : Swap s) : Swap { s with task := s.task.cancel } where
  former := h.former
  task hlive := absurd hlive (by simp)
  idle _ := PollLoop.isLive_cancel _
  calls := h.calls
  inUse hs := h.inUse (Or.inr (by simpa using hs))
  restarts := h.restarts
  replaced := h.replaced

theorem step_swap {s s' : PollSupervisor} (h : Swap s) (e : PollEvent)
    (hs : s.step conf e = some s') : Swap s' := by
  unfold PollSupervisor.step at hs
  split at hs
  · obtain ⟨loop, hi, hs⟩ := Option.bind_eq_some_iff.1 hs
    obtain ⟨hlive, pc, reports, rfl, hr, -⟩ := PollSupervisor.loopStep_cases hs
    exact swap_setLoop h hi hlive pc hr
  · next hpc =>
    obtain rfl := Option.some.inj hs
    exact swap_check h hpc _ _
  · next hpc =>
    split_ifs at hs
    obtain rfl := Option.some.inj hs
    exact h.at_pc nofun (fun _ => rfl) (by rw [hpc]; nofun)
  · next hpc =>
    obtain rfl := Option.some.inj hs
    exact swap_recover (swap_cancel h) (by rw [hpc]; rfl) (PollLoop.isLive_cancel _) _
  · next how hpc =>
    obtain rfl := Option.some.inj hs
    refine (swap_cancel h).at_pc nofun (fun _ => rfl) ?_
    rw [hpc]
    cases how <;> exact id
  · next current hpc =>
    obtain rfl := Option.some.inj hs
    exact swap_connected h hpc _ _
  · next current hpc =>
    obtain rfl := Option.some.inj hs
    exact swap_retry h (by rw [hpc]; rfl) (h.idle (by rw [hpc]; rfl)) _ _ _
  · obtain rfl := Option.some.inj hs
    exact ⟨h.former, h.task, h.idle, h.calls, h.inUse, h.restarts, h.replaced⟩
  · obtain rfl := Option.some.inj hs
    exact ⟨h.former, h.task, h.idle, h.calls, h.inUse, h.restarts, h.replaced⟩
  · cases hs

theorem reachable_swap {s : PollSupervisor} (h : (disturbedSystem conf).Reachable s) :
    Swap s := by
  refine System.ReachableBy.invariant ?_ ?_ h
  · rintro s ⟨stopEvent, t, rfl⟩
    refine swap_again ?_ rfl
    exact ⟨nofun, fun _ => rfl, nofun, ⟨eachAfter_nil, nofun⟩, fun _ => ⟨fun _ _ => rfl, nofun⟩,
      rfl, fun _ => rfl⟩
  · intro e s s' h _ hs
    cases e with
    | event e => exact step_swap h e hs
    | loopExits i how =>
      obtain ⟨loop, hi, hs⟩ := Option.bind_eq_some_iff.1 hs
      split_ifs at hs with hlive
      obtain rfl := Option.some.inj hs
      rw [s.setLoop_calls]
      exact swap_setLoop h hi hlive _ (by simp)

/-- In every run, whatever ends a poll loop : at most one is live and it uses the current
client, every client before it was closed once and before the next was built, nothing is
reported through a client after it was replaced, and the restarts count the replacements,
each of which succeeded unless the supervisor was left with an exception. -/
theorem recovery_swaps_cleanly {s : PollSupervisor}
    (h : (disturbedSystem conf).Reachable s) :
    (s.task :: s.former).countP PollLoop.isLive ≤ 1 ∧
    (∀ loop ∈ s.task :: s.former, loop.isLive = true → loop.client = s.client) ∧
    (∀ c < s.client, s.calls.countP (·.closes c) = 1) ∧
    EachAfter (fun pre call => ∀ c, call = .replace c → ∀ c' < c, .close c' ∈ pre) s.calls ∧
    EachAfter (fun pre call => ∀ c, call.reporter = some c → ∀ c', .replace c' ∈ pre → c' ≤ c)
      s.calls ∧
    s.recovery.restarts = s.calls.countP PollCall.isReplace ∧
    (s.pc.raises = false → s.recovery.restarts = s.client) := by
  have hswap := reachable_swap h
  have hformer : s.former.countP PollLoop.isLive = 0 :=
    List.countP_eq_zero.2 fun loop hloop => by simp [hswap.former loop hloop]
  refine ⟨?_, fun loop hloop hlive => ?_, hswap.calls.closed, hswap.calls.each.imp fun _ _ h => h.2,
    hswap.calls.each.imp fun _ _ h => h.1, hswap.restarts, hswap.replaced⟩
  · rw [List.countP_cons, hformer]
    split_ifs <;> simp
  · rcases List.mem_cons.1 hloop with rfl | hloop
    · exact hswap.task hlive
    · have := hswap.former loop hloop
      rw [hlive] at this
      cases this

/-- A hung loop is replaced, its successor exits, and is replaced in turn. -/
theorem recovery_swaps_cleanly_twice : ∃ s,
    (disturbedSystem minuteConf).Reachable s ∧ s.client = 2 ∧
      (s.task :: s.former).countP PollLoop.isLive ≤ 1 := by
  have hrun : ((disturbedSystem minuteConf).run (hungPoll.map .event ++
      [.event (.connectEnds (.ok true) 62), .loopExits 0 .returned, .event (.check 63 closeRaises),
        .event (.connectEnds (.ok true) 64)]) (.initial false 0)).any (·.client = 2) = true := by
    decide +kernel
  obtain ⟨s, hs, hclient⟩ := (Option.any_eq_true _ _).1 hrun
  have hreach : (disturbedSystem minuteConf).Reachable s :=
    System.reachable_of_run (.init ⟨false, 0, rfl⟩) _ hs
  exact ⟨s, hreach, by simpa using hclient, (recovery_swaps_cleanly hreach).1⟩

end DtsuBridge
