import DtsuBridge.Startup

/-!
# Stall detection beside the startup connect

The supervisor of a poll loop reads one heartbeat, which the callbacks of the loop, the
supervisor itself and the startup connect all touch. In a reachable state the heartbeat of
a live loop is the later of the loop's own progress and the last touch of the startup
connect (`reachable_beats`).

`stall_detected_iff` : a check of a live loop tears it down exactly when the loop has made
no progress for longer than the stall timeout, unless the startup connect touched the
heartbeat within that time.
-/

namespace DtsuBridge

variable {conf : PollerConf}

/-! ## The heartbeat of a live loop -/

/-- The heartbeat of a live loop is its own progress or a later touch by the startup
connect. -/
structure Beats (s : AppRun) : Prop where
  beat : ∃ last, s.poller.heartbeat.last = some last ∧ last ≤ s.clock ∧
    (s.poller.task.isLive = true → last = max s.progress (s.startupTouch.getD s.progress))
  progress_le : s.progress ≤ s.clock
  touch_le : ∀ u, s.startupTouch = some u → u ≤ s.clock

theorem le_of_readings {e : PollEvent} {clock : Time}
    (h : (clock :: e.readings).IsChain (· ≤ ·)) :
    clock ≤ e.startedAt clock ∧ ∀ t ∈ e.readings, t ≤ e.startedAt clock := by
  unfold PollEvent.startedAt
  obtain ⟨hclock, hreadings⟩ := List.pairwise_cons.1 (List.isChain_iff_pairwise.1 h)
  rcases List.eq_nil_or_concat e.readings with hnil | ⟨before, last, hlast⟩
  · simp [hnil]
  · rw [hlast, List.concat_eq_append] at hclock hreadings ⊢
    rw [List.getLast?_append_of_ne_nil _ (List.cons_ne_nil _ _)]
    refine ⟨hclock last (by simp), fun t ht => ?_⟩
    rcases List.mem_append.1 ht with ht | ht
    · exact (List.pairwise_append.1 hreadings).2.2 t ht last (List.mem_singleton_self _)
    · exact (List.mem_singleton.1 ht).le

theorem Beats.touch_max {s : AppRun} (h : Beats s) {t : Time} (ht : s.clock ≤ t) :
    max t (s.startupTouch.getD t) = t := by
  refine max_eq_left ?_
  rcases hu : s.startupTouch with _ | u
  · exact le_rfl
  · exact (h.touch_le u hu).trans ht

/-- A task is started. -/
theorem Beats.started {s : AppRun} (h : Beats s) {e : PollEvent} {p : PollSupervisor}
    (hclock : s.clock ≤ e.startedAt s.clock)
    (hbeat : p.heartbeat.last = some (e.startedAt s.clock))
    (hformer : p.former.length ≠ s.poller.former.length) : Beats (s.moved e p) := by
  have hprogress : (s.moved e p).progress = e.startedAt s.clock := if_neg hformer
  refine ⟨⟨_, hbeat, le_rfl, fun _ => ?_⟩, hprogress.le, fun u hu => (h.touch_le u hu).trans hclock⟩
  rw [hprogress]
  exact (h.touch_max hclock).symm

theorem attempt_beats {s : AppRun} (h : Beats s) {touchedAt : Time} (hle : s.clock ≤ touchedAt)
    (current : Time) : Beats (s.attempt current touchedAt) := by
  unfold AppRun.attempt
  split_ifs
  · exact ⟨h.beat, h.progress_le, h.touch_le⟩
  · refine ⟨⟨touchedAt, rfl, le_rfl, fun _ => ?_⟩, h.progress_le.trans hle, fun u hu => ?_⟩
    · exact (max_eq_right (h.progress_le.trans hle)).symm
    · exact (Option.some.inj hu).ge

/-- The supervisor makes a step. -/
theorem moved_beats {s : AppRun} (hswap : Swap s.poller) (h : Beats s) {e : PollEvent}
    {p : PollSupervisor} (hfree : e.isFree = true)
    (hchain : (s.clock :: e.readings).IsChain (· ≤ ·)) (hp : s.poller.step conf e = some p) :
    Beats (s.moved e p) := by
  obtain ⟨last, hlast, hle, hlive⟩ := h.beat
  obtain ⟨hclock, hreadings⟩ := le_of_readings hchain
  have hkeep : ∀ {t : Time}, p.heartbeat.last = some t → t ≤ e.startedAt s.clock →
      p.former.length = s.poller.former.length →
      (p.task.isLive = true → t = max s.progress (s.startupTouch.getD s.progress)) →
        Beats (s.moved e p) := by
    intro t ht hle hformer hlive
    have hprogress : (s.moved e p).progress = s.progress := if_pos hformer
    refine ⟨⟨t, ht, hle, fun hl => ?_⟩, ?_, fun u hu => (h.touch_le u hu).trans hclock⟩
    · rw [hprogress]
      exact hlive hl
    · rw [hprogress]
      exact h.progress_le.trans hclock
  rcases pollStep_cases hfree hp with ⟨-, hq⟩ | ⟨current, startedAt, hpc, rfl, rfl⟩ |
    ⟨q, ⟨⟨current, touchedAt, startedAt, rfl, htouched, hstarted⟩, hfrom⟩⟩
  · exact hkeep (hq.heartbeat ▸ hlast) (hle.trans hclock) hq.former fun hl => hlive (hq.live hl)
  · refine h.started hclock rfl ?_
    simp [PollSupervisor.again, PollSupervisor.start]
  · have hformer : q.former = s.poller.former := by
      rcases hfrom with ⟨rfl, -⟩ | ⟨-, hq, -⟩
      · rfl
      · exact hq.former
    have hdead : q.task.isLive = false := by
      rcases hfrom with ⟨rfl, c, hpc⟩ | ⟨-, hq, -⟩
      · exact hswap.idle (by rw [hpc]; rfl)
      · exact hq.dead
    rcases retry_cases q current touchedAt startedAt with ⟨-, heq⟩ | ⟨-, heq⟩
    · refine h.started hclock ?_ ?_
      · rw [heq, PollEvent.startedAt, hstarted]
        rfl
      · simp [heq, PollSupervisor.start, hformer]
    · refine hkeep (by rw [heq]; rfl) (hreadings _ htouched) ?_ fun hl => ?_
      · simp [heq, hformer]
      · rw [heq] at hl
        cases hdead.symm.trans hl

/-- Only the poll loop held last can end a cycle. -/
theorem index_of_cycle {s s' : PollSupervisor} (hswap : Swap s) {i : ℕ} {c : PollCycle}
    (h : s.step conf (.loop i (.cycle c)) = some s') : i = 0 := by
  obtain ⟨loop, hi, hstep⟩ := Option.bind_eq_some_iff.1 h
  obtain ⟨hlive, -⟩ := PollSupervisor.loopStep_cases hstep
  rcases i with _ | i
  · rfl
  · cases (hswap.former loop (List.mem_of_getElem? hi)).symm.trans hlive

/-- One step keeps the beat. -/
theorem appStep_beats {s s' : AppRun} {e : AppEvent} (hswap : Swap s.poller) (h : Beats s)
    (hs : s.step conf e = some s') : Beats s' := by
  rcases AppRun.step_cases hs with ⟨p, q, -, hfree, hchain, hq, rfl⟩ |
    ⟨i, c, t, q, hq, hclock, rfl⟩ | ⟨current, t, -, hclock, rfl⟩ | ⟨startup, owned, -, rfl, -⟩
  · exact moved_beats hswap h hfree hchain hq
  · obtain rfl := index_of_cycle hswap hq
    exact ⟨⟨t, rfl, le_rfl, fun _ => (h.touch_max hclock).symm⟩, le_rfl,
      fun u hu => (h.touch_le u hu).trans hclock⟩
  · exact attempt_beats h hclock current
  · exact ⟨h.beat, h.progress_le, h.touch_le⟩

/-- A touch of the heartbeat is a step of the supervisor. -/
theorem reachable_touch {p : PollSupervisor} (h : (disturbedSystem conf).Reachable p) (t : Time) :
    (disturbedSystem conf).Reachable { p with heartbeat := p.heartbeat.touch t } := by
  have hstep : p.step conf (.touch t) = some { p with heartbeat := p.heartbeat.touch t } := by
    unfold PollSupervisor.step
    rfl
  exact h.step (disturbedSystem_step_event hstep)

/-- The supervisor of a reachable state. -/
theorem reachable_poller {s : AppRun} (h : (appSystem conf).Reachable s) :
    (disturbedSystem conf).Reachable s.poller := by
  refine h.invariant (I := fun s => (disturbedSystem conf).Reachable s.poller) ?_
    fun e s s' hr _ (hs : s.step conf e = some s') => ?_
  · rintro s ⟨stopEvent, t, rfl⟩
    exact .init ⟨stopEvent, t, rfl⟩
  rcases AppRun.step_cases hs with ⟨p, q, -, -, -, hq, rfl⟩ | ⟨i, c, t, q, hq, -, rfl⟩ |
    ⟨current, t, -, -, rfl⟩ | ⟨startup, owned, -, rfl, -⟩
  · exact hr.step (disturbedSystem_step_event hq)
  · exact reachable_touch (hr.step (disturbedSystem_step_event hq)) t
  · unfold AppRun.attempt
    split_ifs
    · exact hr
    · exact reachable_touch hr t
  · exact hr

theorem reachable_beats {s : AppRun} (h : (appSystem conf).Reachable s) : Beats s := by
  refine System.ReachableBy.invariant_of
    (fun s hs => reachable_swap (reachable_poller hs)) ?_ ?_ h
  · rintro s ⟨stopEvent, t, rfl⟩
    exact ⟨⟨t, rfl, le_rfl, fun _ => (max_self t).symm⟩, le_rfl, by simp [AppRun.initial]⟩
  · exact fun e s s' hswap hbeats _ (hs : s.step conf e = some s') => appStep_beats hswap hbeats hs

/-! ## Checks -/

/-- The supervisor awaits the cancelled loop, after which it rebuilds the client. -/
def AppRun.TearsDown (conf : PollerConf) (s : AppRun) : Prop :=
  s.poller.pc = .cancelling ∧ ∀ r, s.poller.step conf (.taskEnds r) =
    some ({ s.poller with task := s.poller.task.cancel }.recover conf r)

/-- The step of a check of a live loop. -/
theorem check_live {s s' : AppRun} {t last : Time} {r : Recovery}
    (hlive : s.poller.task.isLive = true) (hlast : s.poller.heartbeat.last = some last)
    (hs : s.step conf (.poller (.check t r)) = some s') :
    s'.TearsDown conf ↔ conf.stallTimeout < t - last := by
  obtain ⟨p, hp, rfl⟩ := AppRun.step_poller hs
  obtain ⟨-, rfl⟩ := PollSupervisor.step_check.1 hp
  have hage : s.poller.heartbeat.age t ≤ conf.stallTimeout ↔ t - last ≤ conf.stallTimeout := by
    unfold Heartbeat.age
    rw [hlast, WithTop.coe_le_coe]
  have hcheck : s.poller.check conf t r =
      if t - last ≤ conf.stallTimeout then s.poller.again
      else { s.poller with pc := .cancelling } := by
    rcases PollSupervisor.check_cases conf s.poller t r with ⟨hc, -⟩ | ⟨-, hdead, -⟩ | ⟨-, heq⟩
    · rw [PollLoop.isLive, hc] at hlive
      cases hlive
    · cases hdead.symm.trans hlive
    · simp only [heq, hage]
  rw [← not_le]
  refine ⟨fun htorn hle => ?_, fun hlt => ?_⟩
  · have hpc : (s.poller.check conf t r).pc = .cancelling := htorn.1
    rw [hcheck, if_pos hle] at hpc
    unfold PollSupervisor.again at hpc
    dsimp only at hpc
    split_ifs at hpc
  · have hpc : (s.poller.check conf t r).pc = .cancelling := by rw [hcheck, if_neg hlt]
    exact ⟨hpc, fun r' => PollSupervisor.step_taskEnds hpc⟩

/-- A check of a live loop tears it down exactly when the loop has made no progress for longer
than the stall timeout, unless it made none and the startup connect has touched the heartbeat
within that time. -/
theorem stall_detected_iff {s s' : AppRun} {t : Time} {r : Recovery}
    (h : (appSystem conf).Reachable s) (hlive : s.poller.task.isLive = true)
    (hs : s.step conf (.poller (.check t r)) = some s') :
    (s'.TearsDown conf ↔ conf.stallTimeout < t - s.progress) ↔
      ¬(conf.stallTimeout < t - s.progress ∧
        ∃ u, s.startupTouch = some u ∧ t - u ≤ conf.stallTimeout) := by
  obtain ⟨last, hlast, -, hmax⟩ := (reachable_beats h).beat
  rw [check_live hlive hlast hs, hmax hlive]
  rcases hu : s.startupTouch with _ | u
  · simp
  · have hboth : conf.stallTimeout < t - max s.progress u ↔
        conf.stallTimeout < t - s.progress ∧ conf.stallTimeout < t - u := by
      rw [lt_sub_comm, max_lt_iff, lt_sub_comm, lt_sub_comm (a := u)]
    simp only [Option.getD_some, Option.some.injEq, exists_eq_left', hboth, ← not_lt]
    tauto

/-- The poll has hung for 37 s, and the check does not tear the loop down. -/
theorem stall_not_detected :
    ¬∀ s s' t r, (appSystem nd45Times).Reachable s → s.poller.task.isLive = true →
      s.step nd45Times (.poller (.check t r)) = some s' →
        (s'.TearsDown nd45Times ↔ nd45Times.stallTimeout < t - s.progress) := by
  intro hall
  have hrun : ((appSystem nd45Times).run unreachableStart (.initial false 0)).any (fun s =>
      s.poller.task.isLive ∧ s.progress = 0 ∧
        (s.step nd45Times (.poller (.check (37 : ℕ) (recoveryAt (37 : ℕ))))).any
          fun s => !s.poller.pc.isCancelling) = true := by
    decide +kernel
  obtain ⟨s, hs, hp⟩ := (Option.any_eq_true _ _).1 hrun
  obtain ⟨hlive, hprogress, hp⟩ := decide_eq_true_iff.1 hp
  obtain ⟨s', hs', hnot⟩ := (Option.any_eq_true _ _).1 hp
  have hreach : (appSystem nd45Times).Reachable s :=
    System.reachable_of_run (.init ⟨false, 0, rfl⟩) _ hs
  have htorn := (hall s s' _ _ hreach hlive hs').2 (by rw [hprogress]; decide +kernel)
  rw [htorn.1] at hnot
  cases hnot

/-- Once connected, a poll that hangs is torn down after 31 s. -/
theorem stall_detected_iff_hungPoll : ∃ s s',
    (appSystem nd45Times).Reachable s ∧
      s.step nd45Times (.poller (.check (31 : ℕ) (recoveryAt (31 : ℕ)))) = some s' ∧
      s'.TearsDown nd45Times := by
  have hrun : ((appSystem nd45Times).run connectedStart (.initial false 0)).any (fun s =>
      s.poller.task.isLive ∧ s.progress = 0 ∧ s.startupTouch = some 0 ∧
        (s.step nd45Times (.poller (.check (31 : ℕ) (recoveryAt (31 : ℕ))))).isSome) = true := by
    decide +kernel
  obtain ⟨s, hs, hp⟩ := (Option.any_eq_true _ _).1 hrun
  obtain ⟨hlive, hprogress, htouch, hp⟩ := decide_eq_true_iff.1 hp
  obtain ⟨s', hs'⟩ := Option.isSome_iff_exists.1 hp
  have hreach : (appSystem nd45Times).Reachable s :=
    System.reachable_of_run (.init ⟨false, 0, rfl⟩) _ hs
  refine ⟨s, s', hreach, hs', ((stall_detected_iff hreach hlive hs').2 ?_).2 ?_⟩
  · rintro ⟨-, u, hu, hle⟩
    obtain rfl := Option.some.inj (htouch.symm.trans hu)
    exact absurd hle (by decide +kernel)
  · rw [hprogress]
    decide +kernel

end DtsuBridge
