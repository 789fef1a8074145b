import DtsuBridge.StatusGauges
import DtsuBridge.Lib.Counter

/-!
# Counters never fall

A scraper takes the difference of two scrapes of a counter for what happened in between, and a
fall for a restart of the process. So a family that is declared a counter has to keep its series
and may not lower one, as long as the process runs.

The counters of a bridge are those of its polls, its supervisors, its reads and its bus. None of
what is recorded lowers one of them (`Recorded.follows`), and neither does a step of a bridge
(`follows_step`). An exposition has the samples of the counters it is given (`counters_follow`), so
over a run of the process every series of a counter stays and grows (`counters_never_fall`).
-/

namespace DtsuBridge

/-! ## What is counted -/

/-- The reads that are counted stay so. -/
structure RtuActivity.Follows (activity activity' : RtuActivity) : Prop where
  rateWindow : activity'.rateWindow = activity.rateWindow
  total : activity.total ≤ activity'.total
  blocks : activity.blocks.CountsGrow activity'.blocks

structure WireActivity.Follows (wire wire' : WireActivity) : Prop where
  bytesSeen : wire.bytesSeen ≤ wire'.bytesSeen
  frames : wire.frames.CountsGrow wire'.frames

structure PollStats.Follows (stats stats' : PollStats) : Prop where
  pollsOk : stats.pollsOk ≤ stats'.pollsOk
  pollsFailed : stats.pollsFailed ≤ stats'.pollsFailed

structure ServerStatus.Follows (status status' : ServerStatus) : Prop where
  starts : status.starts ≤ status'.starts
  stops : status.stops ≤ status'.stops

/-- What is recorded goes on being recorded. -/
def Goes {α : Type} (follows : α → α → Prop) (x x' : Option α) : Prop :=
  ∀ a, x = some a → ∃ a', x' = some a' ∧ follows a a'

theorem Goes.refl {α : Type} {follows : α → α → Prop} (h : ∀ a, follows a a) (x : Option α) :
    Goes follows x x :=
  fun a ha => ⟨a, ha, h a⟩

theorem Goes.trans {α : Type} {follows : α → α → Prop} {x y z : Option α}
    (hxy : Goes follows x y) (hyz : Goes follows y z)
    (h : ∀ a b c, follows a b → follows b c → follows a c) : Goes follows x z := by
  intro a ha
  obtain ⟨b, hb, hab⟩ := hxy a ha
  obtain ⟨c, hc, hbc⟩ := hyz b hb
  exact ⟨c, hc, h a b c hab hbc⟩

/-- What the exporter reads of a bridge, and later on. -/
structure ExportedBridge.Follows (bridge bridge' : ExportedBridge) : Prop where
  spec : bridge'.spec = bridge.spec
  pollStats : bridge.pollStats.Follows bridge'.pollStats
  serverStatus : bridge.serverStatus.Follows bridge'.serverStatus
  restarts : bridge.recovery.restarts ≤ bridge'.recovery.restarts
  activity : Goes RtuActivity.Follows bridge.activity bridge'.activity
  wire : Goes WireActivity.Follows bridge.wire bridge'.wire

theorem RtuActivity.Follows.refl (activity : RtuActivity) : activity.Follows activity :=
  ⟨rfl, le_rfl, .refl _⟩

theorem RtuActivity.Follows.trans {a b c : RtuActivity} (h : a.Follows b) (h' : b.Follows c) :
    a.Follows c :=
  ⟨h'.rateWindow.trans h.rateWindow, h.total.trans h'.total, h.blocks.trans h'.blocks⟩

theorem WireActivity.Follows.refl (wire : WireActivity) : wire.Follows wire :=
  ⟨le_rfl, .refl _⟩

theorem WireActivity.Follows.trans {a b c : WireActivity} (h : a.Follows b) (h' : b.Follows c) :
    a.Follows c :=
  ⟨h.bytesSeen.trans h'.bytesSeen, h.frames.trans h'.frames⟩

theorem RtuActivity.follows_record (activity : RtuActivity) (call : ReadCall) :
    activity.Follows (activity.record call) where
  rateWindow := rfl
  total := Nat.le_succ _
  blocks := Dict.countsGrow_count _ _ _

theorem WireActivity.follows_record {wire wire' : WireActivity} {data : Bytes} {ts : Time}
    (h : wire.record data ts = .ok wire') : wire.Follows wire' := by
  unfold record at h
  split_ifs at h
  · obtain rfl := Except.ok.inj h
    exact ⟨le_rfl, .refl _⟩
  · obtain ⟨requests, -, h⟩ := Except.bind_eq_ok.1 h
    obtain rfl := Except.ok.inj h
    refine ⟨Nat.le_add_right _ _, ?_⟩
    exact Dict.countsGrow_foldl_count wire.maxIds (requests.map (·.slave)) wire.frames

namespace Process

/-- What is recorded of a bridge besides its supervisors. -/
inductive Counters.Recorded : Counters → Counters → Prop
  | polled (c : Counters) (ts : Time) :
    Recorded c { c with pollStats := c.pollStats.recordOk ts }
  | failed (c : Counters) (exc : PyExc) (ts : Time) :
    Recorded c { c with pollStats := c.pollStats.recordError exc ts }
  | read (c : Counters) (activity : RtuActivity) (call : ReadCall) : c.activity = some activity →
    Recorded c { c with activity := some (activity.record call) }
  | received (c : Counters) (wire wire' : WireActivity) (data : Bytes) (ts : Time) :
    c.wire = some wire → wire.record data ts = .ok wire' →
      Recorded c { c with wire := some wire' }
  | connected (c : Counters) (connected : Option Bool) :
    Recorded c { c with connected := connected }

/-- The counters at two moments of a run. -/
abbrev Counters.Later : Counters → Counters → Prop :=
  Relation.ReflTransGen Recorded

/-- The counters grow. -/
structure Counters.Follows (c c' : Counters) : Prop where
  pollStats : c.pollStats.Follows c'.pollStats
  activity : Goes RtuActivity.Follows c.activity c'.activity
  wire : Goes WireActivity.Follows c.wire c'.wire

theorem Counters.Follows.refl (c : Counters) : c.Follows c :=
  ⟨⟨le_rfl, le_rfl⟩, .refl RtuActivity.Follows.refl _, .refl WireActivity.Follows.refl _⟩

theorem Counters.Follows.trans {a b c : Counters} (h : a.Follows b) (h' : b.Follows c) :
    a.Follows c where
  pollStats := ⟨h.pollStats.pollsOk.trans h'.pollStats.pollsOk,
    h.pollStats.pollsFailed.trans h'.pollStats.pollsFailed⟩
  activity := h.activity.trans h'.activity fun _ _ _ => RtuActivity.Follows.trans
  wire := h.wire.trans h'.wire fun _ _ _ => WireActivity.Follows.trans

/-- What is recorded adds to the counters. -/
theorem Counters.Recorded.follows {c c' : Counters} (h : c.Recorded c') : c.Follows c' := by
  have hself := Counters.Follows.refl c
  induction h with
  | polled ts => exact { hself with pollStats := ⟨Nat.le_succ _, le_rfl⟩ }
  | failed exc ts => exact { hself with pollStats := ⟨le_rfl, Nat.le_succ _⟩ }
  | read activity call hread =>
    refine { hself with activity := fun a ha => ⟨_, rfl, ?_⟩ }
    obtain rfl := Option.some.inj (hread.symm.trans ha)
    exact activity.follows_record call
  | received wire wire' data ts hreceived hrecord =>
    refine { hself with wire := fun w hw => ⟨_, rfl, ?_⟩ }
    obtain rfl := Option.some.inj (hreceived.symm.trans hw)
    exact WireActivity.follows_record hrecord
  | connected connected => exact { hself with }

theorem Counters.Later.follows {c c' : Counters} (h : c.Later c') : c.Follows c' := by
  induction h with
  | refl => exact .refl _
  | tail _ hstep ih => exact ih.trans hstep.follows

end Process

/-! ## What the supervisors count -/

section Supervisor

variable {conf : SupervisorConf} {s s' : Supervisor}

theorem ServerStatus.Follows.refl (status : ServerStatus) : status.Follows status :=
  ⟨le_rfl, le_rfl⟩

theorem ServerStatus.Follows.trans {a b c : ServerStatus} (h : a.Follows b) (h' : b.Follows c) :
    a.Follows c :=
  ⟨h.starts.trans h'.starts, h.stops.trans h'.stops⟩

theorem ServerStatus.follows_stopped (status : ServerStatus) : status.Follows status.stopped where
  starts := le_rfl
  stops := by
    unfold stopped
    dsimp only
    split_ifs
    · exact Nat.le_succ _
    · exact le_rfl

theorem follows_act (t : Time) (age : WithTop Time) :
    s.status.Follows (s.act conf t age).status := by
  unfold Supervisor.act
  split
  · exact ⟨Nat.le_succ _, le_rfl⟩
  · split
    · exact .refl _
    · exact .refl _
  · exact .refl _
  · exact .refl _

theorem follows_check (t : Time) (age : WithTop Time) (isActive : Option Bool) :
    s.status.Follows (s.check conf t age isActive).status := by
  unfold Supervisor.check
  split
  · unfold Supervisor.leave
    split
    · exact .refl _
    · exact s.status.follows_stopped
  · split
    · exact follows_act t age
    · split
      · exact .refl _
      · split
        · exact .refl _
        · exact follows_act t age

/-- A supervisor only adds to its status. -/
theorem supervisor_follows {e : SupervisorEvent} (h : s.step conf e = some s') :
    s.status.Follows s'.status := by
  have hreleased : ∀ t age, s.status.Follows (s.release.act conf t age).status := fun t age =>
    s.status.follows_stopped.trans (@follows_act conf s.release t age)
  unfold Supervisor.step at h
  split at h
  next t age isActive _ =>
    obtain rfl := Option.some.inj h
    exact follows_check t age isActive
  next =>
    unfold Supervisor.serveEnds at h
    split at h
    · split_ifs at h
      obtain rfl := Option.some.inj h
      exact .refl _
    · cases h
  next why _ =>
    obtain rfl := Option.some.inj h
    rcases why with ⟨t, age⟩ | ⟨t, age⟩ | ⟨t, age⟩ | _
    · exact hreleased t age
    all_goals exact .refl _
  next why _ =>
    obtain rfl := Option.some.inj h
    rcases why with ⟨t, age⟩ | ⟨t, age⟩ | ⟨t, age⟩ | _
    · exact hreleased t age
    · exact hreleased t age
    · exact s.status.follows_stopped
    · exact s.status.follows_stopped
  next =>
    obtain rfl := Option.some.inj h
    exact .refl _
  next =>
    obtain rfl := Option.some.inj h
    exact .refl _
  next => cases h

end Supervisor

section Poller

variable {conf : PollerConf} {s s' : PollSupervisor}

theorem restarts_retry (current touchedAt startedAt : Time) :
    (s.retry current touchedAt startedAt).recovery = s.recovery := by
  unfold PollSupervisor.retry
  split_ifs
  · rfl
  · rfl

theorem restarts_recover (r : Recovery) :
    s.recovery.restarts ≤ (s.recover conf r).recovery.restarts := by
  unfold PollSupervisor.recover PollSupervisor.replaceClient
  rw [closeQuietly_eq_ok]
  dsimp only
  split
  · exact Nat.le_succ _
  · rw [restarts_retry]
    exact Nat.le_succ _

theorem recovery_setLoop (i : ℕ) (loop : PollLoop) : (s.setLoop i loop).recovery = s.recovery := by
  rcases i with _ | i
  · rfl
  · rfl

/-- A poll supervisor only adds to its restarts. -/
theorem restarts_step {e : DisturbedEvent} (h : (disturbedSystem conf).step e s = some s') :
    s.recovery.restarts ≤ s'.recovery.restarts := by
  rcases e with e | ⟨i, how⟩
  · change s.step conf e = some s' at h
    unfold PollSupervisor.step at h
    split at h
    next i e =>
      obtain ⟨loop, -, h⟩ := Option.bind_eq_some_iff.1 h
      obtain ⟨-, pc, reports, rfl, -⟩ := s.loopStep_cases h
      exact (congrArg RecoveryStats.restarts (recovery_setLoop i _)).ge
    next t r _ =>
      obtain rfl := Option.some.inj h
      rcases PollSupervisor.check_cases conf s t r with ⟨-, heq⟩ | ⟨-, -, heq⟩ | ⟨-, heq⟩
      · rw [heq]
      · rw [heq]
        exact restarts_recover r
      · rw [heq]
        split
        · exact le_rfl
        · exact le_rfl
    next =>
      split_ifs at h
      obtain rfl := Option.some.inj h
      exact le_rfl
    next r _ =>
      obtain rfl := Option.some.inj h
      exact @restarts_recover conf { s with task := s.task.cancel } r
    next =>
      obtain rfl := Option.some.inj h
      exact le_rfl
    next result startedAt current _ =>
      obtain rfl := Option.some.inj h
      rcases result with exc | connected | connected
      all_goals exact le_rfl
    next touchedAt startedAt current _ =>
      obtain rfl := Option.some.inj h
      rw [restarts_retry]
    next =>
      obtain rfl := Option.some.inj h
      exact le_rfl
    next =>
      obtain rfl := Option.some.inj h
      exact le_rfl
    next => cases h
  · obtain ⟨loop, -, h⟩ := Option.bind_eq_some_iff.1 h
    split_ifs at h
    obtain rfl := Option.some.inj h
    exact (congrArg RecoveryStats.restarts (recovery_setLoop i _)).ge

end Poller

section Float

variable [FloatArith]

/-! ## The bridges of a process -/

/-- A step of a bridge adds to what its supervisors count. -/
theorem Bridge.follows_step {conf : BridgeSetup} {s s' : Bridge} {e : BridgeEvent}
    (h : s.step conf e = some s') : s.supervisor.status.Follows s'.supervisor.status ∧
      s.poller.recovery.restarts ≤ s'.poller.recovery.restarts := by
  unfold Bridge.step at h
  split at h
  next i poll ts onError =>
    split_ifs at h
    obtain ⟨poller, hpoller, rfl⟩ := Option.map_eq_some_iff.1 h
    exact ⟨.refl _, restarts_step (disturbedSystem_step_event hpoller)⟩
  next => cases h
  next => cases h
  next =>
    obtain ⟨poller, hpoller, rfl⟩ := Option.map_eq_some_iff.1 h
    exact ⟨.refl _, @restarts_step conf.poller _ _ _ hpoller⟩
  next =>
    split_ifs at h
    obtain ⟨supervisor, hsupervisor, rfl⟩ := Option.map_eq_some_iff.1 h
    exact ⟨supervisor_follows hsupervisor, le_rfl⟩
  next =>
    obtain ⟨supervisor, hsupervisor, rfl⟩ := Option.map_eq_some_iff.1 h
    exact ⟨supervisor_follows hsupervisor, le_rfl⟩

namespace Process

variable {p : Process} {s s' : p.State}

/-- And so does a run of the process, of each of its bridges. -/
theorem follows_run {as : List (Fin p.bridges.length × BridgeEvent)}
    (h : p.system.run as s = some s') (i : Fin p.bridges.length) :
    (s.1 i).supervisor.status.Follows (s'.1 i).supervisor.status ∧
      (s.1 i).poller.recovery.restarts ≤ (s'.1 i).poller.recovery.restarts := by
  refine System.run_invariant (I := fun t : p.State =>
    (s.1 i).supervisor.status.Follows (t.1 i).supervisor.status ∧
      (s.1 i).poller.recovery.restarts ≤ (t.1 i).poller.recovery.restarts)
    ?_ as ⟨.refl _, le_rfl⟩ h
  rintro a t t' ⟨hstatus, hrestarts⟩ hstep
  rcases Clocked.step_component hstep i with ⟨-, hmove⟩ | ⟨-, hsame⟩
  · obtain ⟨hstatus', hrestarts'⟩ := Bridge.follows_step hmove
    exact ⟨hstatus.trans hstatus', hrestarts.trans hrestarts'⟩
  · rw [hsame]
    exact ⟨hstatus, hrestarts⟩

/-- What the exporter reads of the bridges, and after a run. -/
theorem exported_follow {as : List (Fin p.bridges.length × BridgeEvent)}
    (h : p.system.run as s = some s') {counters counters' : Fin p.bridges.length → Counters}
    (hcounters : ∀ i, (counters i).Later (counters' i)) :
    List.Forall₂ ExportedBridge.Follows (p.exported s.1 counters) (p.exported s'.1 counters') := by
  rw [exported, exported, List.ofFn_eq_map, List.ofFn_eq_map, List.forall₂_map_left_iff,
    List.forall₂_map_right_iff, List.forall₂_same]
  intro i _
  obtain ⟨hstatus, hrestarts⟩ := follows_run h i
  have hfollows := (hcounters i).follows
  exact ⟨rfl, hfollows.pollStats, hstatus, hrestarts, hfollows.activity, hfollows.wire⟩

end Process

/-! ## The blocks of a bridge -/

/-- Every sample is a count, and has one under its labels that is not lower. -/
def SamplesGrow (samples samples' : List (SampleValue × MetricLabels)) : Prop :=
  ∀ s ∈ samples, ∃ n n' : ℕ, s.1 = .int n ∧ n ≤ n' ∧ (.int n', s.2) ∈ samples'

/-- Every block of a counter has one that grew from it. -/
def BlocksGrow (blocks blocks' : List MetricBlock) : Prop :=
  ∀ block ∈ blocks, block.family.kind = "counter" →
    ∃ block' ∈ blocks', block'.family = block.family ∧ SamplesGrow block.samples block'.samples

omit [FloatArith] in
theorem samplesGrow_single {n n' : ℕ} (h : n ≤ n') (label : MetricLabels) :
    SamplesGrow [(.int n, label)] [(.int n', label)] := by
  unfold SamplesGrow
  rw [List.forall_mem_singleton]
  exact ⟨n, n', rfl, h, List.mem_singleton_self _⟩

omit [FloatArith] in
/-- The counts of a dictionary, in whatever order. -/
theorem samplesGrow_counts {κ : Type} [DecidableEq κ] {d d' : Dict κ ℕ} (h : d.CountsGrow d')
    {r : κ × ℕ → κ × ℕ → Prop} [DecidableRel r] (labels : κ → MetricLabels) :
    SamplesGrow ((d.entries.insertionSort r).map fun e => (.int e.2, labels e.1))
      ((d'.entries.insertionSort r).map fun e => (.int e.2, labels e.1)) := by
  unfold SamplesGrow
  rw [List.forall_mem_map]
  rintro ⟨k, n⟩ he
  have hmem := (List.perm_insertionSort r d.entries).mem_iff.1 he
  obtain ⟨n', hle, hn'⟩ := h k n (Dict.get?_eq_some_iff.2 hmem)
  have hmem' := Dict.get?_eq_some_iff.1 hn'
  exact ⟨n, n', rfl, hle,
    List.mem_map.2 ⟨(k, n'), (List.perm_insertionSort r d'.entries).mem_iff.2 hmem', rfl⟩⟩

omit [FloatArith] in
theorem BlocksGrow.append {as bs as' bs' : List MetricBlock} (h : BlocksGrow as as')
    (h' : BlocksGrow bs bs') : BlocksGrow (as ++ bs) (as' ++ bs') := by
  intro block hblock hkind
  rcases List.mem_append.1 hblock with hblock | hblock
  · obtain ⟨block', hblock', hgrow⟩ := h block hblock hkind
    exact ⟨block', List.mem_append_left _ hblock', hgrow⟩
  · obtain ⟨block', hblock', hgrow⟩ := h' block hblock hkind
    exact ⟨block', List.mem_append_right _ hblock', hgrow⟩

omit [FloatArith] in
theorem BlocksGrow.cons {block block' : MetricBlock} {blocks blocks' : List MetricBlock}
    (hfamily : block'.family = block.family) (hgrow : SamplesGrow block.samples block'.samples)
    (h : BlocksGrow blocks blocks') : BlocksGrow (block :: blocks) (block' :: blocks') := by
  intro b hb hkind
  rcases List.mem_cons.1 hb with rfl | hb
  · exact ⟨block', List.mem_cons_self, hfamily, hgrow⟩
  · obtain ⟨b', hb', hgrow'⟩ := h b hb hkind
    exact ⟨b', List.mem_cons_of_mem _ hb', hgrow'⟩

omit [FloatArith] in
/-- A block of a gauge is left aside. -/
theorem BlocksGrow.gauge {block block' : MetricBlock} {blocks blocks' : List MetricBlock}
    (hkind : block.family.kind = "gauge") (h : BlocksGrow blocks blocks') :
    BlocksGrow (block :: blocks) (block' :: blocks') := by
  intro b hb hcounter
  rcases List.mem_cons.1 hb with rfl | hb
  · rw [hkind] at hcounter
    exact absurd hcounter (by decide)
  · obtain ⟨b', hb', hgrow'⟩ := h b hb hcounter
    exact ⟨b', List.mem_cons_of_mem _ hb', hgrow'⟩

omit [FloatArith] in
theorem blocksGrow_nil (blocks : List MetricBlock) : BlocksGrow [] blocks := by
  intro b hb
  cases hb

omit [FloatArith] in
/-- Blocks of gauges alone. -/
theorem blocksGrow_gauges {blocks : List MetricBlock}
    (h : ∀ block ∈ blocks, block.family.kind = "gauge") (blocks' : List MetricBlock) :
    BlocksGrow blocks blocks' := by
  intro b hb hcounter
  rw [h b hb] at hcounter
  exact absurd hcounter (by decide)

/-- The families of polls that are gauges. -/
def PollFamilies.gauges (families : PollFamilies) : List MetricFamily :=
  [families.connected, families.dataAge, families.dataFresh, families.maxDataAge,
    families.pollInterval, families.consecutiveFailures, families.lastOkAge,
    families.lastErrorAge, families.lastErrorInfo]

section Blocks

variable {bridge bridge' : ExportedBridge} (h : bridge.Follows bridge') (label : MetricLabels)
  (loopNow monoNow loopNow' monoNow' : Time)

include h

omit [FloatArith] in
theorem pollBlocks_grow {families : PollFamilies}
    (hgauges : ∀ family ∈ families.gauges, family.kind = "gauge") :
    BlocksGrow (pollBlocks families bridge label loopNow monoNow)
      (pollBlocks families bridge' label loopNow' monoNow') := by
  simp only [PollFamilies.gauges, List.forall_mem_cons, List.not_mem_nil, false_implies,
    implies_true, and_true] at hgauges
  obtain ⟨hconnected, hage, hfresh, hmax, hinterval, hfailures, hok, herror, hinfo⟩ := hgauges
  unfold pollBlocks
  refine ((blocksGrow_gauges ?_ _).append ?_).append (blocksGrow_gauges ?_ _)
  · rw [List.forall_mem_map]
    exact fun _ _ => hconnected
  · refine .gauge hage (.gauge hfresh (.gauge hmax (.gauge hinterval (.cons rfl ?_
      (.gauge hfailures (.gauge hok (.gauge herror (blocksGrow_nil _))))))))
    have hcounts := h.pollStats
    unfold SamplesGrow
    rw [List.forall_mem_cons, List.forall_mem_singleton]
    exact ⟨⟨_, _, rfl, hcounts.pollsOk, List.mem_cons_self⟩,
      ⟨_, _, rfl, hcounts.pollsFailed, List.mem_cons_of_mem _ (List.mem_singleton_self _)⟩⟩
  · rw [List.forall_mem_map]
    exact fun _ _ => hinfo

omit [FloatArith] in
theorem serverBlocks_grow {families : ServerFamilies} (hup : families.up.kind = "gauge")
    (hage : families.lastStartAge.kind = "gauge") :
    BlocksGrow (serverBlocks families bridge.serverStatus label monoNow)
      (serverBlocks families bridge'.serverStatus label monoNow') :=
  .gauge hup (.cons rfl (samplesGrow_single h.serverStatus.starts _)
    (.cons rfl (samplesGrow_single h.serverStatus.stops _) (.gauge hage (blocksGrow_nil _))))

omit [FloatArith] in
theorem bridgeSourceBlocks_grow :
    BlocksGrow (bridgeSourceBlocks bridge label loopNow monoNow)
      (bridgeSourceBlocks bridge' label loopNow' monoNow') := by
  unfold bridgeSourceBlocks
  refine ((pollBlocks_grow h label _ _ _ _ (by decide)).append ?_).append
    (blocksGrow_gauges ?_ _)
  · exact .cons rfl (samplesGrow_single h.restarts _) (.gauge rfl (blocksGrow_nil _))
  · simp only [List.forall_mem_flatMap, List.forall_mem_cons, List.not_mem_nil, false_implies,
      implies_true, and_true]
    exact fun _ _ => ⟨rfl, rfl⟩

omit [FloatArith] in
/-- Where the reads are recorded they go on being recorded, and rendered. -/
theorem activityBlocks_grow {families : ReadFamilies} (hrate : families.rate.kind = "gauge")
    (hage : families.lastRequestAge.kind = "gauge") :
    BlocksGrow (activityBlocks families bridge.activity label monoNow)
      (activityBlocks families bridge'.activity label monoNow') := by
  unfold activityBlocks
  rcases hactivity : bridge.activity with _ | activity
  · exact blocksGrow_nil _
  · obtain ⟨activity', hactivity', hfollows⟩ := h.activity activity hactivity
    rw [hactivity']
    simp only [Option.bind_some]
    unfold RtuActivity.summary
    rw [hfollows.rateWindow]
    dsimp only
    split_ifs
    · exact blocksGrow_nil _
    · simp only [Except.toOption, Option.toList_some, List.flatMap_singleton, readBlocks]
      exact .cons rfl (samplesGrow_single hfollows.total _) (.gauge hrate (.gauge hage
        (.cons rfl (samplesGrow_counts hfollows.blocks fun key => label ++ blockLabels key)
          (blocksGrow_nil _))))

omit [FloatArith] in
theorem busBlocks_grow : BlocksGrow (busBlocks bridge label) (busBlocks bridge' label) := by
  unfold busBlocks
  rcases hactivity : bridge.activity with _ | activity
  · exact blocksGrow_nil _
  · obtain ⟨activity', hactivity', -⟩ := h.activity activity hactivity
    rw [hactivity']
    simp only [Option.bind_some]
    rcases hwire : bridge.wire with _ | wire
    · exact blocksGrow_nil _
    · obtain ⟨wire', hwire', hfollows⟩ := h.wire wire hwire
      rw [hwire']
      simp only [Option.toList_some, List.flatMap_singleton, wireBlocks]
      exact .cons rfl (samplesGrow_single hfollows.bytesSeen _) (.cons rfl
        (samplesGrow_counts hfollows.frames fun id => label ++ [("slave_id", toString id)])
          (blocksGrow_nil _))

omit [FloatArith] in
/-- The counters of a bridge. -/
theorem bridgeBlocks_grow : BlocksGrow (bridgeBlocks bridge label loopNow monoNow)
    (bridgeBlocks bridge' label loopNow' monoNow') := by
  have hsource := bridgeSourceBlocks_grow h label loopNow monoNow loopNow' monoNow'
  refine .append (.append (.gauge rfl hsource) ?_) (.append ?_ (busBlocks_grow h label))
  · exact serverBlocks_grow h label _ _ rfl rfl
  · exact activityBlocks_grow h label _ _ rfl rfl

omit [FloatArith] in
theorem primaryBlocks_grow : BlocksGrow (primaryBlocks bridge loopNow monoNow)
    (primaryBlocks bridge' loopNow' monoNow') := by
  refine .append (.append ?_ ?_) (activityBlocks_grow h _ _ _ rfl rfl)
  · exact pollBlocks_grow h _ _ _ _ _ (by decide)
  · exact serverBlocks_grow h _ _ _ rfl rfl

end Blocks

/-! ## The counters of an exposition -/

/-- All families of an exposition. -/
def exporterFamilies : List MetricFamily :=
  processFamilies ++ (namedFamilies ++ unlabelledFamilies)

/-- The families that are declared counters. -/
def counterFamilies : List MetricFamily :=
  exporterFamilies.filter (·.kind = "counter")

omit [FloatArith] in
theorem kind_of_name {family family' : MetricFamily} (h : family ∈ counterFamilies)
    (h' : family' ∈ exporterFamilies) (hname : family'.name = family.name) :
    family'.kind = "counter" := by
  obtain ⟨hmem, hkind⟩ := List.mem_filter.1 h
  rw [List.inj_on_of_nodup_map families_nodup h' hmem hname]
  exact of_decide_eq_true hkind

omit [FloatArith] in
/-- The samples under the name of a counter. -/
theorem samplesOf_grow {blocks blocks' : List MetricBlock} (h : BlocksGrow blocks blocks')
    {family : MetricFamily} (hfamily : family ∈ counterFamilies)
    (hsub : ∀ block ∈ blocks, block.family ∈ exporterFamilies) :
    SamplesGrow (samplesOf blocks family.name) (samplesOf blocks' family.name) := by
  intro s hs
  obtain ⟨block, hblock, hs⟩ := List.mem_flatMap.1 hs
  split_ifs at hs with hname
  · obtain ⟨block', hblock', hsame, hgrow⟩ :=
      h block hblock (kind_of_name hfamily (hsub block hblock) hname)
    obtain ⟨n, n', hn, hle, hmem⟩ := hgrow s hs
    refine ⟨n, n', hn, hle, List.mem_flatMap.2 ⟨block', hblock', ?_⟩⟩
    rw [hsame, if_pos hname]
    exact hmem
  · cases hs

omit [FloatArith] in
theorem bridgeBlocks_exported {bridge : ExportedBridge} {label : MetricLabels}
    {loopNow monoNow : Time} :
    ∀ block ∈ bridgeBlocks bridge label loopNow monoNow, block.family ∈ exporterFamilies := by
  intro block hblock
  have hmem := (bridgeBlocks_families bridge label loopNow monoNow).subset
    (List.mem_map_of_mem hblock)
  simp only [statusFamilies, readFamilies, exporterFamilies, namedFamilies, bridgeDtsuFamilies,
    List.mem_append] at hmem ⊢
  tauto

omit [FloatArith] in
theorem primaryBlocks_exported {primary : ExportedBridge} {loopNow monoNow : Time} :
    ∀ block ∈ primaryBlocks primary loopNow monoNow, block.family ∈ exporterFamilies := by
  intro block hblock
  have hmem := (primaryBlocks_families primary loopNow monoNow).subset
    (List.mem_map_of_mem hblock)
  simp only [aliasStatusFamilies, exporterFamilies, unlabelledFamilies, List.mem_append] at hmem ⊢
  tauto

/-- Counts keep their order as floats. -/
theorem floatOfInt_mono {n n' : ℕ} (hle : n ≤ n') {x x' : PyFloat}
    (hx : floatOfInt n = .ok x) (hx' : floatOfInt n' = .ok x') : x.le x' = true := by
  have hround : ∀ {n : ℕ} {x : PyFloat}, floatOfInt n = .ok x →
      ∃ q : ℚ≥0, FloatArith.round (n : ℚ≥0) = q ∧ x = .fin false q := by
    intro n x hx
    unfold floatOfInt at hx
    split at hx
    next y hy =>
      obtain rfl := Except.ok.inj hx
      obtain ⟨q, hq, rfl⟩ := PyFloat.ofInt?_eq_some.1 hy
      exact ⟨q, by simpa using hq, by simp⟩
    next => cases hx
  obtain ⟨q, hq, rfl⟩ := hround hx
  obtain ⟨q', hq', rfl⟩ := hround hx'
  have hmono := FloatArith.round_mono (Nat.cast_le.2 hle : (n : ℚ≥0) ≤ n')
  rw [hq, hq', WithTop.coe_le_coe] at hmono
  rw [PyFloat.le_fin, decide_eq_true_eq]
  exact NNRat.cast_le.2 hmono

omit [FloatArith] in
/-- Two lists in step, seen from an element of one of them. -/
theorem forall₂_mem {α β : Type} {R : α → β → Prop} {xs : List α} {ys : List β}
    (h : List.Forall₂ R xs ys) :
    (∀ x ∈ xs, ∃ y ∈ ys, R x y) ∧ ∀ y ∈ ys, ∃ x ∈ xs, R x y := by
  induction h with
  | nil => simp
  | cons hxy _ ih =>
    refine ⟨List.forall_mem_cons.2 ⟨⟨_, List.mem_cons_self, hxy⟩, fun x hx => ?_⟩,
      List.forall_mem_cons.2 ⟨⟨_, List.mem_cons_self, hxy⟩, fun y hy => ?_⟩⟩
    · obtain ⟨y, hy, hR⟩ := ih.1 x hx
      exact ⟨y, List.mem_cons_of_mem _ hy, hR⟩
    · obtain ⟨x, hx, hR⟩ := ih.2 y hy
      exact ⟨x, List.mem_cons_of_mem _ hx, hR⟩

omit [FloatArith] in
theorem forall₂_head {α β : Type} {R : α → β → Prop} {xs : List α} {ys : List β}
    (h : List.Forall₂ R xs ys) {x : α} (hx : x ∈ xs.head?) : ∃ y ∈ ys.head?, R x y := by
  rcases h with _ | ⟨hxy, _⟩
  · cases hx
  · obtain rfl := Option.some.inj hx
    exact ⟨_, rfl, hxy⟩

/-- What is rendered of counts that grow. -/
theorem rendered_grow {samples samples' : List (SampleValue × MetricLabels)}
    {values values' : List (MetricLabels × MetricValue)} (hgrow : SamplesGrow samples samples')
    (h : Rendered samples values) (h' : Rendered samples' values') {labels : MetricLabels}
    {value : MetricValue} (hvalue : (labels, value) ∈ values) :
    ∃ value', (labels, value') ∈ values' ∧ value.toFloat.le value'.toFloat = true := by
  obtain ⟨⟨v, l⟩, hs, hv, rfl⟩ := (forall₂_mem h).2 _ hvalue
  obtain ⟨n, n', rfl, hle, hs'⟩ := hgrow _ hs
  obtain ⟨⟨l', value'⟩, hvalue', hv', rfl⟩ := (forall₂_mem h').1 _ hs'
  refine ⟨value', hvalue', ?_⟩
  obtain ⟨x, hx, hvx⟩ := Except.bind_eq_ok.1 hv
  obtain ⟨x', hx', hvx'⟩ := Except.bind_eq_ok.1 hv'
  obtain rfl := Except.ok.inj hvx
  obtain rfl := Except.ok.inj hvx'
  exact floatOfInt_mono hle hx hx'

omit [FloatArith] in
/-- The names of counters are none of the process, the measurements or the registers. -/
theorem counter_names {family : MetricFamily} (h : family ∈ counterFamilies) :
    family.name ∉ processFamilies.map (·.name) ∧ family.name ∉ bridgeFamilies.all.map (·.name) ∧
      family.name ∉ aliasFamilies.all.map (·.name) := by
  have hall : ∀ family ∈ counterFamilies, family.name ∉ processFamilies.map (·.name) ∧
      family.name ∉ bridgeFamilies.all.map (·.name) ∧
        family.name ∉ aliasFamilies.all.map (·.name) := by decide +kernel
  exact hall family h

/-- Of two expositions of bridges that follow one another, the second has every series of a counter
that the first has, and no lower. -/
theorem counters_follow {source source' : Exporter}
    (hbridges : List.Forall₂ ExportedBridge.Follows source.bridges source'.bridges)
    {loopNow monoNow loopNow' monoNow' : Time} {out out' : MetricsOut}
    (hout : renderOut source loopNow monoNow = .ok out)
    (hout' : renderOut source' loopNow' monoNow' = .ok out') {family : MetricFamily}
    (hfamily : family ∈ counterFamilies) {labels : MetricLabels} {value : MetricValue}
    (hvalue : (labels, value) ∈ out.samples family.name) :
    ∃ value', (labels, value') ∈ out'.samples family.name ∧
      value.toFloat.le value'.toFloat = true := by
  obtain ⟨hprocess, hnamed, halias⟩ := counter_names hfamily
  refine rendered_grow ?_ (renderOut_emits hprocess hnamed halias hout)
    (renderOut_emits hprocess hnamed halias hout') hvalue
  intro s hs
  rcases List.mem_append.1 hs with hs | hs
  · obtain ⟨bridge, hbridge, hs⟩ := List.mem_flatMap.1 hs
    obtain ⟨bridge', hbridge', hfollows⟩ := (forall₂_mem hbridges).1 bridge hbridge
    obtain ⟨n, n', hn, hle, hmem⟩ := samplesOf_grow
      (bridgeBlocks_grow hfollows _ loopNow monoNow loopNow' monoNow') hfamily
        bridgeBlocks_exported s hs
    refine ⟨n, n', hn, hle, List.mem_append_left _ (List.mem_flatMap.2 ⟨bridge', hbridge', ?_⟩)⟩
    rw [hfollows.spec]
    exact hmem
  · obtain ⟨primary, hprimary, hs⟩ := List.mem_flatMap.1 hs
    obtain ⟨primary', hprimary', hfollows⟩ := forall₂_head hbridges (Option.mem_toList.1 hprimary)
    obtain ⟨n, n', hn, hle, hmem⟩ := samplesOf_grow
      (primaryBlocks_grow hfollows loopNow monoNow loopNow' monoNow') hfamily
        primaryBlocks_exported s hs
    exact ⟨n, n', hn, hle, List.mem_append_right _
      (List.mem_flatMap.2 ⟨primary', Option.mem_toList.2 hprimary', hmem⟩)⟩

/-- Between two scrapes of a process, whatever its bridges do and whatever is recorded of them in
between, no series of a counter is lost and none falls. -/
theorem counters_never_fall {p : Process} {s s' : p.State}
    {as : List (Fin p.bridges.length × BridgeEvent)} (hrun : p.system.run as s = some s')
    {counters counters' : Fin p.bridges.length → Process.Counters}
    (hcounters : ∀ i, (counters i).Later (counters' i))
    {startedAt t monoNow t' monoNow' : Time} {out out' : MetricsOut}
    (hout : renderOut (p.exporter s.1 counters startedAt) t monoNow = .ok out)
    (hout' : renderOut (p.exporter s'.1 counters' startedAt) t' monoNow' = .ok out')
    {family : MetricFamily} (hfamily : family ∈ counterFamilies) {labels : MetricLabels}
    {value : MetricValue} (hvalue : (labels, value) ∈ out.samples family.name) :
    ∃ value', (labels, value') ∈ out'.samples family.name ∧
      value.toFloat.le value'.toFloat = true :=
  counters_follow (Process.exported_follow hrun hcounters) hout hout' hfamily hvalue

end Float

/-- The first bridge polls once between two scrapes. -/
theorem counters_never_fall_apartProcess :
    let polls := bridgePollFamilies.polls.name
    let labels := [("bridge", "main"), ("result", "ok")]
    let counters : Fin apartProcess.bridges.length → Process.Counters := fun _ => {}
    let polled : Process.Counters := { pollStats := ({} : PollStats).recordOk 1 }
    let initial := apartProcess.initial 0
    ∃ s out out' value value',
      (@Process.system .double apartProcess).run (onePoll.map (Prod.mk mainIndex)) initial =
        some s ∧
      @renderOut .double (apartProcess.exporter initial.1 counters 0) 0 0 = .ok out ∧
      @renderOut .double (apartProcess.exporter s.1 (Function.update counters mainIndex polled) 0)
        2 2 = .ok out' ∧
      (labels, value) ∈ out.samples polls ∧ (labels, value') ∈ out'.samples polls ∧
      (@MetricValue.toFloat .double value).le (@MetricValue.toFloat .double value') = true := by
  intro polls labels counters polled initial
  have hfirst : (@renderOut .double (apartProcess.exporter initial.1 counters 0) 0 0).toOption.any
      (fun out => (MetricsOut.samples out polls).any fun v => decide (v.1 = labels)) = true := by
    decide +kernel
  have hrun : ((@Process.system .double apartProcess).run (onePoll.map (Prod.mk mainIndex))
      initial).any (fun s => (@renderOut .double (apartProcess.exporter s.1
        (Function.update counters mainIndex polled) 0) 2 2).toOption.isSome) = true := by
    decide +kernel
  obtain ⟨out, hout, hany⟩ := (Option.any_eq_true _ _).1 hfirst
  obtain ⟨⟨l, value⟩, hvalue, hlabels⟩ := List.any_eq_true.1 hany
  obtain rfl : l = labels := of_decide_eq_true hlabels
  obtain ⟨s, hs, hsome⟩ := (Option.any_eq_true _ _).1 hrun
  obtain ⟨out', hout'⟩ := Option.isSome_iff_exists.1 hsome
  have hout := Except.toOption_eq_some.1 hout
  have hout' := Except.toOption_eq_some.1 hout'
  have hlater : ∀ i, (counters i).Later (Function.update counters mainIndex polled i) := by
    intro i
    by_cases hi : i = mainIndex
    · rw [hi, Function.update_self]
      exact .single (.polled _ 1)
    · rw [Function.update_of_ne hi]
  have hfamily : bridgePollFamilies.polls ∈ counterFamilies :=
    List.mem_filter.2 ⟨by simp [exporterFamilies, namedFamilies, bridgeSourceFamilies,
      PollFamilies.all], by decide⟩
  obtain ⟨value', hvalue', hle⟩ :=
    @counters_never_fall .double _ _ _ _ hs _ _ hlater _ _ _ _ _ _ _ hout hout' _ hfamily _ _ hvalue
  exact ⟨s, out, out', value, value', hs, hout, hout', hvalue, hvalue', hle⟩

end DtsuBridge
