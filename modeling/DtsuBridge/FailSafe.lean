import DtsuBridge.PollRecovery
import DtsuBridge.PollTiming
import DtsuBridge.ServerSupervisor

/-!
# The fail-safe of a bridge

A live bridge is its poll supervisor, its server supervisor and what it serves. The two
share nothing else : a poll cycle publishes through `onUpdate`, a check of the server
supervisor reads the age of the store. Both read one clock that does not go back.

`fail_safe` : whenever the server supervisor is done with a check and holds a server, the
registers are the image of the latest sample published, and that sample was no older than
the maximum age at the check. No server is created before the first sample is published.
-/

namespace DtsuBridge

/-! ## A live bridge -/

/-- A poll cycle that completed. -/
structure Publication where
  values : Sample
  ts : Time

structure BridgeSetup where
  registers : RegisterMap
  dtsu : DtsuConf
  ctRatio : PyFloat
  poller : PollerConf
  server : SupervisorConf

/-- What `_bridge_coros` starts for a bridge that is built. -/
def BuiltBridge.setup (b : BuiltBridge) : BridgeSetup where
  registers := b.registers
  dtsu := b.spec.dtsu
  ctRatio := b.spec.ctRatio
  poller :=
    ⟨b.spec.source.base.stallTimeoutS, b.spec.source.base.reconnectDelayS,
      b.spec.source.base.reconnectDelayMaxS⟩
  server := ⟨b.gate, b.spec.safety.minRestartIntervalS, (5 : ℕ)⟩

structure Bridge where
  poller : PollSupervisor
  supervisor : Supervisor := {}
  served : Served
  /-- The latest reading of the clock. -/
  clock : Time
  /-- The cycles completed so far. -/
  published : List Publication := []

inductive BridgeEvent where
  /-- A poll of the task with this index ends, the clock then reading `ts`. -/
  | cycle (i : ℕ) (poll : Except PyExc Sample) (ts : Time) (onError : Except PyExc Unit)
  | poller (e : DisturbedEvent)
  /-- The server supervisor starts an iteration. -/
  | check (t : Time) (isActive : Option Bool)
  | server (e : SupervisorEvent)

section Float

variable [FloatArith] (conf : BridgeSetup)

namespace Bridge

/-- What `on_update` comes to, if the poll calls it. -/
def update (s : Bridge) (poll : Except PyExc Sample) (ts : Time) : Except PyExc Unit × Served :=
  match poll with
  | .ok values => onUpdate conf.registers.targetSides conf.ctRatio s.served values ts
  | .error _ => (.ok (), s.served)

def publishing (s : Bridge) (poll : Except PyExc Sample) (ts : Time) : List Publication :=
  match poll, (s.update conf poll ts).1 with
  | .ok values, .ok () => s.published ++ [⟨values, ts⟩]
  | _, _ => s.published

/-- The pass of `run_poller` that a poll ends, with the callbacks of `_bridge_coros`. -/
def cycle (s : Bridge) (i : ℕ) (poll : Except PyExc Sample) (ts : Time)
    (onError : Except PyExc Unit) : Option Bridge :=
  let (updated, served) := s.update conf poll ts
  (s.poller.step conf.poller (.loop i (.cycle ⟨poll, ts, updated, onError⟩))).map fun poller =>
    { s with
      poller := poller
      served := served
      clock := ts
      published := s.publishing conf poll ts }

/-- The step of an event, where it can happen. -/
def step (e : BridgeEvent) (s : Bridge) : Option Bridge :=
  match e with
  | .cycle i poll ts onError => if s.clock ≤ ts then s.cycle conf i poll ts onError else none
  -- What a cycle or a check reads is not free here.
  | .poller (.event (.loop _ (.cycle _))) | .server (.check ..) => none
  | .poller e => (s.poller.disturbedStep conf.poller e).map ({ s with poller := · })
  | .check t isActive =>
    if s.clock ≤ t then
      (s.supervisor.step conf.server (.check t (s.served.store.age t) isActive)).map
        ({ s with supervisor := ·, clock := t })
    else none
  | .server e => (s.supervisor.step conf.server e).map ({ s with supervisor := · })

end Bridge

/-- The runs of a bridge from when its coroutines are started. -/
def bridgeSystem : System Bridge BridgeEvent where
  init s := ∃ poller clock, (pollSystem conf.poller).init poller ∧
    s = { poller := poller, served := ⟨bridgeContext conf.registers conf.dtsu, {}⟩, clock := clock }
  step := Bridge.step conf

variable {conf}

/-! ## What a check read -/

/-- The clock reading and the age of the iteration a teardown is part of. -/
def Teardown.reading : Teardown → Option (Time × WithTop Time)
  | .crashed t age | .unopened t age | .stale t age => some (t, age)
  | .exit => none

/-- The clock reading and the age of the current iteration. -/
def SupervisorPc.reading : SupervisorPc → Option (Time × WithTop Time)
  | .top | .returned => none
  | .closing why | .cancelling why => why.reading
  | .waiting t age => some (t, age)

/-- The supervisor's step from one state to another has no reading of its own, and creates
servers on one that was fresh only. -/
structure Reads (conf : SupervisorConf) (s s' : Supervisor)
    (new : Option (Time × WithTop Time)) : Prop where
  reading : ∀ r, s'.pc.reading = some r → s.pc.reading = some r ∨ new = some r
  creates : ∀ id t, .create id t ∈ s'.calls → .create id t ∈ s.calls ∨
    ∃ r, s'.pc.reading = some r ∧ conf.gate.shouldServe r.2 = true

def SupervisorEvent.reading : SupervisorEvent → Option (Time × WithTop Time)
  | .check t age _ => some (t, age)
  | _ => none

section Supervisor

omit [FloatArith]

variable {server : SupervisorConf} {s s' : Supervisor} {new : Option (Time × WithTop Time)}

/-- Calling `shutdown()` creates nothing. -/
theorem callShutdown_reads {srv : Server} {why : Teardown}
    (hwhy : why.reading = none ∨ why.reading = new) :
    Reads server s (s.callShutdown srv why) new where
  reading r hr := by
    rcases hwhy with hwhy | hwhy
    · cases hwhy.symm.trans hr
    · exact Or.inr (hwhy.symm.trans hr)
  creates id t hmem := by simpa [Supervisor.callShutdown] using Or.inl hmem

theorem act_reads {t : Time} {age : WithTop Time}
    (hread : s'.pc.reading = some (t, age) ∨ new = some (t, age)) (hcalls : s.calls = s'.calls) :
    Reads server s' (s.act server t age) new := by
  have hpc : (s.act server t age).pc.reading = some (t, age) ∧
      ∀ id t', .create id t' ∈ (s.act server t age).calls → .create id t' ∈ s.calls ∨
        server.gate.shouldServe age = true := by
    have hcases := serverAction_cases (server.gate.shouldServe age) s.server.isSome t s.lastStart
      server.minRestartInterval
    unfold Supervisor.act
    cases hact : serverAction (server.gate.shouldServe age) s.server.isSome t s.lastStart
        server.minRestartInterval with
    | start =>
      rw [hact] at hcases
      exact ⟨rfl, fun _ _ _ => Or.inr hcases.1⟩
    | wait | none => exact ⟨rfl, fun _ _ hmem => Or.inl hmem⟩
    | stop =>
      cases s.server with
      | none => exact ⟨rfl, fun _ _ hmem => Or.inl hmem⟩
      | some srv =>
        refine ⟨rfl, fun id t' hmem => Or.inl ?_⟩
        simpa [Supervisor.callShutdown] using hmem
  refine ⟨fun r hr => ?_, fun id t' hmem => ?_⟩
  · obtain rfl := Option.some.inj (hpc.1.symm.trans hr)
    exact hread
  · rcases hpc.2 id t' hmem with hmem | hfresh
    · exact Or.inl (hcalls ▸ hmem)
    · exact Or.inr ⟨_, hpc.1, hfresh⟩

/-- The supervisor moves on without a call. -/
theorem quiet_reads (hcalls : s'.calls = s.calls)
    (hpc : s'.pc.reading = none ∨ s'.pc.reading = s.pc.reading) : Reads server s s' new where
  reading r hr := by
    rcases hpc with hpc | hpc
    · cases hpc.symm.trans hr
    · exact Or.inl (hpc.symm.trans hr)
  creates id t hmem := Or.inl (hcalls ▸ hmem)

theorem check_reads (t : Time) (age : WithTop Time) (isActive : Option Bool) :
    Reads server s (s.check server t age isActive) (some (t, age)) := by
  unfold Supervisor.check
  by_cases hstop : s.stopEvent = true
  · rw [if_pos hstop]
    unfold Supervisor.leave
    split
    · exact callShutdown_reads (Or.inl rfl)
    · exact quiet_reads rfl (Or.inl rfl)
  · rw [if_neg hstop]
    split
    · exact act_reads (Or.inr rfl) rfl
    · split_ifs
      · exact callShutdown_reads (Or.inr rfl)
      · exact callShutdown_reads (Or.inr rfl)
      · exact act_reads (Or.inr rfl) rfl

theorem supervisor_reads {e : SupervisorEvent} (hs : s.step server e = some s') :
    Reads server s s' e.reading := by
  unfold Supervisor.step at hs
  split at hs
  · obtain rfl := Option.some.inj hs
    exact check_reads _ _ _
  · unfold Supervisor.serveEnds at hs
    split at hs
    · split_ifs at hs
      obtain rfl := Option.some.inj hs
      exact quiet_reads rfl (Or.inr rfl)
    · cases hs
  · next why hpc =>
    obtain rfl := Option.some.inj hs
    cases why with
    | crashed t age => exact act_reads (Or.inl (by rw [hpc]; rfl)) rfl
    | unopened t age | stale t age | exit => exact quiet_reads rfl (Or.inr (by rw [hpc]; rfl))
  · next why hpc =>
    obtain rfl := Option.some.inj hs
    cases why with
    | crashed t age | unopened t age => exact act_reads (Or.inl (by rw [hpc]; rfl)) rfl
    | stale t age => exact quiet_reads rfl (Or.inr (by rw [hpc]; rfl))
    | exit => exact quiet_reads rfl (Or.inl rfl)
  · obtain rfl := Option.some.inj hs
    exact quiet_reads rfl (Or.inl rfl)
  · obtain rfl := Option.some.inj hs
    exact quiet_reads rfl (Or.inr rfl)
  · cases hs

end Supervisor

/-! ## The invariant -/

/-- A cycle publishes its sample and stamp, or changes nothing that is served. -/
theorem Bridge.cycle_cases {s s' : Bridge} {i : ℕ} {poll : Except PyExc Sample} {ts : Time}
    {onError : Except PyExc Unit} (h : s.cycle conf i poll ts onError = some s') :
    s'.supervisor = s.supervisor ∧ s'.clock = ts ∧
      ((s'.served = s.served ∧ s'.published = s.published) ∨
        ∃ values, s'.published = s.published ++ [⟨values, ts⟩] ∧
          s'.served.store = ⟨values, some ts⟩ ∧
          updateDatastore s.served.datastore values conf.registers.targetSides conf.ctRatio =
            (.ok (), s'.served.datastore)) := by
  obtain ⟨poller, -, rfl⟩ := Option.map_eq_some_iff.1 h
  refine ⟨rfl, rfl, ?_⟩
  unfold publishing update
  rcases poll with exc | values
  · exact Or.inl ⟨rfl, rfl⟩
  · rcases onUpdate_cases conf.registers.targetSides conf.ctRatio s.served values ts with
      ⟨e, he⟩ | ⟨d, hd, he⟩
    · dsimp only
      rw [he]
      exact Or.inl ⟨rfl, rfl⟩
    · dsimp only
      rw [he]
      exact Or.inr ⟨values, rfl, rfl, hd⟩

/-- Everything but a cycle leaves what is served as it is. -/
theorem Bridge.step_cases {s s' : Bridge} {e : BridgeEvent} (h : s.step conf e = some s') :
    (∃ i poll ts onError, e = .cycle i poll ts onError ∧ s.clock ≤ ts ∧
        s.cycle conf i poll ts onError = some s') ∨
      s'.served = s.served ∧ s'.published = s.published := by
  unfold step at h
  split at h
  next i poll ts onError =>
    split_ifs at h with hts
    exact Or.inl ⟨i, poll, ts, onError, rfl, hts, h⟩
  next => cases h
  next => cases h
  next =>
    obtain ⟨poller, -, rfl⟩ := Option.map_eq_some_iff.1 h
    exact Or.inr ⟨rfl, rfl⟩
  next =>
    split_ifs at h
    obtain ⟨supervisor, -, rfl⟩ := Option.map_eq_some_iff.1 h
    exact Or.inr ⟨rfl, rfl⟩
  next =>
    obtain ⟨supervisor, -, rfl⟩ := Option.map_eq_some_iff.1 h
    exact Or.inr ⟨rfl, rfl⟩

/-- What is served is what was published last, and what the supervisor last read of it was
no fresher than it is. -/
structure Guarded (conf : BridgeSetup) (s : Bridge) : Prop where
  registers : publishAll conf.registers.targetSides conf.ctRatio (s.published.map (·.values))
    (bridgeContext conf.registers conf.dtsu) = some s.served.datastore
  stamp : s.served.store.ts = s.published.getLast?.map (·.ts)
  past : ∀ p, s.published.getLast? = some p → p.ts ≤ s.clock
  reading : ∀ r, s.supervisor.pc.reading = some r → conf.server.gate.shouldServe r.2 = true →
    ∃ p, s.published.getLast? = some p ∧ r.1 - p.ts ≤ conf.server.gate.maxAge
  created : ∀ id t, .create id t ∈ s.supervisor.calls → s.published ≠ []

theorem cycle_guarded {s s' : Bridge} (h : Guarded conf s) {i : ℕ} {poll : Except PyExc Sample}
    {ts : Time} {onError : Except PyExc Unit} (hts : s.clock ≤ ts)
    (hs : s.cycle conf i poll ts onError = some s') : Guarded conf s' := by
  obtain ⟨hsup, hclock, ⟨hserved, hpub⟩ | ⟨values, hpub, hstore, hupdate⟩⟩ :=
    Bridge.cycle_cases hs
  · refine ⟨?_, ?_, ?_, ?_, ?_⟩
    · rw [hpub, hserved]
      exact h.registers
    · rw [hpub, hserved]
      exact h.stamp
    · rw [hpub, hclock]
      exact fun p hp => (h.past p hp).trans hts
    · rw [hpub, hsup]
      exact h.reading
    · rw [hpub, hsup]
      exact h.created
  · refine ⟨?_, ?_, ?_, ?_, ?_⟩
    · rw [hpub, List.map_append]
      exact publishAll_snoc h.registers hupdate
    · simp [hpub, hstore]
    · intro p hp
      obtain rfl : ⟨values, ts⟩ = p := by simpa [hpub] using hp
      exact hclock.ge
    · rw [hsup]
      intro r hr hfresh
      obtain ⟨p, hp, hage⟩ := h.reading r hr hfresh
      refine ⟨⟨values, ts⟩, by simp [hpub], le_trans ?_ hage⟩
      exact sub_le_sub_left ((h.past p hp).trans hts) r.1
    · simp [hpub]

/-- A step of the server supervisor. -/
theorem server_guarded {s : Bridge} (h : Guarded conf s) {e : SupervisorEvent}
    {supervisor : Supervisor} (hs : s.supervisor.step conf.server e = some supervisor)
    {clock : Time} (hclock : s.clock ≤ clock)
    (hnew : ∀ r, e.reading = some r → r.2 = s.served.store.age r.1) :
    Guarded conf { s with supervisor := supervisor, clock := clock } := by
  have hreads := supervisor_reads hs
  have hreading : ∀ r, supervisor.pc.reading = some r →
      conf.server.gate.shouldServe r.2 = true →
        ∃ p, s.published.getLast? = some p ∧ r.1 - p.ts ≤ conf.server.gate.maxAge := by
    intro r hr hfresh
    rcases hreads.reading r hr with hr | hr
    · exact h.reading r hr hfresh
    · rw [hnew r hr, HealthGate.shouldServe, decide_eq_true_iff,
        CanonicalStore.age_le_iff] at hfresh
      obtain ⟨ts, hts, hage⟩ := hfresh
      rw [h.stamp] at hts
      obtain ⟨p, hp, rfl⟩ := Option.map_eq_some_iff.1 hts
      exact ⟨p, hp, hage⟩
  refine ⟨h.registers, h.stamp, fun p hp => (h.past p hp).trans hclock, hreading, ?_⟩
  intro id t hmem
  rcases hreads.creates id t hmem with hmem | ⟨r, hr, hfresh⟩
  · exact h.created id t hmem
  · obtain ⟨p, hp, -⟩ := hreading r hr hfresh
    rintro hnil
    rw [hnil] at hp
    cases hp

theorem step_guarded (e : BridgeEvent) (s s' : Bridge) (h : Guarded conf s)
    (hs : s.step conf e = some s') : Guarded conf s' := by
  unfold Bridge.step at hs
  split at hs
  · split_ifs at hs with hts
    exact cycle_guarded h hts hs
  · cases hs
  · cases hs
  · obtain ⟨poller, -, rfl⟩ := Option.map_eq_some_iff.1 hs
    exact ⟨h.registers, h.stamp, h.past, h.reading, h.created⟩
  · split_ifs at hs with ht
    obtain ⟨supervisor, hsup, rfl⟩ := Option.map_eq_some_iff.1 hs
    refine server_guarded h hsup ht fun r hr => ?_
    obtain rfl := Option.some.inj hr
    rfl
  · next e hno =>
    obtain ⟨supervisor, hsup, rfl⟩ := Option.map_eq_some_iff.1 hs
    refine server_guarded h hsup le_rfl fun r hr => ?_
    cases e with
    | check t age isActive => exact absurd rfl (hno t age isActive)
    | serveEnds | shutdownEnds | taskEnds | waitEnds | stop => cases hr

theorem reachable_guarded {s : Bridge} (h : (bridgeSystem conf).Reachable s) :
    Guarded conf s := by
  refine System.ReachableBy.invariant ?_ (fun e s s' h _ hs => step_guarded e s s' h hs) h
  rintro s ⟨poller, clock, -, rfl⟩
  exact ⟨rfl, rfl, nofun, nofun, nofun⟩

/-- The store has the sample published last. -/
theorem reachable_store {s : Bridge} (h : (bridgeSystem conf).Reachable s) :
    s.served.store = match s.published.getLast? with
      | some p => ⟨p.values, some p.ts⟩
      | none => {} := by
  refine h.invariant (I := fun s => s.served.store = match s.published.getLast? with
    | some p => ⟨p.values, some p.ts⟩
    | none => {}) ?_ fun e s s' hstore _ (hs : s.step conf e = some s') => ?_
  · rintro s ⟨poller, clock, -, rfl⟩
    rfl
  · rcases Bridge.step_cases hs with ⟨i, poll, ts, onError, -, -, hcycle⟩ | ⟨hserved, hpub⟩
    · obtain ⟨-, -, ⟨hserved, hpub⟩ | ⟨values, hpub, hnew, -⟩⟩ := Bridge.cycle_cases hcycle
      · rw [hserved, hpub]
        exact hstore
      · rw [hpub, hnew, List.getLast?_concat]
    · rw [hserved, hpub]
      exact hstore

/-- The two supervisors run as they do alone. -/
theorem reachable_supervisors {s : Bridge} (h : (bridgeSystem conf).Reachable s) :
    (disturbedSystem conf.poller).Reachable s.poller ∧
      (supervisorSystem conf.server).Reachable s.supervisor := by
  refine h.invariant (I := fun s => (disturbedSystem conf.poller).Reachable s.poller ∧
    (supervisorSystem conf.server).Reachable s.supervisor) ?_ ?_
  · rintro s ⟨poller, clock, hpoller, rfl⟩
    exact ⟨.init hpoller, .init rfl⟩
  · rintro e s s' ⟨hpoller, hsup⟩ - hs
    change Bridge.step conf e s = some s' at hs
    unfold Bridge.step at hs
    split at hs
    · split_ifs at hs
      obtain ⟨poller, hp, rfl⟩ := Option.map_eq_some_iff.1 hs
      exact ⟨hpoller.step (disturbedSystem_step_event hp), hsup⟩
    · cases hs
    · cases hs
    · obtain ⟨poller, hp, rfl⟩ := Option.map_eq_some_iff.1 hs
      exact ⟨hpoller.step hp, hsup⟩
    · split_ifs at hs
      obtain ⟨supervisor, hp, rfl⟩ := Option.map_eq_some_iff.1 hs
      exact ⟨hpoller, hsup.step hp⟩
    · obtain ⟨supervisor, hp, rfl⟩ := Option.map_eq_some_iff.1 hs
      exact ⟨hpoller, hsup.step hp⟩

/-! ## The fail-safe -/

/-- At the end of an iteration of its server supervisor that leaves a server held, the
registers are the image of the latest sample published, and its stamp is at most the maximum
age before the reading of that iteration. -/
theorem waiting_serves {s : Bridge} (h : (bridgeSystem conf).Reachable s) {t : Time}
    {age : WithTop Time} (hpc : s.supervisor.pc = .waiting t age)
    (hserver : s.supervisor.server.isSome = true) :
    ∃ p ws, s.published.getLast? = some p ∧
      targetWrites p.values conf.ctRatio conf.registers.targetSides = .ok ws ∧
      (∃ before : Datastore, s.served.datastore = before.writeAll ws) ∧
      (PointsFit conf.registers.targetSides
          (bridgeContext conf.registers conf.dtsu).lengths →
        s.served.datastore = (bridgeContext conf.registers conf.dtsu).writeAll ws) ∧
      t - p.ts ≤ conf.server.gate.maxAge := by
  have hg := reachable_guarded h
  have hok := (reachable_ok (reachable_supervisors h).2).2
  rw [PcOk, hpc] at hok
  obtain ⟨p, hp, hage⟩ := hg.reading (t, age) (by rw [hpc]; rfl) (hok hserver)
  have hlast : (s.published.map (·.values)).getLast? = some p.values := by
    rw [List.getLast?_map, hp]
    rfl
  obtain ⟨before, ws, hws, hd⟩ := publishAll_getLast hg.registers hlast
  refine ⟨p, ws, hp, hws, ⟨before, hd⟩, fun hfit => ?_, hage⟩
  have := publishAll_eq hg.registers hfit
  rw [hlast, sampleWrites] at this
  simpa only [hws] using this

/-- In every run of a bridge : at the end of an iteration of its server supervisor that
leaves a server held, the registers are the image of the latest sample published, and its
stamp is at most the maximum age before the reading of that iteration. A server is created
only after a sample is published. -/
theorem fail_safe {s : Bridge} (h : (bridgeSystem conf).Reachable s) :
    (∀ t age, s.supervisor.pc = .waiting t age → s.supervisor.server.isSome = true →
      ∃ p ws, s.published.getLast? = some p ∧
        targetWrites p.values conf.ctRatio conf.registers.targetSides = .ok ws ∧
        (∃ before : Datastore, s.served.datastore = before.writeAll ws) ∧
        (PointsFit conf.registers.targetSides
            (bridgeContext conf.registers conf.dtsu).lengths →
          s.served.datastore = (bridgeContext conf.registers conf.dtsu).writeAll ws) ∧
        t - p.ts ≤ conf.server.gate.maxAge) ∧
    ∀ id t, .create id t ∈ s.supervisor.calls → s.published ≠ [] :=
  ⟨fun _ _ hpc hserver => waiting_serves h hpc hserver, (reachable_guarded h).created⟩

end Float

/-- A bridge of one point, at most three seconds of age. -/
def freqBridge : BridgeSetup :=
  ⟨freqMap 102, tcpConf, .lit tcpConf.identity.irAt.val, minuteConf, promptConf⟩

/-- A poll that publishes at 0, and a check a second later. -/
def onePoll : List BridgeEvent :=
  [.poller (.event (.loop 0 .test)), .cycle 0 (.ok freqSample) 0 (.ok ()), .check 1 none]

/-- The check leaves a server held, and what it serves is a second old. -/
theorem fail_safe_onePoll : ∃ s, (@bridgeSystem .double freqBridge).Reachable s ∧
    s.supervisor.server.isSome = true ∧
      ∃ p, s.published.getLast? = some p ∧ 1 - p.ts ≤ 3 := by
  let s0 : Bridge :=
    { poller := .initial false 0, served := ⟨bridgeContext (freqMap 102) tcpConf, {}⟩, clock := 0 }
  have hrun : ((@bridgeSystem .double freqBridge).run onePoll s0).any (fun s =>
      s.supervisor.server.isSome && match s.supervisor.pc with
        | .waiting t _ => t = 1
        | .top | .closing _ | .cancelling _ | .returned => false) = true := by
    decide +kernel
  obtain ⟨s, hs, hp⟩ := (Option.any_eq_true _ _).1 hrun
  obtain ⟨hserver, hpc⟩ := (Bool.and_eq_true _ _).mp hp
  have hreach : (@bridgeSystem .double freqBridge).Reachable s :=
    System.reachable_of_run (.init ⟨_, _, ⟨false, 0, rfl⟩, rfl⟩) onePoll hs
  split at hpc
  · next t age hwait =>
    obtain rfl : t = 1 := by simpa using hpc
    obtain ⟨p, -, hp, -, -, -, hage⟩ :=
      (@fail_safe .double freqBridge s hreach).1 1 age hwait hserver
    exact ⟨s, hreach, hserver, p, hp, hage⟩
  all_goals cases hpc

end DtsuBridge
