import DtsuBridge.FailSafe

/-!
# The age of what is served through the hub

A bridge behind the hub, in one run with the streams of its connections. Its poll tasks
read the caches that the streams fill, the store is stamped when a poll returns, and the
server supervisor judges that stamp. One clock that does not go back is read by all of
them, and a poll suspends nowhere, so that its reads and its stamp have one reading.

`hub_age_bound` : at the end of an iteration of the server supervisor that leaves a server
held, the registers are the image of a sample that a poll computed from updates of the hub,
and each of these was received at most the maximum age of the bridge and the staleness
threshold of the cache before the reading of that iteration.
-/

namespace DtsuBridge

section Float

variable [FloatArith]

/-! ## A bridge behind the hub -/

/-- How old a block may get in the cache of its connections. -/
def BuiltBridge.maxStaleS (b : BuiltBridge) : TimeLimit :=
  stalenessThreshold b.spec.source.base.pollIntervalS b.spec.source.base.timeoutS

/-- A bridge and the connections its clients read through. -/
structure HubRun where
  bridge : Bridge
  /-- The connection of each client, by its number. -/
  conns : ℕ → HubConnection
  /-- The updates each connection has received. -/
  received : ℕ → List Delivery := fun _ => []
  /-- The clock that all of them read. -/
  now : Time

inductive HubRunEvent where
  | advance (dt : Time)
  /-- Something happens to the connection of a client. -/
  | hub (client : ℕ) (e : HubEvent)
  /-- A task polls, with these channels muted. -/
  | cycle (i : ℕ) (overrangeSeen : Option (Finset String)) (onError : Except PyExc Unit)
  | poller (e : DisturbedEvent)
  | check (isActive : Option Bool)
  | server (e : SupervisorEvent)

/-- What an event of a connection delivers. -/
def HubEvent.delivered (now : Time) : HubEvent → List Delivery
  | .deliver u => [⟨u, now⟩]
  | _ => []

namespace HubRun

variable (b : BuiltBridge)

/-- What a poll through a connection comes to. -/
def poll (conn : HubConnection) (overrangeSeen : Option (Finset String)) :
    Except PyExc Sample :=
  (pollOnceFn b.spec.source.type (makeHubClient b.spec.source conn) b.side b.spec.source.unitId
    overrangeSeen).result

/-- The bridge has made a step. The clients that its supervisor closed are closed. -/
def moved (s : HubRun) (bridge : Bridge) : HubRun :=
  { s with
    bridge := bridge
    conns := fun c =>
      if bridge.poller.calls.any (·.closes c) then (s.conns c).close else s.conns c }

/-- The step of an event, where it can happen. -/
def step (e : HubRunEvent) (s : HubRun) : Option HubRun :=
  match e with
  | .advance dt =>
    if 0 ≤ dt then
      some { s with
        conns := fun c => { s.conns c with now := (s.conns c).now + dt }
        now := s.now + dt }
    else none
  | .hub _ (.advance _) => none
  | .hub c e =>
    if c ≤ s.bridge.poller.client then
      ((s.conns c).step e).map fun conn =>
        { s with
          conns := Function.update s.conns c conn
          received := Function.update s.received c (s.received c ++ e.delivered s.now) }
    else none
  | .cycle i overrangeSeen onError =>
    (s.bridge.poller.loop? i).bind fun loop =>
      (s.bridge.step b.setup
        (.cycle i (poll b (s.conns loop.client) overrangeSeen) s.now onError)).map s.moved
  | .poller e => (s.bridge.step b.setup (.poller e)).map s.moved
  | .check isActive => (s.bridge.step b.setup (.check s.now isActive)).map s.moved
  | .server e => (s.bridge.step b.setup (.server e)).map s.moved

end HubRun

/-- The runs of a bridge behind the hub from when its coroutines are started. -/
def hubRuns (b : BuiltBridge) : System HubRun HubRunEvent where
  init s := b.spec.source.base.viaHub = true ∧ ∃ bridge conn,
    (bridgeSystem b.setup).init bridge ∧
      makeHubConnection b.spec.name b.spec.source b.side bridge.clock = .ok conn ∧
      s = { bridge := bridge, conns := fun _ => conn, now := bridge.clock }
  step := HubRun.step b

/-! ## Where a sample comes from -/

/-- The sample is what a poll makes of answers that are all out of these updates, each out of
one without an error whose block covers the read. -/
def ComputedFrom (source : SourceConf) (side : SourceSide) (updates : List Delivery)
    (values : Sample) : Prop :=
  ∃ (conn : ℕ → Client) (seen : Option (Finset String)),
    (pollOnceFn source.type (makeClient source conn) side source.unitId seen).result =
      .ok values ∧
    ∀ (i : ℕ) (device : ℤ × String), (hubDevices source)[i]? = some device →
      ∀ (n : ℕ) (req : Request), (requestsOf source.type side device.1)[n]? = some req →
        ∃ d ∈ updates, d.update.error = "" ∧
          d.covers device.2 req.slave req.fc.code req.address req.count = true ∧
          conn i n req = .ok ⟨d.registersAt req.address req.count, none⟩

omit [FloatArith] in
/-- A lookup that succeeds answers with the covering entry received last, which is fresh and
has no error. -/
theorem BlockCache.lookup_isOk {cache : BlockCache} {now : Time} {link : String}
    {unitId fc addr count : ℤ}
    (h : (cache.lookup now link unitId fc addr count).isError = false) :
    ∃ key entry, cache.best link unitId fc addr count = some (key, entry) ∧
      truthy entry.error = false ∧
      ((now - entry.receivedAt : Time) : TimeLimit) ≤ cache.maxStaleS ∧
      cache.lookup now link unitId fc addr count =
        ⟨slice (entry.registers.getD []) (addr - key.base) (addr - key.base + count), none⟩ := by
  unfold lookup at h ⊢
  split at h
  next => cases h
  next hup =>
    split at h
    next => cases h
    next key entry hbest =>
      dsimp only at h
      split_ifs at h with herror hage
      · cases h
      · cases h
      · have herror : truthy entry.error = false := by simpa using herror
        refine ⟨key, entry, hbest, herror, not_lt.1 hage, ?_⟩
        simp [herror, hage, -WithTop.LinearOrderedAddCommGroup.coe_sub]

omit [FloatArith] in
/-- A read that succeeds answers out of a delivery that covers it and is fresh. -/
theorem Tracks.read_isOk {maxStaleS : TimeLimit} {start : Time} {events : List HubEvent}
    {conn : HubConnection} (h : Tracks maxStaleS start events conn) {link : String}
    {fc addr count slave : ℤ}
    (hread : (conn.read link fc addr count slave).isError = false) :
    ∃ d ∈ deliveries start events, d.update.error = "" ∧
      d.covers link slave fc addr count = true ∧
      ((conn.now - d.receivedAt : Time) : TimeLimit) ≤ maxStaleS ∧
      conn.read link fc addr count slave = ⟨d.registersAt addr count, none⟩ := by
  obtain ⟨key, entry, hbest, herror, hage, hlookup⟩ := BlockCache.lookup_isOk hread
  obtain ⟨hmem, hcov⟩ := List.mem_filter.1 (List.argmax_mem (Option.mem_def.2 hbest))
  obtain ⟨d, hd, rfl, rfl⟩ := exists_deliver_of_entry h hmem
  rw [Delivery.receivedAt_entry, h.maxStaleS] at hage
  have hnone : d.update.error = "" := by
    by_contra hne
    rw [truthy_eq_false_iff] at herror
    exact hne (herror _ (by simp [Delivery.entry, hne]))
  refine ⟨d, hd, hnone, hcov, hage, hlookup.trans ?_⟩
  simp [Delivery.entry, hnone, Delivery.registersAt]

variable {b : BuiltBridge} {s s' : HubRun}

/-- A sample that a poll returns is computed from what the connection has received and may
still serve. -/
theorem computedFrom_of_poll {start : Time} {events : List HubEvent} {conn : HubConnection}
    (h : Tracks b.maxStaleS start events conn) {seen : Option (Finset String)} {values : Sample}
    (hpoll : HubRun.poll b conn seen = .ok values) :
    ComputedFrom b.spec.source b.side
      ((deliveries start events).filter fun d =>
        ((conn.now - d.receivedAt : Time) : TimeLimit) ≤ b.maxStaleS)
      values := by
  refine ⟨fun i => hubClient conn ((hubLinks b.spec.source)[i]?.getD ""), seen, hpoll, ?_⟩
  intro i device hdevice n req hreq
  obtain ⟨rr, hrr, hok⟩ := answered_of_isOk hpoll hdevice hreq
  dsimp only
  rw [hubLinks_getD hdevice] at hrr ⊢
  obtain rfl := Except.ok.inj hrr
  obtain ⟨d, hd, herror, hcov, hage, hread⟩ := h.read_isOk hok
  refine ⟨d, List.mem_filter.2 ⟨hd, decide_eq_true hage⟩, herror, hcov, ?_⟩
  rw [hubClient, hread]

/-! ## The invariant -/

/-- A connection on the clock, and what it has received. -/
structure Follows (maxStaleS : TimeLimit) (now : Time) (received : List Delivery)
    (conn : HubConnection) : Prop where
  now : conn.now = now
  tracks : ∃ start events, Tracks maxStaleS start events conn ∧
    received = deliveries start events

omit [FloatArith] in
/-- An event adds what it delivers. -/
theorem Follows.step {maxStaleS : TimeLimit} {now : Time} {received : List Delivery}
    {conn conn' : HubConnection} (h : Follows maxStaleS now received conn) {e : HubEvent}
    (hs : conn.step e = some conn') :
    Follows maxStaleS (clockAfter now [e]) (received ++ e.delivered now) conn' := by
  obtain ⟨rfl, start, events, htracks, rfl⟩ := h
  have htracks' := tracks_step events e conn conn' htracks hs
  refine ⟨?_, start, events ++ [e], htracks', ?_⟩
  · rw [htracks'.now, clockAfter_append, ← htracks.now]
  · rw [deliveries_append, ← htracks.now]
    cases e <;> rfl

omit [FloatArith] in
theorem Follows.close {maxStaleS : TimeLimit} {now : Time} {received : List Delivery}
    {conn : HubConnection} (h : Follows maxStaleS now received conn) :
    Follows maxStaleS now received conn.close := by
  have := h.step (show conn.step .close = some conn.close from rfl)
  simpa [clockAfter, HubEvent.delivered] using this

/-- What is published through the hub, of updates that were fresh for the cache. -/
structure HubGuarded (b : BuiltBridge) (s : HubRun) : Prop where
  follows : ∀ c, Follows b.maxStaleS s.now (s.received c) (s.conns c)
  published : ∀ p ∈ s.bridge.published, ∃ c updates,
    ComputedFrom b.spec.source b.side updates p.values ∧
      ∀ d ∈ updates, d ∈ s.received c ∧
        ((p.ts - d.receivedAt : Time) : TimeLimit) ≤ b.maxStaleS

/-- Only a cycle publishes, and what its poll returned. -/
theorem Bridge.mem_published {conf : BridgeSetup} {s s' : Bridge} {e : BridgeEvent}
    (hs : s.step conf e = some s') {p : Publication} (hp : p ∈ s'.published) :
    p ∈ s.published ∨ ∃ i onError, e = .cycle i (.ok p.values) p.ts onError := by
  rcases Bridge.step_cases hs with ⟨i, poll, ts, onError, rfl, -, hcycle⟩ | ⟨-, hpub⟩
  · obtain ⟨poller, -, rfl⟩ := Option.map_eq_some_iff.1 hcycle
    dsimp only [Bridge.publishing] at hp
    split at hp
    next values hpoll _ =>
      rcases List.mem_append.1 hp with hp | hp
      · exact Or.inl hp
      · obtain rfl := List.mem_singleton.1 hp
        exact Or.inr ⟨i, onError, rfl⟩
    next => exact Or.inl hp
  · exact Or.inl (hpub ▸ hp)

/-- A step of the run is a step of the bridge, or one that leaves it as it is. -/
theorem hubStep_bridge {e : HubRunEvent} (hs : s.step b e = some s') :
    s'.bridge = s.bridge ∨ ∃ e', s.bridge.step b.setup e' = some s'.bridge := by
  unfold HubRun.step at hs
  split at hs
  next =>
    split_ifs at hs
    obtain rfl := Option.some.inj hs
    exact Or.inl rfl
  next => cases hs
  next =>
    split_ifs at hs
    obtain ⟨conn, -, rfl⟩ := Option.map_eq_some_iff.1 hs
    exact Or.inl rfl
  next =>
    obtain ⟨loop, -, hs⟩ := Option.bind_eq_some_iff.1 hs
    obtain ⟨bridge, hb, rfl⟩ := Option.map_eq_some_iff.1 hs
    exact Or.inr ⟨_, hb⟩
  all_goals
    obtain ⟨bridge, hb, rfl⟩ := Option.map_eq_some_iff.1 hs
    exact Or.inr ⟨_, hb⟩

/-- The bridge runs as any bridge does. -/
theorem reachable_bridge (h : (hubRuns b).Reachable s) :
    (bridgeSystem b.setup).Reachable s.bridge := by
  refine h.invariant (I := fun s => (bridgeSystem b.setup).Reachable s.bridge) ?_
    fun e s s' hr _ (hs : s.step b e = some s') => ?_
  · rintro s ⟨-, bridge, conn, hinit, -, rfl⟩
    exact .init hinit
  · rcases hubStep_bridge hs with heq | ⟨e', hb⟩
    · exact heq ▸ hr
    · exact hr.step hb

/-- A step of the bridge, whose polls read a connection at the clock. -/
theorem HubGuarded.moved (h : HubGuarded b s) {e : BridgeEvent} {bridge : Bridge}
    (hb : s.bridge.step b.setup e = some bridge)
    (hpoll : ∀ i values ts onError, e = .cycle i (.ok values) ts onError →
      ts = s.now ∧ ∃ c seen, HubRun.poll b (s.conns c) seen = .ok values) :
    HubGuarded b (s.moved bridge) where
  follows c := by
    change Follows _ _ _ (if _ then _ else _)
    split_ifs
    · exact (h.follows c).close
    · exact h.follows c
  published p hp := by
    rcases Bridge.mem_published hb hp with hp | ⟨i, onError, rfl⟩
    · exact h.published p hp
    · obtain ⟨hts, c, seen, hpoll⟩ := hpoll i p.values p.ts onError rfl
      obtain ⟨hnow, start, events, htracks, hreceived⟩ := h.follows c
      refine ⟨c, _, computedFrom_of_poll htracks hpoll, fun d hd => ?_⟩
      obtain ⟨hmem, hage⟩ := List.mem_filter.1 hd
      rw [hnow, ← hts] at hage
      exact ⟨hreceived ▸ hmem, of_decide_eq_true hage⟩

theorem hubStep_guarded (h : HubGuarded b s) {e : HubRunEvent} (hs : s.step b e = some s') :
    HubGuarded b s' := by
  unfold HubRun.step at hs
  split at hs
  next dt =>
    split_ifs at hs with hdt
    obtain rfl := Option.some.inj hs
    refine ⟨fun c => ?_, h.published⟩
    have := (h.follows c).step (e := .advance dt) (if_pos hdt)
    simpa [HubEvent.delivered, clockAfter] using this
  next => cases hs
  next c e hno =>
    split_ifs at hs
    obtain ⟨conn, hconn, rfl⟩ := Option.map_eq_some_iff.1 hs
    have hclock : clockAfter s.now [e] = s.now := by
      rcases e with dt | _ | _ | _ | _ | _
      · exact absurd rfl (hno dt)
      all_goals rfl
    refine ⟨fun c' => ?_, fun p hp => ?_⟩
    · by_cases hc : c' = c
      · subst hc
        have := (h.follows c').step hconn
        simpa [hclock] using this
      · simpa [hc] using h.follows c'
    · obtain ⟨c', updates, hcomputed, hupdates⟩ := h.published p hp
      refine ⟨c', updates, hcomputed, fun d hd => ⟨?_, (hupdates d hd).2⟩⟩
      have hmem := (hupdates d hd).1
      by_cases hc : c' = c
      · subst hc
        simpa using Or.inl hmem
      · simpa [hc] using hmem
  next i seen onError =>
    obtain ⟨loop, -, hs⟩ := Option.bind_eq_some_iff.1 hs
    obtain ⟨bridge, hb, rfl⟩ := Option.map_eq_some_iff.1 hs
    refine h.moved hb fun i' values ts onError' he => ?_
    obtain ⟨-, hpoll, hts, -⟩ := BridgeEvent.cycle.inj he
    exact ⟨hts.symm, _, _, hpoll⟩
  all_goals
    obtain ⟨bridge, hb, rfl⟩ := Option.map_eq_some_iff.1 hs
    exact h.moved hb fun i values ts onError he => by cases he

theorem reachable_hubGuarded (h : (hubRuns b).Reachable s) : HubGuarded b s := by
  refine h.invariant (I := HubGuarded b) ?_
    fun e s s' hg _ (hs : s.step b e = some s') => hubStep_guarded hg hs
  rintro s ⟨-, bridge, conn, ⟨poller, clock, -, rfl⟩, hconn, rfl⟩
  obtain ⟨blocks, -, hconn⟩ := Except.bind_eq_ok.1 hconn
  obtain rfl := Except.ok.inj hconn
  exact ⟨fun c => ⟨rfl, clock, [], tracks_new _ _ _ _ _, rfl⟩, nofun⟩

/-! ## The bound -/

/-- In every run of a bridge behind the hub : at the end of an iteration of its server
supervisor that leaves a server held, the registers are the image of a sample computed from
updates that one of its connections received, each of them at most the maximum age and the
staleness threshold before the reading of that iteration. -/
theorem hub_age_bound (h : (hubRuns b).Reachable s) {t : Time} {age : WithTop Time}
    (hpc : s.bridge.supervisor.pc = .waiting t age)
    (hserver : s.bridge.supervisor.server.isSome = true) :
    ∃ values ws,
      targetWrites values b.spec.ctRatio b.registers.targetSides = .ok ws ∧
      (∃ before : Datastore, s.bridge.served.datastore = before.writeAll ws) ∧
      (PointsFit b.registers.targetSides (bridgeContext b.registers b.spec.dtsu).lengths →
        s.bridge.served.datastore = (bridgeContext b.registers b.spec.dtsu).writeAll ws) ∧
      ∃ c updates, ComputedFrom b.spec.source b.side updates values ∧
        ∀ d ∈ updates, d ∈ s.received c ∧
          ((t - d.receivedAt : Time) : TimeLimit) ≤ b.spec.safety.maxDataAgeS +
            stalenessThreshold b.spec.source.base.pollIntervalS b.spec.source.base.timeoutS := by
  obtain ⟨p, ws, hp, hws, hbefore, hfit, hage⟩ := waiting_serves (reachable_bridge h) hpc hserver
  obtain ⟨c, updates, hcomputed, hupdates⟩ :=
    (reachable_hubGuarded h).published p (List.mem_of_getLast? hp)
  refine ⟨p.values, ws, hws, hbefore, hfit, c, updates, hcomputed, fun d hd => ?_⟩
  obtain ⟨hmem, hstale⟩ := hupdates d hd
  have hage : ((t - p.ts : Time) : TimeLimit) ≤ b.spec.safety.maxDataAgeS :=
    WithTop.coe_le_coe.2 hage
  refine ⟨hmem, ?_⟩
  calc ((t - d.receivedAt : Time) : TimeLimit)
      = ((t - p.ts : Time) : TimeLimit) + ((p.ts - d.receivedAt : Time) : TimeLimit) := by
        rw [← WithTop.coe_add, sub_add_sub_cancel]
    _ ≤ _ := add_le_add hage hstale

end Float

/-- The bridge of an ND45 behind the hub. -/
def hubBuilt : BuiltBridge where
  spec := { mainBridge with source := hubConf, usable := mainBridge.usable }
  registers := freqMap 102
  side := freqSource
  found := rfl
  covered := rfl

/-- Every block comes once, a poll publishes it, and a check follows a second later. -/
def hubPoll : List HubRunEvent :=
  zeroUpdates.map (.hub 0) ++ [.poller (.event (.loop 0 .test)), .cycle 0 (some ∅) (.ok ()),
    .advance 1, .check none]

/-- The check leaves a server held, and what it serves was received in the 4 s before. -/
theorem hub_age_bound_hubPoll : ∃ s, (@hubRuns .double hubBuilt).Reachable s ∧
    s.bridge.supervisor.server.isSome = true ∧
      ∃ values c updates, @ComputedFrom .double hubConf freqSource updates values ∧
        ∀ d ∈ updates, d ∈ s.received c ∧ 1 - d.receivedAt ≤ 3 + 1 := by
  let conn : HubConnection := .new meterKeys hubBuilt.maxStaleS 1 30 0
  let s₀ : HubRun :=
    { bridge :=
        { poller := .initial false 0, served := ⟨bridgeContext (freqMap 102) mainBridge.dtsu, {}⟩
          clock := 0 }
      conns := fun _ => conn
      now := 0 }
  have hinit : (@hubRuns .double hubBuilt).init s₀ :=
    ⟨rfl, s₀.bridge, conn, ⟨_, 0, ⟨false, 0, rfl⟩, rfl⟩, rfl, rfl⟩
  have hrun : ((@hubRuns .double hubBuilt).run hubPoll s₀).any (fun s =>
      s.bridge.supervisor.server.isSome && match s.bridge.supervisor.pc with
        | .waiting t _ => t = 1
        | .top | .closing _ | .cancelling _ | .returned => false) = true := by
    decide +kernel
  obtain ⟨s, hs, hp⟩ := (Option.any_eq_true _ _).1 hrun
  obtain ⟨hserver, hpc⟩ := (Bool.and_eq_true _ _).mp hp
  have hreach : (@hubRuns .double hubBuilt).Reachable s :=
    System.reachable_of_run (.init hinit) hubPoll hs
  split at hpc
  next t age hwait =>
    obtain rfl : t = 1 := by simpa using hpc
    obtain ⟨values, ws, -, -, -, c, updates, hcomputed, hupdates⟩ :=
      @hub_age_bound .double hubBuilt s hreach 1 age hwait hserver
    refine ⟨s, hreach, hserver, values, c, updates, hcomputed, fun d hd => ?_⟩
    obtain ⟨hmem, hage⟩ := hupdates d hd
    have hbound : (hubBuilt.spec.safety.maxDataAgeS : TimeLimit) + stalenessThreshold
        hubBuilt.spec.source.base.pollIntervalS hubBuilt.spec.source.base.timeoutS =
          ((3 + 1 : Time) : TimeLimit) := by
      decide +kernel
    exact ⟨hmem, WithTop.coe_le_coe.1 (hbound ▸ hage)⟩
  all_goals cases hpc

end DtsuBridge
