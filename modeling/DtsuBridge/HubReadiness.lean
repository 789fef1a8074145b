import DtsuBridge.HubCache

/-!
# When a hub connection is ready

`connect` starts the stream and waits until every declared block has been delivered once,
with data or with an error. The blocks still to come are a set that updates drain, and the
event that is set when it is empty is never cleared. What `connect` returns is read off the
state of the stream when it goes on, which failures and `close` change (`ConnectEnds`).

`connect_exact` : `connect` returns true only if the connection is not closed, the stream is
up and every declared block has been delivered. Where all of this holds, it returns true.
-/

namespace DtsuBridge

/-! ## A call of `connect` -/

/-- What `connect` returns, by the states it is called and ends in. It goes on when the
event is set, at the latest when its time is up, unless the event was set before. -/
inductive ConnectEnds (atCall atEnd : HubConnection) : Bool → Prop
  | closed : atCall.closed = true → ConnectEnds atCall atEnd false
  | ready : atCall.closed = false → atEnd.ready = true → ConnectEnds atCall atEnd atEnd.connected
  | timeout : atCall.closed = false → atCall.ready = false → ConnectEnds atCall atEnd false

/-- It returns true only where the event is set and the stream is up in the end. -/
theorem ConnectEnds.of_true {atCall atEnd : HubConnection} {result : Bool}
    (h : ConnectEnds atCall atEnd result) (htrue : result = true) :
    atEnd.ready = true ∧ atEnd.connected = true := by
  cases h with
  | closed => cases htrue
  | ready _ hready => exact ⟨hready, htrue⟩
  | timeout => cases htrue

/-- Where the event is set before the call, it returns whether the stream is up. -/
theorem ConnectEnds.of_ready {atCall atEnd : HubConnection} {result : Bool}
    (h : ConnectEnds atCall atEnd result) (hopen : atCall.closed = false)
    (hready : atCall.ready = true) : result = atEnd.connected := by
  cases h with
  | closed hclosed => exact absurd (hopen.symm.trans hclosed) Bool.false_ne_true
  | ready => rfl
  | timeout _ hnot => exact absurd (hnot.symm.trans hready) Bool.false_ne_true

/-! ## What is still awaited -/

/-- An update of the block is among the events. -/
def Delivered (events : List HubEvent) (key : BlockKey) : Prop :=
  ∃ u, HubEvent.deliver u ∈ events ∧ u.key = key

@[simp] theorem not_delivered_nil (key : BlockKey) : ¬Delivered [] key := by
  simp [Delivered]

theorem delivered_concat_deliver {events : List HubEvent} {u : BlockUpdate} {key : BlockKey} :
    Delivered (events ++ [.deliver u]) key ↔ Delivered events key ∨ u.key = key := by
  simp only [Delivered, List.mem_append, List.mem_singleton, HubEvent.deliver.injEq, or_and_right,
    exists_or, exists_eq_left]

theorem delivered_concat_of_quiet {events : List HubEvent} {e : HubEvent}
    (he : ∀ u, e ≠ .deliver u) {key : BlockKey} :
    Delivered (events ++ [e]) key ↔ Delivered events key := by
  simp [Delivered, (he _).symm]

theorem Delivered.append {events : List HubEvent} {key : BlockKey} (h : Delivered events key)
    (more : List HubEvent) : Delivered (events ++ more) key := by
  obtain ⟨u, hu, hkey⟩ := h
  exact ⟨u, List.mem_append_left _ hu, hkey⟩

/-- A stream that is up has delivered something. -/
theorem StreamUp.exists_delivered {events : List HubEvent} (h : StreamUp events) :
    ∃ key, Delivered events key := by
  obtain ⟨pre, u, post, rfl, -⟩ := h
  exact ⟨u.key, u, by simp, rfl⟩

/-- What a connection keeps of the blocks that have come. -/
structure Awaits (blocks : List BlockKey) (events : List HubEvent) (conn : HubConnection) :
    Prop where
  awaited : ∀ key, key ∈ conn.awaited ↔ key ∈ blocks ∧ ¬Delivered events key
  ready : conn.ready = true ↔
    (∃ key, Delivered events key) ∧ ∀ key ∈ blocks, Delivered events key

theorem awaits_new (blocks : List BlockKey) (maxStaleS : TimeLimit)
    (delayS delayMaxS start : Time) :
    Awaits blocks [] (.new blocks maxStaleS delayS delayMaxS start) where
  awaited key := by simp [HubConnection.new]
  ready := by simp [HubConnection.new]

theorem awaits_deliver {blocks : List BlockKey} {events : List HubEvent} {conn : HubConnection}
    (h : Awaits blocks events conn) (u : BlockUpdate) :
    Awaits blocks (events ++ [.deliver u]) (conn.deliver u) := by
  have hawaited : ∀ key, key ∈ conn.awaited.erase u.key ↔
      key ∈ blocks ∧ ¬Delivered (events ++ [.deliver u]) key := by
    intro key
    rw [Finset.mem_erase, h.awaited, delivered_concat_deliver, not_or]
    exact ⟨fun ⟨hne, hmem, hno⟩ => ⟨hmem, hno, Ne.symm hne⟩,
      fun ⟨hmem, hno, hne⟩ => ⟨Ne.symm hne, hmem, hno⟩⟩
  have hempty : conn.awaited.erase u.key = ∅ ↔
      ∀ key ∈ blocks, Delivered (events ++ [.deliver u]) key := by
    rw [Finset.eq_empty_iff_forall_notMem]
    refine forall_congr' fun key => ?_
    rw [hawaited, not_and, not_not]
  refine ⟨hawaited, ?_⟩
  simp only [HubConnection.deliver, Bool.or_eq_true, decide_eq_true_eq, hempty, h.ready]
  have hsome : ∃ key, Delivered (events ++ [.deliver u]) key :=
    ⟨u.key, delivered_concat_deliver.2 (Or.inr rfl)⟩
  refine ⟨?_, fun hall => Or.inr hall.2⟩
  rintro (⟨-, hall⟩ | hall)
  · exact ⟨hsome, fun key hkey => (hall key hkey).append _⟩
  · exact ⟨hsome, hall⟩

/-- No delivery. -/
theorem Awaits.quiet {blocks : List BlockKey} {events : List HubEvent} {e : HubEvent}
    {conn conn' : HubConnection} (h : Awaits blocks events conn) (he : ∀ u, e ≠ .deliver u)
    (hawaited : conn'.awaited = conn.awaited) (hready : conn'.ready = conn.ready) :
    Awaits blocks (events ++ [e]) conn' where
  awaited key := by rw [hawaited, h.awaited, delivered_concat_of_quiet he]
  ready := by
    rw [hready, h.ready]
    simp only [delivered_concat_of_quiet he]

theorem awaits_step {blocks : List BlockKey} (events : List HubEvent) (e : HubEvent)
    (conn conn' : HubConnection) (h : Awaits blocks events conn)
    (hs : conn.step e = some conn') : Awaits blocks (events ++ [e]) conn' := by
  cases HubConnection.moves_of_step hs with
  | deliver => exact awaits_deliver h _
  | advance | connected | started | fail | wake | closedBefore | close =>
    exact h.quiet (by simp) rfl rfl

/-- What a connection awaits after a run from the start. -/
theorem awaits_run {blocks : List BlockKey} {maxStaleS : TimeLimit}
    {delayS delayMaxS start : Time}
    {events : List HubEvent} {conn : HubConnection}
    (h : (hubSystem (.new blocks maxStaleS delayS delayMaxS start)).run events
      (.new blocks maxStaleS delayS delayMaxS start) = some conn) :
    Awaits blocks events conn :=
  System.run_history awaits_step events (awaits_new _ _ _ _ _) h

/-! ## Readiness -/

/-- A connection is connected while it is not closed and the stream is up. -/
theorem connected_iff {blocks : List BlockKey} {maxStaleS : TimeLimit}
    {delayS delayMaxS start : Time}
    {events : List HubEvent} {conn : HubConnection}
    (h : (hubSystem (.new blocks maxStaleS delayS delayMaxS start)).run events
      (.new blocks maxStaleS delayS delayMaxS start) = some conn) :
    conn.connected = true ↔ HubEvent.close ∉ events ∧ StreamUp events := by
  rw [HubConnection.connected, Option.isNone_iff_eq_none]
  exact (tracks_run h).up

theorem HubConnection.connect_keeps (conn : HubConnection) :
    conn.connect.ready = conn.ready ∧ conn.connect.cache = conn.cache := by
  have h := conn.moves_connect
  generalize conn.connect = conn' at h ⊢
  cases h with
  | connected => exact ⟨rfl, rfl⟩
  | started => exact ⟨rfl, rfl⟩

/-- `connect` is called after some events of a run and ends after some more. It returns true
only if the connection is not closed, the stream is up and every declared block has been
delivered by then. Where every declared block was delivered before the call, the stream was up
and the connection not closed, it may return true at once, and whenever it ends it returns true
if the stream is up and the connection not closed then. -/
theorem connect_exact {blocks : List BlockKey} {maxStaleS : TimeLimit}
    {delayS delayMaxS start : Time}
    {pre mid : List HubEvent} {atCall atEnd : HubConnection}
    (hpre : (hubSystem (.new blocks maxStaleS delayS delayMaxS start)).run pre
      (.new blocks maxStaleS delayS delayMaxS start) = some atCall)
    (hmid : (hubSystem (.new blocks maxStaleS delayS delayMaxS start)).run (.connect :: mid)
      atCall = some atEnd) :
    (ConnectEnds atCall atEnd true → HubEvent.close ∉ pre ++ .connect :: mid ∧
      StreamUp (pre ++ .connect :: mid) ∧
      ∀ key ∈ blocks, Delivered (pre ++ .connect :: mid) key) ∧
    (HubEvent.close ∉ pre → StreamUp pre → (∀ key ∈ blocks, Delivered pre key) →
      ConnectEnds atCall atCall.connect true ∧
      (HubEvent.close ∉ pre ++ .connect :: mid → StreamUp (pre ++ .connect :: mid) →
        (∃ result, ConnectEnds atCall atEnd result) ∧
        ∀ result, ConnectEnds atCall atEnd result → result = true)) := by
  have hrun : (hubSystem (.new blocks maxStaleS delayS delayMaxS start)).run
      (pre ++ .connect :: mid) (.new blocks maxStaleS delayS delayMaxS start) = some atEnd := by
    rw [System.run_append, hpre]
    exact hmid
  have hup : atEnd.connected = true ↔ HubEvent.close ∉ pre ++ .connect :: mid ∧
      StreamUp (pre ++ .connect :: mid) := connected_iff hrun
  have hready := (awaits_run hrun).ready
  refine ⟨fun h => ?_, fun hopen hstream hall => ?_⟩
  · obtain ⟨hr, hc⟩ := h.of_true rfl
    obtain ⟨hclose, hstream⟩ := hup.1 hc
    exact ⟨hclose, hstream, (hready.1 hr).2⟩
  · have hclosed : atCall.closed = false := by
      rw [← Bool.not_eq_true, (tracks_run hpre).closed]
      exact hopen
    have hset : atCall.ready = true :=
      (awaits_run hpre).ready.2 ⟨hstream.exists_delivered, hall⟩
    have hsetEnd : atEnd.ready = true := by
      obtain ⟨key, hkey⟩ := hstream.exists_delivered
      exact hready.2 ⟨⟨key, hkey.append _⟩, fun key hkey => (hall key hkey).append _⟩
    refine ⟨?_, fun hclose hstreamEnd => ⟨⟨_, .ready hclosed hsetEnd⟩, fun result h => ?_⟩⟩
    · obtain ⟨hready, hcache⟩ := atCall.connect_keeps
      have hconnected : atCall.connect.connected = true := by
        rw [HubConnection.connected, hcache]
        exact (connected_iff hpre).2 ⟨hopen, hstream⟩
      have h := ConnectEnds.ready hclosed (hready.trans hset)
      rwa [hconnected] at h
    · rw [h.of_ready hclosed hset]
      exact hup.2 ⟨hclose, hstreamEnd⟩

/-- Two blocks of a meter. -/
def pairKeys : List BlockKey :=
  [⟨"meter", 1, 3, 50, 2⟩, ⟨"meter", 1, 3, 818, 2⟩]

/-- The first comes, and the second with an error after the stream has failed. -/
def pairDelivered : List HubEvent :=
  [.connect, .deliver ⟨⟨"meter", 1, 3, 50, 2⟩, [1, 2], ""⟩, .fail "unavailable", .advance 1, .wake,
    .deliver ⟨⟨"meter", 1, 3, 818, 2⟩, [], "i/o timeout"⟩]

/-- Then `connect` returns true. -/
theorem connect_exact_pairDelivered : ∃ atCall atEnd,
    (hubSystem (.new pairKeys 1 1 30 0)).run pairDelivered (.new pairKeys 1 1 30 0) =
      some atCall ∧
    (hubSystem (.new pairKeys 1 1 30 0)).run [.connect] atCall = some atEnd ∧
    ConnectEnds atCall atCall.connect true ∧
    ∀ result, ConnectEnds atCall atEnd result → result = true := by
  obtain ⟨atCall, hpre⟩ : ∃ atCall, (hubSystem (.new pairKeys 1 1 30 0)).run pairDelivered
      (.new pairKeys 1 1 30 0) = some atCall := Option.isSome_iff_exists.1 (by decide +kernel)
  have hmid : (hubSystem (.new pairKeys 1 1 30 0)).run [.connect] atCall =
    some atCall.connect := rfl
  have hall : ∀ key ∈ pairKeys, Delivered pairDelivered key := by
    intro key hkey
    simp only [pairKeys, List.mem_cons, List.not_mem_nil, or_false] at hkey
    rcases hkey with rfl | rfl
    · exact ⟨_, List.mem_cons_of_mem _ List.mem_cons_self, rfl⟩
    · exact ⟨_, List.mem_of_getElem? (i := 5) rfl, rfl⟩
  obtain ⟨-, h⟩ := connect_exact hpre hmid
  obtain ⟨hnow, hend⟩ := h (by simp [pairDelivered])
    ⟨pairDelivered.take 5, _, [], rfl, by simp⟩ hall
  obtain ⟨-, hresult⟩ := hend (by simp [pairDelivered])
    ⟨pairDelivered.take 5, _, [.connect], rfl, by simp⟩
  exact ⟨atCall, atCall.connect, hpre, hmid, hnow, hresult⟩

end DtsuBridge
