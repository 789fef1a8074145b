import DtsuBridge.Pollers
import DtsuBridge.Lib.Latest
import DtsuBridge.Lib.Run

/-!
# The hub connection

A hub pushes blocks of registers over a stream, and reads are answered from what came
last (`BlockCache.lookup`). `HubConnection` is the connection and its stream task, and
`hubSystem` its runs : updates delivered, stream failures, the wait before the next
session, `connect` and `close`, and the clock.

`read_isOk_iff` : over every run whose updates have increasing receipt times, a read
succeeds exactly when the connection is open, an update came since the last failure, and
the latest update of a block that covers the range carried no error and is fresh. It then
answers with that update's registers.
-/

namespace DtsuBridge

/-- The number of a function code. -/
def FunctionCode.code : FunctionCode → ℤ
  | holding => 3
  | input => 4

/-! ## The block cache -/

/-- One contiguous register range on one device behind one hub link. -/
structure BlockKey where
  link : String
  unitId : ℤ
  fc : ℤ
  base : ℤ
  count : ℤ
deriving DecidableEq

def BlockKey.covers (key : BlockKey) (link : String) (unitId fc addr count : ℤ) : Bool :=
  key.link = link && key.unitId = unitId && key.fc = fc && key.base ≤ addr &&
    addr + count ≤ key.base + key.count

/-- A string that is there and not empty. -/
def truthy (s : Option String) : Bool :=
  s.any (· ≠ "")

/-- `_Entry` -/
structure Entry where
  registers : Option (List ℕ)
  receivedAt : Time
  error : Option String := none

/-- Last update per subscribed block, plus the staleness rule. -/
structure BlockCache where
  entries : Dict BlockKey Entry := .empty
  maxStaleS : TimeLimit
  /-- Set while the stream is down. -/
  streamError : Option String := some "not connected yet"

namespace BlockCache

def setStreamError (cache : BlockCache) (error : Option String) : BlockCache :=
  { cache with streamError := error }

def update (cache : BlockCache) (now : Time) (key : BlockKey) (registers : List ℕ)
    (error : Option String) : BlockCache :=
  let registers := if truthy error then none else some registers
  { cache with entries := cache.entries.set key ⟨registers, now, error⟩ }

/-- The covering entry received last. -/
def best (cache : BlockCache) (link : String) (unitId fc addr count : ℤ) :
    Option (BlockKey × Entry) :=
  (cache.entries.entries.filter (·.1.covers link unitId fc addr count)).argmax (·.2.receivedAt)

def errorResponse (error : String) : Response := ⟨[], some error⟩

def lookup (cache : BlockCache) (now : Time) (link : String) (unitId fc addr count : ℤ) :
    Response :=
  match cache.streamError with
  | some error => errorResponse s!"modbus-hub stream down: {error}"
  | none =>
    match cache.best link unitId fc addr count with
    | none =>
      errorResponse (s!"no subscribed block covers link {strRepr link} unit {unitId} " ++
        s!"fc {fc} addr {addr} count {count}")
    | some (key, entry) =>
      let error := entry.error.getD ""
      if truthy entry.error then errorResponse s!"modbus-hub reported: {error}"
      else
        let age := now - entry.receivedAt
        if cache.maxStaleS < (age : TimeLimit) then
          errorResponse (s!"stale block link {strRepr link} unit {unitId} fc {fc} " ++
            s!"addr {key.base} count {key.count}: {fixed2 age}s old " ++
            s!"(limit {fixed2Limit cache.maxStaleS}s)")
        else
          -- `update` leaves no registers only with an error.
          let offset := addr - key.base
          ⟨slice (entry.registers.getD []) offset (offset + count), none⟩

end BlockCache

/-! ## The connection -/

/-- A message of the stream. -/
structure BlockUpdate where
  key : BlockKey
  registers : List ℕ
  error : String := ""

/-- Where the task of `_run` is. -/
inductive StreamTask where
  /-- Not created yet, or cancelled. -/
  | none
  /-- In `_stream_once`. -/
  | streaming
  /-- Asleep until a time before the next session. -/
  | waiting (wakeAt : Time)
deriving DecidableEq

/-- `HubConnection`, and the clock it reads. -/
structure HubConnection where
  blocks : List BlockKey
  reconnectDelayS : Time := 1
  reconnectDelayMaxS : Time := 30
  cache : BlockCache
  task : StreamTask := .none
  /-- The local `delay` of `_run`. -/
  delay : Time
  closed : Bool := false
  ready : Bool := false
  /-- Declared blocks no update came of yet. -/
  awaited : Finset BlockKey
  now : Time

namespace HubConnection

/-- `__init__` -/
def new (blocks : List BlockKey) (maxStaleS : TimeLimit)
    (reconnectDelayS reconnectDelayMaxS now : Time) :
    HubConnection where
  blocks := blocks
  reconnectDelayS := reconnectDelayS
  reconnectDelayMaxS := reconnectDelayMaxS
  cache := { maxStaleS := maxStaleS }
  delay := reconnectDelayS
  awaited := blocks.toFinset
  now := now

def connected (conn : HubConnection) : Bool :=
  conn.cache.streamError.isNone

/-- `connect` starts the stream task, once. -/
def connect (conn : HubConnection) : HubConnection :=
  if conn.closed then conn
  else if conn.task = .none then
    { conn with task := .streaming, delay := conn.reconnectDelayS }
  else conn

def close (conn : HubConnection) : HubConnection :=
  if conn.closed then conn
  else
    { conn with
      closed := true
      task := .none
      cache := conn.cache.setStreamError (some "closed") }

def read (conn : HubConnection) (link : String) (fc addr count slave : ℤ) : Response :=
  conn.cache.lookup conn.now link slave fc addr count

/-- One turn of the loop over the stream. -/
def deliver (conn : HubConnection) (u : BlockUpdate) : HubConnection :=
  let error := if u.error = "" then none else some u.error
  let registers := if u.error = "" then u.registers else []
  let awaited := conn.awaited.erase u.key
  { conn with
    cache := (conn.cache.update conn.now u.key registers error).setStreamError none
    awaited := awaited
    ready := conn.ready || awaited = ∅ }

/-- The handler of `_run` around `_stream_once`, which never returns. -/
def fail (conn : HubConnection) (exc : String) : HubConnection :=
  { conn with
    cache := conn.cache.setStreamError (some exc)
    task := .waiting (conn.now + conn.delay) }

/-- The next session, after the wait. -/
def wake (conn : HubConnection) : HubConnection :=
  { conn with
    task := .streaming
    delay := min (conn.delay * 2) conn.reconnectDelayMaxS }

end HubConnection

inductive HubEvent where
  | advance (dt : Time)
  | connect
  | deliver (u : BlockUpdate)
  /-- The stream raises, or ends. -/
  | fail (exc : String)
  /-- The wait is over and the next session starts. -/
  | wake
  | close

/-- The step of an event, where it can happen. Cancelling the task stops its deliveries. -/
def HubConnection.step : HubEvent → HubConnection → Option HubConnection
  | .advance dt, conn => if 0 ≤ dt then some { conn with now := conn.now + dt } else none
  | .connect, conn => some conn.connect
  | .deliver u, conn => if conn.task = .streaming then some (conn.deliver u) else none
  | .fail exc, conn => if conn.task = .streaming then some (conn.fail exc) else none
  | .wake, conn =>
    match conn.task with
    | .waiting wakeAt => if wakeAt ≤ conn.now then some conn.wake else none
    | _ => none
  | .close, conn => some conn.close

/-- What an event does to a connection, and where it can happen. -/
inductive HubConnection.Moves (conn : HubConnection) : HubEvent → HubConnection → Prop
  | advance {dt : Time} : 0 ≤ dt → Moves conn (.advance dt) { conn with now := conn.now + dt }
  | connected : conn.closed = true ∨ conn.task ≠ .none → Moves conn .connect conn
  | started : conn.closed = false → conn.task = .none →
      Moves conn .connect { conn with task := .streaming, delay := conn.reconnectDelayS }
  | deliver {u : BlockUpdate} : conn.task = .streaming → Moves conn (.deliver u) (conn.deliver u)
  | fail {exc : String} : conn.task = .streaming → Moves conn (.fail exc) (conn.fail exc)
  | wake {wakeAt : Time} : conn.task = .waiting wakeAt → wakeAt ≤ conn.now →
      Moves conn .wake conn.wake
  | closedBefore : conn.closed = true → Moves conn .close conn
  | close : conn.closed = false →
      Moves conn .close { conn with
        closed := true, task := .none, cache := conn.cache.setStreamError (some "closed") }

theorem HubConnection.moves_connect (conn : HubConnection) : conn.Moves .connect conn.connect := by
  unfold connect
  by_cases hclosed : conn.closed = true
  · rw [if_pos hclosed]
    exact .connected (Or.inl hclosed)
  · rw [if_neg hclosed]
    by_cases htask : conn.task = .none
    · rw [if_pos htask]
      exact .started (by simpa using hclosed) htask
    · rw [if_neg htask]
      exact .connected (Or.inr htask)

theorem HubConnection.moves_close (conn : HubConnection) : conn.Moves .close conn.close := by
  unfold close
  by_cases hclosed : conn.closed = true
  · rw [if_pos hclosed]
    exact .closedBefore hclosed
  · rw [if_neg hclosed]
    exact .close (by simpa using hclosed)

/-- A step is one of the moves. -/
theorem HubConnection.moves_of_step {e : HubEvent} {conn conn' : HubConnection}
    (hs : conn.step e = some conn') : conn.Moves e conn' := by
  cases e with
  | advance dt =>
    simp only [step] at hs
    split_ifs at hs with hdt
    obtain rfl := Option.some.inj hs
    exact .advance hdt
  | connect =>
    obtain rfl := Option.some.inj hs
    exact conn.moves_connect
  | deliver u =>
    simp only [step] at hs
    split_ifs at hs with ht
    obtain rfl := Option.some.inj hs
    exact .deliver ht
  | fail exc =>
    simp only [step] at hs
    split_ifs at hs with ht
    obtain rfl := Option.some.inj hs
    exact .fail ht
  | wake =>
    simp only [step] at hs
    split at hs
    · next wakeAt ht =>
      split_ifs at hs with hle
      obtain rfl := Option.some.inj hs
      exact .wake ht hle
    · cases hs
  | close =>
    obtain rfl := Option.some.inj hs
    exact conn.moves_close

/-- The runs of a connection. -/
def hubSystem (conn : HubConnection) : System HubConnection HubEvent where
  init := (· = conn)
  step := HubConnection.step

/-! ## What has been delivered -/

/-- An update and when it was received. -/
structure Delivery where
  update : BlockUpdate
  receivedAt : Time

namespace Delivery

def covers (d : Delivery) (link : String) (unitId fc addr count : ℤ) : Bool :=
  d.update.key.covers link unitId fc addr count

/-- What the cache keeps of a delivery. -/
def entry (d : Delivery) : Entry :=
  if d.update.error = "" then ⟨some d.update.registers, d.receivedAt, none⟩
  else ⟨none, d.receivedAt, some d.update.error⟩

end Delivery

/-- The deliveries of a sequence of events that starts at a time. -/
def deliveries : Time → List HubEvent → List Delivery
  | _, [] => []
  | now, .advance dt :: events => deliveries (now + dt) events
  | now, .deliver u :: events => ⟨u, now⟩ :: deliveries now events
  | now, _ :: events => deliveries now events

/-- The clock after the events. -/
def clockAfter : Time → List HubEvent → Time
  | now, [] => now
  | now, .advance dt :: events => clockAfter (now + dt) events
  | now, _ :: events => clockAfter now events

/-- An update came, and no failure after it. -/
def StreamUp (events : List HubEvent) : Prop :=
  ∃ pre u post, events = pre ++ .deliver u :: post ∧ ∀ exc, HubEvent.fail exc ∉ post

theorem deliveries_append : ∀ (now : Time) (as bs : List HubEvent),
    deliveries now (as ++ bs) = deliveries now as ++ deliveries (clockAfter now as) bs
  | _, [], _ => rfl
  | now, a :: as, bs => by
    cases a <;> simp [deliveries, clockAfter, deliveries_append]

/-- The deliveries are those of the events. -/
theorem exists_delivery_iff {u : BlockUpdate} : ∀ {now : Time} {events : List HubEvent},
    (∃ d ∈ deliveries now events, d.update = u) ↔ HubEvent.deliver u ∈ events
  | _, [] => by simp [deliveries]
  | now, e :: events => by
    have ih : ∀ now, (∃ d ∈ deliveries now events, d.update = u) ↔ HubEvent.deliver u ∈ events :=
      fun now => exists_delivery_iff
    cases e with
    | deliver u' =>
      rw [deliveries, List.exists_mem_cons_iff, ih, List.mem_cons, HubEvent.deliver.injEq]
      exact or_congr_left eq_comm
    | _ => simpa [deliveries] using ih _

theorem clockAfter_append : ∀ (now : Time) (as bs : List HubEvent),
    clockAfter now (as ++ bs) = clockAfter (clockAfter now as) bs
  | _, [], _ => rfl
  | now, a :: as, bs => by
    cases a <;> simp [clockAfter, clockAfter_append]

/-- A delivery brings the stream up, a failure down. -/
theorem streamUp_concat {events : List HubEvent} {e : HubEvent} :
    StreamUp (events ++ [e]) ↔
      (∃ u, e = .deliver u) ∨ StreamUp events ∧ ∀ exc, e ≠ .fail exc := by
  refine ⟨?_, ?_⟩
  · rintro ⟨pre, u, post, h, hno⟩
    rcases List.eq_nil_or_concat post with rfl | ⟨post, e', rfl⟩
    · exact Or.inl ⟨u, List.singleton_inj.1 (List.append_inj' h rfl).2⟩
    · rw [List.concat_eq_append] at h hno
      rw [← List.cons_append, ← List.append_assoc] at h
      obtain ⟨rfl, he⟩ := List.append_inj' h rfl
      obtain rfl := List.singleton_inj.1 he
      refine Or.inr ⟨⟨pre, u, post, rfl, fun exc hmem => ?_⟩, ?_⟩
      · exact hno exc (List.mem_append_left _ hmem)
      · rintro exc rfl
        exact hno exc (by simp)
  · rintro (⟨u, rfl⟩ | ⟨⟨pre, u, post, rfl, hno⟩, he⟩)
    · exact ⟨events, u, [], rfl, by simp⟩
    · refine ⟨pre, u, post ++ [e], by simp, fun exc hmem => ?_⟩
      rcases List.mem_append.1 hmem with hmem | hmem
      · exact hno exc hmem
      · exact he exc (List.mem_singleton.1 hmem).symm

/-! ## The connection along a run -/

/-- What a connection has kept of the events since it was new. -/
structure Tracks (maxStaleS : TimeLimit) (start : Time) (events : List HubEvent)
    (conn : HubConnection) : Prop where
  now : conn.now = clockAfter start events
  maxStaleS : conn.cache.maxStaleS = maxStaleS
  entry : ∀ key, conn.cache.entries.get? key =
    ((deliveries start events).findRev? (·.update.key = key)).map Delivery.entry
  closed : conn.closed = true ↔ HubEvent.close ∈ events
  up : conn.cache.streamError = none ↔ HubEvent.close ∉ events ∧ StreamUp events
  task : conn.closed = true → conn.task = .none

theorem tracks_new (blocks : List BlockKey) (maxStaleS : TimeLimit)
    (delayS delayMaxS start : Time) :
    Tracks maxStaleS start [] (.new blocks maxStaleS delayS delayMaxS start) where
  now := rfl
  maxStaleS := rfl
  entry _ := rfl
  closed := by simp [HubConnection.new]
  up := by simp [HubConnection.new, StreamUp]
  task := by simp [HubConnection.new]

theorem truthy_eq_false_iff {s : Option String} : truthy s = false ↔ ∀ x, s = some x → x = "" := by
  cases s <;> simp [truthy]

/-- What the cache keeps of an update. -/
theorem update_deliver (cache : BlockCache) (now : Time) (u : BlockUpdate) :
    cache.update now u.key (if u.error = "" then u.registers else [])
        (if u.error = "" then none else some u.error) =
      { cache with entries := cache.entries.set u.key (Delivery.entry ⟨u, now⟩) } := by
  by_cases h : u.error = ""
  · simp [BlockCache.update, Delivery.entry, truthy, h]
  · simp [BlockCache.update, Delivery.entry, truthy, h]

/-- No delivery, no failure and no close. -/
theorem Tracks.quiet {maxStaleS : TimeLimit} {start : Time} {events : List HubEvent} {e : HubEvent}
    {conn conn' : HubConnection} (h : Tracks maxStaleS start events conn)
    (hdeliver : ∀ u, e ≠ .deliver u) (hfail : ∀ exc, e ≠ .fail exc) (hclose : e ≠ .close)
    (hnow : conn'.now = clockAfter conn.now [e]) (hcache : conn'.cache = conn.cache)
    (hclosed : conn'.closed = conn.closed) (htask : conn.closed = true → conn'.task = .none) :
    Tracks maxStaleS start (events ++ [e]) conn' := by
  have hnone : ∀ now, deliveries now [e] = [] := by
    intro now
    cases e with
    | deliver u => exact absurd rfl (hdeliver u)
    | _ => rfl
  refine ⟨?_, hcache ▸ h.maxStaleS, fun key => ?_, ?_, ?_, fun hc => htask (hclosed ▸ hc)⟩
  · rw [hnow, clockAfter_append, h.now]
  · rw [hcache, h.entry, deliveries_append, hnone, List.append_nil]
  · rw [hclosed, h.closed]
    simp [hclose.symm]
  · rw [hcache, h.up, streamUp_concat]
    simp [hdeliver, hfail, hclose.symm]

theorem tracks_deliver {maxStaleS : TimeLimit} {start : Time} {events : List HubEvent}
    {conn : HubConnection} (h : Tracks maxStaleS start events conn)
    (hopen : HubEvent.close ∉ events) (u : BlockUpdate) :
    Tracks maxStaleS start (events ++ [.deliver u]) (conn.deliver u) := by
  refine ⟨?_, h.maxStaleS, fun key => ?_, ?_, ?_, h.task⟩
  · simpa [clockAfter_append, clockAfter, HubConnection.deliver] using h.now
  · simp only [HubConnection.deliver, update_deliver, BlockCache.setStreamError,
      Dict.get?_set, deliveries_append, deliveries, ← h.now]
    have hentry := h.entry key
    split_ifs with hk
    · simp [hk]
    · simpa [Ne.symm hk] using hentry
  · simpa [HubConnection.deliver] using h.closed
  · simpa [streamUp_concat, HubConnection.deliver, BlockCache.setStreamError] using hopen

theorem tracks_fail {maxStaleS : TimeLimit} {start : Time} {events : List HubEvent}
    {conn : HubConnection} (h : Tracks maxStaleS start events conn)
    (hopen : HubEvent.close ∉ events) (exc : String) :
    Tracks maxStaleS start (events ++ [.fail exc]) (conn.fail exc) := by
  refine ⟨?_, h.maxStaleS, ?_, ?_, ?_, fun hc => absurd (h.closed.1 hc) hopen⟩
  · simpa [clockAfter_append, clockAfter, HubConnection.fail] using h.now
  · simpa [deliveries_append, deliveries, HubConnection.fail, BlockCache.setStreamError]
      using h.entry
  · simpa [HubConnection.fail] using h.closed
  · simp [streamUp_concat, HubConnection.fail, BlockCache.setStreamError]

/-- A close of an open connection. -/
theorem tracks_close {maxStaleS : TimeLimit} {start : Time} {events : List HubEvent}
    {conn : HubConnection} (h : Tracks maxStaleS start events conn) :
    Tracks maxStaleS start (events ++ [.close]) { conn with
      closed := true, task := .none, cache := conn.cache.setStreamError (some "closed") } := by
  refine ⟨?_, h.maxStaleS, fun key => ?_, by simp, by simp [BlockCache.setStreamError],
    fun _ => rfl⟩
  · simpa [clockAfter_append, clockAfter] using h.now
  · simpa [deliveries_append, deliveries, BlockCache.setStreamError] using h.entry key

/-- A close of a connection that is closed. -/
theorem tracks_closedBefore {maxStaleS : TimeLimit} {start : Time} {events : List HubEvent}
    {conn : HubConnection} (h : Tracks maxStaleS start events conn) (hc : conn.closed = true) :
    Tracks maxStaleS start (events ++ [.close]) conn := by
  have hup : conn.cache.streamError ≠ none := fun hnone => (h.up.1 hnone).1 (h.closed.1 hc)
  refine ⟨?_, h.maxStaleS, fun key => ?_, by simp [hc], by simp [hup], h.task⟩
  · simpa [clockAfter_append, clockAfter] using h.now
  · simpa [deliveries_append, deliveries] using h.entry key

theorem tracks_step {maxStaleS : TimeLimit} {start : Time} (events : List HubEvent) (e : HubEvent)
    (conn conn' : HubConnection) (h : Tracks maxStaleS start events conn)
    (hs : conn.step e = some conn') : Tracks maxStaleS start (events ++ [e]) conn' := by
  have hopen : conn.task = .streaming → HubEvent.close ∉ events := by
    intro ht hmem
    rw [h.task (h.closed.2 hmem)] at ht
    cases ht
  cases HubConnection.moves_of_step hs with
  | advance hdt => exact h.quiet (by simp) (by simp) (by simp) rfl rfl rfl h.task
  | connected => exact h.quiet (by simp) (by simp) (by simp) rfl rfl rfl h.task
  | started hclosed ht =>
    exact h.quiet (by simp) (by simp) (by simp) rfl rfl rfl (by simp [hclosed])
  | deliver ht => exact tracks_deliver h (hopen ht) _
  | fail ht => exact tracks_fail h (hopen ht) _
  | wake ht hle =>
    refine h.quiet (by simp) (by simp) (by simp) rfl rfl rfl fun hc => ?_
    rw [h.task hc] at ht
    cases ht
  | closedBefore hc => exact tracks_closedBefore h hc
  | close => exact tracks_close h

/-- What a connection has kept after a run from the start. -/
theorem tracks_run {blocks : List BlockKey} {maxStaleS : TimeLimit}
    {delayS delayMaxS start : Time}
    {events : List HubEvent} {conn : HubConnection}
    (h : (hubSystem (.new blocks maxStaleS delayS delayMaxS start)).run events
      (.new blocks maxStaleS delayS delayMaxS start) = some conn) :
    Tracks maxStaleS start events conn :=
  System.run_history tracks_step events (tracks_new _ _ _ _ _) h

/-! ## What a read answers -/

@[simp] theorem Delivery.receivedAt_entry (d : Delivery) : d.entry.receivedAt = d.receivedAt := by
  unfold entry
  split_ifs <;> rfl

section Run

variable {maxStaleS : TimeLimit} {start : Time} {events : List HubEvent} {conn : HubConnection}
  (h : Tracks maxStaleS start events conn)
  (hstamps : (deliveries start events).Pairwise (·.receivedAt < ·.receivedAt))

include h hstamps

/-- The cache has the last delivery of the key of every delivery. -/
theorem exists_entry {d : Delivery} (hd : d ∈ deliveries start events) :
    ∃ d', Latest.IsLatest Delivery.receivedAt (·.update.key = d.update.key)
        (deliveries start events) d' ∧
      (d.update.key, d'.entry) ∈ conn.cache.entries.entries := by
  obtain ⟨d', hd'⟩ := Latest.exists_isLatest (p := (·.update.key = d.update.key)) hstamps hd
    (decide_eq_true rfl)
  refine ⟨d', hd', Dict.get?_eq_some_iff.1 ?_⟩
  rw [h.entry, (Latest.findRev?_eq_some_iff hstamps).2 hd']
  rfl

/-- The cache has nothing but last deliveries. -/
theorem exists_delivery {key : BlockKey} {entry : Entry}
    (he : (key, entry) ∈ conn.cache.entries.entries) :
    ∃ d, Latest.IsLatest Delivery.receivedAt (·.update.key = key) (deliveries start events) d ∧
      d.entry = entry := by
  have hget := Dict.get?_eq_some_iff.2 he
  rw [h.entry] at hget
  obtain ⟨d, hd, hentry⟩ := Option.map_eq_some_iff.1 hget
  exact ⟨d, (Latest.findRev?_eq_some_iff hstamps).1 hd, hentry⟩

/-- The covering entry received last is the latest covering delivery's. -/
theorem best_eq_some {link : String} {unitId fc addr count : ℤ} {d : Delivery}
    (hd : Latest.IsLatest Delivery.receivedAt (·.covers link unitId fc addr count)
      (deliveries start events) d) :
    conn.cache.best link unitId fc addr count = some (d.update.key, d.entry) := by
  obtain ⟨d', hd', hmem'⟩ := exists_entry h hstamps hd.mem
  cases hb : conn.cache.best link unitId fc addr count with
  | none =>
    rw [BlockCache.best, List.argmax_eq_none, List.filter_eq_nil_iff] at hb
    exact absurd hd.accepted (hb _ hmem')
  | some e =>
    obtain ⟨key, entry⟩ := e
    obtain ⟨hmem, hcov⟩ := List.mem_filter.1 (List.argmax_mem (Option.mem_def.2 hb))
    obtain ⟨d₂, hd₂, rfl⟩ := exists_delivery h hstamps hmem
    have hkey : d₂.update.key = key := of_decide_eq_true hd₂.accepted
    have hcov₂ : d₂.covers link unitId fc addr count = true := by
      rw [Delivery.covers, hkey]
      exact hcov
    have hle : d'.receivedAt ≤ d₂.receivedAt := by
      simpa using List.le_of_mem_argmax (List.mem_filter.2 ⟨hmem', hd.accepted⟩)
        (Option.mem_def.2 hb)
    have heq : d = d₂ := by
      refine hd.unique hstamps ⟨hd₂.mem, hcov₂, fun y hy hp => ?_⟩
      exact (hd.le y hy hp).trans ((hd'.le d hd.mem (decide_eq_true rfl)).trans hle)
    rw [← hkey, heq]

theorem best_eq_none {link : String} {unitId fc addr count : ℤ}
    (hno : ∀ d ∈ deliveries start events, d.covers link unitId fc addr count = false) :
    conn.cache.best link unitId fc addr count = none := by
  rw [BlockCache.best, List.argmax_eq_none, List.filter_eq_nil_iff]
  rintro ⟨key, entry⟩ hmem hcov
  obtain ⟨d, hd, -⟩ := exists_delivery h hstamps hmem
  have hkey : d.update.key = key := of_decide_eq_true hd.accepted
  have := hno d hd.mem
  rw [Delivery.covers, hkey] at this
  simp [this] at hcov

end Run

/-- The latest delivery that covers a range, the last one of its key, without an error and
fresh. -/
structure Servable (maxStaleS : TimeLimit) (now : Time) (ds : List Delivery) (link : String)
    (unitId fc addr count : ℤ) (d : Delivery) : Prop where
  latest : Latest.IsLatest Delivery.receivedAt (·.covers link unitId fc addr count) ds d
  last : ∀ e ∈ ds, e.update.key = d.update.key → e.receivedAt ≤ d.receivedAt
  noError : d.update.error = ""
  fresh : ((now - d.receivedAt : Time) : TimeLimit) ≤ maxStaleS

/-- The registers of a delivery at a range. -/
def Delivery.registersAt (d : Delivery) (addr count : ℤ) : List ℕ :=
  slice d.update.registers (addr - d.update.key.base) (addr - d.update.key.base + count)

/-- The answer where the covering entry received last is a fresh delivery's. -/
theorem BlockCache.lookup_of_best {cache : BlockCache} {now : Time} {link : String}
    {unitId fc addr count : ℤ} {d : Delivery} (hup : cache.streamError = none)
    (hbest : cache.best link unitId fc addr count = some (d.update.key, d.entry))
    (herror : d.update.error = "")
    (hfresh : ((now - d.receivedAt : Time) : TimeLimit) ≤ cache.maxStaleS) :
    cache.lookup now link unitId fc addr count = ⟨d.registersAt addr count, none⟩ := by
  unfold lookup
  rw [hup]
  simp only [hbest, Delivery.receivedAt_entry, if_neg hfresh.not_gt]
  simp [Delivery.entry, herror, truthy, Delivery.registersAt]

/-- While the stream is up, a read answers with the latest covering delivery where it is
fit to be served, and otherwise with an error and no registers. -/
theorem lookup_cases {maxStaleS : TimeLimit} {start : Time} {events : List HubEvent}
    {conn : HubConnection} (h : Tracks maxStaleS start events conn)
    (hstamps : (deliveries start events).Pairwise (·.receivedAt < ·.receivedAt))
    (hup : conn.cache.streamError = none) (link : String) (fc addr count slave : ℤ) :
    (∃ d, Servable maxStaleS (clockAfter start events) (deliveries start events) link slave fc
        addr count d ∧ conn.read link fc addr count slave = ⟨d.registersAt addr count, none⟩) ∨
      (¬∃ d, Servable maxStaleS (clockAfter start events) (deliveries start events) link slave fc
          addr count d) ∧
        ∃ error, conn.read link fc addr count slave = BlockCache.errorResponse error := by
  by_cases hcov : ∃ d ∈ deliveries start events, d.covers link slave fc addr count = true
  · obtain ⟨d₀, hmem₀, hcov₀⟩ := hcov
    obtain ⟨d, hd⟩ := Latest.exists_isLatest (p := (·.covers link slave fc addr count)) hstamps
      hmem₀ hcov₀
    have hlast : ∀ e ∈ deliveries start events, e.update.key = d.update.key →
        e.receivedAt ≤ d.receivedAt := by
      intro e he hkey
      refine hd.le e he ?_
      rw [Delivery.covers, hkey]
      exact hd.accepted
    have hbest := best_eq_some h hstamps hd
    by_cases hfit : d.update.error = "" ∧
        ((clockAfter start events - d.receivedAt : Time) : TimeLimit) ≤ maxStaleS
    · refine Or.inl ⟨d, ⟨hd, hlast, hfit.1, hfit.2⟩, ?_⟩
      refine BlockCache.lookup_of_best hup hbest hfit.1 ?_
      rw [h.now, h.maxStaleS]
      exact hfit.2
    · refine Or.inr ⟨?_, ?_⟩
      · rintro ⟨d', hd'⟩
        obtain rfl := hd'.latest.unique hstamps hd
        exact hfit ⟨hd'.noError, hd'.fresh⟩
      · unfold HubConnection.read BlockCache.lookup
        simp only [hup, hbest, Delivery.receivedAt_entry, h.now, h.maxStaleS]
        by_cases herror : d.update.error = ""
        · have hage : maxStaleS < ((clockAfter start events - d.receivedAt : Time) : TimeLimit) :=
            not_le.1 fun hle => hfit ⟨herror, hle⟩
          simp [Delivery.entry, herror, truthy, hage, -WithTop.LinearOrderedAddCommGroup.coe_sub]
        · simp [Delivery.entry, herror, truthy]
  · have hno : ∀ d ∈ deliveries start events, d.covers link slave fc addr count = false := by
      intro d hd
      by_contra hc
      exact hcov ⟨d, hd, by simpa using hc⟩
    refine Or.inr ⟨?_, ?_⟩
    · rintro ⟨d, hd⟩
      exact hcov ⟨d, hd.latest.mem, hd.latest.accepted⟩
    · rw [HubConnection.read, BlockCache.lookup, hup, best_eq_none h hstamps hno]
      exact ⟨_, rfl⟩

/-- A read succeeds exactly when the connection is open, an update came since the last
failure, and the latest covering delivery is fit to be served, whose registers it then
answers with. -/
theorem read_isOk_iff {blocks : List BlockKey} {maxStaleS : TimeLimit}
    {delayS delayMaxS start : Time}
    {events : List HubEvent} {conn : HubConnection}
    (hrun : (hubSystem (.new blocks maxStaleS delayS delayMaxS start)).run events
      (.new blocks maxStaleS delayS delayMaxS start) = some conn)
    (hstamps : (deliveries start events).Pairwise (·.receivedAt < ·.receivedAt))
    (link : String) (fc addr count slave : ℤ) :
    ((conn.read link fc addr count slave).isError = false ↔
      HubEvent.close ∉ events ∧ StreamUp events ∧
        ∃ d, Servable maxStaleS (clockAfter start events) (deliveries start events) link slave
          fc addr count d) ∧
    ((conn.read link fc addr count slave).isError = false →
      ∃ d, Servable maxStaleS (clockAfter start events) (deliveries start events) link slave
          fc addr count d ∧
        (conn.read link fc addr count slave).registers = d.registersAt addr count) ∧
    ((conn.read link fc addr count slave).isError = true →
      (conn.read link fc addr count slave).registers = []) := by
  have h := tracks_run hrun
  by_cases hup : conn.cache.streamError = none
  · obtain ⟨hclose, hstream⟩ := h.up.1 hup
    rcases lookup_cases h hstamps hup link fc addr count slave with
      ⟨d, hd, hread⟩ | ⟨hno, error, hread⟩
    · rw [hread]
      exact ⟨⟨fun _ => ⟨hclose, hstream, d, hd⟩, fun _ => rfl⟩, fun _ => ⟨d, hd, rfl⟩, nofun⟩
    · rw [hread]
      exact ⟨⟨nofun, fun ⟨_, _, hd⟩ => absurd hd hno⟩, nofun, fun _ => rfl⟩
  · obtain ⟨error, herror⟩ := Option.ne_none_iff_exists'.1 hup
    have hread : conn.read link fc addr count slave =
        BlockCache.errorResponse s!"modbus-hub stream down: {error}" := by
      rw [HubConnection.read, BlockCache.lookup, herror]
    rw [hread]
    refine ⟨⟨nofun, fun ⟨hclose, hstream, _⟩ => ?_⟩, nofun, fun _ => rfl⟩
    exact absurd (h.up.2 ⟨hclose, hstream⟩) hup

/-- A block of two registers, and an update of it. -/
def pairKey : BlockKey := ⟨"link", 1, 3, 818, 2⟩

def pairUpdate : BlockUpdate := ⟨pairKey, [16968, 0], ""⟩

/-- A read right after the first update succeeds. -/
theorem read_isOk_pairUpdate :
    ((HubConnection.new [pairKey] 1 1 30 0).connect.deliver pairUpdate |>.read
      "link" 3 818 2 1).isError = false := by
  have hrun : (hubSystem (.new [pairKey] 1 1 30 0)).run [.connect, .deliver pairUpdate]
      (.new [pairKey] 1 1 30 0) =
        some ((HubConnection.new [pairKey] 1 1 30 0).connect.deliver pairUpdate) := rfl
  have hds : deliveries 0 [.connect, .deliver pairUpdate] = [⟨pairUpdate, 0⟩] := rfl
  refine (read_isOk_iff hrun (by simp [hds]) "link" 3 818 2 1).1.2 ⟨by simp, ?_, ?_⟩
  · exact ⟨[.connect], pairUpdate, [], rfl, by simp⟩
  · rw [hds]
    exact ⟨⟨pairUpdate, 0⟩, ⟨by simp, by decide, by simp⟩, by simp, rfl, by simp [clockAfter]⟩

end DtsuBridge
