import DtsuBridge.Basic
import DtsuBridge.Lib.Counter
import DtsuBridge.Lib.Windows

/-!
# Read activity

`RtuActivity` keeps four bounded views of the reads a bridge is asked for : the timestamps within
a window, a counter of the blocks, the last few reads, and when each register was covered.

`record_tracks` : one read is added to each of the views as the whole history defines them.
`activity_exact` : after any reads with timestamps in order, the rate is that of all the reads of
the window, the tracked blocks are the first distinct ones with all of their reads, a register
has the timestamp of the latest read that covered it, and the recent reads are the last ones.
-/

namespace DtsuBridge

/-- A call of `record`. -/
structure ReadCall where
  fc : ℤ
  address : ℤ
  count : ℤ
  ts : Time
deriving DecidableEq

namespace ReadCall

/-- `(fc, address, count)` -/
def key (call : ReadCall) : ℤ × ℤ × ℤ := (call.fc, call.address, call.count)

/-- The range of the read contains the register. -/
def Covers (call : ReadCall) (fc a : ℤ) : Prop :=
  call.fc = fc ∧ call.address ≤ a ∧ a < call.address + call.count

instance (call : ReadCall) (fc a : ℤ) : Decidable (call.Covers fc a) :=
  inferInstanceAs (Decidable (_ ∧ _ ∧ _))

end ReadCall

/-- `range(start, stop)` -/
def intRange (start stop : ℤ) : List ℤ :=
  (List.range (stop - start).toNat).map fun i : ℕ => start + i

structure RtuActivity where
  total : ℕ := 0
  lastTs : Option Time := none
  blocks : Dict (ℤ × ℤ × ℤ) ℕ := .empty
  maxBlocks : ℤ
  recent : List ReadCall := []
  recentMaxlen : ℕ
  times : List Time := []
  rateWindow : Time
  addrLastSeen : Dict (ℤ × ℤ) Time := .empty

/-- What `summary` returns. -/
structure ActivitySummary where
  total : ℕ
  lastSeenAge : Option Time
  rate : Time
  blocks : List ((ℤ × ℤ × ℤ) × ℕ)
  recent : List ReadCall

namespace RtuActivity

/-- `__init__` -/
def new (recentMaxlen : ℕ := 8) (rateWindow : Time := (5 : ℕ)) (maxBlocks : ℤ := 64) :
    RtuActivity where
  maxBlocks := maxBlocks
  recentMaxlen := recentMaxlen
  rateWindow := rateWindow

def record (activity : RtuActivity) (call : ReadCall) : RtuActivity :=
  { activity with
    total := activity.total + 1
    lastTs := some call.ts
    blocks := activity.blocks.count activity.maxBlocks call.key
    recent := (activity.recent ++ [call]).rtake activity.recentMaxlen
    times := (activity.times ++ [call.ts]).dropWhile fun t =>
      decide (activity.rateWindow < call.ts - t)
    addrLastSeen := (intRange call.address (call.address + call.count)).foldl
      (fun seen a => seen.set (call.fc, a) call.ts) activity.addrLastSeen }

/-- Timestamp a single register address was last covered by a read. -/
def lastSeen (activity : RtuActivity) (fc address : ℤ) : Option Time :=
  activity.addrLastSeen.get? (fc, address)

/-- `Counter.most_common`, equal counts in the order of insertion. -/
def mostCommon (blocks : Dict (ℤ × ℤ × ℤ) ℕ) : List ((ℤ × ℤ × ℤ) × ℕ) :=
  blocks.entries.insertionSort fun a b => b.2 ≤ a.2

/-- The window, the ages and the rate are exact here, where the source subtracts and divides
doubles. -/
def summary (activity : RtuActivity) (now : Time) : Except PyExc ActivitySummary :=
  let recentTimes := activity.times.filter fun t => decide (now - t ≤ activity.rateWindow)
  if activity.rateWindow = 0 then .error (.zeroDivisionError "float division by zero")
  else .ok {
    total := activity.total
    lastSeenAge := activity.lastTs.map (now - ·)
    rate := recentTimes.length / activity.rateWindow
    blocks := mostCommon activity.blocks
    recent := activity.recent }

/-- `record` of every call, in order. -/
def recordAll (activity : RtuActivity) (calls : List ReadCall) : RtuActivity :=
  calls.foldl record activity

end RtuActivity

/-! ## The views of a history -/

/-- The latest read that covered a register. -/
def latestCovering (calls : List ReadCall) (fc a : ℤ) : Option ReadCall :=
  (calls.filter fun call => decide (call.Covers fc a)).getLast?

/-- The reads within a window before some moment. -/
def callsWithin (window now : Time) (calls : List ReadCall) : List ReadCall :=
  calls.filter fun call => decide (now - call.ts ≤ window)

/-- The first distinct blocks of a history. -/
def firstBlocks (maxBlocks : ℤ) (calls : List ReadCall) : List (ℤ × ℤ × ℤ) :=
  (calls.map ReadCall.key).eraseDups.take maxBlocks.toNat

/-- Each view is what the history defines. The timestamps are those of the window before the
latest read. -/
structure TracksReads (start : RtuActivity) (calls : List ReadCall) (activity : RtuActivity) :
    Prop where
  settings : activity.maxBlocks = start.maxBlocks ∧
    activity.recentMaxlen = start.recentMaxlen ∧ activity.rateWindow = start.rateWindow
  total : activity.total = calls.length
  lastTs : activity.lastTs = calls.getLast?.map ReadCall.ts
  blocks : activity.blocks =
    (calls.map ReadCall.key).foldl (Dict.count start.maxBlocks) .empty
  recent : activity.recent = calls.rtake start.recentMaxlen
  times : ∀ last ∈ calls.getLast?,
    activity.times = (callsWithin start.rateWindow last.ts calls).map ReadCall.ts
  timesNil : calls = [] → activity.times = []
  seen : ∀ fc a, activity.lastSeen fc a = (latestCovering calls fc a).map ReadCall.ts

theorem mem_intRange {start stop a : ℤ} : a ∈ intRange start stop ↔ start ≤ a ∧ a < stop := by
  rw [intRange, List.mem_map]
  constructor
  · rintro ⟨i, hi, rfl⟩
    have hlt := List.mem_range.1 hi
    omega
  · rintro ⟨hle, hlt⟩
    exact ⟨(a - start).toNat, List.mem_range.2 (by omega), by omega⟩

/-- A pass over a range stamps its registers. -/
theorem get?_foldl_set {ts : Time} {fc : ℤ} (key : ℤ × ℤ) :
    ∀ {as : List ℤ} {seen : Dict (ℤ × ℤ) Time},
      (as.foldl (fun seen a => seen.set (fc, a) ts) seen).get? key =
        if key.1 = fc ∧ key.2 ∈ as then some ts else seen.get? key
  | [], seen => by simp
  | a :: as, seen => by
    rw [List.foldl_cons, get?_foldl_set, Dict.get?_set]
    by_cases hkey : key.1 = fc ∧ key.2 ∈ as
    · rw [if_pos hkey, if_pos ⟨hkey.1, List.mem_cons_of_mem _ hkey.2⟩]
    · rw [if_neg hkey]
      congr 1
      rw [List.mem_cons, Prod.ext_iff]
      simp only [eq_iff_iff]
      constructor
      · rintro ⟨h1, h2⟩
        exact ⟨h1, .inl h2⟩
      · rintro ⟨h1, h2 | h2⟩
        · exact ⟨h1, h2⟩
        · exact absurd ⟨h1, h2⟩ hkey

/-- Of stamps in order, those before a bound are dropped from the front. -/
theorem dropWhile_eq_filter {window now : Time} : ∀ {times : List Time},
    times.Pairwise (· ≤ ·) → times.dropWhile (fun t => decide (window < now - t)) =
      times.filter fun t => decide (now - t ≤ window)
  | [], _ => rfl
  | t :: times, h => by
    obtain ⟨hle, htimes⟩ := List.pairwise_cons.1 h
    by_cases hold : window < now - t
    · rw [List.dropWhile_cons, if_pos (decide_eq_true hold),
        List.filter_cons_of_neg (by rwa [decide_eq_true_iff, not_le]),
        dropWhile_eq_filter htimes]
    · have hall : ∀ s ∈ t :: times, decide (now - s ≤ window) = true := by
        intro s hs
        rw [decide_eq_true_iff]
        rcases List.mem_cons.1 hs with rfl | hs
        · exact not_lt.1 hold
        · linarith [hle s hs, not_lt.1 hold]
      rw [List.dropWhile_cons, if_neg (by rwa [decide_eq_true_iff]), List.filter_eq_self.2 hall]

/-- What was pruned before the latest read is outside of the window of any later moment. -/
theorem callsWithin_callsWithin {window earlier now : Time} (h : earlier ≤ now)
    (calls : List ReadCall) : callsWithin window now (callsWithin window earlier calls) =
      callsWithin window now calls := by
  rw [callsWithin, callsWithin, List.filter_filter, callsWithin]
  refine List.filter_congr fun call _ => ?_
  by_cases hnow : now - call.ts ≤ window
  · have hearlier : earlier - call.ts ≤ window := by linarith
    simp [hnow, hearlier]
  · simp [hnow]

theorem filter_ts (window now : Time) (calls : List ReadCall) :
    (calls.map ReadCall.ts).filter (fun t => decide (now - t ≤ window)) =
      (callsWithin window now calls).map ReadCall.ts := by
  rw [callsWithin, List.filter_map]
  rfl

theorem tracks_nil (start : RtuActivity) (h : start = .new start.recentMaxlen start.rateWindow
    start.maxBlocks) : TracksReads start [] start := by
  rw [h]
  exact ⟨⟨rfl, rfl, rfl⟩, rfl, rfl, rfl, by simp [RtuActivity.new, List.rtake], by simp,
    fun _ => rfl, fun _ _ => rfl⟩

/-- The stamps that were kept are some of the history. -/
theorem TracksReads.times_sublist {start activity : RtuActivity} {calls : List ReadCall}
    (h : TracksReads start calls activity) :
    activity.times.Sublist (calls.map ReadCall.ts) := by
  cases hlast : calls.getLast? with
  | none =>
    rw [h.timesNil (List.getLast?_eq_none_iff.1 hlast)]
    exact List.nil_sublist _
  | some last =>
    rw [h.times last hlast]
    exact List.filter_sublist.map _

/-- At any moment after the reads, the stamps within the window are those of the history. -/
theorem TracksReads.filter_times {start activity : RtuActivity} {calls : List ReadCall}
    (h : TracksReads start calls activity) {now : Time} (hnow : ∀ call ∈ calls, call.ts ≤ now) :
    activity.times.filter (fun t => decide (now - t ≤ start.rateWindow)) =
      (callsWithin start.rateWindow now calls).map ReadCall.ts := by
  cases hlast : calls.getLast? with
  | none =>
    obtain rfl := List.getLast?_eq_none_iff.1 hlast
    rw [h.timesNil rfl]
    rfl
  | some last =>
    have hle := hnow last (List.mem_of_getLast? hlast)
    rw [h.times last hlast, filter_ts, callsWithin_callsWithin hle]

/-- A read with a timestamp that is not before the others is added to every view. -/
theorem record_tracks {start activity : RtuActivity} {calls : List ReadCall}
    (h : TracksReads start calls activity) {call : ReadCall}
    (hsorted : (calls ++ [call]).Pairwise (·.ts ≤ ·.ts)) :
    TracksReads start (calls ++ [call]) (activity.record call) := by
  obtain ⟨hblocks, hrecent, hwindow⟩ := h.settings
  have hkept := h.filter_times fun c hc =>
    (List.pairwise_append.1 hsorted).2.2 c hc call (List.mem_singleton_self _)
  have hsub : (activity.times ++ [call.ts]).Pairwise (· ≤ ·) := by
    have hts : ((calls ++ [call]).map ReadCall.ts).Pairwise (· ≤ ·) :=
      List.pairwise_map.2 hsorted
    rw [List.map_append] at hts
    exact hts.sublist (h.times_sublist.append_right _)
  refine ⟨h.settings, ?_, ?_, ?_, ?_, fun last hlast => ?_, fun hc => ?_, fun fc a => ?_⟩
  · rw [RtuActivity.record, List.length_append, List.length_singleton, h.total]
  · simp [RtuActivity.record]
  · rw [RtuActivity.record, List.map_append, List.foldl_append, ← h.blocks, hblocks]
    rfl
  · rw [rtake_append, ← h.recent, ← hrecent]
    rfl
  · rw [List.getLast?_append_of_ne_nil _ (List.cons_ne_nil _ _)] at hlast
    obtain rfl : call = last := by simpa using hlast
    have hown := filter_ts start.rateWindow call.ts [call]
    rw [RtuActivity.record, hwindow]
    simp only
    rw [dropWhile_eq_filter hsub, List.filter_append, hkept, callsWithin, callsWithin,
      List.filter_append, List.map_append]
    congr 1
  · simp at hc
  · have hseen := h.seen fc a
    rw [RtuActivity.lastSeen] at hseen ⊢
    rw [RtuActivity.record]
    simp only
    rw [get?_foldl_set, hseen, latestCovering, latestCovering, List.filter_append]
    by_cases hcovers : call.Covers fc a
    · rw [if_pos ⟨hcovers.1.symm, mem_intRange.2 hcovers.2⟩]
      simp [hcovers]
    · rw [if_neg fun hc => hcovers ⟨hc.1.symm, mem_intRange.1 hc.2⟩]
      simp [hcovers]

/-- After any reads in order, every view is what the history defines. -/
theorem recordAll_tracks {start : RtuActivity} (h : start = .new start.recentMaxlen
    start.rateWindow start.maxBlocks) {calls : List ReadCall}
    (hsorted : calls.Pairwise (·.ts ≤ ·.ts)) : TracksReads start calls (start.recordAll calls) := by
  induction calls using List.reverseRecOn with
  | nil => exact tracks_nil start h
  | append_singleton calls call ih =>
    rw [RtuActivity.recordAll, List.foldl_append]
    exact record_tracks (ih (List.pairwise_append.1 hsorted).1) hsorted

/-- After any reads with timestamps in order, and at any moment after them, the tracked blocks are
the first distinct ones with the number of all their reads, the recent reads are the last ones,
and a register was last seen at the latest read that covered it. For a window other than zero
`summary` returns these, and the rate of all the reads within the window. -/
theorem activity_exact (recentMaxlen : ℕ) (rateWindow : Time) (maxBlocks : ℤ)
    {calls : List ReadCall} (hsorted : calls.Pairwise (·.ts ≤ ·.ts)) {now : Time}
    (hnow : ∀ call ∈ calls, call.ts ≤ now) :
    ∃ activity, activity = (RtuActivity.new recentMaxlen rateWindow maxBlocks).recordAll calls ∧
      activity.blocks.keys = firstBlocks maxBlocks calls ∧
      (∀ block ∈ activity.blocks.entries, block.2 = (calls.map ReadCall.key).count block.1) ∧
      (∀ fc a, activity.lastSeen fc a = (latestCovering calls fc a).map ReadCall.ts) ∧
      activity.recent = calls.rtake recentMaxlen ∧
      (rateWindow ≠ 0 ↔ ∃ summary, activity.summary now = .ok summary) ∧
      ∀ summary, activity.summary now = .ok summary →
        summary.rate * rateWindow = (callsWithin rateWindow now calls).length ∧
        summary.blocks.Perm activity.blocks.entries ∧
        summary.recent = activity.recent ∧
        summary.total = calls.length := by
  have h := @recordAll_tracks (.new recentMaxlen rateWindow maxBlocks) rfl calls hsorted
  refine ⟨_, rfl, ?_⟩
  set activity := (RtuActivity.new recentMaxlen rateWindow maxBlocks).recordAll calls
  have hwindow : activity.rateWindow = rateWindow := h.settings.2.2
  have hblocks : activity.blocks =
    (calls.map ReadCall.key).foldl (Dict.count maxBlocks) .empty := h.blocks
  refine ⟨?_, fun block hblock => ?_, h.seen, h.recent, ?_, fun summary hsummary => ?_⟩
  · rw [hblocks, Dict.keys_foldl_count, firstBlocks]
  · have hentry := Dict.get?_eq_some_iff.2 hblock
    have hkey : block.1 ∈ activity.blocks.keys := List.mem_map_of_mem hblock
    rw [hblocks] at hentry hkey
    exact Option.some.inj (hentry.symm.trans (Dict.get?_foldl_count hkey))
  · rw [RtuActivity.summary, hwindow]
    by_cases hzero : rateWindow = 0 <;> simp [hzero]
  · rw [RtuActivity.summary, hwindow] at hsummary
    by_cases hzero : rateWindow = 0
    · simp [hzero] at hsummary
    rw [if_neg hzero] at hsummary
    obtain rfl := Except.ok.inj hsummary
    have hrecent : activity.times.filter (fun t => decide (now - t ≤ rateWindow)) =
        (callsWithin rateWindow now calls).map ReadCall.ts := h.filter_times hnow
    refine ⟨?_, List.perm_insertionSort _ _, rfl, h.total⟩
    simp only
    rw [hrecent, List.length_map, div_mul_cancel₀ _ hzero]

/-- Three reads, the first of which has left the window. -/
def threeReads : List ReadCall :=
  [⟨4, 5404, 2, 0⟩, ⟨3, 0, 10, 4⟩, ⟨4, 5404, 2, 6⟩]

theorem activity_exact_threeReads : ∃ activity : RtuActivity,
    activity.lastSeen 4 5405 = some 6 ∧ activity.blocks.keys = [(4, 5404, 2), (3, 0, 10)] ∧
      ∃ summary, activity.summary 7 = .ok summary ∧ summary.rate * (5 : ℕ) = 2 := by
  obtain ⟨activity, -, hkeys, -, hseen, -, hok, hsummary⟩ :=
    @activity_exact 8 (5 : ℕ) 64 threeReads (by decide +kernel) 7 (by decide +kernel)
  obtain ⟨summary, hs⟩ := hok.1 (by norm_num)
  have hwithin : callsWithin (5 : ℕ) 7 threeReads = [⟨3, 0, 10, 4⟩, ⟨4, 5404, 2, 6⟩] := by
    decide +kernel
  refine ⟨activity, (hseen 4 5405).trans (by decide +kernel), hkeys.trans (by decide +kernel),
    summary, hs, ?_⟩
  rw [(hsummary summary hs).1, hwithin]
  rfl

end DtsuBridge
