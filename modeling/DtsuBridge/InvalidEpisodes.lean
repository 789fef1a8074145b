import DtsuBridge.Declared
import DtsuBridge.Lib.Episodes

/-!
# Warnings follow episodes

The polls of an ND45 or a SmartLogger section share a set of the points whose warning is muted.
A poll takes in the points it decodes, in their order, and what it does for one of them is a step
of the counter of `Lib.Episodes` (`tally_mark`, `tally_pollOnce`). An ND45 poll that raises while
it decodes has taken in the points before, a SmartLogger poll none.

`warnings_follow_episodes` : after any polls a point is in the set exactly when it was invalid in
the last poll that decoded it, it was warned of once for each maximal run of invalid readings,
and it came back once for each of these that ended. A poll that decodes all of its points leaves
in the set those of them that are invalid.
-/

namespace DtsuBridge

/-! ## Lines about a point -/

namespace PollLine

/-- The point is warned of as invalid. -/
def warnsOf (key : String) : PollLine → Bool
  | nd45Invalid k _ _ => k = key
  | smartLoggerInvalid k _ => k = key
  | _ => false

/-- The point is back in range. -/
def returnsOf (key : String) : PollLine → Bool
  | nd45Back k => k = key
  | smartLoggerBack k => k = key
  | _ => false

end PollLine

/-- A decoded point, with the lines for it. -/
structure PointMark where
  key : String
  bad : Bool
  warning : PollLine
  back : PollLine
  warning_warns : ∀ k, warning.warnsOf k = decide (key = k)
  warning_returns : ∀ k, warning.returnsOf k = false
  back_warns : ∀ k, back.warnsOf k = false
  back_returns : ∀ k, back.returnsOf k = decide (key = k)

namespace PollNotes

/-- Take a decoded point in. -/
def mark (notes : PollNotes) (m : PointMark) : PollNotes :=
  if m.bad then notes.invalid m.key m.warning else notes.valid m.key m.back

/-- What the notes hold of a point. -/
def tally (key : String) (notes : PollNotes) : Episodes.Tally where
  bad := notes.muted key
  begun := notes.lines.countP (·.warnsOf key)
  ended := notes.lines.countP (·.returnsOf key)

theorem isSome_mark {notes : PollNotes} (h : notes.overrangeSeen.isSome) (m : PointMark) :
    (notes.mark m).overrangeSeen.isSome := by
  unfold mark invalid valid
  split_ifs <;> simp [h]

theorem tally_mark_of_ne {notes : PollNotes} {m : PointMark} {key : String} (hne : m.key ≠ key) :
    (notes.mark m).tally key = notes.tally key := by
  have hmem : ∀ seen : Finset String, (key ∈ insert m.key seen) = (key ∈ seen) := by
    simp [Ne.symm hne]
  have herase : ∀ seen : Finset String, (key ∈ seen.erase m.key) = (key ∈ seen) := by
    simp [Ne.symm hne]
  have hwarn := m.warning_warns key
  have hreturn := m.back_returns key
  rw [decide_eq_false hne] at hwarn hreturn
  unfold mark invalid valid
  split_ifs <;> cases hseen : notes.overrangeSeen <;>
    simp [tally, muted, hseen, hmem, herase, hwarn, hreturn, m.warning_returns, m.back_warns]

/-- What a poll does for a point is a step of the counter. -/
theorem tally_mark {notes : PollNotes} (h : notes.overrangeSeen.isSome) (m : PointMark) :
    (notes.mark m).tally m.key = (notes.tally m.key).record m.bad := by
  obtain ⟨seen, hseen⟩ := Option.isSome_iff_exists.1 h
  have hwarn := m.warning_warns m.key
  have hreturn := m.back_returns m.key
  rw [decide_eq_true rfl] at hwarn hreturn
  unfold mark invalid valid
  cases hbad : m.bad <;> by_cases hmem : m.key ∈ seen <;>
    simp [tally, muted, hseen, hmem, hwarn, hreturn, m.warning_returns, m.back_warns,
      Episodes.Tally.record]

/-- Take decoded points in. -/
def markAll (notes : PollNotes) (marks : List PointMark) : PollNotes :=
  marks.foldl mark notes

end PollNotes

/-- What some marks say of a point. -/
def markedBad (key : String) (marks : List PointMark) : List Bool :=
  (marks.filter (·.key = key)).map (·.bad)

theorem PollNotes.tally_markAll (key : String) : ∀ {marks : List PointMark} {notes : PollNotes},
    notes.overrangeSeen.isSome → (notes.markAll marks).overrangeSeen.isSome ∧
      (notes.markAll marks).tally key =
        (markedBad key marks).foldl Episodes.Tally.record (notes.tally key)
  | [], _, h => ⟨h, rfl⟩
  | m :: marks, notes, h => by
    obtain ⟨hsome, htally⟩ := @tally_markAll key marks _ (isSome_mark h m)
    refine ⟨hsome, htally.trans ?_⟩
    by_cases hkey : m.key = key
    · subst hkey
      rw [tally_mark h, markedBad, markedBad, List.filter_cons_of_pos (by simp)]
      rfl
    · rw [tally_mark_of_ne hkey, markedBad, markedBad, List.filter_cons_of_neg (by simp [hkey])]

/-! ## The marks of a poll -/

section Float

variable [FloatArith]

namespace Nd45

/-- The point is found invalid, where it is decoded. -/
def invalidPoint (side : SourceSide) (groups : Blocks) (pt : SourcePoint) : Except PyExc Bool :=
  (decode side groups pt).map fun (raw, si) => overRange si || overRange raw

omit [FloatArith] in
def pointMark (key : String) (raw si : PyFloat) : PointMark where
  key := key
  bad := overRange si || overRange raw
  warning := .nd45Invalid key si (decide (key ∈ OPTIONAL_INVALID_ZERO_POINTS))
  back := .nd45Back key
  warning_warns _ := rfl
  warning_returns _ := rfl
  back_warns _ := rfl
  back_returns _ := rfl

/-- The points before the first that does not decode. -/
def marks (side : SourceSide) (groups : Blocks) : List (String × SourcePoint) → List PointMark
  | [] => []
  | (key, pt) :: points =>
    match decode side groups pt with
    | .error _ => []
    | .ok (raw, si) => pointMark key raw si :: marks side groups points

omit [FloatArith] in
theorem notes_record (acc : Gathered) (key : String) (raw si : PyFloat) :
    (acc.record key raw si).notes = acc.notes.mark (pointMark key raw si) := by
  unfold Gathered.record PollNotes.mark pointMark
  dsimp only
  split_ifs <;> rfl

theorem notes_pollPoints {side : SourceSide} {groups : Blocks} :
    ∀ {points : List (String × SourcePoint)} {acc : Gathered},
      (pollPoints side groups points acc).2.notes = acc.notes.markAll (marks side groups points)
  | [], _ => rfl
  | (key, pt) :: points, acc => by
    rw [pollPoints, marks]
    cases decode side groups pt with
    | error e => rfl
    | ok decoded =>
      obtain ⟨raw, si⟩ := decoded
      exact notes_pollPoints.trans (by rw [notes_record]; rfl)

/-- The notes of a poll are those of its marks. -/
theorem notes_pollOnce {client : Client} {side : SourceSide} {slave : ℤ}
    {seen : Option (Finset String)} {groups : Blocks} (h : readGroups client slave = .ok groups) :
    (pollOnce client side slave seen).notes =
      (⟨seen, []⟩ : PollNotes).markAll (marks side groups side.points.entries) := by
  rw [pollOnce, h, ← @notes_pollPoints _ _ _ _ { notes := ⟨seen, []⟩ }]
  dsimp only
  rcases pollPoints side groups side.points.entries { notes := ⟨seen, []⟩ } with ⟨e | _, acc⟩
  · rfl
  · dsimp only
    split_ifs <;> rfl

theorem markedBad_marks (key : String) {side : SourceSide} {groups : Blocks} :
    ∀ {points : List (String × SourcePoint)}, markedBad key (marks side groups points) =
      ((points.takeWhile fun e => (invalidPoint side groups e.2).toOption.isSome).filter
        (·.1 = key)).map fun e => decide ((invalidPoint side groups e.2).toOption = some true)
  | [] => rfl
  | (k, pt) :: points => by
    have ih := @markedBad_marks key side groups points
    rw [marks]
    cases hdecode : decode side groups pt with
    | error e => simp [invalidPoint, hdecode, markedBad, Except.map, Except.toOption]
    | ok decoded =>
      obtain ⟨raw, si⟩ := decoded
      have hinvalid : (invalidPoint side groups pt).toOption =
          some (overRange si || overRange raw) := by
        rw [invalidPoint, hdecode]
        rfl
      rw [List.takeWhile_cons_of_pos (by simp [hinvalid])]
      by_cases hk : k = key
      · rw [List.filter_cons_of_pos (by simp [hk]), List.map_cons, ← ih, markedBad, markedBad,
          List.filter_cons_of_pos (by simp [pointMark, hk]), List.map_cons]
        simp [hinvalid, pointMark]
      · rw [List.filter_cons_of_neg (by simp [hk]), ← ih, markedBad, markedBad,
          List.filter_cons_of_neg (by simp [pointMark, hk])]

end Nd45

namespace Huawei

/-- The point is found invalid, where it is decoded. -/
def invalidPoint (side : SourceSide) (groups : Blocks) (pt : SourcePoint) : Except PyExc Bool :=
  (decode side groups pt).map fun value => !value.isFinite

omit [FloatArith] in
def pointMark (key : String) (value : PyFloat) : PointMark where
  key := key
  bad := !value.isFinite
  warning := .smartLoggerInvalid key value
  back := .smartLoggerBack key
  warning_warns _ := rfl
  warning_returns _ := rfl
  back_warns _ := rfl
  back_returns _ := rfl

omit [FloatArith] in
theorem noteInvalid_eq (values : Sample) (notes : PollNotes) :
    noteInvalid values notes =
      notes.markAll (values.entries.map fun e => pointMark e.1 e.2) := by
  rw [PollNotes.markAll, List.foldl_map, noteInvalid]
  congr 1
  funext notes e
  unfold PollNotes.mark pointMark
  cases h : e.2.isFinite <;> simp [h]

omit [FloatArith] in
/-- Targets with names of their own are written in order. -/
theorem entries_writeTargets {α : Type} {F : α → Except PyExc PyFloat} :
    ∀ {ts : List (String × α)} {values values' : Sample}, (ts.map Prod.fst).Nodup →
      (∀ t ∈ ts, t.1 ∉ values.keys) → writeTargets (fun _ => F) ts values = .ok values' →
        values'.entries = values.entries ++ ts.map fun t => (t.1, (F t.2).toOption.getD 0)
  | [], values, values', _, _, h => by
    obtain rfl := Except.ok.inj h
    simp
  | t :: ts, values, values', hnodup, hnew, h => by
    obtain ⟨hfresh, hnodup⟩ := List.nodup_cons.1 hnodup
    obtain ⟨ht, hts⟩ := List.forall_mem_cons.1 hnew
    obtain ⟨v, hv, h⟩ := Except.bind_eq_ok.1 h
    have hrest : ∀ t' ∈ ts, t'.1 ∉ (values.set t.1 v).keys := by
      intro t' ht' hmem
      rcases Dict.mem_keys_set.1 hmem with heq | hmem
      · exact hfresh (heq ▸ List.mem_map_of_mem ht')
      · exact hts t' ht' hmem
    have hvalue : F t.2 = .ok v := hv
    rw [entries_writeTargets hnodup hrest h, Dict.entries_set_of_notMem ht, List.map_cons, hvalue]
    simp [Except.toOption]

/-- The points of a poll that decodes all of them, and none where one raises. -/
def marks (side : SourceSide) (groups : Blocks) : List PointMark :=
  match decodeSource side groups with
  | .ok values => values.entries.map fun e => pointMark e.1 e.2
  | .error _ => []

/-- The set and the counts of a poll are those of its marks. The lines about derived values are
neither. -/
theorem notes_pollOnce {client : Client} {side : SourceSide} {slave : ℤ}
    {seen : Option (Finset String)} {groups : Blocks}
    (h : readGroups client side slave = .ok groups) : ∃ lines,
      (∀ line ∈ lines, ∀ key, PollLine.warnsOf key line = false ∧
        PollLine.returnsOf key line = false) ∧
      (pollOnce client side slave seen).notes.overrangeSeen =
        ((⟨seen, []⟩ : PollNotes).markAll (marks side groups)).overrangeSeen ∧
      (pollOnce client side slave seen).notes.lines =
        ((⟨seen, []⟩ : PollNotes).markAll (marks side groups)).lines ++ lines := by
  have hnone : ∀ line ∈ ([] : List PollLine), ∀ key, PollLine.warnsOf key line = false ∧
      PollLine.returnsOf key line = false := by simp
  rw [pollOnce, h, marks]
  dsimp only
  cases decodeSource side groups with
  | error e => exact ⟨[], hnone, rfl, rfl⟩
  | ok values =>
    dsimp only
    rw [← noteInvalid_eq]
    cases applyDerive (scrub values) side.derive with
    | error e => exact ⟨[], hnone, rfl, (List.append_nil _).symm⟩
    | ok derived =>
      refine ⟨_, fun line hline key => ?_, rfl, rfl⟩
      obtain ⟨e, -, rfl⟩ := List.mem_map.1 hline
      exact ⟨rfl, rfl⟩

/-- The points whose test ends are those that decode. -/
theorem isSome_invalidPoint (side : SourceSide) (groups : Blocks) (pt : SourcePoint) :
    (invalidPoint side groups pt).toOption.isSome = (decode side groups pt).toOption.isSome := by
  rw [invalidPoint]
  cases decode side groups pt <;> rfl

theorem markedBad_marks (key : String) (side : SourceSide) (groups : Blocks) :
    markedBad key (marks side groups) =
      ((if side.points.entries.all fun e => (invalidPoint side groups e.2).toOption.isSome
          then side.points.entries else []).filter (·.1 = key)).map fun e =>
        decide ((invalidPoint side groups e.2).toOption = some true) := by
  rw [marks]
  cases hvalues : decodeSource side groups with
  | error e =>
    obtain ⟨t, ht, _, herror⟩ := writeTargets_eq_error hvalues
    have hnot : ¬(side.points.entries.all fun e =>
        (invalidPoint side groups e.2).toOption.isSome) = true := by
      intro hall
      have hsome := List.all_eq_true.1 hall t ht
      rw [isSome_invalidPoint, herror] at hsome
      cases hsome
    rw [if_neg hnot]
    rfl
  | ok values =>
    have hdecode : ∀ t ∈ side.points.entries, ∃ v, decode side groups t.2 = .ok v := by
      intro t ht
      obtain ⟨_, v, hv⟩ := isOk_of_writeTargets hvalues t ht
      exact ⟨v, hv⟩
    have hall : (side.points.entries.all fun e =>
        (invalidPoint side groups e.2).toOption.isSome) = true := by
      refine List.all_eq_true.2 fun t ht => ?_
      obtain ⟨v, hv⟩ := hdecode t ht
      rw [isSome_invalidPoint, hv]
      rfl
    have hentries := entries_writeTargets side.points.nodup (by simp) hvalues
    rw [if_pos hall]
    simp only [hentries, markedBad]
    rw [show (Dict.empty : Sample).entries = [] from rfl, List.nil_append, List.map_map,
      List.filter_map, List.map_map]
    refine List.map_congr_left fun t ht => ?_
    obtain ⟨v, hv⟩ := hdecode t (List.mem_of_mem_filter ht)
    simp [pointMark, invalidPoint, hv, Except.map, Except.toOption]

end Huawei

/-! ## Polls of a section -/

/-- A poller that takes a set of muted points. -/
inductive NotingPoller where
  | nd45
  | huawei
deriving DecidableEq

namespace NotingPoller

def pollOnce : NotingPoller → Client → SourceSide → ℤ → Option (Finset String) → PollOutcome
  | nd45 => Nd45.pollOnce
  | huawei => Huawei.pollOnce

/-- The blocks of a poll. -/
def readGroups : NotingPoller → Client → SourceSide → ℤ → Except PyExc Blocks
  | nd45, client, _, slave => Nd45.readGroups client slave
  | huawei, client, side, slave => Huawei.readGroups client side slave

/-- The point is found invalid, where it is decoded. -/
def invalidPoint : NotingPoller → SourceSide → Blocks → SourcePoint → Except PyExc Bool
  | nd45 => Nd45.invalidPoint
  | huawei => Huawei.invalidPoint

/-- The points that a poll of these blocks decodes and takes in. -/
def decodedPoints (poller : NotingPoller) (side : SourceSide) (groups : Blocks) :
    List (String × SourcePoint) :=
  match poller with
  | nd45 => side.points.entries.takeWhile fun e =>
    (Nd45.invalidPoint side groups e.2).toOption.isSome
  | huawei => if side.points.entries.all fun e =>
      (Huawei.invalidPoint side groups e.2).toOption.isSome then side.points.entries else []

/-- The readings of a point in some polls that decode it : invalid or not. -/
def readings (poller : NotingPoller) (side : SourceSide) (key : String)
    (polls : List (Client × ℤ)) : List Bool :=
  polls.flatMap fun poll =>
    match poller.readGroups poll.1 side poll.2 with
    | .error _ => []
    | .ok groups => ((poller.decodedPoints side groups).filter (·.1 = key)).map fun e =>
      decide ((poller.invalidPoint side groups e.2).toOption = some true)

/-- Polls that share a set : the set they leave, and all they log. -/
def pollAll (poller : NotingPoller) (side : SourceSide) : List (Client × ℤ) → Finset String →
    Finset String × List PollLine
  | [], seen => (seen, [])
  | poll :: polls, seen =>
    let notes := (poller.pollOnce poll.1 side poll.2 (some seen)).notes
    let rest := pollAll poller side polls (notes.overrangeSeen.getD ∅)
    (rest.1, notes.lines ++ rest.2)

/-- What a poll leaves of a point is what the counter makes of its reading. -/
theorem tally_pollOnce (poller : NotingPoller) (side : SourceSide) (key : String)
    (poll : Client × ℤ) (seen : Finset String) :
    (poller.pollOnce poll.1 side poll.2 (some seen)).notes.overrangeSeen.isSome ∧
      (poller.pollOnce poll.1 side poll.2 (some seen)).notes.tally key =
        (poller.readings side key [poll]).foldl Episodes.Tally.record
          (PollNotes.tally key ⟨some seen, []⟩) := by
  have hsome : (⟨some seen, []⟩ : PollNotes).overrangeSeen.isSome := rfl
  rw [readings, List.flatMap_singleton]
  cases poller with
  | nd45 =>
    rw [readGroups]
    cases hgroups : Nd45.readGroups poll.1 poll.2 with
    | error e =>
      rw [pollOnce, Nd45.pollOnce, hgroups]
      exact ⟨hsome, rfl⟩
    | ok groups =>
      have htally :=
        @PollNotes.tally_markAll key (Nd45.marks side groups side.points.entries) _ hsome
      rwa [Nd45.markedBad_marks, ← Nd45.notes_pollOnce hgroups] at htally
  | huawei =>
    rw [readGroups]
    cases hgroups : Huawei.readGroups poll.1 side poll.2 with
    | error e =>
      rw [pollOnce, Huawei.pollOnce, hgroups]
      exact ⟨hsome, rfl⟩
    | ok groups =>
      obtain ⟨lines, hlines, hseen, hall⟩ :=
        @Huawei.notes_pollOnce _ _ _ _ (some seen) _ hgroups
      obtain ⟨hsome', htally⟩ := @PollNotes.tally_markAll key (Huawei.marks side groups) _
        hsome
      rw [Huawei.markedBad_marks] at htally
      have hwarn : lines.countP (·.warnsOf key) = 0 :=
        List.countP_eq_zero.2 fun line hline => by simp [(hlines line hline key).1]
      have hreturn : lines.countP (·.returnsOf key) = 0 :=
        List.countP_eq_zero.2 fun line hline => by simp [(hlines line hline key).2]
      refine ⟨hseen ▸ hsome', Eq.trans ?_ htally⟩
      rw [pollOnce, PollNotes.tally, PollNotes.tally, PollNotes.muted, PollNotes.muted, hseen, hall,
        List.countP_append, List.countP_append, hwarn, hreturn, Nat.add_zero, Nat.add_zero]

theorem readings_cons (poller : NotingPoller) (side : SourceSide) (key : String)
    (poll : Client × ℤ) (polls : List (Client × ℤ)) : poller.readings side key (poll :: polls) =
      poller.readings side key [poll] ++ poller.readings side key polls := by
  rw [readings, readings, readings, List.flatMap_cons, List.flatMap_singleton]

/-- What a run of polls leaves of a point is what the counter makes of its readings. -/
theorem tally_pollAll (poller : NotingPoller) (side : SourceSide) (key : String) :
    ∀ (polls : List (Client × ℤ)) (seen : Finset String),
      PollNotes.tally key ⟨some (poller.pollAll side polls seen).1,
          (poller.pollAll side polls seen).2⟩ =
        (poller.readings side key polls).foldl Episodes.Tally.record
          (PollNotes.tally key ⟨some seen, []⟩)
  | [], _ => rfl
  | poll :: polls, seen => by
    obtain ⟨hsome, htally⟩ := tally_pollOnce poller side key poll seen
    set notes := (poller.pollOnce poll.1 side poll.2 (some seen)).notes with hnotes
    obtain ⟨seen', hseen'⟩ := Option.isSome_iff_exists.1 hsome
    have ih := tally_pollAll poller side key polls seen'
    have hstart : notes.tally key =
        ⟨(PollNotes.tally key ⟨some seen', []⟩).bad,
          notes.lines.countP (·.warnsOf key) + (PollNotes.tally key ⟨some seen', []⟩).begun,
          notes.lines.countP (·.returnsOf key) + (PollNotes.tally key ⟨some seen', []⟩).ended⟩ := by
      rw [PollNotes.tally, PollNotes.muted, hseen']
      rfl
    rw [readings_cons, List.foldl_append, ← htally, hstart, Episodes.foldl_record_add, ← ih,
      pollAll, ← hnotes, hseen']
    simp [PollNotes.tally, PollNotes.muted, List.countP_append]

/-- From a set without the point, the tally is that of its readings. -/
theorem tally_pollAll_of_notMem (poller : NotingPoller) (side : SourceSide)
    (polls : List (Client × ℤ)) {seen : Finset String} {key : String} (h : key ∉ seen) :
    PollNotes.tally key ⟨some (poller.pollAll side polls seen).1,
        (poller.pollAll side polls seen).2⟩ =
      ⟨(poller.readings side key polls).getLast?.getD false,
        Episodes.episodes (poller.readings side key polls),
        Episodes.endedEpisodes (poller.readings side key polls)⟩ := by
  have hstart : PollNotes.tally key ⟨some seen, []⟩ = {} := by
    simp [PollNotes.tally, PollNotes.muted, h]
  rw [poller.tally_pollAll, hstart, Episodes.tally_foldl]

/-- A point is in the set when its last reading was invalid. -/
theorem mem_pollAll_iff (poller : NotingPoller) (side : SourceSide) (polls : List (Client × ℤ))
    {seen : Finset String} {key : String} (h : key ∉ seen) :
    key ∈ (poller.pollAll side polls seen).1 ↔
      (poller.readings side key polls).getLast? = some true := by
  have hbad := congrArg Episodes.Tally.bad (poller.tally_pollAll_of_notMem side polls h)
  simp only [PollNotes.tally, PollNotes.muted, Option.any_some] at hbad
  rw [← decide_eq_true_iff (p := key ∈ _), hbad]
  cases (poller.readings side key polls).getLast? <;> simp

theorem readings_concat (poller : NotingPoller) (side : SourceSide) (key : String)
    (polls : List (Client × ℤ)) (poll : Client × ℤ) : poller.readings side key (polls ++ [poll]) =
      poller.readings side key polls ++ poller.readings side key [poll] := by
  rw [readings, readings, readings, List.flatMap_append]

theorem pollAll_concat (poller : NotingPoller) (side : SourceSide) (poll : Client × ℤ) :
    ∀ (polls : List (Client × ℤ)) (seen : Finset String),
      poller.pollAll side (polls ++ [poll]) seen =
        (((poller.pollOnce poll.1 side poll.2
            (some (poller.pollAll side polls seen).1)).notes.overrangeSeen.getD ∅),
          (poller.pollAll side polls seen).2 ++ (poller.pollOnce poll.1 side poll.2
            (some (poller.pollAll side polls seen).1)).notes.lines)
  | [], seen => by simp [pollAll]
  | poll' :: polls, seen => by
    rw [List.cons_append, pollAll, pollAll, pollAll_concat poller side poll polls,
      List.append_assoc]

/-- A poll without its blocks leaves the set and logs nothing. -/
theorem notes_of_readError {poller : NotingPoller} {side : SourceSide} {client : Client}
    {slave : ℤ} {e : PyExc} (h : poller.readGroups client side slave = .error e)
    (seen : Option (Finset String)) :
    (poller.pollOnce client side slave seen).notes = ⟨seen, []⟩ := by
  cases poller with
  | nd45 =>
    rw [readGroups] at h
    rw [pollOnce, Nd45.pollOnce, h]
  | huawei =>
    rw [readGroups] at h
    rw [pollOnce, Huawei.pollOnce, h]

/-- A poll that decodes every point takes all of them in. -/
theorem decodedPoints_eq {poller : NotingPoller} {side : SourceSide} {groups : Blocks}
    (h : ∀ e ∈ side.points.entries, ∃ bad, poller.invalidPoint side groups e.2 = .ok bad) :
    poller.decodedPoints side groups = side.points.entries := by
  have hsome : ∀ e ∈ side.points.entries,
      (poller.invalidPoint side groups e.2).toOption.isSome = true := by
    intro e he
    obtain ⟨bad, hbad⟩ := h e he
    rw [hbad]
    rfl
  cases poller with
  | nd45 => exact List.takeWhile_eq_self_iff.2 hsome
  | huawei => exact if_pos (List.all_eq_true.2 hsome)

/-- Such a poll has one reading of each point. -/
theorem readings_of_decoded {poller : NotingPoller} {side : SourceSide} {client : Client}
    {slave : ℤ} {groups : Blocks} (hgroups : poller.readGroups client side slave = .ok groups)
    (h : ∀ e ∈ side.points.entries, ∃ bad, poller.invalidPoint side groups e.2 = .ok bad)
    {e : String × SourcePoint} (he : e ∈ side.points.entries) :
    poller.readings side e.1 [(client, slave)] =
      [decide ((poller.invalidPoint side groups e.2).toOption = some true)] := by
  have honly : side.points.entries.filter (fun e' => e'.1 = e.1) = [e] := by
    have hkeys : (side.points.entries.filter (fun e' => e'.1 = e.1)).map Prod.fst = [e.1] := by
      have hfilter : (side.points.entries.map Prod.fst).filter (fun k => decide (k = e.1)) =
          (side.points.entries.filter (fun e' => e'.1 = e.1)).map Prod.fst := List.filter_map
      rw [← hfilter, List.filter_eq,
        List.count_eq_one_of_mem side.points.nodup (List.mem_map_of_mem he)]
      rfl
    obtain ⟨e', heq, -⟩ := List.map_eq_singleton_iff.1 hkeys
    have hmem : e ∈ side.points.entries.filter (fun e' => e'.1 = e.1) :=
      List.mem_filter.2 ⟨he, by simp⟩
    rw [heq, List.mem_singleton] at hmem
    rw [heq, hmem]
  rw [readings, List.flatMap_singleton]
  simp only [hgroups, decodedPoints_eq h, honly]
  rfl

end NotingPoller

/-- After any polls that share a set, a point of the section is in it exactly when it was invalid
in the last poll that decoded it. It was warned of once for each maximal run of readings in which
it was invalid, and came back once for each of these that ended. A poll that fails while reading
blocks changes nothing, and one that decodes every point leaves in the set those it found
invalid. -/
theorem warnings_follow_episodes (poller : NotingPoller) (side : SourceSide)
    (polls : List (Client × ℤ)) {seen : Finset String}
    (hseen : ∀ key ∈ side.points.keys, key ∉ seen) :
    (∀ key ∈ side.points.keys,
      (key ∈ (poller.pollAll side polls seen).1 ↔
        (poller.readings side key polls).getLast? = some true) ∧
      (poller.pollAll side polls seen).2.countP (·.warnsOf key) =
        Episodes.episodes (poller.readings side key polls) ∧
      (poller.pollAll side polls seen).2.countP (·.returnsOf key) =
        Episodes.endedEpisodes (poller.readings side key polls)) ∧
    (∀ client slave e, poller.readGroups client side slave = .error e →
      poller.pollAll side (polls ++ [(client, slave)]) seen = poller.pollAll side polls seen) ∧
    ∀ client slave groups, poller.readGroups client side slave = .ok groups →
      (∀ e ∈ side.points.entries, ∃ bad, poller.invalidPoint side groups e.2 = .ok bad) →
        ∀ e ∈ side.points.entries,
          (e.1 ∈ (poller.pollAll side (polls ++ [(client, slave)]) seen).1 ↔
            poller.invalidPoint side groups e.2 = .ok true) ∧
          poller.readings side e.1 [(client, slave)] =
            [decide ((poller.invalidPoint side groups e.2).toOption = some true)] := by
  refine ⟨fun key hkey => ?_, fun client slave e h => ?_,
    fun client slave groups hgroups hall e he => ?_⟩
  · have htally := poller.tally_pollAll_of_notMem side polls (hseen key hkey)
    exact ⟨poller.mem_pollAll_iff side polls (hseen key hkey),
      congrArg Episodes.Tally.begun htally, congrArg Episodes.Tally.ended htally⟩
  · rw [poller.pollAll_concat, NotingPoller.notes_of_readError h, List.append_nil]
    rfl
  · have hreading := NotingPoller.readings_of_decoded hgroups hall he
    refine ⟨?_, hreading⟩
    rw [poller.mem_pollAll_iff side _ (hseen e.1 (List.mem_map_of_mem he)),
      poller.readings_concat, hreading,
      List.getLast?_append_of_ne_nil _ (List.cons_ne_nil _ _)]
    obtain ⟨bad, hbad⟩ := hall e he
    rw [hbad]
    cases bad <;> simp [Except.toOption]

end Float

/-- An ND45 that answers no read. -/
def silentClient : Client := fun _ _ => .error (.other "ModbusIOException" "no response")

/-- Two bad polls around one without an answer, and a good one. -/
theorem warnings_follow_episodes_freqSource :
    let polls := [(imageClient (nanImage 818 "big"), (1 : ℤ)), (silentClient, 1),
      (imageClient (nanImage 818 "big"), 1), (imageClient zeroImage, 1)]
    (@NotingPoller.pollAll .double .nd45 freqSource polls ∅).2.countP (·.warnsOf "freq") = 1 ∧
      (@NotingPoller.pollAll .double .nd45 freqSource polls ∅).2.countP (·.returnsOf "freq") =
        1 := by
  intro polls
  obtain ⟨hcounts, -, -⟩ := @warnings_follow_episodes .double .nd45 freqSource polls ∅ (by simp)
  obtain ⟨-, hwarn, hreturn⟩ := hcounts "freq" (by decide)
  have hreadings : @NotingPoller.readings .double .nd45 freqSource "freq" polls =
      [true, true, false] := by decide +kernel
  rw [hwarn, hreturn, hreadings]
  decide

/-- A frequency with a sign that no float can hold, before a power factor. -/
def raisingSource : SourceSide where
  points := ⟨[("freq", { addr := some 818, sign := 2 ^ 1025, shape := rfl }),
    ("pf_total", { addr := some 902, shape := rfl })], List.nodup_cons.2 ⟨by decide, by decide⟩⟩
  covered := rfl

/-- A poll with all of its blocks raises for the first point, and the second is left out of the
set although it is invalid. -/
theorem raising_poll_leaves_invalid :
    @NotingPoller.readGroups .nd45 (imageClient (nanImage 902 "big")) raisingSource 1 =
        .ok (nd45Blocks (nanImage 902 "big") 1) ∧
      (∀ pt ∈ raisingSource.points.get? "pf_total", (@NotingPoller.invalidPoint .double .nd45
        raisingSource (nd45Blocks (nanImage 902 "big") 1) pt).toOption = some true) ∧
      "pf_total" ∉ (@NotingPoller.pollAll .double .nd45 raisingSource
        [(imageClient (nanImage 902 "big"), 1)] ∅).1 := by
  refine ⟨nd45_readGroups_imageClient _ 1, by decide +kernel, by decide +kernel⟩

end DtsuBridge
