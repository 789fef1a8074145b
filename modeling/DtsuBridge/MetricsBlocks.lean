import DtsuBridge.MetricsText

/-!
# The blocks of a bridge

Which families the blocks of a bridge are of, and that the labels of their samples differ : those of
the blocks of registers and of the slave ids by the keys they are counted under, those of the output
points by map and name.

`renderValueFamilies_adds` : the measurements and registers of a bridge are a step of three
families.
-/

namespace DtsuBridge

open Exposition (Differ Apart)

section Float

variable [FloatArith]

/-! ## The families of a bridge -/

/-- No label, or that of a bridge. -/
def BridgeLabel (label : MetricLabels) : Prop :=
  label = [] ∨ ∃ name, label = [("bridge", name)]

omit [FloatArith] in
theorem validKeys_append {label extra : MetricLabels} (hlabel : BridgeLabel label)
    (h : ValidKeys ("bridge" :: extra.map Prod.fst)) :
    ValidKeys ((label ++ extra).map Prod.fst) := by
  rcases hlabel with rfl | ⟨name, rfl⟩
  · exact ⟨(List.nodup_cons.1 h.1).2, fun key hkey => h.2 key (List.mem_cons_of_mem _ hkey)⟩
  · exact h

omit [FloatArith] in
/-- A block of one sample. -/
theorem valid_single {label : MetricLabels} (hlabel : BridgeLabel label) {family : MetricFamily}
    (hfamily : family.Valid) (value : SampleValue) {extra : MetricLabels}
    (h : ValidKeys ("bridge" :: extra.map Prod.fst)) :
    MetricBlock.Valid label ⟨family, [(value, label ++ extra)]⟩ where
  family := hfamily
  keys := by
    rw [List.forall_mem_singleton]
    exact validKeys_append hlabel h
  differ := List.pairwise_singleton _ _
  label := by
    rw [List.forall_mem_singleton]
    exact List.subset_append_left _ _

omit [FloatArith] in
/-- A block of one sample without labels of its own. -/
theorem valid_plain {label : MetricLabels} (hlabel : BridgeLabel label) {family : MetricFamily}
    (hfamily : family.Valid) (value : SampleValue) :
    MetricBlock.Valid label ⟨family, [(value, label)]⟩ := by
  have h := @valid_single label hlabel family hfamily value [] (by decide)
  rwa [List.append_nil] at h

omit [FloatArith] in
/-- A block with a sample for each of some things that differ. -/
theorem valid_map {α : Type} {label : MetricLabels} (hlabel : BridgeLabel label)
    {family : MetricFamily} (hfamily : family.Valid) {xs : List α} {value : α → SampleValue}
    {extra : α → MetricLabels} (h : ∀ x ∈ xs, ValidKeys ("bridge" :: (extra x).map Prod.fst))
    (hdiffer : xs.Pairwise fun x y => Differ (extra x) (extra y)) :
    MetricBlock.Valid label ⟨family, xs.map fun x => (value x, label ++ extra x)⟩ where
  family := hfamily
  keys := by
    rw [List.forall_mem_map]
    exact fun x hx => validKeys_append hlabel (h x hx)
  differ := by
    rw [List.pairwise_map]
    refine hdiffer.imp ?_
    rintro x y ⟨name, v, v', hv, hv', hne⟩
    exact ⟨name, v, v', List.mem_append_right _ hv, List.mem_append_right _ hv', hne⟩
  label := by
    rw [List.forall_mem_map]
    exact fun x _ => List.subset_append_left _ _

def PollFamilies.all (families : PollFamilies) : List MetricFamily :=
  [families.connected] ++
  [families.dataAge, families.dataFresh, families.maxDataAge, families.pollInterval,
    families.polls, families.consecutiveFailures, families.lastOkAge, families.lastErrorAge] ++
  [families.lastErrorInfo]

def ServerFamilies.all (families : ServerFamilies) : List MetricFamily :=
  [families.up, families.starts, families.stops, families.lastStartAge]

def ReadFamilies.all (families : ReadFamilies) : List MetricFamily :=
  [families.requests, families.rate, families.lastRequestAge, families.blockReads]

def bridgeSourceFamilies : List MetricFamily :=
  bridgePollFamilies.all ++ [bridgeRestarts, bridgeRestartAge] ++
    [bridgeHeartbeatAge, bridgeStallTimeout]

omit [FloatArith] in
theorem pollBlocks_families (families : PollFamilies) (bridge : ExportedBridge)
    (label : MetricLabels) (loopNow monoNow : Time) :
    ((pollBlocks families bridge label loopNow monoNow).map (·.family)).Sublist families.all := by
  unfold pollBlocks PollFamilies.all
  rw [List.map_append, List.map_append]
  refine .append (.append ?_ (.refl _)) ?_
  · rcases bridge.connected with _ | connected
    · exact List.nil_sublist _
    · exact .refl _
  · rcases bridge.pollStats.lastErrorType with _ | type
    · exact List.nil_sublist _
    · exact .refl _

omit [FloatArith] in
theorem pollBlocks_valid {families : PollFamilies} (h : ∀ family ∈ families.all, family.Valid)
    (bridge : ExportedBridge) {label : MetricLabels} (hlabel : BridgeLabel label)
    (loopNow monoNow : Time) :
    ∀ block ∈ pollBlocks families bridge label loopNow monoNow, block.Valid label := by
  simp only [PollFamilies.all, List.forall_mem_append, List.forall_mem_cons, List.not_mem_nil,
    false_implies, implies_true, and_true] at h
  obtain ⟨⟨hconnected, hage, hfresh, hmax, hinterval, hpolls, hfailures, hok, herror⟩, hinfo⟩ := h
  unfold pollBlocks
  simp only [List.forall_mem_append, List.forall_mem_map, List.forall_mem_cons, List.not_mem_nil,
    false_implies, implies_true, and_true]
  have htype : ValidKeys ["bridge", "type"] := by decide
  have hkeys : ValidKeys ["bridge", "result"] := by decide
  refine ⟨⟨fun connected _ => valid_plain hlabel hconnected _, ?_⟩, fun type _ =>
    valid_single hlabel hinfo _ htype⟩
  have hresult : MetricBlock.Valid label ⟨families.polls, [("ok", bridge.pollStats.pollsOk),
      ("error", bridge.pollStats.pollsFailed)].map fun x : String × ℕ =>
        (.int x.2, label ++ [("result", x.1)])⟩ := by
    refine valid_map hlabel hpolls (fun _ _ => hkeys) ?_
    refine List.pairwise_pair.2 ⟨"result", "ok", "error", ?_, ?_, by decide⟩
    · exact List.mem_singleton_self _
    · exact List.mem_singleton_self _
  exact ⟨valid_plain hlabel hage _, valid_plain hlabel hfresh _, valid_plain hlabel hmax _,
    valid_plain hlabel hinterval _, hresult, valid_plain hlabel hfailures _,
    valid_plain hlabel hok _, valid_plain hlabel herror _⟩

omit [FloatArith] in
theorem bridgeSourceBlocks_families (bridge : ExportedBridge) (label : MetricLabels)
    (loopNow monoNow : Time) :
    ((bridgeSourceBlocks bridge label loopNow monoNow).map (·.family)).Sublist
      bridgeSourceFamilies := by
  unfold bridgeSourceBlocks bridgeSourceFamilies
  rw [List.map_append, List.map_append]
  refine .append (.append (pollBlocks_families _ _ _ _ _) (.refl _)) ?_
  rcases bridge.heartbeat with _ | beat
  · exact List.nil_sublist _
  · exact .refl _

omit [FloatArith] in
theorem bridgeSourceBlocks_valid (h : ∀ family ∈ bridgeSourceFamilies, family.Valid)
    (bridge : ExportedBridge) {label : MetricLabels} (hlabel : BridgeLabel label)
    (loopNow monoNow : Time) :
    ∀ block ∈ bridgeSourceBlocks bridge label loopNow monoNow, block.Valid label := by
  simp only [bridgeSourceFamilies, List.forall_mem_append, List.forall_mem_cons,
    List.not_mem_nil, false_implies, implies_true, and_true] at h
  obtain ⟨⟨hpoll, hrestarts, hage⟩, hbeat, htimeout⟩ := h
  unfold bridgeSourceBlocks
  simp only [List.forall_mem_append, List.forall_mem_flatMap, List.forall_mem_cons,
    List.not_mem_nil, false_implies, implies_true, and_true]
  exact ⟨⟨pollBlocks_valid hpoll bridge hlabel _ _, valid_plain hlabel hrestarts _,
    valid_plain hlabel hage _⟩, fun beat _ => ⟨valid_plain hlabel hbeat _,
    valid_plain hlabel htimeout _⟩⟩

omit [FloatArith] in
theorem serverBlocks_valid {families : ServerFamilies} (h : ∀ family ∈ families.all, family.Valid)
    (status : ServerStatus) {label : MetricLabels} (hlabel : BridgeLabel label) (monoNow : Time) :
    ∀ block ∈ serverBlocks families status label monoNow, block.Valid label := by
  simp only [ServerFamilies.all, List.forall_mem_cons, List.not_mem_nil, false_implies,
    implies_true, and_true] at h
  obtain ⟨hup, hstarts, hstops, hage⟩ := h
  unfold serverBlocks
  simp only [List.forall_mem_cons, List.not_mem_nil, false_implies, implies_true, and_true]
  exact ⟨valid_plain hlabel hup _, valid_plain hlabel hstarts _, valid_plain hlabel hstops _,
    valid_plain hlabel hage _⟩

/-- The labels of a block of registers. -/
def blockLabels (key : ℤ × ℤ × ℤ) : MetricLabels :=
  [("fc", toString key.1), ("addr", toString key.2.1), ("count", toString key.2.2)]

omit [FloatArith] in
theorem toString_int_inj {a b : ℤ} (h : toString a = toString b) : a = b :=
  Int.repr_injective h

omit [FloatArith] in
theorem differ_blockLabels {key key' : ℤ × ℤ × ℤ} (h : key ≠ key') :
    Differ (blockLabels key) (blockLabels key') := by
  obtain ⟨fc, addr, count⟩ := key
  obtain ⟨fc', addr', count'⟩ := key'
  by_cases hfc : fc = fc'
  · by_cases haddr : addr = addr'
    · have hcount : count ≠ count' := fun hcount => h (by rw [hfc, haddr, hcount])
      exact ⟨"count", _, _, by simp [blockLabels], by simp [blockLabels],
        mt toString_int_inj hcount⟩
    · exact ⟨"addr", _, _, by simp [blockLabels], by simp [blockLabels], mt toString_int_inj haddr⟩
  · exact ⟨"fc", _, _, by simp [blockLabels], by simp [blockLabels], mt toString_int_inj hfc⟩

omit [FloatArith] in
/-- The sorted entries of a dictionary have distinct keys. -/
theorem pairwise_insertionSort {κ ν : Type} (d : Dict κ ν) (r : κ × ν → κ × ν → Prop)
    [DecidableRel r] : (d.entries.insertionSort r).Pairwise fun a b => a.1 ≠ b.1 := by
  have hperm : ((d.entries.insertionSort r).map Prod.fst).Perm (d.entries.map Prod.fst) :=
    (List.perm_insertionSort r d.entries).map _
  exact List.pairwise_map.1 (hperm.nodup_iff.2 d.nodup)

omit [FloatArith] in
theorem readBlocks_valid {families : ReadFamilies} (h : ∀ family ∈ families.all, family.Valid)
    {activity : RtuActivity} {now : Time} {summary : ActivitySummary}
    (hsummary : activity.summary now = .ok summary) {label : MetricLabels}
    (hlabel : BridgeLabel label) :
    ∀ block ∈ readBlocks families summary label, block.Valid label := by
  simp only [ReadFamilies.all, List.forall_mem_cons, List.not_mem_nil, false_implies,
    implies_true, and_true] at h
  obtain ⟨hrequests, hrate, hage, hblocks⟩ := h
  have hreads : summary.blocks = RtuActivity.mostCommon activity.blocks := by
    unfold RtuActivity.summary at hsummary
    dsimp only at hsummary
    split_ifs at hsummary
    rw [← Except.ok.inj hsummary]
  have hkeys : ValidKeys ["bridge", "fc", "addr", "count"] := by decide
  have hdiffer : summary.blocks.Pairwise fun a b => Differ (blockLabels a.1) (blockLabels b.1) := by
    rw [hreads]
    exact (pairwise_insertionSort activity.blocks _).imp differ_blockLabels
  unfold readBlocks
  simp only [List.forall_mem_cons, List.not_mem_nil, false_implies, implies_true, and_true]
  exact ⟨valid_plain hlabel hrequests _, valid_plain hlabel hrate _, valid_plain hlabel hage _,
    @valid_map _ label hlabel _ hblocks summary.blocks (fun e => .int e.2)
      (fun e => blockLabels e.1) (fun _ _ => hkeys) hdiffer⟩

omit [FloatArith] in
theorem wireBlocks_valid (h : ∀ family ∈ [bridgeBusBytes, bridgeBusFrames], family.Valid)
    (wire : WireActivity) {label : MetricLabels} (hlabel : BridgeLabel label) :
    ∀ block ∈ wireBlocks wire label, block.Valid label := by
  simp only [List.forall_mem_cons, List.not_mem_nil, false_implies, implies_true, and_true] at h
  have hkeys : ValidKeys ["bridge", "slave_id"] := by decide
  have hdiffer : wire.slaveIds.Pairwise fun a b =>
      Differ [("slave_id", toString a.1)] [("slave_id", toString b.1)] := by
    refine (pairwise_insertionSort wire.frames _).imp fun hne => ?_
    exact ⟨"slave_id", _, _, List.mem_singleton_self _, List.mem_singleton_self _,
      fun heq => hne (Nat.repr_injective heq)⟩
  unfold wireBlocks
  simp only [List.forall_mem_cons, List.not_mem_nil, false_implies, implies_true, and_true]
  exact ⟨valid_plain hlabel h.1 _, @valid_map _ label hlabel _ h.2 wire.slaveIds
    (fun e => .int e.2) (fun e => [("slave_id", toString e.1)]) (fun _ _ => hkeys) hdiffer⟩

/-! ## Measurements and registers -/

def ValueFamilies.all (families : ValueFamilies) : List MetricFamily :=
  [⟨families.canonical.1, "gauge", families.canonical.2⟩,
    ⟨families.register.1, "gauge", families.register.2⟩,
    ⟨families.readAge.1, "gauge", families.readAge.2⟩]

omit [FloatArith] in
theorem outputPoints_pairwise {targets : List (String × TargetSide)}
    (h : (targets.map Prod.fst).Nodup) :
    (outputPoints targets).Pairwise fun p q => p.map ≠ q.map ∨ p.name ≠ q.name := by
  unfold outputPoints
  rw [List.pairwise_flatMap]
  refine ⟨?_, ?_⟩
  · rintro ⟨map, side⟩ -
    rw [List.pairwise_map]
    exact (pairwise_insertionSort side.points _).imp .inr
  · refine (List.pairwise_map.1 h).imp ?_
    rintro ⟨map, side⟩ ⟨map', side'⟩ hne p hp q hq
    obtain ⟨e, -, rfl⟩ := List.mem_map.1 hp
    obtain ⟨e', -, rfl⟩ := List.mem_map.1 hq
    exact .inl hne

omit [FloatArith] in
theorem differ_labels {p q : OutputPoint} (h : p.map ≠ q.map ∨ p.name ≠ q.name)
    (label : MetricLabels) : Differ (p.labels label) (q.labels label) := by
  rcases h with h | h
  · exact ⟨"map", _, _, by simp [OutputPoint.labels], by simp [OutputPoint.labels], h⟩
  · exact ⟨"point", _, _, by simp [OutputPoint.labels], by simp [OutputPoint.labels], h⟩

/-- The line is a sample of a point in these families. -/
def PointSample (families : ValueFamilies) (label : MetricLabels) (p : OutputPoint)
    (line : MetricLine) : Prop :=
  ∃ name value, name ∈ [families.register.1, families.readAge.1] ∧
    line = .sample name value (p.labels label)

/-- The lines of a point have its labels, one of each family at most. -/
theorem pointLines_series {families : ValueFamilies} {values : Sample} {ctRatio : PyFloat}
    {activity : Option (FunctionCode → ℤ → Option Time)} {label : MetricLabels} {monoNow : Time}
    {p : OutputPoint} {ls : List MetricLine}
    (h : pointLines families values ctRatio activity label monoNow p = .ok ls) :
    (MetricsOut.series ls).Sublist
        [(families.readAge.1, p.labels label), (families.register.1, p.labels label)] ∧
      ∀ line ∈ ls, PointSample families label p line := by
  have hages : (MetricsOut.series (ageLines families activity label monoNow p)).Sublist
        [(families.readAge.1, p.labels label)] ∧
      ∀ line ∈ ageLines families activity label monoNow p, PointSample families label p line := by
    rcases activity with _ | lastSeen
    · exact ⟨List.nil_sublist _, by simp [ageLines]⟩
    · refine ⟨.refl _, ?_⟩
      rw [ageLines, List.forall_mem_singleton]
      exact ⟨_, _, by simp, rfl⟩
  rcases pointLines_cases h with rfl | ⟨raw, rfl⟩
  · exact ⟨hages.1.trans (List.sublist_append_left [_] [_]), hages.2⟩
  · rw [MetricsOut.series_append]
    refine ⟨hages.1.append (.refl _), List.forall_mem_append.2 ⟨hages.2, ?_⟩⟩
    rw [List.forall_mem_singleton]
    exact ⟨_, _, by simp, rfl⟩

omit [FloatArith] in
theorem series_of_pointSample {families : ValueFamilies} {label : MetricLabels}
    {ps : List OutputPoint} {lines : List MetricLine}
    (h : ∀ line ∈ lines, ∃ p ∈ ps, PointSample families label p line) :
    ∀ s ∈ MetricsOut.series lines, s.1 ∈ [families.register.1, families.readAge.1] ∧
      ∃ p ∈ ps, s.2 = p.labels label := by
  intro s hs
  obtain ⟨line, hline, hs⟩ := List.mem_filterMap.1 hs
  obtain ⟨p, hp, name, value, hname, rfl⟩ := h line hline
  obtain rfl := Option.some.inj hs
  exact ⟨hname, p, hp, rfl⟩

/-- The lines of points that differ. -/
theorem points_group {families : ValueFamilies} (hne : families.register.1 ≠ families.readAge.1)
    {values : Sample} {ctRatio : PyFloat}
    {activity : Option (FunctionCode → ℤ → Option Time)} {label : MetricLabels} {monoNow : Time} :
    ∀ {ps : List OutputPoint} {lss : List (List MetricLine)},
      List.Forall₂ (fun p ls =>
        pointLines families values ctRatio activity label monoNow p = .ok ls) ps lss →
      (ps.Pairwise fun p q => p.map ≠ q.map ∨ p.name ≠ q.name) →
        (MetricsOut.series lss.flatten).Pairwise Apart ∧
          ∀ line ∈ lss.flatten, ∃ p ∈ ps, PointSample families label p line
  | [], _, .nil, _ => ⟨.nil, by simp⟩
  | p :: ps, ls :: lss, .cons hp hps, hpairwise => by
    obtain ⟨hfirst, hrest⟩ := List.pairwise_cons.1 hpairwise
    obtain ⟨hapart, hlines⟩ := points_group hne hps hrest
    obtain ⟨hseries, hsamples⟩ := pointLines_series hp
    have hhead : ∀ line ∈ ls, ∃ q ∈ [p], PointSample families label q line :=
      fun line hline => ⟨p, List.mem_singleton_self _, hsamples line hline⟩
    rw [List.flatten_cons, MetricsOut.series_append]
    refine ⟨List.pairwise_append.2 ⟨?_, hapart, fun s hs t ht _ => ?_⟩,
      List.forall_mem_append.2 ⟨fun line hline => ?_, fun line hline => ?_⟩⟩
    · refine List.Pairwise.sublist hseries (List.pairwise_pair.2 fun heq => ?_)
      exact absurd heq.symm hne
    · obtain ⟨-, p', hp', hs⟩ := series_of_pointSample hhead s hs
      obtain ⟨-, q, hq, ht⟩ := series_of_pointSample hlines t ht
      rw [hs, ht, List.mem_singleton.1 hp']
      exact differ_labels (hfirst q hq) label
    · exact ⟨p, List.mem_cons_self, hsamples line hline⟩
    · obtain ⟨q, hq, hline⟩ := hlines line hline
      exact ⟨q, List.mem_cons_of_mem _ hq, hline⟩

/-- The lines of the measurements, by name. -/
def canonicalLines (name : String) (values : Sample) (label : MetricLabels) : List MetricLine :=
  (values.entries.insertionSort fun a b => a.1 ≤ b.1).map fun e =>
    .sample name (.float e.2) (label ++ [("point", e.1)])

omit [FloatArith] in
theorem canonicalLines_group (name : String) (values : Sample) (label : MetricLabels) :
    Group [name] label (MetricsOut.series (canonicalLines name values label)) := by
  have hseries : MetricsOut.series (canonicalLines name values label) =
      (values.entries.insertionSort fun a b => a.1 ≤ b.1).map fun e =>
        (name, label ++ [("point", e.1)]) := by
    rw [MetricsOut.series, canonicalLines, List.filterMap_map, ← List.filterMap_eq_map]
    rfl
  rw [hseries]
  refine ⟨?_, ?_, ?_⟩
  · rw [List.pairwise_map]
    refine (pairwise_insertionSort values _).imp fun hne _ => ?_
    exact ⟨"point", _, _, by simp, by simp, hne⟩
  · rw [List.forall_mem_map]
    exact fun _ _ => List.mem_singleton_self _
  · rw [List.forall_mem_map]
    exact fun _ _ => List.subset_append_left _ _

theorem renderValueFamilies_adds {families : ValueFamilies}
    (hvalid : ∀ family ∈ families.all, family.Valid)
    (hnodup : (families.all.map (·.name)).Nodup) {source : MetricsSource}
    (htargets : (source.targets.map Prod.fst).Nodup) {bridge : BridgeMetrics}
    {label : MetricLabels} (hlabel : BridgeLabel label) {monoNow : Time} {out out' : MetricsOut}
    (h : renderValueFamilies families source bridge label monoNow out = .ok out') :
    Adds (families.all.map (·.name)) label out out' := by
  obtain ⟨lss, hlss, heq⟩ := Except.bind_eq_ok.1 h
  obtain rfl := Except.ok.inj heq
  simp only [ValueFamilies.all, List.forall_mem_cons, List.not_mem_nil, false_implies,
    implies_true, and_true, List.map_cons, List.map_nil] at hvalid hnodup ⊢
  obtain ⟨hcanonical, hregister, hage⟩ := hvalid
  obtain ⟨hfirst, hnodup⟩ := List.nodup_cons.1 hnodup
  have hne : families.register.1 ≠ families.readAge.1 := by simpa using hnodup
  have hpoint : ValidKeys ["bridge", "point"] := by decide
  have hpoints : ValidKeys ["bridge", "map", "point", "fc", "addr"] := by decide
  have hall := Except.mapM_eq_ok.1 hlss
  obtain ⟨hapart, hlines⟩ := points_group hne hall (outputPoints_pairwise htargets)
  have hgroup : Group [families.register.1, families.readAge.1] label
      (MetricsOut.series lss.flatten) := by
    refine ⟨hapart, fun s hs => (series_of_pointSample hlines s hs).1, fun s hs => ?_⟩
    obtain ⟨-, p, -, hs⟩ := series_of_pointSample hlines s hs
    rw [hs]
    exact List.subset_append_left _ _
  refine ⟨fun hsound => ?_, _, ?_, (canonicalLines_group families.canonical.1 bridge.store.values
    label).append hgroup (List.disjoint_singleton.2 hfirst).symm⟩
  · have hmeasured : MetricsOut.Sound (out.family families.canonical.1 "gauge"
        families.canonical.2 ++ canonicalLines families.canonical.1 bridge.store.values label) := by
      refine (hsound.family hcanonical).append fun line hline => ?_
      obtain ⟨e, -, rfl⟩ := List.mem_map.1 hline
      exact ⟨_, _, _, rfl, MetricsOut.declares_family (.inl rfl) _ _,
        validKeys_append hlabel hpoint⟩
    refine ((hmeasured.family hregister).family hage).append fun line hline => ?_
    obtain ⟨p, -, name, value, hname, rfl⟩ := hlines line hline
    refine ⟨_, _, _, rfl, ?_, validKeys_append hlabel hpoints⟩
    simp only [List.mem_cons, List.not_mem_nil, or_false] at hname
    rcases hname with rfl | rfl
    · refine MetricsOut.declares_family (.inr ?_) _ _
      exact MetricsOut.declares_family (.inl rfl) _ _
    · exact MetricsOut.declares_family (.inl rfl) _ _
  · simp only [MetricsOut.series_append, MetricsOut.series_family, List.append_assoc]
    rfl

end Float

end DtsuBridge
