import DtsuBridge.MetricsBlocks

/-!
# The exposition is unambiguous

No two families have one name (`families_nodup`), the bridges of a process have distinct names
(`Exporter.nodup_names`), and each step of `render` adds samples of some of the families, under the
name of its bridge if it has one.

`exposition_unambiguous` : for every accepted configuration, whatever the state of its bridges and
the clocks, the text is read as the lines that were passed to `_Out`, no two samples of which have
one name and one set of labels. Each has one help line and one type line of its family, before it.
-/

namespace DtsuBridge

open Exposition (Apart)

section Float

variable [FloatArith]

/-! ## The families -/

/-- The families of the process. -/
def processFamilies : List MetricFamily :=
  [buildInfo, uptime] ++ [watchdogAge]

/-- The families of the server of a bridge, its reads and its bus. -/
def bridgeDtsuFamilies : List MetricFamily :=
  bridgeServerFamilies.all ++ (bridgeReadFamilies.all ++ [bridgeBusBytes, bridgeBusFrames])

/-- The families of a bridge under its name. -/
def namedFamilies : List MetricFamily :=
  bridgeInfo :: bridgeSourceFamilies ++ (bridgeDtsuFamilies ++ bridgeFamilies.all)

/-- Those of the first bridge under the names without a label. -/
def unlabelledFamilies : List MetricFamily :=
  (aliasPollFamilies.all ++ aliasServerFamilies.all) ++ (aliasReadFamilies.all ++ aliasFamilies.all)

omit [FloatArith] in
/-- A text of the grammar, read off its characters. -/
theorem helpText_ofList {cs : List Char}
    (h : (!cs.contains '\n' && cs.head?.all fun c => !Exposition.isBlank c) = true) :
    HelpText (String.ofList cs) := by
  rw [Bool.and_eq_true_iff, Bool.not_eq_true'] at h
  unfold HelpText
  rw [String.toList_ofList]
  exact ⟨by simpa using h.1, h.2⟩

omit [FloatArith] in
theorem isName_ofList {name : List Char} (h : name.all Exposition.isMetricChar = true) :
    Exposition.isName Exposition.isMetricChar (PREFIX ++ String.ofList name).toList = true := by
  have hprefix : PREFIX.toList =
      ['n', 'd', '4', '5', '_', 'd', 't', 's', 'u', '6', '6', '6'] := String.toList_ofList
  have hall : (['n', 'd', '4', '5', '_', 'd', 't', 's', 'u', '6', '6', '6'] : List Char).all
      Exposition.isMetricChar = true := by decide
  rw [String.toList_append, String.toList_ofList, hprefix, Exposition.isName, List.all_append,
    hall, h]
  rfl

omit [FloatArith] in
theorem family_valid {name : List Char} {kind help : String}
    (hname : name.all Exposition.isMetricChar = true) (hkind : kind ∈ Exposition.kinds)
    (hhelp : HelpText help) : MetricFamily.Valid ⟨PREFIX ++ String.ofList name, kind, help⟩ :=
  ⟨isName_ofList hname, hhelp, hkind⟩

set_option maxRecDepth 2000 in
omit [FloatArith] in
theorem processFamilies_valid : ∀ family ∈ processFamilies, family.Valid := by
  simp only [processFamilies, buildInfo, uptime, watchdogAge, gauge, String.reduceAppend,
    List.cons_append, List.nil_append, List.forall_mem_cons, List.not_mem_nil, false_implies,
    implies_true, and_true]
  and_intros
  all_goals exact family_valid (by decide) (by decide) (helpText_ofList (by decide +kernel))

set_option maxRecDepth 2000 in
omit [FloatArith] in
theorem bridgeSourceFamilies_valid :
    ∀ family ∈ bridgeInfo :: bridgeSourceFamilies, family.Valid := by
  simp only [bridgeSourceFamilies, PollFamilies.all, bridgePollFamilies, bridgeInfo,
    bridgeStallTimeout, bridgeHeartbeatAge, bridgeRestarts, bridgeRestartAge, gauge, counter,
    String.reduceAppend, List.cons_append, List.nil_append, List.forall_mem_cons, List.not_mem_nil,
    false_implies, implies_true, and_true]
  and_intros
  all_goals exact family_valid (by decide) (by decide) (helpText_ofList (by decide +kernel))

omit [FloatArith] in
theorem bridgeDtsuFamilies_valid : ∀ family ∈ bridgeDtsuFamilies, family.Valid := by
  simp only [bridgeDtsuFamilies, ServerFamilies.all, ReadFamilies.all, bridgeServerFamilies,
    bridgeReadFamilies, bridgeBusBytes, bridgeBusFrames, gauge, counter, String.reduceAppend,
    List.cons_append, List.nil_append, List.forall_mem_cons, List.not_mem_nil, false_implies,
    implies_true, and_true]
  and_intros
  all_goals exact family_valid (by decide) (by decide) (helpText_ofList (by decide +kernel))

omit [FloatArith] in
theorem unlabelledFamilies_valid : ∀ family ∈ unlabelledFamilies, family.Valid := by
  simp only [unlabelledFamilies, PollFamilies.all, ServerFamilies.all, ReadFamilies.all,
    ValueFamilies.all, aliasPollFamilies, aliasServerFamilies, aliasReadFamilies, aliasFamilies,
    gauge, counter, List.cons_append, List.nil_append, List.forall_mem_cons, List.not_mem_nil,
    false_implies, implies_true, and_true]
  and_intros
  all_goals exact family_valid (by decide) (by decide) (helpText_ofList (by decide +kernel))

omit [FloatArith] in
theorem bridgeFamilies_valid : ∀ family ∈ bridgeFamilies.all, family.Valid := by
  simp only [ValueFamilies.all, bridgeFamilies, String.reduceAppend, List.forall_mem_cons,
    List.not_mem_nil, false_implies, implies_true, and_true]
  and_intros
  all_goals exact family_valid (by decide) (by decide) (helpText_ofList (by decide +kernel))

omit [FloatArith] in
/-- No two families share a name. -/
theorem families_nodup :
    ((processFamilies ++ (namedFamilies ++ unlabelledFamilies)).map (·.name)).Nodup := by
  decide +kernel

/-! ## Steps of the rendering -/

omit [FloatArith] in
/-- Distinct names of two lists are distinct in each. -/
theorem nodup_names {fs fs' : List MetricFamily} (h : ((fs ++ fs').map (·.name)).Nodup) :
    (fs.map (·.name)).Nodup ∧ (fs'.map (·.name)).Nodup := by
  rw [List.map_append] at h
  exact ⟨h.of_append_left, h.of_append_right⟩

/-- Blocks of some of these families. -/
theorem emitAll_families {families : List MetricFamily} (hnodup : (families.map (·.name)).Nodup)
    {label : MetricLabels} {blocks : List MetricBlock}
    (hsub : (blocks.map (·.family)).Sublist families)
    (hvalid : ∀ block ∈ blocks, block.Valid label) {out out' : MetricsOut}
    (h : out.emitAll blocks = .ok out') : Adds (families.map (·.name)) label out out' := by
  have hnames : (blocks.map (·.family.name)).Sublist (families.map (·.name)) := by
    have hmap := hsub.map (·.name)
    rwa [List.map_map] at hmap
  exact (MetricsOut.emitAll_adds hvalid (hnodup.sublist hnames) h).mono hnames.subset

/-- Two steps with families of distinct names. -/
theorem Adds.families {fs fs' : List MetricFamily} (hnodup : ((fs ++ fs').map (·.name)).Nodup)
    {label : MetricLabels} {out out' out'' : MetricsOut}
    (h : Adds (fs.map (·.name)) label out out') (h' : Adds (fs'.map (·.name)) label out' out'') :
    Adds ((fs ++ fs').map (·.name)) label out out'' := by
  rw [List.map_append] at hnodup ⊢
  exact h.trans h' (List.disjoint_of_nodup_append hnodup)

theorem Adds.left {fs : List MetricFamily} {label : MetricLabels} {out out' : MetricsOut}
    (h : Adds (fs.map (·.name)) label out out') (fs' : List MetricFamily) :
    Adds ((fs ++ fs').map (·.name)) label out out' := by
  rw [List.map_append]
  exact h.mono (List.subset_append_left _ _)

theorem renderBridgeDtsu_adds {bridge : ExportedBridge} {label : MetricLabels}
    (hlabel : BridgeLabel label) {monoNow : Time} {out out' : MetricsOut}
    (hnodup : (bridgeDtsuFamilies.map (·.name)).Nodup)
    (h : renderBridgeDtsu bridge label monoNow out = .ok out') :
    Adds (bridgeDtsuFamilies.map (·.name)) label out out' := by
  obtain ⟨hserver, hrest⟩ := List.forall_mem_append.1 bridgeDtsuFamilies_valid
  obtain ⟨hread, hwire⟩ := List.forall_mem_append.1 hrest
  obtain ⟨hnodupServer, hnodupRest⟩ := nodup_names hnodup
  obtain ⟨hnodupRead, hnodupWire⟩ := nodup_names hnodupRest
  unfold renderBridgeDtsu at h
  obtain ⟨out₁, h₁, h⟩ := Except.bind_eq_ok.1 h
  have hadds₁ := emitAll_families hnodupServer (.refl _)
    (serverBlocks_valid hserver bridge.serverStatus hlabel monoNow) h₁
  rcases hactivity : bridge.activity with _ | activity
  · rw [hactivity] at h
    obtain rfl := Except.ok.inj h
    exact hadds₁.left _
  · rw [hactivity] at h
    obtain ⟨summary, hsummary, h⟩ := Except.bind_eq_ok.1 h
    obtain ⟨out₂, h₂, h⟩ := Except.bind_eq_ok.1 h
    have hadds₂ := emitAll_families hnodupRead (.refl _)
      (readBlocks_valid hread hsummary hlabel) h₂
    refine hadds₁.families hnodup ?_
    rcases hw : bridge.wire with _ | wire
    · rw [hw] at h
      obtain rfl := Except.ok.inj h
      exact hadds₂.left _
    · rw [hw] at h
      exact hadds₂.families hnodupRest
        (emitAll_families hnodupWire (.refl _) (wireBlocks_valid hwire wire hlabel) h)

omit [FloatArith] in
theorem bridgeInfoBlock_valid (hvalid : bridgeInfo.Valid) (bridge : ExportedBridge)
    {label : MetricLabels} (hlabel : BridgeLabel label) :
    (bridgeInfoBlock bridge label).Valid label := by
  have hkeys : ValidKeys
      ["bridge", "source_type", "register_map", "transport", "slave_id", "output"] := by decide
  exact valid_single hlabel hvalid _ hkeys

omit [FloatArith] in
theorem targets_nodup (m : RegisterMap) : (m.targets.map Prod.fst).Nodup := by
  have hnames : m.targets.map Prod.fst =
      ["dtsu_target", "dtsu_sigen_ext_target", "dtsu_sigen_ext_energy"] := rfl
  rw [hnames]
  decide

/-- A bridge under its name. -/
theorem renderBridge_adds {source : Exporter} {bridge : ExportedBridge} {loopNow monoNow : Time}
    {out out' : MetricsOut} (h : renderBridge source loopNow monoNow out bridge = .ok out') :
    Adds (namedFamilies.map (·.name)) [("bridge", bridge.spec.name)] out out' := by
  have hlabel : BridgeLabel [("bridge", bridge.spec.name)] := .inr ⟨_, rfl⟩
  obtain ⟨hinfo, hsource⟩ := List.forall_mem_cons.1 bridgeSourceFamilies_valid
  have hnodup := (nodup_names (nodup_names families_nodup).2).1
  obtain ⟨hnodupSource, hnodupRest⟩ := nodup_names hnodup
  obtain ⟨hnodupDtsu, hnodupValues⟩ := nodup_names hnodupRest
  unfold renderBridge at h
  obtain ⟨out₁, h₁, h⟩ := Except.bind_eq_ok.1 h
  obtain ⟨out₂, h₂, h⟩ := Except.bind_eq_ok.1 h
  have hfamilies : ((bridgeInfoBlock bridge [("bridge", bridge.spec.name)] ::
      bridgeSourceBlocks bridge [("bridge", bridge.spec.name)] loopNow monoNow).map
        (·.family)).Sublist (bridgeInfo :: bridgeSourceFamilies) :=
    (bridgeSourceBlocks_families bridge _ loopNow monoNow).cons_cons bridgeInfo
  have hadds₁ := emitAll_families hnodupSource hfamilies
    (List.forall_mem_cons.2 ⟨bridgeInfoBlock_valid hinfo bridge hlabel,
      bridgeSourceBlocks_valid hsource bridge hlabel loopNow monoNow⟩) h₁
  have hadds₂ := renderBridgeDtsu_adds hlabel hnodupDtsu h₂
  refine hadds₁.families hnodup ?_
  split_ifs at h
  · exact hadds₂.families hnodupRest (renderValueFamilies_adds bridgeFamilies_valid hnodupValues
      (targets_nodup source.registers) hlabel h)
  · obtain rfl := Except.ok.inj h
    exact hadds₂.left _

/-- Bridges of distinct names. -/
theorem renderBridges_adds {source : Exporter} {loopNow monoNow : Time} :
    ∀ {bridges : List ExportedBridge}, (bridges.map (·.spec.name)).Nodup →
      ∀ {out out' : MetricsOut},
        bridges.foldlM (renderBridge source loopNow monoNow) out = .ok out' →
          (out.Sound → out'.Sound) ∧ ∃ added, out'.series = out.series ++ added ∧
            Group (namedFamilies.map (·.name)) [] added ∧
              ∀ s ∈ added, ∃ bridge ∈ bridges, ("bridge", bridge.spec.name) ∈ s.2
  | [], _, out, out', h => by
    obtain rfl := Except.ok.inj h
    exact ⟨id, [], by simp, .nil _ _, by simp⟩
  | bridge :: bridges, hnodup, out, out', h => by
    rw [List.map_cons, List.nodup_cons] at hnodup
    rw [List.foldlM_cons] at h
    obtain ⟨out₁, h₁, h₂⟩ := Except.bind_eq_ok.1 h
    have hadds := renderBridge_adds h₁
    obtain ⟨added, hseries, hgroup⟩ := hadds.added
    obtain ⟨hsound, added', hseries', hgroup', hbridges⟩ := renderBridges_adds hnodup.2 h₂
    have hown : ∀ s ∈ added, ("bridge", bridge.spec.name) ∈ s.2 :=
      fun s hs => hgroup.label s hs (List.mem_singleton_self _)
    refine ⟨hsound ∘ hadds.sound, added ++ added', by rw [hseries', hseries, List.append_assoc],
      ⟨?_, List.forall_mem_append.2 ⟨hgroup.name, hgroup'.name⟩,
        fun _ _ => List.nil_subset _⟩,
      List.forall_mem_append.2 ⟨fun s hs => ?_, fun s hs => ?_⟩⟩
    · refine List.pairwise_append.2 ⟨hgroup.apart, hgroup'.apart, fun s hs t ht _ => ?_⟩
      obtain ⟨other, hother, ht⟩ := hbridges t ht
      refine ⟨"bridge", _, _, hown s hs, ht, fun heq => hnodup.1 ?_⟩
      rw [heq]
      exact List.mem_map_of_mem hother
    · exact ⟨bridge, List.mem_cons_self, hown s hs⟩
    · obtain ⟨other, hother, hs⟩ := hbridges s hs
      exact ⟨other, List.mem_cons_of_mem _ hother, hs⟩

/-- The first bridge under the names without a label. -/
theorem renderPrimaryAliases_adds {source : Exporter} {primary : ExportedBridge}
    {loopNow monoNow : Time} {out out' : MetricsOut}
    (h : renderPrimaryAliases source primary loopNow monoNow out = .ok out') :
    Adds (unlabelledFamilies.map (·.name)) [] out out' := by
  have hlabel : BridgeLabel [] := .inl rfl
  obtain ⟨hfirst, hrest⟩ := List.forall_mem_append.1 unlabelledFamilies_valid
  obtain ⟨hpolls, hserver⟩ := List.forall_mem_append.1 hfirst
  obtain ⟨hread, hvalues⟩ := List.forall_mem_append.1 hrest
  have hnodup := (nodup_names (nodup_names families_nodup).2).2
  obtain ⟨hnodupFirst, hnodupRest⟩ := nodup_names hnodup
  obtain ⟨hnodupRead, hnodupValues⟩ := nodup_names hnodupRest
  unfold renderPrimaryAliases at h
  obtain ⟨out₁, h₁, h⟩ := Except.bind_eq_ok.1 h
  have hfamilies : ((pollBlocks aliasPollFamilies primary [] loopNow monoNow ++
      serverBlocks aliasServerFamilies primary.serverStatus [] monoNow).map (·.family)).Sublist
        (aliasPollFamilies.all ++ aliasServerFamilies.all) := by
    rw [List.map_append]
    exact (pollBlocks_families _ _ _ _ _).append (.refl _)
  have hadds₁ := emitAll_families hnodupFirst hfamilies
    (List.forall_mem_append.2 ⟨pollBlocks_valid hpolls primary hlabel loopNow monoNow,
      serverBlocks_valid hserver primary.serverStatus hlabel monoNow⟩) h₁
  rcases hactivity : primary.activity with _ | activity
  · rw [hactivity] at h
    obtain rfl := Except.ok.inj h
    exact hadds₁.left _
  · rw [hactivity] at h
    obtain ⟨summary, hsummary, h⟩ := Except.bind_eq_ok.1 h
    obtain ⟨out₂, h₂, h⟩ := Except.bind_eq_ok.1 h
    have hadds₂ := emitAll_families hnodupRead (.refl _)
      (readBlocks_valid hread hsummary hlabel) h₂
    refine hadds₁.families hnodup ?_
    unfold renderAliasValues at h
    split_ifs at h
    · exact hadds₂.families hnodupRest (renderValueFamilies_adds hvalues hnodupValues
        (targets_nodup source.registers) hlabel h)
    · obtain rfl := Except.ok.inj h
      exact hadds₂.left _

omit [FloatArith] in
theorem processBlocks_families (source : Exporter) (monoNow : Time) :
    ((processBlocks source monoNow).map (·.family)).Sublist processFamilies := by
  unfold processBlocks processFamilies
  rw [List.map_append]
  refine .append (.refl _) ?_
  rcases source.watchdogHeartbeat with _ | beats
  · exact List.nil_sublist _
  · exact .refl _

omit [FloatArith] in
theorem processBlocks_valid (source : Exporter) (monoNow : Time) :
    ∀ block ∈ processBlocks source monoNow, block.Valid [] := by
  have hlabel : BridgeLabel [] := .inl rfl
  have h := processFamilies_valid
  simp only [processFamilies, List.forall_mem_append, List.forall_mem_cons, List.not_mem_nil,
    false_implies, implies_true, and_true] at h
  obtain ⟨⟨hinfo, huptime⟩, hwatchdog⟩ := h
  have hkeys : ValidKeys ["bridge", "version", "mode", "bridges"] := by decide
  unfold processBlocks
  simp only [List.forall_mem_append, List.forall_mem_map, List.forall_mem_cons, List.not_mem_nil,
    false_implies, implies_true, and_true]
  exact ⟨⟨@valid_single [] hlabel _ hinfo _ [("version", VERSION), ("mode", source.mode),
    ("bridges", toString source.bridges.length)] hkeys, valid_plain hlabel huptime _⟩,
    fun beats _ => valid_plain hlabel hwatchdog _⟩

/-! ## The whole exposition -/

omit [FloatArith] in
/-- The bridges of a process have distinct names. -/
theorem Exporter.nodup_names (source : Exporter) :
    (source.bridges.map (·.spec.name)).Nodup := by
  have hselected : (source.bridges.map (·.spec)).Sublist source.config.bridgeSpecs := by
    have h := source.selected
    unfold AppConfig.selectSpecs at h
    split at h
    · rw [← Except.ok.inj h]
    · dsimp only at h
      split_ifs at h
      rw [← Except.ok.inj h]
      exact List.filter_sublist
  have hnames := source.config.nodup_names.sublist (hselected.map (·.name))
  rwa [List.map_map] at hnames

theorem MetricsOut.Sound.nil : MetricsOut.Sound [] where
  declares := .nil
  wellFormed := by simp [MetricsOut.lines]
  nodup := by simp [MetricsOut.series]

/-- What `render` passes to `_Out` is sound, and its series are apart. -/
theorem renderOut_adds {source : Exporter} {loopNow monoNow : Time} {out : MetricsOut}
    (h : renderOut source loopNow monoNow = .ok out) :
    Adds ((processFamilies ++ (namedFamilies ++ unlabelledFamilies)).map (·.name)) [] [] out := by
  obtain ⟨hnodupProcess, hnodupRest⟩ := nodup_names families_nodup
  obtain ⟨out₁, h₁, h⟩ := Except.bind_eq_ok.1 h
  obtain ⟨out₂, h₂, h⟩ := Except.bind_eq_ok.1 h
  have hadds₁ := emitAll_families hnodupProcess
    (processBlocks_families source monoNow)
    (processBlocks_valid source monoNow) h₁
  obtain ⟨hsound, added, hseries, hgroup, -⟩ := renderBridges_adds source.nodup_names h₂
  have hadds₂ : Adds (namedFamilies.map (·.name)) [] out₁ out₂ := ⟨hsound, added, hseries, hgroup⟩
  refine hadds₁.families families_nodup ?_
  rcases hbridges : source.bridges with _ | ⟨primary, bridges⟩
  · rw [hbridges] at h
    obtain rfl := Except.ok.inj h
    exact hadds₂.left _
  · rw [hbridges] at h
    exact hadds₂.families hnodupRest (renderPrimaryAliases_adds h)

/-- The text of every exposition of an accepted configuration is read as the lines that were
passed to `_Out`, and they are unambiguous. -/
theorem exposition_unambiguous (source : Exporter) (loopNow monoNow : Time) {text : String}
    (h : render source loopNow monoNow = .ok text) :
    ∃ out, renderOut source loopNow monoNow = .ok out ∧
      Exposition.readText text = some (MetricsOut.lines out) ∧
      Exposition.Unambiguous (MetricsOut.lines out) := by
  obtain ⟨out, hout, heq⟩ := Except.bind_eq_ok.1 h
  obtain rfl := Except.ok.inj heq
  have hadds := renderOut_adds hout
  have hsound := hadds.sound .nil
  obtain ⟨added, hseries, hgroup⟩ := hadds.added
  obtain rfl : out.series = added := hseries
  have hlines := MetricsOut.filterMap_lines out
  refine ⟨out, hout, ?_, ?_⟩
  · exact Exposition.readText_printText hsound.wellFormed out.toList_text
  · refine hsound.declares.unambiguous ?_ ?_
    · rw [hlines]
      exact hsound.nodup
    · rw [hlines]
      exact hgroup.apart

end Float

/-! ## A name with a quote, a backslash and a line end -/

def quotedBridge : BridgeConf :=
  { mainBridge with
    name := "roof \"a\"\\\n"
    usable := by decide +kernel }

def quotedApp : AppConfig where
  toAppFields := { wildcardApp.toAppFields with bridges := [quotedBridge] }
  accepted := by decide +kernel

/-- The bridge after a poll and three reads, and nothing of the client. -/
def quotedExporter : Exporter where
  config := quotedApp
  registers := freqMap 5404
  bridges := [{
    spec := quotedBridge
    store := ⟨freqSample, some 0⟩
    activity := some (RtuActivity.new.recordAll threeReads) }]
  selected := by
    have hspecs : quotedApp.bridgeSpecs = [quotedBridge] := rfl
    rw [AppConfig.selectSpecs, hspecs]
    rfl
  startedAt := 0

theorem exposition_unambiguous_quotedExporter : ∃ out,
    @renderOut .double quotedExporter 7 7 = .ok out ∧
      ("nd45_dtsu666_bridge_dtsu_register_value", [("bridge", "roof \"a\"\\\n"),
        ("map", "dtsu_sigen_ext_energy"), ("point", "freq"), ("fc", "4"), ("addr", "5404")]) ∈
          out.series ∧
      Exposition.readText (@MetricsOut.text .double out) =
        some (@MetricsOut.lines .double out) := by
  have hok : (@renderOut .double quotedExporter 7 7).toOption.any (fun out =>
      ("nd45_dtsu666_bridge_dtsu_register_value", [("bridge", "roof \"a\"\\\n"),
        ("map", "dtsu_sigen_ext_energy"), ("point", "freq"), ("fc", "4"), ("addr", "5404")]) ∈
          out.series) = true := by
    decide +kernel
  obtain ⟨out, hout, hmem⟩ := (Option.any_eq_true _ _).1 hok
  have hout := Except.toOption_eq_some.1 hout
  have htext : @render .double quotedExporter 7 7 = .ok (@MetricsOut.text .double out) :=
    Except.bind_eq_ok.2 ⟨out, hout, rfl⟩
  obtain ⟨out', hout', hread, -⟩ := @exposition_unambiguous .double quotedExporter 7 7 _ htext
  obtain rfl := Except.ok.inj (hout.symm.trans hout')
  exact ⟨out, hout, of_decide_eq_true hmem, hread⟩

end DtsuBridge
