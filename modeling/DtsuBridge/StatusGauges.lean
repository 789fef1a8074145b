import DtsuBridge.Process

/-!
# The gauges of freshness and of the servers

Each family of a bridge is rendered once, in one block, and no other part of the exposition has
samples of its name (`families_nodup`). So the samples of a family are those of its blocks, bridge
by bridge (`bridge_samples`), and those of the first bridge once more under the name without a
label (`alias_samples`).

`gaugesServed_of_renderOut` : the gauges of registers are those of `renderValues`, and what the
bridges serve. `status_gauges` : at every reading of the clock in every run of a process, the gauges
of freshness are what `/healthz` answers, and those of the servers what the supervisors hold.
-/

namespace DtsuBridge

section Float

variable [FloatArith]

/-! ## The samples of a name -/

/-- The samples of the blocks of this name. -/
def samplesOf (blocks : List MetricBlock) (name : String) : List (SampleValue × MetricLabels) :=
  blocks.flatMap fun block => if block.family.name = name then block.samples else []

/-- The values as they are rendered. -/
abbrev Rendered : List (SampleValue × MetricLabels) → List (MetricLabels × MetricValue) → Prop :=
  List.Forall₂ fun s v => s.1.toMetric = .ok v.2 ∧ v.1 = s.2

/-- A step adds these samples of this name. -/
def Emits (name : String) (samples : List (SampleValue × MetricLabels)) (out out' : MetricsOut) :
    Prop :=
  ∃ values, Rendered samples values ∧ out'.samples name = out.samples name ++ values

theorem Emits.refl (name : String) (out : MetricsOut) : Emits name [] out out :=
  ⟨[], .nil, by simp⟩

theorem Emits.trans {name : String} {samples samples' : List (SampleValue × MetricLabels)}
    {out out' out'' : MetricsOut} (h : Emits name samples out out')
    (h' : Emits name samples' out' out'') : Emits name (samples ++ samples') out out'' := by
  obtain ⟨values, hvalues, heq⟩ := h
  obtain ⟨values', hvalues', heq'⟩ := h'
  exact ⟨values ++ values', List.rel_append hvalues hvalues', by rw [heq', heq, List.append_assoc]⟩

theorem Emits.trans_nil {name : String} {samples : List (SampleValue × MetricLabels)}
    {out out' out'' : MetricsOut} (h : Emits name samples out out')
    (h' : Emits name [] out' out'') : Emits name samples out out'' := by
  have htwo := h.trans h'
  rwa [List.append_nil] at htwo

omit [FloatArith] in
theorem samplesOf_append (blocks more : List MetricBlock) (name : String) :
    samplesOf (blocks ++ more) name = samplesOf blocks name ++ samplesOf more name :=
  List.flatMap_append

omit [FloatArith] in
/-- Blocks of other names have no samples of this one. -/
theorem samplesOf_of_notMem {blocks : List MetricBlock} {families : List MetricFamily}
    (hsub : (blocks.map (·.family)).Sublist families) {name : String}
    (h : name ∉ families.map (·.name)) : samplesOf blocks name = [] := by
  unfold samplesOf
  rw [List.flatMap_eq_nil_iff]
  intro block hblock
  rw [if_neg]
  rintro rfl
  exact h (List.mem_map_of_mem (hsub.subset (List.mem_map_of_mem hblock)))

omit [FloatArith] in
/-- Of blocks of distinct names one has this name. -/
theorem samplesOf_of_mem : ∀ {blocks : List MetricBlock},
    (blocks.map (·.family.name)).Nodup → ∀ {block : MetricBlock}, block ∈ blocks →
      samplesOf blocks block.family.name = block.samples
  | b :: blocks, hnodup, block, hblock => by
    rw [List.map_cons, List.nodup_cons] at hnodup
    have hcons : samplesOf (b :: blocks) block.family.name =
        (if b.family.name = block.family.name then b.samples else []) ++
          samplesOf blocks block.family.name := rfl
    rcases List.mem_cons.1 hblock with rfl | hblock
    · have hrest := @samplesOf_of_notMem blocks _ (.refl _) block.family.name
        (by rw [List.map_map]; exact hnodup.1)
      rw [hcons, if_pos rfl, hrest, List.append_nil]
    · have hne : b.family.name ≠ block.family.name := fun heq =>
        hnodup.1 (heq ▸ List.mem_map_of_mem hblock)
      rw [hcons, if_neg hne, samplesOf_of_mem hnodup.2 hblock, List.nil_append]

/-- The lines of samples under one name. -/
theorem samples_of_lines {n : String} {samples : List (SampleValue × MetricLabels)}
    {lines : List MetricLine}
    (h : List.Forall₂ (fun (s : SampleValue × MetricLabels) line => ∃ value,
      s.1.toMetric = .ok value ∧ line = MetricLine.sample n value s.2) samples lines)
    (name : String) :
    Rendered (if n = name then samples else []) (MetricsOut.samples lines name) := by
  induction h with
  | nil => split_ifs <;> exact .nil
  | cons hs _ ih =>
    obtain ⟨value, hvalue, rfl⟩ := hs
    by_cases hn : n = name
    · rw [if_pos hn] at ih ⊢
      have hcons : ∀ (labels : MetricLabels) (lines : List MetricLine),
          MetricsOut.samples (.sample n value labels :: lines) name =
            (labels, value) :: MetricsOut.samples lines name :=
        fun labels lines => by simp [MetricsOut.samples, MetricLine.sampleOf, hn]
      rw [hcons]
      exact .cons ⟨hvalue, rfl⟩ ih
    · rw [if_neg hn] at ih ⊢
      have hcons : ∀ (labels : MetricLabels) (lines : List MetricLine), MetricsOut.samples
          (.sample n value labels :: lines) name = MetricsOut.samples lines name :=
        fun labels lines => by simp [MetricsOut.samples, MetricLine.sampleOf, hn]
      rw [hcons]
      exact ih

/-- The samples of a block are rendered under its name. -/
theorem emit_emits {out out' : MetricsOut} {block : MetricBlock} (h : out.emit block = .ok out')
    (name : String) : Emits name (samplesOf [block] name) out out' := by
  obtain ⟨lines, hlines, heq⟩ := Except.bind_eq_ok.1 h
  obtain rfl := Except.ok.inj heq
  have hall : List.Forall₂ (fun (s : SampleValue × MetricLabels) line => ∃ value,
      s.1.toMetric = .ok value ∧ line = MetricLine.sample block.family.name value s.2)
        block.samples lines := by
    refine (Except.mapM_eq_ok.1 hlines).imp fun s line hs => ?_
    obtain ⟨value, hvalue, hline⟩ := Except.bind_eq_ok.1 hs
    exact ⟨value, hvalue, (Except.ok.inj hline).symm⟩
  refine ⟨MetricsOut.samples lines name, ?_, ?_⟩
  · rw [samplesOf, List.flatMap_singleton]
    exact samples_of_lines hall name
  · rw [MetricsOut.samples_append, MetricsOut.samples_family]

theorem emitAll_emits {name : String} : ∀ {blocks : List MetricBlock} {out out' : MetricsOut},
    out.emitAll blocks = .ok out' → Emits name (samplesOf blocks name) out out'
  | [], out, out', h => by
    obtain rfl := Except.ok.inj h
    exact .refl _ _
  | block :: blocks, out, out', h => by
    rw [MetricsOut.emitAll, List.foldlM_cons] at h
    obtain ⟨out₁, h₁, h₂⟩ := Except.bind_eq_ok.1 h
    have := (emit_emits h₁ name).trans (emitAll_emits h₂)
    rwa [← samplesOf_append] at this

/-- The measurements and registers are of other names. -/
theorem renderValueFamilies_emits {families : ValueFamilies} {source : MetricsSource}
    {bridge : BridgeMetrics} {label : MetricLabels} {monoNow : Time} {out out' : MetricsOut}
    {name : String} (hname : name ∉ families.all.map (·.name))
    (h : renderValueFamilies families source bridge label monoNow out = .ok out') :
    Emits name [] out out' := by
  obtain ⟨lss, hlss, -⟩ := Except.bind_eq_ok.1 h
  obtain ⟨out₁, hout₁, hsamples⟩ :=
    @renderValueFamilies_ok _ families source bridge label monoNow out lss hlss
  obtain rfl := Except.ok.inj (hout₁.symm.trans h)
  simp only [ValueFamilies.all, List.map_cons, List.map_nil, List.mem_cons, List.not_mem_nil,
    or_false, not_or] at hname
  obtain ⟨hcanonical, hregister, hage⟩ := hname
  refine ⟨[], .nil, ?_⟩
  rw [hsamples name (Ne.symm hcanonical),
    samples_flatten_nil hlss fun p ls hls =>
      samples_pointLines hls (Ne.symm hregister) (Ne.symm hage)]

/-! ## The families that are always rendered -/

/-- The families of a bridge and its server, under its name. -/
def statusFamilies : List MetricFamily :=
  (bridgeInfo :: bridgeSourceFamilies) ++ bridgeServerFamilies.all

/-- Those of the first bridge under the names without a label. -/
def aliasStatusFamilies : List MetricFamily :=
  aliasPollFamilies.all ++ aliasServerFamilies.all

def readFamilies : List MetricFamily :=
  bridgeReadFamilies.all ++ [bridgeBusBytes, bridgeBusFrames]

/-- The families of the process, of reads and of registers. -/
def otherFamilies : List MetricFamily :=
  processFamilies ++ ((readFamilies ++ bridgeFamilies.all) ++
    (aliasReadFamilies.all ++ aliasFamilies.all))

omit [FloatArith] in
theorem status_nodup :
    ((statusFamilies ++ aliasStatusFamilies ++ otherFamilies).map (·.name)).Nodup := by
  decide +kernel

omit [FloatArith] in
theorem notMem_append_names {fs fs' : List MetricFamily} {name : String} :
    name ∉ (fs ++ fs').map (·.name) ↔ name ∉ fs.map (·.name) ∧ name ∉ fs'.map (·.name) := by
  rw [List.map_append, List.mem_append, not_or]

/-- The blocks of a bridge in these families. -/
def statusBlocks (bridge : ExportedBridge) (label : MetricLabels) (loopNow monoNow : Time) :
    List MetricBlock :=
  (bridgeInfoBlock bridge label :: bridgeSourceBlocks bridge label loopNow monoNow) ++
    serverBlocks bridgeServerFamilies bridge.serverStatus label monoNow

def aliasBlocks (primary : ExportedBridge) (loopNow monoNow : Time) : List MetricBlock :=
  pollBlocks aliasPollFamilies primary [] loopNow monoNow ++
    serverBlocks aliasServerFamilies primary.serverStatus [] monoNow

/-- The blocks of the reads of a bridge, if they are recorded. -/
def activityBlocks (families : ReadFamilies) (activity : Option RtuActivity) (label : MetricLabels)
    (monoNow : Time) : List MetricBlock :=
  (activity.bind fun activity => (activity.summary monoNow).toOption).toList.flatMap
    (readBlocks families · label)

/-- The blocks of its bus, recorded beside the reads. -/
def busBlocks (bridge : ExportedBridge) (label : MetricLabels) : List MetricBlock :=
  (bridge.activity.bind fun _ => bridge.wire).toList.flatMap (wireBlocks · label)

/-- The blocks of a bridge. -/
def bridgeBlocks (bridge : ExportedBridge) (label : MetricLabels) (loopNow monoNow : Time) :
    List MetricBlock :=
  statusBlocks bridge label loopNow monoNow ++
    (activityBlocks bridgeReadFamilies bridge.activity label monoNow ++ busBlocks bridge label)

/-- Those of the first bridge under the names without a label. -/
def primaryBlocks (primary : ExportedBridge) (loopNow monoNow : Time) : List MetricBlock :=
  aliasBlocks primary loopNow monoNow ++
    activityBlocks aliasReadFamilies primary.activity [] monoNow

omit [FloatArith] in
theorem activityBlocks_families (families : ReadFamilies) (activity : Option RtuActivity)
    (label : MetricLabels) (monoNow : Time) :
    ((activityBlocks families activity label monoNow).map (·.family)).Sublist families.all := by
  unfold activityBlocks
  rcases activity.bind fun activity => (activity.summary monoNow).toOption with _ | summary
  · exact List.nil_sublist _
  · simp only [Option.toList_some, List.flatMap_singleton]
    exact .refl _

omit [FloatArith] in
theorem busBlocks_families (bridge : ExportedBridge) (label : MetricLabels) :
    ((busBlocks bridge label).map (·.family)).Sublist [bridgeBusBytes, bridgeBusFrames] := by
  unfold busBlocks
  rcases bridge.activity.bind fun _ => bridge.wire with _ | wire
  · exact List.nil_sublist _
  · simp only [Option.toList_some, List.flatMap_singleton]
    exact .refl _

omit [FloatArith] in
theorem statusBlocks_families (bridge : ExportedBridge) (label : MetricLabels)
    (loopNow monoNow : Time) :
    ((statusBlocks bridge label loopNow monoNow).map (·.family)).Sublist statusFamilies := by
  unfold statusBlocks statusFamilies
  rw [List.map_append]
  exact .append ((bridgeSourceBlocks_families bridge label loopNow monoNow).cons_cons _) (.refl _)

omit [FloatArith] in
theorem aliasBlocks_families (primary : ExportedBridge) (loopNow monoNow : Time) :
    ((aliasBlocks primary loopNow monoNow).map (·.family)).Sublist aliasStatusFamilies := by
  unfold aliasBlocks aliasStatusFamilies
  rw [List.map_append]
  exact .append (pollBlocks_families _ _ _ _ _) (.refl _)

theorem renderBridgeDtsu_emits {bridge : ExportedBridge} {label : MetricLabels} {monoNow : Time}
    {out out' : MetricsOut} {name : String}
    (h : renderBridgeDtsu bridge label monoNow out = .ok out') :
    Emits name (samplesOf (serverBlocks bridgeServerFamilies bridge.serverStatus label monoNow ++
      (activityBlocks bridgeReadFamilies bridge.activity label monoNow ++ busBlocks bridge label))
        name) out out' := by
  obtain ⟨out₁, h₁, h⟩ := Except.bind_eq_ok.1 h
  have hserver := @emitAll_emits _ name _ _ _ h₁
  rw [samplesOf_append]
  refine hserver.trans ?_
  unfold activityBlocks busBlocks
  rcases hactivity : bridge.activity with _ | activity
  · rw [hactivity] at h
    obtain rfl := Except.ok.inj h
    exact .refl _ _
  · rw [hactivity] at h
    obtain ⟨summary, hsummary, h⟩ := Except.bind_eq_ok.1 h
    obtain ⟨out₂, h₂, h⟩ := Except.bind_eq_ok.1 h
    have hreads := @emitAll_emits _ name _ _ _ h₂
    simp only [Option.bind_some, hsummary, Except.toOption, Option.toList_some,
      List.flatMap_singleton, samplesOf_append]
    rcases hwire : bridge.wire with _ | wire
    · rw [hwire] at h
      obtain rfl := Except.ok.inj h
      exact hreads.trans (.refl _ _)
    · rw [hwire] at h
      exact hreads.trans (by simpa using @emitAll_emits _ name _ _ _ h)

/-- A bridge renders its blocks, and then its measurements and registers. -/
theorem renderBridge_steps {source : Exporter} {bridge : ExportedBridge} {loopNow monoNow : Time}
    {out out' : MetricsOut} (h : renderBridge source loopNow monoNow out bridge = .ok out') :
    ∃ out₁, (∀ name, Emits name (samplesOf (bridgeBlocks bridge [("bridge", bridge.spec.name)]
        loopNow monoNow) name) out out₁) ∧
      (if source.metrics.includeRegisters then
        renderBridgeValues source.metrics bridge.metrics [("bridge", bridge.metrics.name)] monoNow
          out₁
      else .ok out₁) = .ok out' := by
  obtain ⟨out₁, h₁, h⟩ := Except.bind_eq_ok.1 h
  obtain ⟨out₂, h₂, h⟩ := Except.bind_eq_ok.1 h
  refine ⟨out₂, fun name => ?_, h⟩
  have htwo := (@emitAll_emits _ name _ _ _ h₁).trans (renderBridgeDtsu_emits h₂)
  rwa [← samplesOf_append, ← List.append_assoc] at htwo

/-- A bridge has the samples of its blocks, and no others but its measurements and registers. -/
theorem renderBridge_emits {source : Exporter} {bridge : ExportedBridge} {loopNow monoNow : Time}
    {out out' : MetricsOut} {name : String} (hname : name ∉ bridgeFamilies.all.map (·.name))
    (h : renderBridge source loopNow monoNow out bridge = .ok out') :
    Emits name (samplesOf (bridgeBlocks bridge [("bridge", bridge.spec.name)] loopNow monoNow)
      name) out out' := by
  obtain ⟨out₁, hemits, h⟩ := renderBridge_steps h
  split_ifs at h
  · exact (hemits name).trans_nil (renderValueFamilies_emits hname h)
  · obtain rfl := Except.ok.inj h
    exact hemits name

theorem renderBridges_emits {source : Exporter} {loopNow monoNow : Time} {name : String}
    (hname : name ∉ bridgeFamilies.all.map (·.name)) :
    ∀ {bridges : List ExportedBridge} {out out' : MetricsOut},
      bridges.foldlM (renderBridge source loopNow monoNow) out = .ok out' →
        Emits name (bridges.flatMap fun bridge => samplesOf
          (bridgeBlocks bridge [("bridge", bridge.spec.name)] loopNow monoNow) name) out out'
  | [], out, out', h => by
    obtain rfl := Except.ok.inj h
    exact .refl _ _
  | bridge :: bridges, out, out', h => by
    rw [List.foldlM_cons] at h
    obtain ⟨out₁, h₁, h₂⟩ := Except.bind_eq_ok.1 h
    exact (renderBridge_emits hname h₁).trans (renderBridges_emits hname h₂)

/-- So does the first bridge once more. -/
theorem renderPrimaryAliases_steps {source : Exporter} {primary : ExportedBridge}
    {loopNow monoNow : Time} {out out' : MetricsOut}
    (h : renderPrimaryAliases source primary loopNow monoNow out = .ok out') :
    ∃ out₁, (∀ name, Emits name (samplesOf (primaryBlocks primary loopNow monoNow) name) out out₁) ∧
      renderAliasValues source.metrics primary.metrics monoNow out₁ = .ok out' := by
  obtain ⟨out₁, h₁, h⟩ := Except.bind_eq_ok.1 h
  have hone := fun name => @emitAll_emits _ name _ _ _ h₁
  unfold primaryBlocks activityBlocks
  simp only [samplesOf_append]
  rcases hactivity : primary.activity with _ | activity
  · rw [hactivity] at h
    obtain rfl := Except.ok.inj h
    refine ⟨out₁, fun name => (hone name).trans (.refl _ _), ?_⟩
    simp [renderAliasValues, ExportedBridge.metrics, hactivity]
  · rw [hactivity] at h
    obtain ⟨summary, hsummary, h⟩ := Except.bind_eq_ok.1 h
    obtain ⟨out₂, h₂, h⟩ := Except.bind_eq_ok.1 h
    refine ⟨out₂, fun name => (hone name).trans ?_, h⟩
    simp only [Option.bind_some, hsummary, Except.toOption, Option.toList_some,
      List.flatMap_singleton]
    exact emitAll_emits h₂

theorem renderPrimaryAliases_emits {source : Exporter} {primary : ExportedBridge}
    {loopNow monoNow : Time} {out out' : MetricsOut} {name : String}
    (hname : name ∉ aliasFamilies.all.map (·.name))
    (h : renderPrimaryAliases source primary loopNow monoNow out = .ok out') :
    Emits name (samplesOf (primaryBlocks primary loopNow monoNow) name) out out' := by
  obtain ⟨out₁, hemits, h⟩ := renderPrimaryAliases_steps h
  unfold renderAliasValues at h
  split_ifs at h
  · exact (hemits name).trans_nil (renderValueFamilies_emits hname h)
  · obtain rfl := Except.ok.inj h
    exact hemits name

/-! ## The whole exposition -/

/-- The samples of a name that is not of the process, the measurements or the registers. -/
theorem renderOut_emits {source : Exporter} {loopNow monoNow : Time} {out : MetricsOut}
    {name : String} (hprocess : name ∉ processFamilies.map (·.name))
    (hbridge : name ∉ bridgeFamilies.all.map (·.name))
    (halias : name ∉ aliasFamilies.all.map (·.name))
    (h : renderOut source loopNow monoNow = .ok out) :
    Rendered ((source.bridges.flatMap fun bridge => samplesOf
        (bridgeBlocks bridge [("bridge", bridge.spec.name)] loopNow monoNow) name) ++
      source.bridges.head?.toList.flatMap fun primary =>
        samplesOf (primaryBlocks primary loopNow monoNow) name) (out.samples name) := by
  obtain ⟨out₁, h₁, h⟩ := Except.bind_eq_ok.1 h
  obtain ⟨out₂, h₂, h⟩ := Except.bind_eq_ok.1 h
  have hone := @emitAll_emits _ name _ _ _ h₁
  rw [samplesOf_of_notMem (processBlocks_families source monoNow) hprocess] at hone
  have htwo := hone.trans (renderBridges_emits hbridge h₂)
  have hall : Emits name ((source.bridges.flatMap fun bridge => samplesOf
        (bridgeBlocks bridge [("bridge", bridge.spec.name)] loopNow monoNow) name) ++
      source.bridges.head?.toList.flatMap fun primary =>
        samplesOf (primaryBlocks primary loopNow monoNow) name) [] out := by
    rcases hbridges : source.bridges with _ | ⟨primary, bridges⟩
    · rw [hbridges] at h htwo
      obtain rfl := Except.ok.inj h
      exact htwo
    · rw [hbridges] at h htwo
      exact htwo.trans (by simpa using renderPrimaryAliases_emits halias h)
  obtain ⟨values, hvalues, heq⟩ := hall
  rw [heq]
  exact hvalues

/-! ## Measurements and registers -/

/-- The names of measurements and registers. -/
def valueNames : List String :=
  (bridgeFamilies.all ++ aliasFamilies.all).map (·.name)

omit [FloatArith] in
/-- No block has one of these names. -/
theorem valueNames_disjoint : ∀ name ∈ valueNames, name ∉ processFamilies.map (·.name) ∧
    name ∉ (statusFamilies ++ readFamilies).map (·.name) ∧
      name ∉ (aliasStatusFamilies ++ aliasReadFamilies.all).map (·.name) := by
  decide +kernel

/-- Their samples are the same. -/
def SameValues (out values : MetricsOut) : Prop :=
  ∀ name ∈ valueNames, out.samples name = values.samples name

/-- Blocks add none of them. -/
theorem SameValues.emits {out out' values : MetricsOut} (h : SameValues out values)
    {blocks : List MetricBlock} {families : List MetricFamily}
    (hsub : (blocks.map (·.family)).Sublist families)
    (hnames : ∀ name ∈ valueNames, name ∉ families.map (·.name))
    (hemits : ∀ name, Emits name (samplesOf blocks name) out out') : SameValues out' values := by
  intro name hname
  obtain ⟨added, hadded, heq⟩ := hemits name
  rw [samplesOf_of_notMem hsub (hnames name hname)] at hadded
  rw [heq, List.forall₂_nil_left_iff.1 hadded, List.append_nil]
  exact h name hname

/-- Measurements and registers are rendered alike after either. -/
theorem SameValues.renderValueFamilies {out out' values : MetricsOut} (h : SameValues out values)
    {families : ValueFamilies} {source : MetricsSource} {bridge : BridgeMetrics}
    {label : MetricLabels} {monoNow : Time}
    (hrender : renderValueFamilies families source bridge label monoNow out = .ok out') :
    ∃ values', DtsuBridge.renderValueFamilies families source bridge label monoNow values =
      .ok values' ∧ SameValues out' values' := by
  obtain ⟨lss, hlss, heq⟩ := Except.bind_eq_ok.1 hrender
  obtain rfl := Except.ok.inj heq
  refine ⟨_, Except.bind_eq_ok.2 ⟨lss, hlss, rfl⟩, fun name hname => ?_⟩
  simp only [MetricsOut.samples_append, MetricsOut.samples_family, h name hname]

omit [FloatArith] in
theorem bridgeBlocks_families (bridge : ExportedBridge) (label : MetricLabels)
    (loopNow monoNow : Time) : ((bridgeBlocks bridge label loopNow monoNow).map (·.family)).Sublist
      (statusFamilies ++ readFamilies) := by
  unfold bridgeBlocks readFamilies
  rw [List.map_append, List.map_append]
  exact (statusBlocks_families _ _ _ _).append
    ((activityBlocks_families _ _ _ _).append (busBlocks_families _ _))

omit [FloatArith] in
theorem primaryBlocks_families (primary : ExportedBridge) (loopNow monoNow : Time) :
    ((primaryBlocks primary loopNow monoNow).map (·.family)).Sublist
      (aliasStatusFamilies ++ aliasReadFamilies.all) := by
  unfold primaryBlocks
  rw [List.map_append]
  exact (aliasBlocks_families _ _ _).append (activityBlocks_families _ _ _ _)

/-- A bridge adds those of `_render_bridge_values`. -/
theorem SameValues.renderBridge {source : Exporter} {loopNow monoNow : Time}
    {bridge : ExportedBridge} {out out' values : MetricsOut} (h : SameValues out values)
    (hrender : renderBridge source loopNow monoNow out bridge = .ok out') :
    ∃ values', (if source.metrics.includeRegisters then
        renderBridgeValues source.metrics bridge.metrics [("bridge", bridge.metrics.name)] monoNow
          values
      else .ok values) = .ok values' ∧ SameValues out' values' := by
  obtain ⟨out₁, hemits, hrender⟩ := renderBridge_steps hrender
  have hone : SameValues out₁ values := h.emits (bridgeBlocks_families bridge _ loopNow monoNow)
    (fun name hname => (valueNames_disjoint name hname).2.1) hemits
  split_ifs at hrender ⊢
  · exact hone.renderValueFamilies hrender
  · obtain rfl := Except.ok.inj hrender
    exact ⟨values, rfl, hone⟩

/-- The first bridge adds those of the names without a label. -/
theorem SameValues.renderPrimaryAliases {source : Exporter} {loopNow monoNow : Time}
    {primary : ExportedBridge} {out out' values : MetricsOut} (h : SameValues out values)
    (hrender : renderPrimaryAliases source primary loopNow monoNow out = .ok out') :
    ∃ values', renderAliasValues source.metrics primary.metrics monoNow values = .ok values' ∧
      SameValues out' values' := by
  obtain ⟨out₁, hemits, hrender⟩ := renderPrimaryAliases_steps hrender
  have hone : SameValues out₁ values := h.emits (primaryBlocks_families primary loopNow monoNow)
    (fun name hname => (valueNames_disjoint name hname).2.2) hemits
  unfold renderAliasValues at hrender ⊢
  split_ifs at hrender ⊢
  · exact hone.renderValueFamilies hrender
  · obtain rfl := Except.ok.inj hrender
    exact ⟨values, rfl, hone⟩

/-- The measurements and registers of the whole exposition are those of `renderValues`. -/
theorem renderOut_values {source : Exporter} {loopNow monoNow : Time} {out : MetricsOut}
    (h : renderOut source loopNow monoNow = .ok out) :
    ∃ values, renderValues source.metrics monoNow = .ok values ∧ SameValues out values := by
  obtain ⟨out₁, h₁, h⟩ := Except.bind_eq_ok.1 h
  obtain ⟨out₂, h₂, h⟩ := Except.bind_eq_ok.1 h
  have hone : SameValues out₁ [] := SameValues.emits (fun _ _ => rfl)
    (processBlocks_families source monoNow)
    (fun name hname => (valueNames_disjoint name hname).1) fun name => emitAll_emits h₁
  obtain ⟨values, hvalues, htwo⟩ := Except.exists_foldlM_of_eq_ok
    (fun bridge _ _ _ hsame hrender => hsame.renderBridge hrender) hone h₂
  unfold renderValues
  have hmap : source.metrics.bridges = source.bridges.map (·.metrics) := rfl
  rw [hmap, List.foldlM_map, hvalues]
  rcases hbridges : source.bridges with _ | ⟨primary, bridges⟩
  · rw [hbridges] at h
    obtain rfl := Except.ok.inj h
    exact ⟨values, rfl, htwo⟩
  · rw [hbridges] at h
    exact htwo.renderPrimaryAliases h

/-- The bridges of a process, with their recorders. -/
def Process.lives (p : Process) (s : Fin p.bridges.length → Bridge)
    (counters : Fin p.bridges.length → Counters) : List LiveBridge :=
  List.ofFn fun i => {
    built := p.bridge i
    state := s i
    activity := (counters i).activity.map fun activity fc addr => activity.lastSeen fc.code addr }

omit [FloatArith] in
theorem Process.metrics_exporter (p : Process) (s : Fin p.bridges.length → Bridge)
    (counters : Fin p.bridges.length → Counters) (startedAt : Time) :
    (p.exporter s counters startedAt).metrics =
      metricsSource p.registers p.config.prometheus.includeRegisters (p.lives s counters) := by
  simp only [Exporter.metrics, Process.exporter, exported, metricsSource, lives, List.map_ofFn]
  rfl

/-- The register gauges of the exposition of a process are the floats its registers are read as,
where its points are placed. -/
theorem gaugesServed_of_renderOut {p : Process} {s : p.State} (h : p.system.Reachable s)
    (hplaced : ∀ b ∈ p.bridges, Placed p.registers (bridgeContext p.registers b.spec.dtsu).lengths)
    {counters : Fin p.bridges.length → Process.Counters} {startedAt t monoNow : Time}
    {out : MetricsOut} (hout : renderOut (p.exporter s.1 counters startedAt) t monoNow = .ok out) :
    GaugesServed p.registers p.config.prometheus.includeRegisters (p.lives s.1 counters) out := by
  have hmem : ∀ l ∈ p.lives s.1 counters, ∃ i, l.built = p.bridge i ∧ l.state = s.1 i := by
    unfold Process.lives
    rw [List.forall_mem_ofFn_iff]
    exact fun i => ⟨i, rfl, rfl⟩
  have hlive : ∀ l ∈ p.lives s.1 counters, l.Live p.registers := by
    intro l hl
    obtain ⟨i, hbuilt, hstate⟩ := hmem l hl
    unfold LiveBridge.Live
    rw [hbuilt, hstate]
    exact ⟨p.shared _ (List.getElem_mem i.2), p.reachable_bridge h i⟩
  have hplaced' : ∀ l ∈ p.lives s.1 counters,
      Placed p.registers (bridgeContext p.registers l.built.spec.dtsu).lengths := by
    intro l hl
    obtain ⟨i, hbuilt, -⟩ := hmem l hl
    rw [hbuilt]
    exact hplaced _ (List.getElem_mem i.2)
  obtain ⟨values, hvalues, hsame⟩ := renderOut_values hout
  rw [p.metrics_exporter] at hvalues
  obtain ⟨values', hvalues', hserved⟩ := gaugesServed_of_placed hlive hplaced'
    p.config.prometheus.includeRegisters monoNow
  obtain rfl := Except.ok.inj (hvalues'.symm.trans hvalues)
  refine hserved.congr (hsame _ ?_) (hsame _ ?_)
  · simp [valueNames, ValueFamilies.all]
  · simp [valueNames, ValueFamilies.all]

omit [FloatArith] in
/-- The blocks of a bridge of a name that is none of its reads. -/
theorem samplesOf_bridgeBlocks {bridge : ExportedBridge} {label : MetricLabels}
    {loopNow monoNow : Time} {name : String} (hname : name ∉ readFamilies.map (·.name)) :
    samplesOf (bridgeBlocks bridge label loopNow monoNow) name =
      samplesOf (statusBlocks bridge label loopNow monoNow) name := by
  obtain ⟨hread, hbus⟩ := notMem_append_names.1 hname
  rw [bridgeBlocks, samplesOf_append, samplesOf_append,
    samplesOf_of_notMem (activityBlocks_families _ _ _ _) hread,
    samplesOf_of_notMem (busBlocks_families _ _) hbus, List.append_nil, List.append_nil]

omit [FloatArith] in
theorem samplesOf_primaryBlocks {primary : ExportedBridge} {loopNow monoNow : Time}
    {name : String} (hname : name ∉ aliasReadFamilies.all.map (·.name)) :
    samplesOf (primaryBlocks primary loopNow monoNow) name =
      samplesOf (aliasBlocks primary loopNow monoNow) name := by
  rw [primaryBlocks, samplesOf_append, samplesOf_of_notMem (activityBlocks_families _ _ _ _) hname,
    List.append_nil]

/-- The status of the bridges and of the first one once more. -/
theorem status_samples {source : Exporter} {loopNow monoNow : Time} {out : MetricsOut}
    {name : String} (hname : name ∉ otherFamilies.map (·.name))
    (h : renderOut source loopNow monoNow = .ok out) :
    Rendered ((source.bridges.flatMap fun bridge => samplesOf
        (statusBlocks bridge [("bridge", bridge.spec.name)] loopNow monoNow) name) ++
      source.bridges.head?.toList.flatMap fun primary =>
        samplesOf (aliasBlocks primary loopNow monoNow) name) (out.samples name) := by
  obtain ⟨hprocess, hrest⟩ := notMem_append_names.1 hname
  obtain ⟨hbridge, halias⟩ := notMem_append_names.1 hrest
  obtain ⟨hread, hvalue⟩ := notMem_append_names.1 hbridge
  obtain ⟨haliasRead, haliasValue⟩ := notMem_append_names.1 halias
  simpa only [samplesOf_bridgeBlocks hread, samplesOf_primaryBlocks haliasRead] using
    renderOut_emits hprocess hvalue haliasValue h

omit [FloatArith] in
/-- A name of the first families is none of the second. -/
theorem notMem_of_nodup {fs fs' : List MetricFamily} (h : ((fs ++ fs').map (·.name)).Nodup)
    {name : String} (hname : name ∈ fs.map (·.name)) : name ∉ fs'.map (·.name) := by
  rw [List.map_append] at h
  exact List.disjoint_of_nodup_append h hname

/-- A family of a bridge has the samples of its blocks, bridge by bridge. -/
theorem bridge_samples {source : Exporter} {loopNow monoNow : Time} {out : MetricsOut}
    {name : String} (hname : name ∈ statusFamilies.map (·.name))
    (h : renderOut source loopNow monoNow = .ok out) :
    Rendered (source.bridges.flatMap fun bridge => samplesOf
      (statusBlocks bridge [("bridge", bridge.spec.name)] loopNow monoNow) name)
        (out.samples name) := by
  have hother := notMem_of_nodup status_nodup
    (by rw [List.map_append]; exact List.mem_append_left _ hname)
  have halias := notMem_of_nodup (nodup_names status_nodup).1 hname
  have hall := status_samples hother h
  have hnil : (source.bridges.head?.toList.flatMap fun primary =>
      samplesOf (aliasBlocks primary loopNow monoNow) name) = [] :=
    List.flatMap_eq_nil_iff.2 fun _ _ => samplesOf_of_notMem (aliasBlocks_families _ _ _) halias
  rwa [hnil, List.append_nil] at hall

/-- An unlabelled family has the samples of the block of the first bridge. -/
theorem alias_samples {source : Exporter} {loopNow monoNow : Time} {out : MetricsOut}
    {name : String} (hname : name ∈ aliasStatusFamilies.map (·.name))
    (h : renderOut source loopNow monoNow = .ok out) :
    Rendered (source.bridges.head?.toList.flatMap fun primary =>
      samplesOf (aliasBlocks primary loopNow monoNow) name) (out.samples name) := by
  have hother := notMem_of_nodup status_nodup
    (by rw [List.map_append]; exact List.mem_append_right _ hname)
  have hstatus : name ∉ statusFamilies.map (·.name) := fun hmem =>
    notMem_of_nodup (nodup_names status_nodup).1 hmem hname
  have hall := status_samples hother h
  have hnil : (source.bridges.flatMap fun bridge => samplesOf
      (statusBlocks bridge [("bridge", bridge.spec.name)] loopNow monoNow) name) = [] :=
    List.flatMap_eq_nil_iff.2 fun _ _ => samplesOf_of_notMem (statusBlocks_families _ _ _ _) hstatus
  rwa [hnil, List.nil_append] at hall

/-! ## Flags -/

/-- The gauge of a flag. -/
def flagValue (b : Bool) : MetricValue :=
  .float (if b then 1 else 0)

theorem toMetric_flag [FloatArith.Lawful] (b : Bool) : (flag b).toMetric = .ok (flagValue b) := by
  have hone : PyFloat.ofInt? 1 = some 1 :=
    PyFloat.ofInt?_eq_some.2 ⟨1, by simpa using FloatArith.Lawful.round_one, rfl⟩
  have hzero : PyFloat.ofInt? 0 = some 0 :=
    PyFloat.ofInt?_eq_some.2 ⟨0, by simpa using FloatArith.round_zero, rfl⟩
  rcases b with _ | _
  · simp [flag, SampleValue.toMetric, floatOfInt, hzero, flagValue, bind, Except.bind, pure,
      Except.pure]
  · simp [flag, SampleValue.toMetric, floatOfInt, hone, flagValue, bind, Except.bind, pure,
      Except.pure]

/-- Blocks of one flag each. -/
theorem rendered_flags [FloatArith.Lawful] {α : Type} {f : α → List (SampleValue × MetricLabels)}
    {b : α → Bool} {label : α → MetricLabels} :
    ∀ {xs : List α} {values : List (MetricLabels × MetricValue)},
      (∀ x ∈ xs, f x = [(flag (b x), label x)]) → Rendered (xs.flatMap f) values →
        values = xs.map fun x => (label x, flagValue (b x))
  | [], _, _, .nil => rfl
  | x :: xs, values, h, hvalues => by
    obtain ⟨hx, hxs⟩ := List.forall_mem_cons.1 h
    rw [List.flatMap_cons, hx] at hvalues
    obtain ⟨⟨labels, value⟩, values, ⟨hvalue, hlabels⟩, hrest, rfl⟩ :=
      List.forall₂_cons_left_iff.1 hvalues
    rw [toMetric_flag] at hvalue
    obtain rfl := Except.ok.inj hvalue
    rw [rendered_flags hxs hrest, List.map_cons]
    exact congrArg (· :: _) (Prod.ext hlabels rfl)

omit [FloatArith] in
/-- A block of a bridge and its samples. -/
theorem samplesOf_statusBlocks {bridge : ExportedBridge} {label : MetricLabels}
    {loopNow monoNow : Time} {family : MetricFamily} {samples : List (SampleValue × MetricLabels)}
    (hblock : ⟨family, samples⟩ ∈ statusBlocks bridge label loopNow monoNow) :
    samplesOf (statusBlocks bridge label loopNow monoNow) family.name = samples := by
  have hnodup := (nodup_names (nodup_names status_nodup).1).1
  have hsub := (statusBlocks_families bridge label loopNow monoNow).map (·.name)
  rw [List.map_map] at hsub
  exact samplesOf_of_mem (hnodup.sublist hsub) hblock

omit [FloatArith] in
theorem samplesOf_aliasBlocks {primary : ExportedBridge} {loopNow monoNow : Time}
    {family : MetricFamily} {samples : List (SampleValue × MetricLabels)}
    (hblock : ⟨family, samples⟩ ∈ aliasBlocks primary loopNow monoNow) :
    samplesOf (aliasBlocks primary loopNow monoNow) family.name = samples := by
  have hnodup := (nodup_names (nodup_names status_nodup).1).2
  have hsub := (aliasBlocks_families primary loopNow monoNow).map (·.name)
  rw [List.map_map] at hsub
  exact samplesOf_of_mem (hnodup.sublist hsub) hblock

/-- The freshness of the bridges of an exposition. -/
theorem fresh_samples [FloatArith.Lawful] {source : Exporter} {loopNow monoNow : Time}
    {out : MetricsOut} (h : renderOut source loopNow monoNow = .ok out) :
    out.samples "nd45_dtsu666_bridge_data_fresh" = (source.bridges.map fun bridge =>
        ([("bridge", bridge.spec.name)], flagValue (bridge.fresh loopNow))) ∧
      out.samples "nd45_dtsu666_nd45_data_fresh" =
        source.bridges.head?.toList.map fun primary => ([], flagValue (primary.fresh loopNow)) := by
  have hbridge : bridgePollFamilies.dataFresh.name = "nd45_dtsu666_bridge_data_fresh" := by
    decide +kernel
  have halias : aliasPollFamilies.dataFresh.name = "nd45_dtsu666_nd45_data_fresh" := by
    decide +kernel
  rw [← hbridge, ← halias]
  refine ⟨rendered_flags (fun bridge _ => samplesOf_statusBlocks ?_)
      (bridge_samples (List.mem_map_of_mem ?_) h),
    rendered_flags (fun primary _ => samplesOf_aliasBlocks ?_)
      (alias_samples (List.mem_map_of_mem ?_) h)⟩
  · simp [statusBlocks, bridgeSourceBlocks, pollBlocks, ExportedBridge.fresh]
  · simp [statusFamilies, bridgeSourceFamilies, PollFamilies.all]
  · simp [aliasBlocks, pollBlocks, ExportedBridge.fresh]
  · simp [aliasStatusFamilies, PollFamilies.all]

/-- The servers of the bridges of an exposition. -/
theorem up_samples [FloatArith.Lawful] {source : Exporter} {loopNow monoNow : Time}
    {out : MetricsOut} (h : renderOut source loopNow monoNow = .ok out) :
    out.samples "nd45_dtsu666_bridge_dtsu_server_up" = (source.bridges.map fun bridge =>
        ([("bridge", bridge.spec.name)], flagValue bridge.serverStatus.running)) ∧
      out.samples "nd45_dtsu666_dtsu_server_up" =
        source.bridges.head?.toList.map fun primary =>
          ([], flagValue primary.serverStatus.running) := by
  have hbridge : bridgeServerFamilies.up.name = "nd45_dtsu666_bridge_dtsu_server_up" := by
    decide +kernel
  have halias : aliasServerFamilies.up.name = "nd45_dtsu666_dtsu_server_up" := by
    decide +kernel
  rw [← hbridge, ← halias]
  refine ⟨rendered_flags (fun bridge _ => samplesOf_statusBlocks ?_)
      (bridge_samples (List.mem_map_of_mem ?_) h),
    rendered_flags (fun primary _ => samplesOf_aliasBlocks ?_)
      (alias_samples (List.mem_map_of_mem ?_) h)⟩
  · simp [statusBlocks, serverBlocks]
  · simp [statusFamilies, ServerFamilies.all]
  · simp [aliasBlocks, serverBlocks]
  · simp [aliasStatusFamilies, ServerFamilies.all]

/-! ## The gauges of a process -/

/-- The exporter finds up what the supervisor holds. -/
theorem Process.up_exported {p : Process} {s : p.State} (h : p.system.Reachable s)
    (counters : Fin p.bridges.length → Counters) :
    (p.exported s.1 counters).map (fun b => (b.spec.name, b.serverStatus.running)) =
      (List.finRange p.bridges.length).map fun i =>
        ((p.bridge i).spec.name, (s.1 i).supervisor.server.isSome) := by
  rw [exported, List.map_ofFn, List.ofFn_eq_map]
  refine List.map_congr_left fun i _ => ?_
  have hledger := (reachable_ok (reachable_supervisors (p.reachable_bridge h i)).2).1
  exact congrArg (Prod.mk _) hledger.running

omit [FloatArith] in
/-- What two lists have in common, and their first elements. -/
theorem map_and_head {α β γ δ : Type} {f : α → γ} {g : β → γ} {xs : List α} {ys : List β}
    (h : xs.map f = ys.map g) (k : γ → δ) :
    xs.map (fun x => k (f x)) = ys.map (fun y => k (g y)) ∧
      xs.head?.toList.map (fun x => k (f x)) = ys.head?.toList.map fun y => k (g y) := by
  refine ⟨?_, ?_⟩
  · have hmap := congrArg (List.map k) h
    rw [List.map_map, List.map_map] at hmap
    exact hmap
  · have hhead := congrArg (fun l => (l.head?.map k).toList) h
    simp only [List.head?_map, Option.map_map, Option.toList_map] at hhead
    exact hhead

/-- In every run of a process, at any readings of the clocks : the gauges of freshness are 1 for
the bridges that have published a sample no older than their maximum age, those of the servers for
the bridges whose supervisor holds one, and both are shown of the first bridge once more. All
bridges are fresh by their gauges where `/healthz` answers 200. -/
theorem status_gauges [FloatArith.Lawful] {p : Process} {s : p.State} (h : p.system.Reachable s)
    {counters : Fin p.bridges.length → Process.Counters} {startedAt t monoNow : Time}
    {out : MetricsOut} (hout : renderOut (p.exporter s.1 counters startedAt) t monoNow = .ok out) :
    let label i := [("bridge", (p.bridge i).spec.name)]
    let fresh i := flagValue ((s.1 i).freshAt (p.bridge i).spec.safety.maxDataAgeS t)
    let up i := flagValue (s.1 i).supervisor.server.isSome
    let indices := List.finRange p.bridges.length
    (out.samples "nd45_dtsu666_bridge_data_fresh" = indices.map (fun i => (label i, fresh i)) ∧
      out.samples "nd45_dtsu666_bridge_dtsu_server_up" = indices.map fun i => (label i, up i)) ∧
    (out.samples "nd45_dtsu666_nd45_data_fresh" =
        indices.head?.toList.map (fun i => ([], fresh i)) ∧
      out.samples "nd45_dtsu666_dtsu_server_up" =
        indices.head?.toList.map fun i => ([], up i)) ∧
    ∃ answer, route (some "/healthz") (p.exporter s.1 counters startedAt) t monoNow = .ok answer ∧
      (answer.status = 200 ↔
        ∀ g ∈ out.samples "nd45_dtsu666_bridge_data_fresh", g.2 = flagValue true) := by
  intro label fresh up indices
  obtain ⟨hfresh, hfirst⟩ := fresh_samples hout
  obtain ⟨hup, hfirstUp⟩ := up_samples hout
  have hf := p.fresh_exported h counters t
  have hu := p.up_exported h counters
  refine ⟨⟨hfresh.trans ?_, hup.trans ?_⟩, ⟨hfirst.trans ?_, hfirstUp.trans ?_⟩, ?_⟩
  · exact (map_and_head hf fun e => ([("bridge", e.1)], flagValue e.2)).1
  · exact (map_and_head hu fun e => ([("bridge", e.1)], flagValue e.2)).1
  · exact (map_and_head hf fun e => ([], flagValue e.2)).2
  · exact (map_and_head hu fun e => ([], flagValue e.2)).2
  · refine ⟨healthAnswer (p.exported s.1 counters) t, ?_, ?_⟩
    · rw [route, if_neg (by decide), if_pos rfl]
      rfl
    · have hvalue : ∀ b : Bool, flagValue b = flagValue true ↔ b = true := by
        rintro (_ | _)
        · refine ⟨fun heq => ?_, fun h => absurd h (by decide)⟩
          exact absurd (MetricValue.float.inj heq) (by decide)
        · simp
      rw [hfresh, List.forall_mem_map]
      simp only [hvalue]
      rcases healthAnswer_cases (p.exported s.1 counters) t with ⟨hstatus, hall⟩ |
        ⟨hstatus, ⟨b, hb, hstale⟩, -⟩
      · exact ⟨fun _ => hall, fun _ => hstatus⟩
      · rw [hstatus]
        refine ⟨fun hno => absurd hno (by decide), fun hall => ?_⟩
        cases hstale.symm.trans (hall b hb)

end Float

/-- Of two bridges the first has published. -/
theorem status_gauges_apartProcess : ∃ s out, (@Process.system .double apartProcess).Reachable s ∧
    @renderOut .double (apartProcess.exporter s.1 (fun _ => {}) 0) 2 2 = .ok out ∧
      out.samples "nd45_dtsu666_bridge_data_fresh" =
        [([("bridge", "main")], @flagValue true), ([("bridge", "second")], @flagValue false)] := by
  have hrun : ((@Process.system .double apartProcess).run
      (onePoll.map (Prod.mk mainIndex)) (apartProcess.initial 0)).any (fun s =>
        ((s.1 mainIndex).freshAt 3 2 && !(s.1 secondIndex).freshAt 3 2) &&
          (@renderOut .double (apartProcess.exporter s.1 (fun _ => {}) 0) 2 2).toOption.isSome) =
        true := by
    decide +kernel
  obtain ⟨s, hs, hp⟩ := (Option.any_eq_true _ _).1 hrun
  rw [Bool.and_eq_true, Bool.and_eq_true, Bool.not_eq_true'] at hp
  obtain ⟨⟨hmain, hsecond⟩, hout⟩ := hp
  obtain ⟨out, hout⟩ := Option.isSome_iff_exists.1 hout
  have hout := Except.toOption_eq_some.1 hout
  have hreach :=
    System.reachable_of_run (.init (@Process.init_initial .double apartProcess 0)) _ hs
  obtain ⟨⟨hsamples, -⟩, -⟩ := @status_gauges .double _ apartProcess s hreach _ _ _ _ _ hout
  refine ⟨s, out, hreach, hout, hsamples.trans ?_⟩
  have hrange : List.finRange apartProcess.bridges.length = [mainIndex, secondIndex] := rfl
  rw [hrange]
  exact congrArg₂ (fun a b => [([("bridge", "main")], @flagValue a),
    ([("bridge", "second")], @flagValue b)]) hmain hsecond

end DtsuBridge
