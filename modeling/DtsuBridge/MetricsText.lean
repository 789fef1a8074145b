import DtsuBridge.Metrics

/-!
# What a step of the rendering adds

The text of `_Out` is that of the lines the calls stand for (`toList_text`), each of which is a
line of the grammar. A step keeps what was written so far `Sound` and adds samples of its own names,
each with the labels of its bridge, all of them apart (`Adds`). Steps with different names follow
each other (`Adds.trans`).

`MetricsOut.emitAll_adds` : blocks of distinct names that are `Valid` are such a step.
-/

namespace DtsuBridge

open Exposition (Line Differ Apart)

/-! ## Text and lines -/

theorem toList_replaceChar (c : Char) (text s : String) :
    (replaceChar c text s).toList = s.toList.flatMap fun d => if d = c then text.toList else [d] :=
  String.toList_ofList

/-- The three replacements escape. -/
theorem toList_esc (value : String) : (esc value).toList = Exposition.escape value.toList := by
  rw [esc, toList_replaceChar, toList_replaceChar, toList_replaceChar, List.flatMap_assoc,
    List.flatMap_assoc, Exposition.escape]
  refine congrArg (fun f => value.toList.flatMap f) (funext fun c => ?_)
  have hslash : "\\\\".toList = ['\\', '\\'] := rfl
  have hquote : "\\\"".toList = ['\\', '"'] := rfl
  have hnewline : "\\n".toList = ['\\', 'n'] := rfl
  rw [hslash, hquote, hnewline, Exposition.escapeChar]
  split_ifs with h1 h2 h3
  · rfl
  · simp [h2]
  · simp [h3]
  · simp [h2, h3]

theorem toList_labelsText (labels : MetricLabels) :
    (labelsText labels).toList = Exposition.printLabels labels := by
  unfold labelsText Exposition.printLabels
  split_ifs
  · rfl
  · have hmap : labels.map (String.toList ∘ fun l : String × String =>
        l.1 ++ "=\"" ++ esc l.2 ++ "\"") = labels.map Exposition.printLabel := by
      refine List.map_congr_left fun l _ => ?_
      simp [Exposition.printLabel, toList_esc]
    simp only [String.toList_append, String.toList_intercalate, List.map_map]
    rw [hmap]
    rfl

section Float

variable [FloatArith]

theorem isValue_fmt (x : PyFloat) : Exposition.isValue (fmt x).toList = true := by
  rcases x with _ | (_ | _) | ⟨neg, m⟩
  · show Exposition.isValue "NaN".toList = true
    decide
  · show Exposition.isValue "+Inf".toList = true
    decide
  · show Exposition.isValue "-Inf".toList = true
    decide
  · have hnumeral : isNumeral (fmt (.fin neg m)).toList = true := by
      unfold fmt
      dsimp only
      split_ifs with hint hneg
      · exact isNumeral_intRepr _
      · exact isNumeral_intRepr _
      · rw [String.toList_ofList]
        exact PyFloat.isNumeral_repr neg m
    simp [Exposition.isValue, hnumeral]

/-- The lines of the exposition that a call adds. -/
def MetricLine.lines : MetricLine → List Line
  | .family name kind helpText => [.help name helpText, .type name kind]
  | .sample name value labels => [.sample name labels (fmt value.toFloat)]

def MetricsOut.lines (out : MetricsOut) : List Line :=
  out.flatMap MetricLine.lines

/-- The names and labels passed to `sample`. -/
def MetricLine.series : MetricLine → Option (String × MetricLabels)
  | .family .. => none
  | .sample name _ labels => some (name, labels)

def MetricsOut.series (out : MetricsOut) : List (String × MetricLabels) :=
  out.filterMap MetricLine.series

theorem MetricLine.text_eq (line : MetricLine) :
    line.text.map String.toList = line.lines.map Line.print := by
  rcases line with ⟨name, kind, helpText⟩ | ⟨name, value, labels⟩
  · have htext : MetricLine.text (.family name kind helpText) =
        ["# HELP " ++ name ++ " " ++ helpText, "# TYPE " ++ name ++ " " ++ kind] := rfl
    simp [htext, MetricLine.lines, Line.print]
  · simp [MetricLine.text, MetricLine.lines, Line.print, toList_labelsText]

/-- The text is that of the lines. -/
theorem MetricsOut.toList_text (out : MetricsOut) :
    out.text.toList = Exposition.printText out.lines := by
  have hmap : (out.flatMap MetricLine.text).map String.toList = out.lines.map Line.print := by
    rw [List.map_flatMap, MetricsOut.lines, List.map_flatMap]
    exact List.flatMap_congr fun line _ => line.text_eq
  rw [MetricsOut.text, String.toList_append, String.toList_intercalate, hmap]
  rfl

theorem MetricsOut.filterMap_lines : ∀ out : MetricsOut,
    out.lines.filterMap Exposition.series = out.series
  | [] => rfl
  | .family _ _ _ :: out => MetricsOut.filterMap_lines out
  | .sample name _ labels :: out =>
    congrArg ((name, labels) :: ·) (MetricsOut.filterMap_lines out)

/-! ## What a step adds -/

/-- A text on one line that does not begin with a blank. -/
def HelpText (s : String) : Prop :=
  '\n' ∉ s.toList ∧ (s.toList.head?.all fun c => !Exposition.isBlank c) = true

/-- The names and texts of a family are those of the grammar. -/
structure MetricFamily.Valid (family : MetricFamily) : Prop where
  name : Exposition.isName Exposition.isMetricChar family.name.toList = true
  helpText : HelpText family.helpText
  kind : family.kind ∈ Exposition.kinds

/-- Label names of the grammar, none of them twice. -/
def ValidKeys (keys : List String) : Prop :=
  keys.Nodup ∧ ∀ key ∈ keys, Exposition.isName Exposition.isLabelChar key.toList = true

omit [FloatArith] in
instance (keys : List String) : Decidable (ValidKeys keys) :=
  inferInstanceAs (Decidable (_ ∧ _))

/-- What was written is declared and well-formed, with no label twice. -/
structure MetricsOut.Sound (out : MetricsOut) : Prop where
  declares : Exposition.Declares out.lines
  wellFormed : ∀ line ∈ out.lines, line.WellFormed
  nodup : ∀ s ∈ out.series, (s.2.map Prod.fst).Nodup

/-- Samples of these names with these labels and others, all of them apart. -/
structure Group (names : List String) (label : MetricLabels)
    (added : List (String × MetricLabels)) : Prop where
  apart : added.Pairwise Apart
  name : ∀ s ∈ added, s.1 ∈ names
  label : ∀ s ∈ added, label ⊆ s.2

/-- What follows is sound where what precedes is, with samples of these names added. -/
structure Adds (names : List String) (label : MetricLabels) (out out' : MetricsOut) : Prop where
  sound : out.Sound → out'.Sound
  added : ∃ added, out'.series = out.series ++ added ∧ Group names label added

omit [FloatArith] in
theorem Group.nil (names : List String) (label : MetricLabels) : Group names label [] where
  apart := .nil
  name _ h := by simp at h
  label _ h := by simp at h

omit [FloatArith] in
theorem Group.mono {names names' : List String} {label : MetricLabels}
    {added : List (String × MetricLabels)} (h : Group names label added) (hsub : names ⊆ names') :
    Group names' label added :=
  ⟨h.apart, fun s hs => hsub (h.name s hs), h.label⟩

omit [FloatArith] in
/-- Groups of different names. -/
theorem Group.append {names names' : List String} {label : MetricLabels}
    {added added' : List (String × MetricLabels)} (h : Group names label added)
    (h' : Group names' label added') (hnames : names.Disjoint names') :
    Group (names ++ names') label (added ++ added') where
  apart := by
    refine List.pairwise_append.2 ⟨h.apart, h'.apart, fun s hs t ht heq => ?_⟩
    exact absurd (heq ▸ h'.name t ht) (hnames (h.name s hs))
  name s hs := by
    rcases List.mem_append.1 hs with hs | hs
    · exact List.mem_append_left _ (h.name s hs)
    · exact List.mem_append_right _ (h'.name s hs)
  label s hs := by
    rcases List.mem_append.1 hs with hs | hs
    · exact h.label s hs
    · exact h'.label s hs

theorem Adds.refl (names : List String) (label : MetricLabels) (out : MetricsOut) :
    Adds names label out out :=
  ⟨id, [], by simp, .nil names label⟩

theorem Adds.mono {names names' : List String} {label : MetricLabels} {out out' : MetricsOut}
    (h : Adds names label out out') (hsub : names ⊆ names') : Adds names' label out out' := by
  obtain ⟨added, hseries, hgroup⟩ := h.added
  exact ⟨h.sound, added, hseries, hgroup.mono hsub⟩

/-- Two steps with different names. -/
theorem Adds.trans {names names' : List String} {label : MetricLabels}
    {out out' out'' : MetricsOut} (h : Adds names label out out')
    (h' : Adds names' label out' out'') (hnames : names.Disjoint names') :
    Adds (names ++ names') label out out'' := by
  obtain ⟨added, hseries, hgroup⟩ := h.added
  obtain ⟨added', hseries', hgroup'⟩ := h'.added
  refine ⟨h'.sound ∘ h.sound, added ++ added', ?_, hgroup.append hgroup' hnames⟩
  rw [hseries', hseries, List.append_assoc]

theorem MetricsOut.lines_append (out more : MetricsOut) :
    MetricsOut.lines (out ++ more) = out.lines ++ MetricsOut.lines more :=
  List.flatMap_append

omit [FloatArith] in
theorem MetricsOut.series_append (out more : MetricsOut) :
    MetricsOut.series (out ++ more) = out.series ++ MetricsOut.series more :=
  List.filterMap_append

theorem MetricsOut.any_isHelp (out : MetricsOut) (name : String) :
    out.lines.any (Exposition.isHelp name) = out.any (·.declares name) := by
  rw [MetricsOut.lines, List.any_flatMap]
  refine congrArg (fun f => List.any out f) (funext fun line => ?_)
  rcases line with ⟨n, kind, helpText⟩ | ⟨n, value, labels⟩
  · simp [MetricLine.lines, MetricLine.declares, Exposition.isHelp]
  · simp [MetricLine.lines, MetricLine.declares, Exposition.isHelp]

theorem MetricsOut.lines_family (out : MetricsOut) (name kind helpText : String) :
    (out.family name kind helpText).lines = Exposition.declare name kind helpText out.lines := by
  unfold MetricsOut.family Exposition.declare
  rw [MetricsOut.any_isHelp]
  split_ifs
  · rfl
  · rw [MetricsOut.lines_append]
    rfl

omit [FloatArith] in
theorem MetricsOut.series_family (out : MetricsOut) (name kind helpText : String) :
    (out.family name kind helpText).series = out.series := by
  unfold MetricsOut.family
  split_ifs
  · rfl
  · rw [MetricsOut.series_append]
    exact List.append_nil _

omit [FloatArith] in
/-- A family stays declared. -/
theorem MetricsOut.declares_family {out : MetricsOut} {name name' : String}
    (h : name' = name ∨ out.any (·.declares name') = true) (kind helpText : String) :
    (out.family name kind helpText).any (·.declares name') = true := by
  unfold MetricsOut.family
  split_ifs with hany
  · rcases h with rfl | h
    · exact hany
    · exact h
  · rw [List.any_append]
    rcases h with rfl | h
    · simp [MetricLine.declares]
    · simp [h]

theorem MetricsOut.Sound.family {out : MetricsOut} (h : out.Sound) {family : MetricFamily}
    (hfamily : family.Valid) :
    (out.family family.name family.kind family.helpText).Sound := by
  obtain ⟨hname, ⟨hline, hhead⟩, hkind⟩ := hfamily
  refine ⟨?_, ?_, ?_⟩
  · rw [lines_family]
    exact h.declares.declare _ _ _
  · rw [lines_family]
    intro line hmem
    unfold Exposition.declare at hmem
    split_ifs at hmem
    · exact h.wellFormed line hmem
    · rcases List.mem_append.1 hmem with hmem | hmem
      · exact h.wellFormed line hmem
      · simp only [List.mem_cons, List.not_mem_nil, or_false] at hmem
        rcases hmem with rfl | rfl
        · refine ⟨hname, hline, fun c hc => ?_⟩
          rw [Option.mem_def.1 hc] at hhead
          simpa using hhead
        · exact ⟨hname, hkind⟩
  · rw [series_family]
    exact h.nodup

/-- A sample of a declared family is a line of the grammar. -/
theorem MetricsOut.Sound.wellFormed_sample {out : MetricsOut} (h : out.Sound) {name : String}
    (hany : out.any (·.declares name) = true) {labels : MetricLabels}
    (hkeys : ValidKeys (labels.map Prod.fst)) (x : PyFloat) :
    (Line.sample name labels (fmt x)).WellFormed := by
  rw [← MetricsOut.any_isHelp] at hany
  obtain ⟨help, hhelp, hname⟩ := List.any_eq_true.1 hany
  have hwell := h.wellFormed help hhelp
  refine ⟨?_, fun label hlabel => hkeys.2 _ (List.mem_map_of_mem hlabel), isValue_fmt x⟩
  rcases help with ⟨n, text⟩ | ⟨n, kind⟩ | text | ⟨n, ls, v⟩
  · obtain rfl : n = name := of_decide_eq_true hname
    exact hwell.1
  all_goals cases hname

/-- Samples of declared families are added. -/
theorem MetricsOut.Sound.append {out more : MetricsOut} (h : out.Sound)
    (hmore : ∀ line ∈ more, ∃ name value labels, line = .sample name value labels ∧
      out.any (·.declares name) = true ∧ ValidKeys (labels.map Prod.fst)) :
    MetricsOut.Sound (out ++ more) := by
  refine ⟨?_, ?_, ?_⟩
  · rw [lines_append]
    refine h.declares.append_samples fun line hline => ?_
    obtain ⟨call, hcall, hline⟩ := List.mem_flatMap.1 hline
    obtain ⟨name, value, labels, rfl, hany, -⟩ := hmore call hcall
    rw [← MetricsOut.any_isHelp] at hany
    exact ⟨name, labels, _, List.mem_singleton.1 hline, hany⟩
  · rw [lines_append]
    refine List.forall_mem_append.2 ⟨h.wellFormed, fun line hline => ?_⟩
    obtain ⟨call, hcall, hline⟩ := List.mem_flatMap.1 hline
    obtain ⟨name, value, labels, rfl, hany, hkeys⟩ := hmore call hcall
    rw [List.mem_singleton.1 hline]
    exact h.wellFormed_sample hany hkeys _
  · rw [series_append]
    refine List.forall_mem_append.2 ⟨h.nodup, fun s hs => ?_⟩
    obtain ⟨call, hcall, hs⟩ := List.mem_filterMap.1 hs
    obtain ⟨name, value, labels, rfl, -, hkeys⟩ := hmore call hcall
    obtain rfl := Option.some.inj hs
    exact hkeys.1

/-! ## Blocks -/

/-- A block with labels that differ, those of its bridge among them. -/
structure MetricBlock.Valid (label : MetricLabels) (block : MetricBlock) : Prop where
  family : block.family.Valid
  keys : ∀ s ∈ block.samples, ValidKeys (s.2.map Prod.fst)
  differ : block.samples.Pairwise fun s t => Differ s.2 t.2
  label : ∀ s ∈ block.samples, label ⊆ s.2

omit [FloatArith] in
/-- The lines of samples under one name. -/
theorem series_of_forall₂ {name : String} {samples : List (SampleValue × MetricLabels)}
    {lines : List MetricLine}
    (h : List.Forall₂ (fun s line => ∃ value, line = MetricLine.sample name value s.2) samples
      lines) :
    MetricsOut.series lines = samples.map (fun s => (name, s.2)) ∧
      ∀ line ∈ lines, ∃ s ∈ samples, ∃ value, line = .sample name value s.2 := by
  induction h with
  | nil => exact ⟨rfl, by simp⟩
  | cons hs _ ih =>
    obtain ⟨value, rfl⟩ := hs
    obtain ⟨hseries, hlines⟩ := ih
    refine ⟨?_, List.forall_mem_cons.2 ⟨?_, fun line hline => ?_⟩⟩
    · rw [List.map_cons, ← hseries]
      rfl
    · exact ⟨_, List.mem_cons_self, value, rfl⟩
    · obtain ⟨s, hs, hvalue⟩ := hlines line hline
      exact ⟨s, List.mem_cons_of_mem _ hs, hvalue⟩

theorem MetricsOut.emit_adds {label : MetricLabels} {block : MetricBlock}
    (hblock : block.Valid label) {out out' : MetricsOut} (h : out.emit block = .ok out') :
    Adds [block.family.name] label out out' := by
  obtain ⟨lines, hlines, heq⟩ := Except.bind_eq_ok.1 h
  obtain rfl := Except.ok.inj heq
  have hsamples : List.Forall₂ (fun (s : SampleValue × MetricLabels) line =>
      ∃ value, line = MetricLine.sample block.family.name value s.2) block.samples lines := by
    refine (Except.mapM_eq_ok.1 hlines).imp fun s line hs => ?_
    obtain ⟨value, -, hline⟩ := Except.bind_eq_ok.1 hs
    exact ⟨value, (Except.ok.inj hline).symm⟩
  obtain ⟨hseries, hmem⟩ := series_of_forall₂ hsamples
  refine ⟨fun hsound => (hsound.family hblock.family).append fun line hline => ?_,
    block.samples.map fun s => (block.family.name, s.2), ?_, ?_⟩
  · obtain ⟨s, hs, value, rfl⟩ := hmem line hline
    exact ⟨_, _, _, rfl, declares_family (.inl rfl) _ _, hblock.keys s hs⟩
  · rw [series_append, series_family, hseries]
  · refine ⟨?_, ?_, ?_⟩
    · rw [List.pairwise_map]
      refine hblock.differ.imp ?_
      intro s t hdiffer _
      exact hdiffer
    · rw [List.forall_mem_map]
      exact fun _ _ => List.mem_singleton_self _
    · rw [List.forall_mem_map]
      exact hblock.label

/-- Blocks of distinct names. -/
theorem MetricsOut.emitAll_adds {label : MetricLabels} : ∀ {blocks : List MetricBlock},
    (∀ block ∈ blocks, block.Valid label) → (blocks.map (·.family.name)).Nodup →
      ∀ {out out' : MetricsOut}, out.emitAll blocks = .ok out' →
        Adds (blocks.map (·.family.name)) label out out'
  | [], _, _, out, out', h => by
    obtain rfl := Except.ok.inj h
    exact .refl _ _ _
  | block :: blocks, hvalid, hnodup, out, out', h => by
    obtain ⟨hblock, hblocks⟩ := List.forall_mem_cons.1 hvalid
    rw [List.map_cons, List.nodup_cons] at hnodup
    rw [emitAll, List.foldlM_cons] at h
    obtain ⟨out₁, h₁, h₂⟩ := Except.bind_eq_ok.1 h
    have hrest := emitAll_adds hblocks hnodup.2 h₂
    exact (emit_adds hblock h₁).trans hrest (List.disjoint_singleton.2 hnodup.1).symm

end Float

end DtsuBridge
