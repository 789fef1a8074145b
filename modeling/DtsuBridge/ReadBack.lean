import DtsuBridge.Derive
import DtsuBridge.HttpLayer
import DtsuBridge.Lib.Decimal

/-!
# The values of an exposition, read back

`_fmt` writes an integer of less than sixteen digits as one, and every other finite float as
`repr` does. A scraper reads the text of a value as a float again.

The value that was rendered and the one that is read are the same, but for the sign of a zero, for
every float (`readFloat_fmt`). What the exporter renders are floats : counts and ages are rounded,
registers are read in single precision, and measurements are floats of Python
(`renderOut_readable`). So the series of an exposition, read from its text, are the series that were
rendered, with their labels and their values (`exposition_reads_back`).
-/

namespace DtsuBridge

open Exposition (Line)

/-! ## Values -/

/-- The float without the sign of a zero. -/
def unsignedZero (x : PyFloat) : PyFloat :=
  if x.eq 0 then 0 else x

theorem unsignedZero_inf (neg : Bool) : unsignedZero (.inf neg) = .inf neg := by
  have hne : (PyFloat.inf neg).eq 0 = false := by
    rcases neg with _ | _
    · rfl
    · rfl
  simp [unsignedZero, hne]

theorem unsignedZero_fin (neg : Bool) (m : ℚ≥0) :
    unsignedZero (.fin neg m) = if m = 0 then 0 else .fin neg m := by
  have hzero : (0 : PyFloat) = .fin false 0 := rfl
  have hiff : (PyFloat.fin neg m).eq 0 = true ↔ m = 0 := by
    rw [hzero, PyFloat.eq_fin, decide_eq_true_eq]
    cases neg <;> simp [PyFloat.signed]
  unfold unsignedZero
  simp only [hiff]

/-- The digits of a number stand for it. -/
theorem decimalValue_toDigits (n : ℕ) : decimalValue (Nat.toDigits 10 n) = n := by
  have hdigits := (isDigits_iff.1 (isDigits_toDigits n)).2
  have h := @decimalValue_whole (Nat.toDigits 10 n) [] hdigits rfl
  have hexp : exponentValue [] = 0 := rfl
  rwa [List.append_nil, digitsValue_toDigits, hexp, zpow_zero, mul_one] at h

section Float

variable [FloatArith]

/-- The value of a sample as a scraper reads it. -/
def readFloat (text : String) : PyFloat :=
  if text.toList = ['N', 'a', 'N'] then .nan
  else if text.toList = ['+', 'I', 'n', 'f'] then .inf false
  else if text.toList = ['-', 'I', 'n', 'f'] then .inf true
  else .ofNumeral text.toList

/-- A numeral is none of the words. -/
theorem readFloat_of_isNumeral {text : String} (h : isNumeral text.toList = true) :
    readFloat text = .ofNumeral text.toList := by
  have hword : ∀ word ∈ [['N', 'a', 'N'], ['+', 'I', 'n', 'f'], ['-', 'I', 'n', 'f']],
      text.toList ≠ word := by
    rintro word hword heq
    rw [heq] at h
    have hnone : ∀ word ∈ [['N', 'a', 'N'], ['+', 'I', 'n', 'f'], ['-', 'I', 'n', 'f']],
        isNumeral word = false := by decide
    rw [hnone word hword] at h
    cases h
  simp only [List.forall_mem_cons, List.not_mem_nil, false_implies, implies_true, and_true] at hword
  obtain ⟨hnan, hinf, hneg⟩ := hword
  rw [readFloat, if_neg hnan, if_neg hinf, if_neg hneg]

/-- An integer is read as the float of its magnitude. -/
theorem ofNumeral_int (neg : Bool) {n : ℕ} (h0 : n ≠ 0) :
    PyFloat.ofNumeral (toString (if neg then -(n : ℤ) else n)).toList =
      .ofMag neg (FloatArith.round n) := by
  rcases neg with _ | _
  · have htext : toString (if false then -(n : ℤ) else n) = n.repr := rfl
    rw [htext, Nat.toList_repr, PyFloat.ofNumeral_of_isDecimal (isDecimal_toDigits n),
      decimalValue_toDigits]
  · obtain ⟨k, rfl⟩ := Nat.exists_eq_succ_of_ne_zero h0
    have htext : toString (if true then -((k + 1 : ℕ) : ℤ) else (k + 1 : ℕ)) =
        "-" ++ (k + 1).repr := rfl
    rw [htext, String.toList_append, Nat.toList_repr]
    show PyFloat.ofMag true (FloatArith.round (decimalValue (Nat.toDigits 10 (k + 1)))) = _
    rw [decimalValue_toDigits]

variable [FloatArith.RoundsTo .binary64]

/-- What is formatted is read back. -/
theorem readFloat_fmt {x : PyFloat} (hx : x.Representable) :
    readFloat (fmt x) = unsignedZero x := by
  rcases x with _ | (_ | _) | ⟨neg, m⟩
  · simp [readFloat, fmt, unsignedZero, PyFloat.eq, PyFloat.key]
  · simp [readFloat, fmt, unsignedZero_inf]
  · simp [readFloat, fmt, unsignedZero_inf]
  have hm : FloatArith.round m = m := hx neg m rfl
  rw [unsignedZero_fin]
  by_cases hint : m.den = 1 ∧ m < ((10 ^ 16 : ℕ) : ℚ≥0)
  · have htext : fmt (.fin neg m) = toString (if neg then -(m.num : ℤ) else m.num) :=
      if_pos hint
    rw [htext, readFloat_of_isNumeral (isNumeral_intRepr _)]
    by_cases h0 : m = 0
    · have hdigit : (toString (if neg then -(m.num : ℤ) else m.num)).toList = ['0'] := by
        rw [h0]
        cases neg <;> rfl
      rw [if_pos h0, hdigit, PyFloat.ofNumeral_of_isDecimal rfl]
      have hvalue : decimalValue ['0'] = 0 := by
        exact_mod_cast decimalValue_toDigits 0
      rw [hvalue, FloatArith.round_zero]
      rfl
    · have hnum : ((m.num : ℕ) : ℚ≥0) = m := by
        have hdiv := m.num_div_den
        rwa [hint.1, Nat.cast_one, div_one] at hdiv
      rw [if_neg h0, ofNumeral_int neg (NNRat.num_ne_zero.2 h0), hnum, hm]
      rfl
  · have htext : fmt (.fin neg m) = String.ofList (PyFloat.fin neg m).repr := if_neg hint
    have h0 : m ≠ 0 := by
      rintro rfl
      exact hint ⟨rfl, by norm_num⟩
    have hnumeral : isNumeral (fmt (.fin neg m)).toList = true := by
      rw [htext, String.toList_ofList]
      exact PyFloat.isNumeral_repr neg m
    rw [readFloat_of_isNumeral hnumeral, htext, String.toList_ofList, if_neg h0]
    exact PyFloat.ofNumeral_repr hm

/-! ## What is rendered -/

theorem representable_ofSum (s : ℚ) : (PyFloat.ofSum s).Representable :=
  PyFloat.representable_ofMag fun _ => FloatArith.RoundsTo.round_round

theorem representable_floatOfInt {n : ℤ} {x : PyFloat} (h : floatOfInt n = .ok x) :
    x.Representable := by
  rintro neg m rfl
  unfold floatOfInt PyFloat.ofInt? at h
  rcases hround : FloatArith.round (n.natAbs : ℚ≥0) with _ | q
  · rw [hround] at h
    cases h
  · rw [hround] at h
    obtain ⟨-, rfl⟩ := PyFloat.fin.inj (Except.ok.inj h)
    exact FloatArith.RoundsTo.round_round hround

omit [FloatArith] [FloatArith.RoundsTo .binary64] in
/-- A single precision pattern stands for a float of single precision. -/
theorem ofBits_cases (fmt : BinFormat) (bits : ℕ) {neg : Bool} {m : ℚ≥0}
    (h : PyFloat.ofBits fmt bits = .fin neg m) : ∃ b < fmt.infOrdinal, fmt.value b = m := by
  unfold PyFloat.ofBits at h
  dsimp only at h
  split_ifs at h with hfin
  obtain ⟨-, rfl⟩ := PyFloat.fin.inj h
  exact ⟨_, hfin, rfl⟩

theorem representable_registersToFloat {regs : List ℕ} {wordOrder byteOrder : String} {x : PyFloat}
    (h : registersToFloat regs wordOrder byteOrder = .ok x) : x.Representable := by
  have hunpack : ∀ hi lo, (unpackFloat hi lo).Representable := by
    rintro hi lo neg m hm
    obtain ⟨b, hb, rfl⟩ := ofBits_cases _ _ hm
    rw [FloatArith.RoundsTo.round_eq]
    exact BinFormat.round_binary32 hb
  unfold registersToFloat at h
  split at h
  · rw [← Except.ok.inj h]
    split_ifs
    · exact hunpack _ _
    · exact hunpack _ _
  · cases h

/-- The value of a sample is a float. -/
def MetricLine.Readable : MetricLine → Prop
  | .family .. => True
  | .sample _ value _ => value.toFloat.Representable

/-- What a call leaves readable. -/
def Keeps (out out' : MetricsOut) : Prop :=
  (∀ line ∈ out, line.Readable) → ∀ line ∈ out', line.Readable

theorem representable_seconds (t : WithTop Time) :
    (MetricValue.seconds t).toFloat.Representable := by
  rcases t with _ | t
  · rintro neg m h
    cases h
  · exact representable_ofSum t

omit [FloatArith.RoundsTo .binary64] in
theorem readable_family {out : MetricsOut} (h : ∀ line ∈ out, line.Readable)
    (name kind helpText : String) : ∀ line ∈ out.family name kind helpText, line.Readable := by
  unfold MetricsOut.family
  split_ifs
  · exact h
  · exact List.forall_mem_append.2 ⟨h, List.forall_mem_singleton.2 trivial⟩

theorem emit_keeps {out out' : MetricsOut} {block : MetricBlock} (h : out.emit block = .ok out') :
    Keeps out out' := by
  obtain ⟨lines, hlines, heq⟩ := Except.bind_eq_ok.1 h
  obtain rfl := Except.ok.inj heq
  refine fun hout => List.forall_mem_append.2 ⟨readable_family hout _ _ _, fun line hline => ?_⟩
  obtain ⟨⟨value, labels⟩, -, hsample⟩ := Except.exists_of_mem_mapM hlines hline
  obtain ⟨metric, hmetric, hsample⟩ := Except.bind_eq_ok.1 hsample
  rw [← Except.ok.inj hsample]
  rcases value with n | t
  · obtain ⟨x, hx, hmetric⟩ := Except.bind_eq_ok.1 hmetric
    rw [← Except.ok.inj hmetric]
    exact representable_floatOfInt hx
  · rw [← Except.ok.inj hmetric]
    exact representable_seconds t

theorem emitAll_keeps : ∀ {blocks : List MetricBlock} {out out' : MetricsOut},
    out.emitAll blocks = .ok out' → Keeps out out'
  | [], out, out', h => by
    obtain rfl := Except.ok.inj h
    exact id
  | block :: blocks, out, out', h => by
    rw [MetricsOut.emitAll, List.foldlM_cons] at h
    obtain ⟨out₁, h₁, h₂⟩ := Except.bind_eq_ok.1 h
    exact fun hout => emitAll_keeps h₂ (emit_keeps h₁ hout)

theorem readable_ageLines (families : ValueFamilies)
    (activity : Option (FunctionCode → ℤ → Option Time)) (label : MetricLabels) (monoNow : Time)
    (p : OutputPoint) : ∀ line ∈ ageLines families activity label monoNow p, line.Readable := by
  rcases activity with _ | lastSeen
  · simp [ageLines]
  · exact List.forall_mem_singleton.2 (representable_seconds _)

/-- The register of a point is read in single precision. -/
theorem readable_pointLines {families : ValueFamilies} {values : Sample} {ctRatio : PyFloat}
    {activity : Option (FunctionCode → ℤ → Option Time)} {label : MetricLabels} {monoNow : Time}
    {p : OutputPoint} {ls : List MetricLine}
    (h : pointLines families values ctRatio activity label monoNow p = .ok ls) :
    ∀ line ∈ ls, line.Readable := by
  have hages := readable_ageLines families activity label monoNow p
  unfold pointLines at h
  dsimp only at h
  split at h
  next =>
    obtain rfl := Except.ok.inj h
    exact hages
  next =>
    split at h
    next =>
      obtain rfl := Except.ok.inj h
      exact hages
    next => cases h
    next =>
      obtain ⟨raw, hraw, h⟩ := Except.bind_eq_ok.1 h
      obtain rfl := Except.ok.inj h
      refine List.forall_mem_append.2 ⟨hages, List.forall_mem_singleton.2 ?_⟩
      exact representable_registersToFloat hraw

theorem renderValueFamilies_keeps {families : ValueFamilies} {source : MetricsSource}
    {bridge : BridgeMetrics} (hvalues : Floats bridge.store.values) {label : MetricLabels}
    {monoNow : Time} {out out' : MetricsOut}
    (h : renderValueFamilies families source bridge label monoNow out = .ok out') :
    Keeps out out' := by
  obtain ⟨lss, hlss, heq⟩ := Except.bind_eq_ok.1 h
  obtain rfl := Except.ok.inj heq
  intro hout
  refine List.forall_mem_append.2 ⟨?_, fun line hline => ?_⟩
  · refine readable_family (readable_family (List.forall_mem_append.2 ⟨?_, ?_⟩) _ _ _) _ _ _
    · exact readable_family hout _ _ _
    · intro line hline
      obtain ⟨e, he, rfl⟩ := List.mem_map.1 hline
      refine hvalues e.1 e.2 ?_
      exact Dict.get?_eq_some_iff.2 ((List.mem_insertionSort _).1 he)
  · obtain ⟨ls, hls, hline⟩ := List.mem_flatten.1 hline
    obtain ⟨p, -, hp⟩ := Except.exists_of_mem_mapM hlss hls
    exact readable_pointLines hp line hline

theorem renderBridgeDtsu_keeps {bridge : ExportedBridge} {label : MetricLabels} {monoNow : Time}
    {out out' : MetricsOut} (h : renderBridgeDtsu bridge label monoNow out = .ok out') :
    Keeps out out' := by
  obtain ⟨out₁, h₁, h⟩ := Except.bind_eq_ok.1 h
  refine fun hout => ?_
  have hout₁ := emitAll_keeps h₁ hout
  rcases hactivity : bridge.activity with _ | activity
  · rw [hactivity] at h
    obtain rfl := Except.ok.inj h
    exact hout₁
  · rw [hactivity] at h
    obtain ⟨summary, -, h⟩ := Except.bind_eq_ok.1 h
    obtain ⟨out₂, h₂, h⟩ := Except.bind_eq_ok.1 h
    have hout₂ := emitAll_keeps h₂ hout₁
    rcases hwire : bridge.wire with _ | wire
    · rw [hwire] at h
      obtain rfl := Except.ok.inj h
      exact hout₂
    · rw [hwire] at h
      exact emitAll_keeps h hout₂

theorem renderBridge_keeps {source : Exporter} {loopNow monoNow : Time} {bridge : ExportedBridge}
    (hvalues : Floats bridge.store.values) {out out' : MetricsOut}
    (h : renderBridge source loopNow monoNow out bridge = .ok out') : Keeps out out' := by
  obtain ⟨out₁, h₁, h⟩ := Except.bind_eq_ok.1 h
  obtain ⟨out₂, h₂, h⟩ := Except.bind_eq_ok.1 h
  refine fun hout => ?_
  have hout₂ := renderBridgeDtsu_keeps h₂ (emitAll_keeps h₁ hout)
  split_ifs at h
  · exact renderValueFamilies_keeps hvalues h hout₂
  · obtain rfl := Except.ok.inj h
    exact hout₂

theorem renderBridges_keeps {source : Exporter} {loopNow monoNow : Time} :
    ∀ {bridges : List ExportedBridge}, (∀ bridge ∈ bridges, Floats bridge.store.values) →
      ∀ {out out' : MetricsOut},
        bridges.foldlM (renderBridge source loopNow monoNow) out = .ok out' → Keeps out out'
  | [], _, out, out', h => by
    obtain rfl := Except.ok.inj h
    exact id
  | bridge :: bridges, hvalues, out, out', h => by
    obtain ⟨hbridge, hbridges⟩ := List.forall_mem_cons.1 hvalues
    rw [List.foldlM_cons] at h
    obtain ⟨out₁, h₁, h₂⟩ := Except.bind_eq_ok.1 h
    exact fun hout => renderBridges_keeps hbridges h₂ (renderBridge_keeps hbridge h₁ hout)

theorem renderPrimaryAliases_keeps {source : Exporter} {primary : ExportedBridge}
    (hvalues : Floats primary.store.values) {loopNow monoNow : Time} {out out' : MetricsOut}
    (h : renderPrimaryAliases source primary loopNow monoNow out = .ok out') :
    Keeps out out' := by
  obtain ⟨out₁, h₁, h⟩ := Except.bind_eq_ok.1 h
  refine fun hout => ?_
  have hout₁ := emitAll_keeps h₁ hout
  rcases hactivity : primary.activity with _ | activity
  · rw [hactivity] at h
    obtain rfl := Except.ok.inj h
    exact hout₁
  · rw [hactivity] at h
    obtain ⟨summary, -, h⟩ := Except.bind_eq_ok.1 h
    obtain ⟨out₂, h₂, h⟩ := Except.bind_eq_ok.1 h
    have hout₂ := emitAll_keeps h₂ hout₁
    unfold renderAliasValues at h
    split_ifs at h
    · exact renderValueFamilies_keeps hvalues h hout₂
    · obtain rfl := Except.ok.inj h
      exact hout₂

/-- Every value of an exposition is a float. -/
theorem renderOut_readable {source : Exporter}
    (hvalues : ∀ bridge ∈ source.bridges, Floats bridge.store.values) {loopNow monoNow : Time}
    {out : MetricsOut} (h : renderOut source loopNow monoNow = .ok out) :
    ∀ line ∈ out, line.Readable := by
  obtain ⟨out₁, h₁, h⟩ := Except.bind_eq_ok.1 h
  obtain ⟨out₂, h₂, h⟩ := Except.bind_eq_ok.1 h
  have hout₁ := emitAll_keeps h₁ (by simp)
  have hout₂ := renderBridges_keeps hvalues h₂ hout₁
  rcases hbridges : source.bridges with _ | ⟨primary, bridges⟩
  · rw [hbridges] at h
    obtain rfl := Except.ok.inj h
    exact hout₂
  · rw [hbridges] at h hvalues
    exact renderPrimaryAliases_keeps (hvalues primary List.mem_cons_self) h hout₂

/-! ## What is read -/

omit [FloatArith.RoundsTo .binary64] in
/-- The series of a line, and its value as it is read. -/
def readSample : Line → Option (String × MetricLabels × PyFloat)
  | .sample name labels value => some (name, labels, readFloat value)
  | _ => none

/-- The series of a line that was rendered, and its value. -/
def MetricLine.reading : MetricLine → Option (String × MetricLabels × PyFloat)
  | .family .. => none
  | .sample name value labels => some (name, labels, unsignedZero value.toFloat)

theorem filterMap_readSample : ∀ {out : MetricsOut}, (∀ line ∈ out, line.Readable) →
    (MetricsOut.lines out).filterMap readSample = out.filterMap MetricLine.reading
  | [], _ => rfl
  | .family .. :: out, h => by
    have ih := filterMap_readSample (List.forall_mem_cons.1 h).2
    show (MetricsOut.lines out).filterMap readSample = out.filterMap MetricLine.reading
    exact ih
  | .sample name value labels :: out, h => by
    obtain ⟨hvalue, hout⟩ := List.forall_mem_cons.1 h
    have ih := filterMap_readSample hout
    show (name, labels, readFloat (fmt value.toFloat)) ::
        (MetricsOut.lines out).filterMap readSample =
      (name, labels, unsignedZero value.toFloat) :: out.filterMap MetricLine.reading
    rw [readFloat_fmt hvalue, ih]

/-- The text of an exposition, read line by line, is the series that were rendered, each with its
labels and its value. -/
theorem exposition_reads_back {source : Exporter}
    (hvalues : ∀ bridge ∈ source.bridges, Floats bridge.store.values) {loopNow monoNow : Time}
    {text : String} (h : render source loopNow monoNow = .ok text) :
    ∃ out lines, renderOut source loopNow monoNow = .ok out ∧
      Exposition.readText text = some lines ∧
      lines.filterMap readSample = out.filterMap MetricLine.reading := by
  obtain ⟨out, hout, hread⟩ := readText_render h
  exact ⟨out, _, hout, hread, filterMap_readSample (renderOut_readable hvalues hout)⟩

end Float

theorem floats_freqSample : @Floats .double freqSample := by
  rintro name v hget neg m rfl
  have hmem := Dict.mem_entries_of_get? hget
  simp only [freqSample, List.mem_cons, List.not_mem_nil, or_false, Prod.mk.injEq] at hmem
  obtain ⟨-, rfl⟩ := PyFloat.fin.inj hmem.2
  decide +kernel

/-- Two reads in five seconds are a rate that no binary fraction is. -/
theorem exposition_reads_back_quotedExporter : ∃ text lines,
    @render .double quotedExporter 7 7 = .ok text ∧ Exposition.readText text = some lines ∧
      ("nd45_dtsu666_bridge_dtsu_request_rate_per_second", [("bridge", "roof \"a\"\\\n")],
        @PyFloat.ofSum .double ((2 : ℕ) / (5 : ℕ))) ∈ lines.filterMap (@readSample .double) := by
  have hok : (@renderOut .double quotedExporter 7 7).toOption.any (fun out =>
      ("nd45_dtsu666_bridge_dtsu_request_rate_per_second", [("bridge", "roof \"a\"\\\n")],
        @PyFloat.ofSum .double ((2 : ℕ) / (5 : ℕ))) ∈
          out.filterMap (@MetricLine.reading .double)) = true := by
    decide +kernel
  obtain ⟨out, hout, hmem⟩ := (Option.any_eq_true _ _).1 hok
  have hout := Except.toOption_eq_some.1 hout
  have htext : @render .double quotedExporter 7 7 = .ok (@MetricsOut.text .double out) :=
    Except.bind_eq_ok.2 ⟨out, hout, rfl⟩
  have hvalues : ∀ bridge ∈ quotedExporter.bridges, @Floats .double bridge.store.values :=
    List.forall_mem_singleton.2 floats_freqSample
  obtain ⟨out', lines, hout', hread, hseries⟩ :=
    @exposition_reads_back .double inferInstance quotedExporter hvalues 7 7 _ htext
  obtain rfl := Except.ok.inj (hout.symm.trans hout')
  refine ⟨_, lines, htext, hread, ?_⟩
  rw [hseries]
  exact of_decide_eq_true hmem

end DtsuBridge
