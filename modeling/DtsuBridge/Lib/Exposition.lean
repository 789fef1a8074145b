import DtsuBridge.Lib.Numeral

/-!
# The text exposition format

A text of lines : comments that declare a family with its help and its type, and samples, each
a name, labels and a value. `readText` reads a text line by line. Label values stand in quotes
with three characters escaped.

`unquote_escape` : a value that is escaped is read back, whatever its characters.
`readText_printText` : a text that is printed from well-formed lines is read as those lines.

A list of lines is `Unambiguous` when no two samples have one name and one set of labels and
each sample follows one help line and one type line of its family and precedes none.
`Declares` is kept line by line (`Declares.append_sample`, `Declares.append_family`).
-/

namespace Exposition

abbrev Labels := List (String × String)

inductive Line where
  | help (name text : String)
  | type (name kind : String)
  | comment (text : String)
  | sample (name : String) (labels : Labels) (value : String)
deriving DecidableEq

/-! ## Label values -/

/-- What a character is written as between quotes. -/
def escapeChar (c : Char) : List Char :=
  if c = '\\' then ['\\', '\\']
  else if c = '"' then ['\\', '"']
  else if c = '\n' then ['\\', 'n']
  else [c]

def escape (cs : List Char) : List Char :=
  cs.flatMap escapeChar

/-- The characters before the closing quote, and what follows it. -/
def unquote : List Char → Option (List Char × List Char)
  | '"' :: cs => some ([], cs)
  | '\\' :: '\\' :: cs => (unquote cs).map fun p => ('\\' :: p.1, p.2)
  | '\\' :: '"' :: cs => (unquote cs).map fun p => ('"' :: p.1, p.2)
  | '\\' :: 'n' :: cs => (unquote cs).map fun p => ('\n' :: p.1, p.2)
  | '\\' :: _ => none
  | '\n' :: _ => none
  | c :: cs => (unquote cs).map fun p => (c :: p.1, p.2)
  | [] => none

theorem unquote_escapeChar (c : Char) (cs : List Char) :
    unquote (escapeChar c ++ cs) = (unquote cs).map fun p => (c :: p.1, p.2) := by
  unfold escapeChar
  split_ifs with h1 h2 h3
  · rw [h1]
    rfl
  · rw [h2]
    rfl
  · rw [h3]
    rfl
  · rw [List.cons_append, List.nil_append]
    rw [unquote.eq_def]
    split <;> simp_all

/-- Unquoting undoes the escaping. -/
theorem unquote_escape : ∀ (cs rest : List Char),
    unquote (escape cs ++ '"' :: rest) = some (cs, rest)
  | [], rest => rfl
  | c :: cs, rest => by
    have hcons : escape (c :: cs) = escapeChar c ++ escape cs := List.flatMap_cons
    rw [hcons, List.append_assoc, unquote_escapeChar, unquote_escape cs rest]
    rfl

/-- No line ends in an escaped value. -/
theorem newline_notMem_escape (cs : List Char) : '\n' ∉ escape cs := by
  intro hmem
  obtain ⟨c, -, hc⟩ := List.mem_flatMap.1 hmem
  unfold escapeChar at hc
  split_ifs at hc with h1 h2 h3
  · simp at hc
  · simp at hc
  · simp at hc
  · exact h3 (List.mem_singleton.1 hc).symm

/-! ## Names and values -/

def isBlank (c : Char) : Bool := c = ' ' || c = '\t'

def skipBlanks (cs : List Char) : List Char := cs.dropWhile isBlank

/-- The characters of label names. -/
def isLabelChar (c : Char) : Bool := c.isAlphanum || c = '_'

/-- The characters of metric names. -/
def isMetricChar (c : Char) : Bool := isLabelChar c || c = ':'

/-- A name of such characters that does not begin with a digit. -/
def isName (p : Char → Bool) (cs : List Char) : Bool :=
  cs.all p && cs.head?.any fun c => !c.isDigit

/-- The name at the front, and what follows it. -/
def readName (p : Char → Bool) (cs : List Char) : Option (List Char × List Char) :=
  if isName p (cs.takeWhile p) then some (cs.takeWhile p, cs.dropWhile p) else none

/-- What follows a character, which may stand after blanks. -/
def expect (c : Char) (cs : List Char) : Option (List Char) :=
  match skipBlanks cs with
  | d :: ds => if d = c then some ds else none
  | [] => none

def isValue (cs : List Char) : Bool :=
  cs = ['N', 'a', 'N'] || cs = ['+', 'I', 'n', 'f'] || cs = ['-', 'I', 'n', 'f'] || isNumeral cs

theorem skipBlanks_of_head {cs : List Char} (h : ∀ c ∈ cs.head?, isBlank c = false) :
    skipBlanks cs = cs :=
  @dropWhile_of_head isBlank [] cs (by simp) h

theorem isBlank_of_isMetricChar {c : Char} (h : isMetricChar c = true) : isBlank c = false := by
  by_contra hblank
  simp only [isBlank, Bool.or_eq_false_iff, decide_eq_false_iff_not, not_and_or, not_not]
    at hblank
  rcases hblank with rfl | rfl
  · exact absurd h (by decide)
  · exact absurd h (by decide)

theorem isMetricChar_of_isLabelChar {c : Char} (h : isLabelChar c = true) :
    isMetricChar c = true := by
  simp [isMetricChar, h]

theorem exists_cons_of_isName {p : Char → Bool} {cs : List Char} (h : isName p cs = true) :
    ∃ c cs', cs = c :: cs' ∧ p c = true := by
  cases cs with
  | nil => simp [isName] at h
  | cons c cs =>
    simp only [isName, List.all_cons, Bool.and_eq_true] at h
    exact ⟨c, cs, rfl, h.1.1⟩

theorem readName_append {p : Char → Bool} {name rest : List Char} (hname : isName p name = true)
    (hrest : ∀ c ∈ rest.head?, p c = false) : readName p (name ++ rest) = some (name, rest) := by
  have hall : ∀ c ∈ name, p c = true :=
    List.all_eq_true.1 (Bool.and_eq_true_iff.1 hname).1
  rw [readName, takeWhile_of_head hall hrest, dropWhile_of_head hall hrest, if_pos hname]

theorem expect_cons {c d : Char} (hd : isBlank d = false) (cs : List Char) :
    expect c (d :: cs) = if d = c then some cs else none := by
  rw [expect, skipBlanks_of_head (by simpa using hd)]

/-- A value has no blank, no line end and no brace. -/
theorem isValue_char {cs : List Char} (h : isValue cs = true) :
    ∀ c ∈ cs, isBlank c = false ∧ c ≠ '\n' ∧ c ≠ '{' := by
  simp only [isValue, Bool.or_eq_true, decide_eq_true_eq] at h
  rcases h with ((rfl | rfl) | rfl) | h
  · simp [isBlank]
  · simp [isBlank]
  · simp [isBlank]
  · intro c hc
    have hchar := isNumeralChar_of_isNumeral h c hc
    refine ⟨?_, ?_, ?_⟩
    · by_contra hblank
      simp only [isBlank, Bool.or_eq_false_iff, decide_eq_false_iff_not, not_and_or, not_not]
        at hblank
      rcases hblank with rfl | rfl
      · exact absurd hchar (by decide)
      · exact absurd hchar (by decide)
    · rintro rfl
      exact absurd hchar (by decide)
    · rintro rfl
      exact absurd hchar (by decide)

/-! ## Labels -/

/-- `name="value"` -/
def readLabel (cs : List Char) : Option ((String × String) × List Char) := do
  let (name, cs) ← readName isLabelChar (skipBlanks cs)
  let cs ← expect '=' cs
  let cs ← expect '"' cs
  let (value, cs) ← unquote cs
  return ((String.ofList name, String.ofList value), cs)

/-- The labels before a closing brace, `n` at most, and what follows it. -/
def readLabels : ℕ → List Char → Option (Labels × List Char)
  | 0, cs => (expect '}' cs).map fun rest => ([], rest)
  | n + 1, cs =>
    match expect '}' cs with
    | some rest => some ([], rest)
    | none => do
      let (label, cs) ← readLabel cs
      match expect ',' cs with
      | some cs => do
        let (labels, rest) ← readLabels n cs
        return (label :: labels, rest)
      | none => (expect '}' cs).map fun rest => ([label], rest)

/-- The labels in braces, if there are braces. -/
def readBraces (cs : List Char) : Option (Labels × List Char) :=
  match expect '{' cs with
  | some cs => readLabels cs.length cs
  | none => some ([], cs)

def printLabel (label : String × String) : List Char :=
  label.1.toList ++ '=' :: '"' :: (escape label.2.toList ++ ['"'])

/-- The labels in braces, nothing where there are none. -/
def printLabels (labels : Labels) : List Char :=
  if labels = [] then []
  else '{' :: ([','].intercalate (labels.map printLabel) ++ ['}'])

theorem readLabel_printLabel {label : String × String}
    (hname : isName isLabelChar label.1.toList = true) (rest : List Char) :
    readLabel (printLabel label ++ rest) = some (label, rest) := by
  obtain ⟨c, cs, hcs, hc⟩ := exists_cons_of_isName hname
  have hblank := isBlank_of_isMetricChar (isMetricChar_of_isLabelChar hc)
  have htext : printLabel label ++ rest =
      label.1.toList ++ '=' :: '"' :: (escape label.2.toList ++ '"' :: rest) := by
    simp [printLabel]
  have hskip : skipBlanks (printLabel label ++ rest) = printLabel label ++ rest := by
    refine skipBlanks_of_head ?_
    rw [htext, hcs]
    simpa using hblank
  have heq : ∀ cs, expect '=' ('=' :: cs) = some cs := fun cs => by
    rw [expect_cons rfl, if_pos rfl]
  have hquote : ∀ cs, expect '"' ('"' :: cs) = some cs := fun cs => by
    rw [expect_cons rfl, if_pos rfl]
  unfold readLabel
  rw [hskip, htext, readName_append hname (by simp [isLabelChar, Char.isAlphanum, Char.isAlpha,
    Char.isUpper, Char.isLower, Char.isDigit])]
  simp only [Option.bind_eq_bind, Option.bind_some, heq, hquote, unquote_escape]
  simp

/-- A label does not begin with the closing brace. -/
theorem expect_brace_printLabel {label : String × String}
    (hname : isName isLabelChar label.1.toList = true) (rest : List Char) :
    expect '}' (printLabel label ++ rest) = none := by
  obtain ⟨c, cs, hcs, hc⟩ := exists_cons_of_isName hname
  have hblank := isBlank_of_isMetricChar (isMetricChar_of_isLabelChar hc)
  have hne : c ≠ '}' := by
    rintro rfl
    exact absurd hc (by decide)
  rw [printLabel, hcs, List.cons_append, List.cons_append, expect_cons hblank, if_neg hne]

theorem readLabels_print : ∀ {labels : Labels} {n : ℕ} (rest : List Char),
    (∀ label ∈ labels, isName isLabelChar label.1.toList = true) → labels.length ≤ n →
      readLabels n ([','].intercalate (labels.map printLabel) ++ '}' :: rest) =
        some (labels, rest)
  | [], 0, rest, _, _ => rfl
  | [], n + 1, rest, _, _ => rfl
  | [label], n + 1, rest, h, _ => by
    have hname := h label List.mem_cons_self
    have hcomma : expect ',' ('}' :: rest) = none := rfl
    have hbrace : expect '}' ('}' :: rest) = some rest := rfl
    rw [List.map_singleton, List.intercalate_singleton, readLabels,
      expect_brace_printLabel hname]
    simp only [readLabel_printLabel hname, Option.bind_eq_bind, Option.bind_some, hcomma, hbrace]
    rfl
  | label :: label' :: labels, n + 1, rest, h, hn => by
    obtain ⟨hname, hnames⟩ := List.forall_mem_cons.1 h
    have hcomma : ∀ cs, expect ',' (',' :: cs) = some cs := fun cs => rfl
    have ih := @readLabels_print (label' :: labels) n rest hnames (by simpa using hn)
    rw [List.map_cons, List.map_cons, List.intercalate_cons_cons, List.append_assoc,
      List.append_assoc, readLabels, expect_brace_printLabel hname]
    simp only [readLabel_printLabel hname, Option.bind_eq_bind, Option.bind_some,
      List.cons_append, List.nil_append, hcomma]
    rw [List.map_cons] at ih
    rw [ih]
    rfl

theorem length_le_printLabels (labels : Labels) (rest : List Char) :
    labels.length ≤ ([','].intercalate (labels.map printLabel) ++ rest).length := by
  have hle : ∀ labels : Labels,
      labels.length ≤ ([','].intercalate (labels.map printLabel)).length := by
    intro labels
    induction labels with
    | nil => exact le_rfl
    | cons label labels ih =>
      rcases labels with _ | ⟨label', labels⟩
      · simp only [List.map_singleton, List.intercalate_singleton, printLabel, List.length_append,
          List.length_cons]
        omega
      · rw [List.map_cons, List.map_cons, List.intercalate_cons_cons]
        rw [List.map_cons] at ih
        simp only [List.length_append, List.length_cons] at ih ⊢
        omega
  rw [List.length_append]
  exact (hle labels).trans (Nat.le_add_right _ _)

/-- The labels are read back, and what follows them. -/
theorem readBraces_printLabels {labels : Labels}
    (h : ∀ label ∈ labels, isName isLabelChar label.1.toList = true) {value : List Char}
    (hvalue : ∀ c ∈ value.head?, isBlank c = false ∧ c ≠ '{') :
    ∃ rest, readBraces (printLabels labels ++ ' ' :: value) = some (labels, rest) ∧
      skipBlanks rest = value := by
  have hskip : skipBlanks (' ' :: value) = value :=
    skipBlanks_of_head fun c hc => (hvalue c hc).1
  unfold printLabels
  split_ifs with hnil
  · have hnone : expect '{' (' ' :: value) = none := by
      unfold expect
      rw [hskip]
      cases value with
      | nil => rfl
      | cons c cs => simp [(hvalue c rfl).2]
    exact ⟨' ' :: value, by rw [List.nil_append, readBraces, hnone, hnil], hskip⟩
  · refine ⟨' ' :: value, ?_, hskip⟩
    have htext : '{' :: ([','].intercalate (labels.map printLabel) ++ ['}']) ++ ' ' :: value =
        '{' :: ([','].intercalate (labels.map printLabel) ++ '}' :: ' ' :: value) := by
      simp
    have hbrace : ∀ cs, expect '{' ('{' :: cs) = some cs := fun cs => rfl
    rw [htext, readBraces, hbrace]
    exact readLabels_print _ h (length_le_printLabels _ _)

/-! ## Lines -/

/-- The kinds of families. -/
def kinds : List String := ["counter", "gauge", "histogram", "summary", "untyped"]

/-- A sample : a name, labels, a value and perhaps a timestamp. -/
def readSample (cs : List Char) : Option Line := do
  let (name, cs) ← readName isMetricChar cs
  let (labels, cs) ← readBraces cs
  let cs := skipBlanks cs
  let value := cs.takeWhile (!isBlank ·)
  let stamp := (skipBlanks (cs.dropWhile (!isBlank ·))).takeWhile (!isBlank ·)
  if isValue value && (stamp = [] || isDigits (unsigned stamp)) then
    some (.sample (String.ofList name) labels (String.ofList value))
  else none

/-- What follows the number sign. -/
def readComment (cs : List Char) : Option Line :=
  let word := (skipBlanks cs).takeWhile (!isBlank ·)
  let rest := skipBlanks ((skipBlanks cs).dropWhile (!isBlank ·))
  if word = ['H', 'E', 'L', 'P'] then
    (readName isMetricChar rest).map fun p =>
      .help (String.ofList p.1) (String.ofList (skipBlanks p.2))
  else if word = ['T', 'Y', 'P', 'E'] then do
    let (name, rest) ← readName isMetricChar rest
    let kind := String.ofList (skipBlanks rest)
    if kind ∈ kinds then some (.type (String.ofList name) kind) else none
  else some (.comment (String.ofList cs))

def readLine (cs : List Char) : Option Line :=
  match skipBlanks cs with
  | '#' :: cs => readComment cs
  | cs => readSample cs

/-- Every line of a text that ends in a line end. Blank lines are ignored. -/
def readText (text : String) : Option (List Line) :=
  let lines := text.toList.splitOn '\n'
  if lines.getLast? = some [] then (lines.filter fun cs => !cs.all isBlank).mapM readLine
  else none

namespace Line

def print : Line → List Char
  | help name text => ['#', ' ', 'H', 'E', 'L', 'P', ' '] ++ (name.toList ++ ' ' :: text.toList)
  | type name kind => ['#', ' ', 'T', 'Y', 'P', 'E', ' '] ++ (name.toList ++ ' ' :: kind.toList)
  | comment text => '#' :: text.toList
  | sample name labels value => name.toList ++ (printLabels labels ++ ' ' :: value.toList)

/-- The parts are what is read of them. Other comments are not printed. -/
def WellFormed : Line → Prop
  | help name text => isName isMetricChar name.toList = true ∧ '\n' ∉ text.toList ∧
      ∀ c ∈ text.toList.head?, isBlank c = false
  | type name kind => isName isMetricChar name.toList = true ∧ kind ∈ kinds
  | comment _ => False
  | sample name labels value => isName isMetricChar name.toList = true ∧
      (∀ label ∈ labels, isName isLabelChar label.1.toList = true) ∧
      isValue value.toList = true

end Line

/-- Each line with a line end. -/
def printText (lines : List Line) : List Char :=
  ['\n'].intercalate (lines.map Line.print) ++ ['\n']

theorem head_printLabels (labels : Labels) (rest : List Char) :
    ∀ c ∈ (printLabels labels ++ ' ' :: rest).head?, isMetricChar c = false := by
  unfold printLabels
  split_ifs
  · simp [isMetricChar, isLabelChar]
  · simp [isMetricChar, isLabelChar, Char.isAlphanum, Char.isAlpha, Char.isUpper, Char.isLower,
      Char.isDigit]

theorem head_of_isMetricName {name : List Char} (h : isName isMetricChar name = true)
    (rest : List Char) : ∀ c ∈ (name ++ rest).head?, isBlank c = false ∧ c ≠ '#' := by
  obtain ⟨c, cs, rfl, hc⟩ := exists_cons_of_isName h
  intro d hd
  obtain rfl := Option.some.inj hd
  refine ⟨isBlank_of_isMetricChar hc, ?_⟩
  rintro rfl
  exact absurd hc (by decide)

theorem readSample_print {name : String} {labels : Labels} {value : String}
    (h : (Line.sample name labels value).WellFormed) :
    readSample (Line.sample name labels value).print = some (.sample name labels value) := by
  obtain ⟨hname, hlabels, hvalue⟩ := h
  have hchar := isValue_char hvalue
  have hhead : ∀ c ∈ value.toList.head?, isBlank c = false ∧ c ≠ '{' := by
    intro c hc
    have hmem := List.mem_of_mem_head? hc
    exact ⟨(hchar c hmem).1, (hchar c hmem).2.2⟩
  obtain ⟨rest, hrest, hskip⟩ := readBraces_printLabels hlabels hhead
  have hall : ∀ c ∈ value.toList, (!isBlank c) = true := fun c hc => by simp [(hchar c hc).1]
  have htake : value.toList.takeWhile (!isBlank ·) = value.toList :=
    List.takeWhile_eq_self_iff.2 hall
  have hdrop : value.toList.dropWhile (!isBlank ·) = [] := List.dropWhile_eq_nil_iff.2 hall
  have hstamp : (skipBlanks []).takeWhile (!isBlank ·) = [] := rfl
  unfold readSample Line.print
  dsimp only
  rw [readName_append hname (head_printLabels _ _)]
  simp only [Option.bind_eq_bind, Option.bind_some, hrest]
  rw [hskip, htake, hdrop, hstamp, hvalue]
  simp

/-- The name and the rest of a declaration. -/
theorem readName_declaration {name : List Char} (hname : isName isMetricChar name = true)
    (rest : List Char) : readName isMetricChar (skipBlanks (' ' :: (name ++ ' ' :: rest))) =
      some (name, ' ' :: rest) := by
  have hblank : skipBlanks (' ' :: (name ++ ' ' :: rest)) = skipBlanks (name ++ ' ' :: rest) :=
    rfl
  have hskip : skipBlanks (name ++ ' ' :: rest) = name ++ ' ' :: rest :=
    skipBlanks_of_head fun c hc => (head_of_isMetricName hname _ c hc).1
  rw [hblank, hskip]
  refine readName_append hname fun c hc => ?_
  obtain rfl := Option.some.inj hc
  rfl

theorem readComment_help {name text : List Char} (hname : isName isMetricChar name = true)
    (htext : ∀ c ∈ text.head?, isBlank c = false) :
    readComment ([' ', 'H', 'E', 'L', 'P', ' '] ++ (name ++ ' ' :: text)) =
      some (.help (String.ofList name) (String.ofList text)) := by
  have hrest : skipBlanks (' ' :: text) = text := skipBlanks_of_head htext
  show (readName isMetricChar (skipBlanks (' ' :: (name ++ ' ' :: text)))).map _ = _
  rw [readName_declaration hname, Option.map_some, hrest]

theorem readComment_type {name kind : List Char} (hname : isName isMetricChar name = true)
    (hkind : String.ofList kind ∈ kinds) :
    readComment ([' ', 'T', 'Y', 'P', 'E', ' '] ++ (name ++ ' ' :: kind)) =
      some (.type (String.ofList name) (String.ofList kind)) := by
  have hhead : ∀ c ∈ kind.head?, isBlank c = false := by
    have hkinds : ∀ k ∈ kinds, k.toList.head?.all (!isBlank ·) = true := by decide
    have h := hkinds _ hkind
    rw [String.toList_ofList] at h
    intro c hc
    rw [Option.mem_def.1 hc] at h
    simpa using h
  have hrest : skipBlanks (' ' :: kind) = kind := skipBlanks_of_head hhead
  show (readName isMetricChar (skipBlanks (' ' :: (name ++ ' ' :: kind)))).bind _ = _
  rw [readName_declaration hname, Option.bind_some]
  simp only [hrest, hkind, if_true]

/-- A well-formed line is read back. -/
theorem readLine_print : ∀ {line : Line}, line.WellFormed → readLine line.print = some line
  | .help name text, ⟨hname, _, htext⟩ => by
    have h := readComment_help hname htext
    rwa [String.ofList_toList, String.ofList_toList] at h
  | .type name kind, ⟨hname, hkind⟩ => by
    have h := @readComment_type name.toList kind.toList hname (by rwa [String.ofList_toList])
    rwa [String.ofList_toList, String.ofList_toList] at h
  | .sample name labels value, h => by
    have hhead := head_of_isMetricName h.1 (printLabels labels ++ ' ' :: value.toList)
    have hskip : skipBlanks (Line.sample name labels value).print =
        (Line.sample name labels value).print := skipBlanks_of_head fun c hc => (hhead c hc).1
    rw [readLine, hskip]
    split
    next cs heq =>
      have hhash : ((Line.sample name labels value).print).head? = some '#' := by
        rw [heq]
        rfl
      exact absurd rfl (hhead '#' hhash).2
    next => exact readSample_print h

theorem newline_notMem_name {p : Char → Bool} {name : List Char} (hname : isName p name = true)
    (hp : p '\n' = false) : '\n' ∉ name := by
  intro hmem
  have hall := List.all_eq_true.1 (Bool.and_eq_true_iff.1 hname).1 _ hmem
  rw [hp] at hall
  cases hall

theorem newline_notMem_printLabel {label : String × String}
    (h : isName isLabelChar label.1.toList = true) : '\n' ∉ printLabel label := by
  simp [printLabel, newline_notMem_name h rfl, newline_notMem_escape]

/-- A character of no part and not of the separator. -/
theorem notMem_intercalate {c : Char} {sep : List Char} (hsep : c ∉ sep) :
    ∀ {css : List (List Char)}, (∀ cs ∈ css, c ∉ cs) → c ∉ sep.intercalate css
  | [], _ => by simp
  | [cs], h => by simpa using h
  | cs :: cs' :: css, h => by
    obtain ⟨hcs, hcss⟩ := List.forall_mem_cons.1 h
    have hrest := notMem_intercalate hsep hcss
    rw [List.intercalate_cons_cons]
    simp [hcs, hsep, hrest]

theorem newline_notMem_printLabels {labels : Labels}
    (h : ∀ label ∈ labels, isName isLabelChar label.1.toList = true) :
    '\n' ∉ printLabels labels := by
  have hlabels : '\n' ∉ [','].intercalate (labels.map printLabel) := by
    refine notMem_intercalate (by decide) ?_
    rw [List.forall_mem_map]
    exact fun label hlabel => newline_notMem_printLabel (h label hlabel)
  unfold printLabels
  split_ifs
  · simp
  · simp [hlabels]

/-- A well-formed line is printed on one line that is not blank. -/
theorem newline_notMem_print : ∀ {line : Line}, line.WellFormed →
    '\n' ∉ line.print ∧ line.print.all isBlank = false
  | .help name text, ⟨hname, htext, _⟩ => by
    refine ⟨?_, rfl⟩
    simp [Line.print, newline_notMem_name hname rfl, htext]
  | .type name kind, ⟨hname, hkind⟩ => by
    have hkinds : ∀ k ∈ kinds, '\n' ∉ k.toList := by decide
    refine ⟨?_, rfl⟩
    simp [Line.print, newline_notMem_name hname rfl, hkinds kind hkind]
  | .sample name labels value, ⟨hname, hlabels, hvalue⟩ => by
    have hlast : '\n' ∉ value.toList := fun hmem => (isValue_char hvalue _ hmem).2.1 rfl
    refine ⟨?_, ?_⟩
    · simp [Line.print, newline_notMem_name hname rfl, newline_notMem_printLabels hlabels, hlast]
    · obtain ⟨c, cs, hcs, hc⟩ := exists_cons_of_isName hname
      simp [Line.print, hcs, isBlank_of_isMetricChar hc]

theorem mapM_readLine : ∀ {lines : List Line}, (∀ line ∈ lines, line.WellFormed) →
    (lines.map Line.print).mapM readLine = some lines
  | [], _ => rfl
  | line :: lines, h => by
    obtain ⟨hline, hlines⟩ := List.forall_mem_cons.1 h
    rw [List.map_cons, List.mapM_cons, readLine_print hline, mapM_readLine hlines]
    rfl

/-- A separator at the end is one before an empty part. -/
theorem intercalate_concat_nil {sep : List Char} :
    ∀ {css : List (List Char)}, css ≠ [] →
      sep.intercalate (css ++ [[]]) = sep.intercalate css ++ sep
  | [], h => absurd rfl h
  | [cs], _ => by simp
  | cs :: cs' :: css, _ => by
    have hrest := @intercalate_concat_nil sep (cs' :: css) (List.cons_ne_nil _ _)
    rw [List.cons_append] at hrest
    rw [List.intercalate_cons_cons, List.cons_append, List.cons_append, List.intercalate_cons_cons,
      hrest, ← List.append_assoc]

/-- The lines of a text, and what is after the last line end. -/
theorem splitOn_printText {lines : List Line} (h : ∀ line ∈ lines, line.WellFormed)
    (hne : lines ≠ []) : (printText lines).splitOn '\n' = lines.map Line.print ++ [[]] := by
  rw [printText, ← intercalate_concat_nil (by simpa using hne)]
  refine List.splitOn_intercalate _ ?_ (by simp)
  intro cs hcs
  rcases List.mem_append.1 hcs with hcs | hcs
  · obtain ⟨line, hline, rfl⟩ := List.mem_map.1 hcs
    exact (newline_notMem_print (h line hline)).1
  · simp [List.mem_singleton.1 hcs]

/-- The text of well-formed lines is read as those lines. -/
theorem readText_printText {lines : List Line} (h : ∀ line ∈ lines, line.WellFormed)
    {text : String} (htext : text.toList = printText lines) : readText text = some lines := by
  by_cases hne : lines = []
  · subst hne
    have hsplit : text.toList.splitOn '\n' = [[], []] := by
      rw [htext]
      rfl
    unfold readText
    rw [hsplit]
    rfl
  have hsplit : text.toList.splitOn '\n' = lines.map Line.print ++ [[]] := by
    rw [htext]
    exact splitOn_printText h hne
  have hfilter : (lines.map Line.print ++ [[]]).filter (fun cs => !cs.all isBlank) =
      lines.map Line.print := by
    rw [List.filter_append, List.filter_eq_self.2, List.filter_cons_of_neg (by simp)]
    · simp
    · intro cs hcs
      obtain ⟨line, hline, rfl⟩ := List.mem_map.1 hcs
      simp [(newline_notMem_print (h line hline)).2]
  unfold readText
  dsimp only
  rw [hsplit, List.getLast?_concat, if_pos rfl, hfilter]
  exact mapM_readLine h

/-! ## Declarations -/

def isHelp (name : String) : Line → Bool
  | .help n _ => n = name
  | _ => false

def isType (name : String) : Line → Bool
  | .type n _ => n = name
  | _ => false

/-- The name and the labels of a sample. -/
def series : Line → Option (String × Labels)
  | .sample name labels _ => some (name, labels)
  | _ => none

/-- Declare a family, if it is not declared. -/
def declare (name kind text : String) (lines : List Line) : List Line :=
  if lines.any (isHelp name) then lines else lines ++ [.help name text, .type name kind]

/-- No family is declared twice, and each sample is of a family declared before. -/
structure Declares (lines : List Line) : Prop where
  help_le : ∀ name, lines.countP (isHelp name) ≤ 1
  type_eq : ∀ name, lines.countP (isType name) = lines.countP (isHelp name)
  before : ∀ before name labels value after,
    lines = before ++ .sample name labels value :: after →
      before.countP (isHelp name) = 1 ∧ before.countP (isType name) = 1

/-- No two samples have one name and the same labels as a set. Each has one help line and one
type line of its family before it, and none after. -/
structure Unambiguous (lines : List Line) : Prop where
  distinct : lines.Pairwise fun a b => ∀ name labels value labels' value',
    a = .sample name labels value → b = .sample name labels' value' →
      ¬∀ label, label ∈ labels ↔ label ∈ labels'
  declared : ∀ before name labels value after,
    lines = before ++ .sample name labels value :: after →
      (before.countP (isHelp name) = 1 ∧ before.countP (isType name) = 1) ∧
        after.countP (isHelp name) = 0 ∧ after.countP (isType name) = 0

/-- One label has two values. -/
def Differ (labels labels' : Labels) : Prop :=
  ∃ name v v', (name, v) ∈ labels ∧ (name, v') ∈ labels' ∧ v ≠ v'

/-- Series of two names, or with labels that differ. -/
def Apart (a b : String × Labels) : Prop :=
  a.1 = b.1 → Differ a.2 b.2

theorem Declares.nil : Declares [] where
  help_le _ := Nat.zero_le _
  type_eq _ := rfl
  before _ _ _ _ _ h := by simp at h

/-- What is before a sample of some lines, or of those that follow them. -/
theorem before_append {lines more before after : List Line} {line : Line}
    (h : lines ++ more = before ++ line :: after) :
    (∃ rest, lines = before ++ line :: rest) ∨
      ∃ rest, before = lines ++ rest ∧ more = rest ++ line :: after := by
  rcases List.append_eq_append_iff.1 h with ⟨rest, hbefore, hmore⟩ | ⟨rest, hlines, hrest⟩
  · exact .inr ⟨rest, hbefore, hmore⟩
  · rcases rest with _ | ⟨line', rest⟩
    · exact .inr ⟨[], by simpa using hlines.symm, by simpa using hrest.symm⟩
    · obtain ⟨rfl, -⟩ := List.cons.inj hrest
      exact .inl ⟨rest, hlines⟩

theorem Declares.declare {lines : List Line} (h : Declares lines) (name kind text : String) :
    Declares (declare name kind text lines) := by
  unfold Exposition.declare
  split_ifs with hany
  · exact h
  · have hnone : lines.countP (isHelp name) = 0 := by
      rw [List.countP_eq_zero]
      intro line hline hhelp
      exact hany (List.any_eq_true.2 ⟨line, hline, hhelp⟩)
    refine ⟨fun n => ?_, fun n => ?_, fun before n labels value after heq => ?_⟩
    · by_cases hn : name = n
      · rw [List.countP_append, ← hn, hnone]
        simp [isHelp]
      · have hle := h.help_le n
        simpa [isHelp, hn] using hle
    · rw [List.countP_append, List.countP_append, h.type_eq n]
      by_cases hn : name = n
      · simp [isHelp, isType, hn]
      · simp [isHelp, isType, hn]
    · rcases before_append heq with ⟨rest, hlines⟩ | ⟨rest, -, hmore⟩
      · exact h.before _ _ _ _ _ hlines
      · have hmem : Line.sample n labels value ∈ [Line.help name text, Line.type name kind] := by
          rw [hmore]
          simp
        simp at hmem

/-- Samples of families that are declared are added. -/
theorem Declares.append_samples {lines samples : List Line} (h : Declares lines)
    (hsamples : ∀ line ∈ samples, ∃ name labels value, line = .sample name labels value ∧
      lines.any (isHelp name) = true) : Declares (lines ++ samples) := by
  have hnone : ∀ more : List Line, (∀ line ∈ more, line ∈ samples) → ∀ name,
      more.countP (isHelp name) = 0 ∧ more.countP (isType name) = 0 := by
    intro more hmore name
    simp only [List.countP_eq_zero]
    refine ⟨fun line hline => ?_, fun line hline => ?_⟩
    all_goals
      obtain ⟨n, labels, value, rfl, -⟩ := hsamples line (hmore line hline)
      simp [isHelp, isType]
  have hcount := hnone samples fun _ hline => hline
  refine ⟨fun name => ?_, fun name => ?_, fun before name labels value after heq => ?_⟩
  · rw [List.countP_append, (hcount name).1]
    exact h.help_le name
  · rw [List.countP_append, List.countP_append, (hcount name).1, (hcount name).2, h.type_eq name]
  · rcases before_append heq with ⟨rest, hlines⟩ | ⟨rest, rfl, rfl⟩
    · exact h.before _ _ _ _ _ hlines
    · obtain ⟨n, labels', value', heq', hany⟩ :=
        hsamples (.sample name labels value) (by simp)
      obtain ⟨rfl, -, -⟩ := Line.sample.inj heq'
      have hpos : 0 < lines.countP (isHelp name) := by
        rw [List.countP_pos_iff]
        exact List.any_eq_true.1 hany
      have hle := h.help_le name
      have htype := h.type_eq name
      obtain ⟨hhelp, htype'⟩ := hnone rest (fun line hline => by simp [hline]) name
      rw [List.countP_append, List.countP_append, hhelp, htype']
      omega

/-- Lines whose series are apart, with no label twice, are unambiguous. -/
theorem Declares.unambiguous {lines : List Line} (h : Declares lines)
    (hnodup : ∀ s ∈ lines.filterMap series, (s.2.map Prod.fst).Nodup)
    (hapart : (lines.filterMap series).Pairwise Apart) : Unambiguous lines where
  distinct := by
    rw [List.pairwise_filterMap] at hapart
    refine hapart.imp_of_mem fun {a b} _ hb hab => ?_
    rintro name labels value labels' value' rfl rfl hsame
    obtain ⟨label, v, v', hv, hv', hne⟩ := hab (name, labels) rfl (name, labels') rfl rfl
    have hkeys : (labels'.map Prod.fst).Nodup :=
      hnodup (name, labels') (List.mem_filterMap.2 ⟨_, hb, rfl⟩)
    have heq := List.inj_on_of_nodup_map hkeys ((hsame _).1 hv) hv' rfl
    exact hne (Prod.ext_iff.1 heq).2
  declared before name labels value after heq := by
    have hbefore := h.before before name labels value after heq
    have hle := h.help_le name
    have htype := h.type_eq name
    rw [heq, List.countP_append, List.countP_cons] at hle
    rw [heq, List.countP_append, List.countP_append, List.countP_cons, List.countP_cons] at htype
    simp only [isHelp, isType] at hle htype
    refine ⟨hbefore, ?_, ?_⟩
    · omega
    · omega

end Exposition
