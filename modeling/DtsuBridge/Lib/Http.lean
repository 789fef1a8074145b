import DtsuBridge.Lib.Numeral

/-!
# Messages of HTTP

A response is a status line, header lines and a body. The lines are latin-1 and end in CRLF, an
empty line ends them, and the body is as long as the length among the headers says.
`readResponse` reads one response off a stream of bytes.

`readResponse_print` : a response whose headers have the length of its body is read back off any
stream that begins with it, which is left where the body ends.
`words_eq_cons_iff` : the first word of a line is what stands before the first separator that
follows it.
-/

namespace Http

/-! ## Latin-1 -/

/-- Every byte is a character. -/
def ofLatin1 (bytes : List UInt8) : List Char :=
  bytes.map fun b => Char.ofNat b.toNat

def toLatin1 (cs : List Char) : List UInt8 :=
  cs.map fun c => UInt8.ofNat c.toNat

/-- The characters of latin-1. -/
def IsLatin1 (cs : List Char) : Prop :=
  ∀ c ∈ cs, c.toNat < 256

theorem toNat_ofNat {n : ℕ} (h : n < 256) : (Char.ofNat n).toNat = n := by
  rw [Char.toNat_ofNat, if_pos (.inl (by omega))]

@[simp] theorem toLatin1_ofLatin1 (bytes : List UInt8) : toLatin1 (ofLatin1 bytes) = bytes := by
  unfold toLatin1 ofLatin1
  rw [List.map_map]
  refine (List.map_congr_left fun b _ => ?_).trans (List.map_id bytes)
  rw [Function.comp_apply, toNat_ofNat b.toNat_lt]
  exact UInt8.ofNat_toNat

theorem ofLatin1_toLatin1 {cs : List Char} (h : IsLatin1 cs) : ofLatin1 (toLatin1 cs) = cs := by
  unfold toLatin1 ofLatin1
  rw [List.map_map]
  refine (List.map_congr_left fun c hc => ?_).trans (List.map_id cs)
  have hlt := h c hc
  simp [Nat.mod_eq_of_lt hlt]

theorem ofLatin1_append (bytes more : List UInt8) :
    ofLatin1 (bytes ++ more) = ofLatin1 bytes ++ ofLatin1 more :=
  List.map_append

/-! ## UTF-8 -/

def toUtf8 (s : String) : List UInt8 :=
  s.toUTF8.data.toList

def ofUtf8 (bytes : List UInt8) : Option String :=
  String.fromUTF8? ⟨bytes.toArray⟩

theorem ofUtf8_toUtf8 (s : String) : ofUtf8 (toUtf8 s) = some s := by
  unfold ofUtf8 toUtf8 String.fromUTF8?
  rw [Array.toArray_toList]
  exact dif_pos s.isValidUTF8

/-! ## Words -/

/-- The longest runs between separators. -/
def words (sep : Char → Bool) (cs : List Char) : List (List Char) :=
  (cs.splitOnP sep).filter (· ≠ [])

section Words

variable {sep : Char → Bool}

@[simp] theorem words_nil : words sep [] = [] := by
  simp [words]

/-- A separator ends what stands before it. -/
theorem words_append_cons {c : Char} (hc : sep c = true) (cs cs' : List Char) :
    words sep (cs ++ c :: cs') = words sep cs ++ words sep cs' := by
  unfold words
  rw [List.splitOnP_append_cons cs cs' hc, List.filter_append]

theorem words_cons {c : Char} (hc : sep c = true) (cs : List Char) :
    words sep (c :: cs) = words sep cs :=
  (words_append_cons hc [] cs).trans (by rw [words_nil, List.nil_append])

theorem words_dropWhile : ∀ cs : List Char, words sep (cs.dropWhile sep) = words sep cs
  | [] => rfl
  | c :: cs => by
    by_cases hc : sep c = true
    · rw [List.dropWhile_cons_of_pos hc, words_cons hc, words_dropWhile cs]
    · rw [List.dropWhile_cons_of_neg hc]

theorem words_append_of_forall : ∀ {cs' : List Char}, (∀ c ∈ cs', sep c = true) →
    ∀ cs : List Char, words sep (cs ++ cs') = words sep cs
  | [], _, cs => by rw [List.append_nil]
  | c :: cs', h, cs => by
    obtain ⟨hc, hcs'⟩ := List.forall_mem_cons.1 h
    have hrest := words_append_of_forall hcs' []
    rw [List.nil_append, words_nil] at hrest
    rw [words_append_cons hc, hrest, List.append_nil]

theorem words_of_forall {w : List Char} (hne : w ≠ []) (hw : ∀ c ∈ w, sep c = false) :
    words sep w = [w] := by
  unfold words
  rw [List.splitOnP_eq_singleton hw, List.filter_singleton]
  simp [hne]

/-- A word stands between separators. -/
theorem words_append {w rest : List Char} (hne : w ≠ []) (hw : ∀ c ∈ w, sep c = false)
    (hrest : ∀ c ∈ rest.head?, sep c = true) : words sep (w ++ rest) = w :: words sep rest := by
  rcases rest with _ | ⟨c, rest⟩
  · rw [List.append_nil, words_nil, words_of_forall hne hw]
  · have hc : sep c = true := hrest c rfl
    rw [words_append_cons hc, words_cons hc, words_of_forall hne hw]
    rfl

theorem words_of_lead {lead cs : List Char} (hlead : ∀ c ∈ lead, sep c = true) :
    words sep (lead ++ cs) = words sep cs := by
  rw [← words_dropWhile, List.dropWhile_append_of_pos hlead, words_dropWhile]

/-- Where the first word of a line stands, if there is one. -/
theorem exists_word (sep : Char → Bool) (cs : List Char) : (∀ c ∈ cs, sep c = true) ∨
    ∃ lead w rest, cs = lead ++ (w ++ rest) ∧ (∀ c ∈ lead, sep c = true) ∧ w ≠ [] ∧
      (∀ c ∈ w, sep c = false) ∧ ∀ c ∈ rest.head?, sep c = true := by
  have hhead : ∀ (p : Char → Bool) (l : List Char), ∀ c ∈ (l.dropWhile p).head?, p c = false := by
    intro p l c hc
    have h := List.head?_dropWhile_not p l
    rw [Option.mem_def.1 hc] at h
    exact h
  rcases htail : cs.dropWhile sep with _ | ⟨c, tail⟩
  · exact .inl (List.dropWhile_eq_nil_iff.1 htail)
  · have hc : sep c = false := hhead sep cs c (by rw [htail]; rfl)
    refine .inr ⟨cs.takeWhile sep, (c :: tail).takeWhile (!sep ·), (c :: tail).dropWhile (!sep ·),
      ?_, fun c hc => List.mem_takeWhile_imp hc, ?_, fun c hc => ?_, fun c hc => ?_⟩
    · rw [List.takeWhile_append_dropWhile, ← htail, List.takeWhile_append_dropWhile]
    · simp [hc]
    · simpa using List.mem_takeWhile_imp hc
    · simpa using hhead (!sep ·) _ c hc

/-- The first word of a line, and those after it. -/
theorem words_eq_cons_iff {cs w : List Char} {ws : List (List Char)} :
    words sep cs = w :: ws ↔ ∃ lead rest, cs = lead ++ (w ++ rest) ∧
      (∀ c ∈ lead, sep c = true) ∧ w ≠ [] ∧ (∀ c ∈ w, sep c = false) ∧
        (∀ c ∈ rest.head?, sep c = true) ∧ words sep rest = ws := by
  constructor
  · intro h
    rcases exists_word sep cs with hall | ⟨lead, w', rest, rfl, hlead, hne, hw, hrest⟩
    · have hnil := words_append_of_forall hall []
      rw [List.nil_append, words_nil, h] at hnil
      cases hnil
    · rw [words_of_lead hlead, words_append hne hw hrest] at h
      obtain ⟨rfl, rfl⟩ := List.cons.inj h
      exact ⟨lead, rest, rfl, hlead, hne, hw, hrest, rfl⟩
  · rintro ⟨lead, rest, rfl, hlead, hne, hw, hrest, rfl⟩
    rw [words_of_lead hlead, words_append hne hw hrest]

end Words

/-! ## Lines -/

/-- Lines with their ends. -/
def crlfLines (lines : List (List Char)) : List Char :=
  lines.flatMap fun line => line ++ ['\r', '\n']

/-- The lines before an empty one, and what follows that, after the characters of a line that
have been read, the last one first. -/
def readLines (read : List Char) : List Char → Option (List (List Char) × List Char)
  | '\r' :: '\n' :: cs =>
    if read = [] then some ([], cs)
    else (readLines [] cs).map fun p => (read.reverse :: p.1, p.2)
  | c :: cs => readLines (c :: read) cs
  | [] => none

theorem readLines_cons {c : Char} {cs : List Char} (h : c ≠ '\r' ∨ cs.head? ≠ some '\n')
    (read : List Char) : readLines read (c :: cs) = readLines (c :: read) cs := by
  rw [readLines.eq_def]
  split
  next heq =>
    obtain ⟨rfl, rfl⟩ := List.cons.inj heq
    simp at h
  next heq =>
    obtain ⟨rfl, rfl⟩ := List.cons.inj heq
    rfl
  next heq => cases heq

/-- A line has been read once its end has. -/
theorem readLines_line : ∀ {line : List Char}, '\n' ∉ line → ∀ read rest : List Char,
    readLines read (line ++ '\r' :: '\n' :: rest) =
      if line.reverse ++ read = [] then some ([], rest)
      else (readLines [] rest).map fun p => ((read.reverse ++ line) :: p.1, p.2)
  | [], _, read, rest => by simp [readLines]
  | c :: line, h, read, rest => by
    obtain ⟨-, hline⟩ := not_or.1 (mt List.mem_cons.2 h)
    have hhead : (line ++ '\r' :: '\n' :: rest).head? ≠ some '\n' := by
      cases line with
      | nil => simp
      | cons d line => simpa using (List.ne_of_not_mem_cons hline).symm
    rw [List.cons_append, readLines_cons (.inr hhead), readLines_line hline]
    simp

theorem readLines_crlfLines : ∀ {lines : List (List Char)},
    (∀ line ∈ lines, line ≠ [] ∧ '\n' ∉ line) → ∀ rest : List Char,
      readLines [] (crlfLines lines ++ '\r' :: '\n' :: rest) = some (lines, rest)
  | [], _, rest => rfl
  | line :: lines, h, rest => by
    obtain ⟨⟨hne, hline⟩, hlines⟩ := List.forall_mem_cons.1 h
    have happend : crlfLines (line :: lines) ++ '\r' :: '\n' :: rest =
        line ++ '\r' :: '\n' :: (crlfLines lines ++ '\r' :: '\n' :: rest) := by
      simp [crlfLines]
    rw [happend, readLines_line hline, readLines_crlfLines hlines]
    simp [hne]

/-! ## Responses -/

structure Response where
  status : ℕ
  reason : List Char
  headers : List (List Char × List Char)
  body : List UInt8

def version : List Char := ['H', 'T', 'T', 'P', '/', '1', '.', '1', ' ']

/-- A run of digits as a number. -/
def readNat (cs : List Char) : Option ℕ :=
  if isDigits cs then some (Nat.ofDigitChars 10 cs 0) else none

/-- The code and the reason of a status line. -/
def readStatus (line : List Char) : Option (ℕ × List Char) := do
  guard (version.isPrefixOf line)
  let rest := line.drop version.length
  let code ← readNat (rest.takeWhile Char.isDigit)
  match rest.dropWhile Char.isDigit with
  | ' ' :: reason => some (code, reason)
  | _ => none

/-- The name and the value of a header line. -/
def readHeader (line : List Char) : Option (List Char × List Char) :=
  match line.dropWhile (· ≠ ':') with
  | ':' :: value => some (line.takeWhile (· ≠ ':'), value.dropWhile (· = ' '))
  | _ => none

def contentLength : List Char :=
  ['c', 'o', 'n', 't', 'e', 'n', 't', '-', 'l', 'e', 'n', 'g', 't', 'h']

/-- Names are equal whatever their case. -/
def lengthOf (headers : List (List Char × List Char)) : Option ℕ :=
  (headers.find? fun h => h.1.map Char.toLower = contentLength).bind fun h => readNat h.2

/-- A response, and what follows it. -/
def readResponse (bytes : List UInt8) : Option (Response × List UInt8) := do
  let (lines, rest) ← readLines [] (ofLatin1 bytes)
  let (first, lines) ← lines.head?.map fun first => (first, lines.tail)
  let (code, reason) ← readStatus first
  let headers ← lines.mapM readHeader
  let length ← lengthOf headers
  guard (length ≤ rest.length)
  return (⟨code, reason, headers, toLatin1 (rest.take length)⟩, toLatin1 (rest.drop length))

namespace Response

def statusLine (r : Response) : List Char :=
  version ++ Nat.toDigits 10 r.status ++ ' ' :: r.reason

def headerLine (header : List Char × List Char) : List Char :=
  header.1 ++ ':' :: ' ' :: header.2

def print (r : Response) : List UInt8 :=
  toLatin1 (crlfLines (r.statusLine :: r.headers.map headerLine) ++ ['\r', '\n']) ++ r.body

/-- What can be written on a header line. -/
structure WellFormedHeader (header : List Char × List Char) : Prop where
  colon : ':' ∉ header.1
  lineEnd : '\n' ∉ header.1 ∧ '\n' ∉ header.2
  blank : header.2.head? ≠ some ' '
  latin1 : IsLatin1 header.1 ∧ IsLatin1 header.2

/-- A response that can be written, and says how long it is. -/
structure WellFormed (r : Response) : Prop where
  reason : '\n' ∉ r.reason ∧ IsLatin1 r.reason
  headers : ∀ header ∈ r.headers, WellFormedHeader header
  length : lengthOf r.headers = some r.body.length

end Response

theorem readNat_toDigits (n : ℕ) : readNat (Nat.toDigits 10 n) = some n := by
  rw [readNat, if_pos (isDigits_toDigits n), Nat.ofDigitChars_ten_toDigits]

theorem isDigit_of_mem_toDigits {n : ℕ} {c : Char} (h : c ∈ Nat.toDigits 10 n) :
    c.isDigit = true :=
  (isDigits_iff.1 (isDigits_toDigits n)).2 c h

theorem readStatus_statusLine (r : Response) :
    readStatus r.statusLine = some (r.status, r.reason) := by
  have hdrop : r.statusLine.drop version.length =
      Nat.toDigits 10 r.status ++ ' ' :: r.reason := by
    rw [Response.statusLine, List.append_assoc, List.drop_left]
  have hhead : ∀ c ∈ (' ' :: r.reason).head?, c.isDigit = false := by
    simp [Char.isDigit]
  have hall := fun c hc => @isDigit_of_mem_toDigits r.status c hc
  have hversion : version.isPrefixOf r.statusLine = true := by
    rw [Response.statusLine, List.append_assoc]
    simp [List.prefix_append]
  simp only [readStatus, hversion, hdrop, takeWhile_of_head hall hhead,
    dropWhile_of_head hall hhead, readNat_toDigits]
  rfl

theorem readHeader_headerLine {header : List Char × List Char}
    (h : Response.WellFormedHeader header) :
    readHeader (Response.headerLine header) = some header := by
  have hall : ∀ c ∈ header.1, decide (c ≠ ':') = true := by
    intro c hc
    exact decide_eq_true fun heq => h.colon (heq ▸ hc)
  have hhead : ∀ c ∈ (':' :: ' ' :: header.2).head?, decide (c ≠ ':') = false := by simp
  have hblank : (' ' :: header.2).dropWhile (fun c => decide (c = ' ')) = header.2 := by
    have hvalue := h.blank
    cases hv : header.2 with
    | nil => rfl
    | cons c value =>
      rw [hv] at hvalue
      have hc : c ≠ ' ' := by simpa using hvalue
      simp [hc]
  unfold readHeader Response.headerLine
  rw [dropWhile_of_head hall hhead, takeWhile_of_head hall hhead]
  simp only [hblank]

theorem mapM_readHeader : ∀ {headers : List (List Char × List Char)},
    (∀ header ∈ headers, Response.WellFormedHeader header) →
      (headers.map Response.headerLine).mapM readHeader = some headers
  | [], _ => rfl
  | header :: headers, h => by
    obtain ⟨hheader, hheaders⟩ := List.forall_mem_cons.1 h
    rw [List.map_cons, List.mapM_cons, readHeader_headerLine hheader, mapM_readHeader hheaders]
    rfl

/-! ## Round trip -/

theorem isLatin1_append {cs cs' : List Char} :
    IsLatin1 (cs ++ cs') ↔ IsLatin1 cs ∧ IsLatin1 cs' :=
  List.forall_mem_append

theorem toNat_lt_of_isDigit {c : Char} (h : c.isDigit = true) : c.toNat < 256 := by
  simp only [Char.isDigit, Bool.and_eq_true, decide_eq_true_eq] at h
  have hle : c.toNat ≤ 57 := UInt32.le_iff_toNat_le.1 h.2
  omega

/-- The lines of the head can be read. -/
theorem Response.WellFormed.lines {r : Response} (h : r.WellFormed) :
    ∀ line ∈ r.statusLine :: r.headers.map headerLine,
      (line ≠ [] ∧ '\n' ∉ line) ∧ IsLatin1 line := by
  have hversion : '\n' ∉ version ∧ IsLatin1 version := by simp [version, IsLatin1]
  have hdigits : '\n' ∉ Nat.toDigits 10 r.status := fun hmem => by
    have := isDigit_of_mem_toDigits hmem
    simp [Char.isDigit] at this
  have hblank : IsLatin1 [' '] ∧ IsLatin1 [':', ' '] := by simp [IsLatin1]
  refine List.forall_mem_cons.2 ⟨⟨⟨?_, ?_⟩, ?_⟩, List.forall_mem_map.2 fun header hheader => ?_⟩
  · simp [statusLine]
  · simp [statusLine, hversion.1, hdigits, h.reason.1]
  · refine isLatin1_append.2 ⟨isLatin1_append.2 ⟨hversion.2, fun c hc => ?_⟩,
      isLatin1_append.2 ⟨hblank.1, h.reason.2⟩⟩
    exact toNat_lt_of_isDigit (isDigit_of_mem_toDigits hc)
  · have hh := h.headers header hheader
    refine ⟨⟨by simp [headerLine], ?_⟩, ?_⟩
    · simp [headerLine, hh.lineEnd.1, hh.lineEnd.2]
    · exact isLatin1_append.2 ⟨hh.latin1.1, isLatin1_append.2 ⟨hblank.2, hh.latin1.2⟩⟩

theorem isLatin1_crlfLines {lines : List (List Char)} (h : ∀ line ∈ lines, IsLatin1 line) :
    IsLatin1 (crlfLines lines) := by
  have hend : IsLatin1 ['\r', '\n'] := by simp [IsLatin1]
  intro c hc
  obtain ⟨line, hline, hc⟩ := List.mem_flatMap.1 hc
  exact isLatin1_append.2 ⟨h line hline, hend⟩ c hc

/-- A response is read back, whatever follows it. -/
theorem readResponse_print {r : Response} (h : r.WellFormed) (more : List UInt8) :
    readResponse (r.print ++ more) = some (r, more) := by
  have hlines := h.lines
  have hend : IsLatin1 ['\r', '\n'] := by simp [IsLatin1]
  have hlatin1 := isLatin1_append.2 ⟨isLatin1_crlfLines fun line hl => (hlines line hl).2, hend⟩
  have hchars : ofLatin1 (r.print ++ more) =
      crlfLines (r.statusLine :: r.headers.map Response.headerLine) ++
        '\r' :: '\n' :: ofLatin1 (r.body ++ more) := by
    rw [Response.print, List.append_assoc, ofLatin1_append, ofLatin1_toLatin1 hlatin1]
    simp
  have hlength : (ofLatin1 r.body).length = r.body.length := List.length_map _
  unfold readResponse
  rw [hchars, readLines_crlfLines fun line hl => (hlines line hl).1]
  simp only [List.head?_cons, Option.map_some, List.tail_cons, Option.bind_eq_bind,
    Option.bind_some, readStatus_statusLine, mapM_readHeader h.headers, h.length]
  rw [ofLatin1_append, ← hlength, List.take_left, List.drop_left]
  simp [guard]

end Http
