import DtsuBridge.Lib.Http
import DtsuBridge.Unambiguous

/-!
# The HTTP layer of the exporter

A connection is read up to the end of its header, and its request line alone says what is
answered : the exposition, the health of the bridges or an index. `_handle` catches whatever is
raised, and closes the connection in every case.

`parseRequest_eq_some_iff` : which request lines have a target, and which it is.
`handle_answers` : a connection is answered once or not at all, and closed. What is written reads
as the status, the content type and the text of the route, and ends where its header says. A text
of `/metrics` reads as the lines that were rendered.
-/

namespace DtsuBridge

def CONTENT_TYPE : String := "text/plain; version=0.0.4; charset=utf-8"

/-- The content type of the other answers. -/
def plainText : String := "text/plain; charset=utf-8"

def MAX_HEADER_LINES : ℕ := 64

def STATUS_TEXT : List (ℕ × String) :=
  [(200, "OK"), (404, "Not Found"), (503, "Service Unavailable")]

/-- `_INDEX` -/
def INDEX : String :=
  "nd45_dtsu666 bridge\n" ++
  "\n" ++
  "  /metrics   Prometheus exposition\n" ++
  "  /healthz   ok / stale (503 when ND45 data is stale)\n"

/-! ## Requests -/

/-- `str.upper` of a character of latin-1. -/
def upper (c : Char) : List Char :=
  if c = 'ß' then ['S', 'S']
  else if c = 'µ' then ['Μ']
  else if c = 'ÿ' then ['Ÿ']
  else if 'à' ≤ c ∧ c ≤ 'þ' ∧ c ≠ '÷' then [Char.ofNat (c.toNat - 32)]
  else [c.toUpper]

/-- `str.strip` -/
def strip (cs : List Char) : List Char :=
  (cs.dropWhile isSpace).rdropWhile isSpace

/-- `parse_request`. Every byte decodes as latin-1. -/
def parseRequest (head : List UInt8) : Option String :=
  match Http.words isSpace (strip (Http.ofLatin1 head)) with
  | method :: target :: _ =>
    if method.flatMap upper = ['G', 'E', 'T'] then some (String.ofList (target.takeWhile (· ≠ '?')))
    else none
  | _ => none

theorem words_strip (cs : List Char) : Http.words isSpace (strip cs) = Http.words isSpace cs := by
  have htail : ∀ c ∈ (cs.dropWhile isSpace).rtakeWhile isSpace, isSpace c = true :=
    fun c hc => List.mem_rtakeWhile_imp hc
  have hsplit : strip cs ++ (cs.dropWhile isSpace).rtakeWhile isSpace = cs.dropWhile isSpace :=
    List.rdropWhile_append_rtakeWhile ..
  rw [← Http.words_append_of_forall htail, hsplit, Http.words_dropWhile]

/-- `GET`, in any case. -/
def IsGet (method : List Char) : Prop :=
  method.map Char.toUpper = ['G', 'E', 'T']

/-- What `upper` makes of a character that is no letter of ASCII is none of `GET`. -/
theorem upper_cases (c : Char) : upper c = [c.toUpper] ∨
    c.toUpper ∉ ['G', 'E', 'T'] ∧ ∃ d cs, upper c = d :: cs ∧ d ∉ ['G', 'E', 'T'] := by
  unfold upper
  split_ifs with h1 h2 h3 h4
  · rw [h1]
    exact .inr ⟨by decide, 'S', ['S'], rfl, by decide⟩
  · rw [h2]
    exact .inr ⟨by decide, 'Μ', [], rfl, by decide⟩
  · rw [h3]
    exact .inr ⟨by decide, 'Ÿ', [], rfl, by decide⟩
  · obtain ⟨hlo, hhi, -⟩ := h4
    have hlo : 224 ≤ c.toNat := hlo
    have hhi : c.toNat ≤ 254 := hhi
    have hlow : ∀ d ∈ ['G', 'E', 'T'], d.toNat < 192 := by simp
    have hupper : c.toUpper = c := by
      refine dif_neg fun hlower => ?_
      have hz : c.toNat ≤ 122 := UInt32.le_iff_toNat_le.1 hlower.2
      omega
    have hto : (Char.ofNat (c.toNat - 32)).toNat = c.toNat - 32 := Http.toNat_ofNat (by omega)
    refine .inr ⟨fun hmem => ?_, _, [], rfl, fun hmem => ?_⟩
    · have := hlow _ (hupper ▸ hmem)
      omega
    · have := hlow _ hmem
      omega
  · exact .inl rfl

theorem flatMap_upper_iff : ∀ {method get : List Char}, get ⊆ ['G', 'E', 'T'] →
    (method.flatMap upper = get ↔ method.map Char.toUpper = get)
  | [], _, _ => .rfl
  | c :: method, get, h => by
    rw [List.flatMap_cons, List.map_cons]
    rcases upper_cases c with heq | ⟨hc, d, cs, heq, hd⟩
    · rw [heq]
      rcases get with _ | ⟨d, get⟩
      · simp
      · have ih := @flatMap_upper_iff method get (List.subset_of_cons_subset h)
        simp only [List.cons_append, List.nil_append, List.cons.injEq, ih]
    · rw [heq]
      refine ⟨fun hget => absurd (h ?_) hd, fun hget => absurd (h ?_) hc⟩
      · rw [← hget]
        exact List.mem_cons_self
      · rw [← hget]
        exact List.mem_cons_self

theorem isSpace_of_between {c : Char} (h : 65 ≤ c.toNat ∧ c.toNat ≤ 122) :
    isSpace c = false := by
  obtain ⟨hlo, hhi⟩ := h
  simp only [isSpace, Bool.or_eq_false_iff, Bool.and_eq_false_iff, decide_eq_false_iff_not]
  omega

/-- A letter is no separator. -/
theorem isSpace_of_isGet {method : List Char} (h : IsGet method) :
    method ≠ [] ∧ ∀ c ∈ method, isSpace c = false := by
  refine ⟨fun hnil => ?_, fun c hc => isSpace_of_between ?_⟩
  · rw [hnil] at h
    cases h
  · have hmem : c.toUpper ∈ ['G', 'E', 'T'] := by
      rw [← h]
      exact List.mem_map_of_mem hc
    by_cases hlower : 'a'.val ≤ c.val ∧ c.val ≤ 'z'.val
    · have hlo : 97 ≤ c.toNat := UInt32.le_iff_toNat_le.1 hlower.1
      have hhi : c.toNat ≤ 122 := UInt32.le_iff_toNat_le.1 hlower.2
      omega
    · have hupper : c.toUpper = c := dif_neg hlower
      have hall : ∀ d ∈ ['G', 'E', 'T'], 65 ≤ d.toNat ∧ d.toNat ≤ 122 := by simp
      exact hall c (hupper ▸ hmem)

/-- A request line has a target exactly where its first word is `GET` in any case and another
word follows : that word, up to its question mark if it has one. -/
theorem parseRequest_eq_some_iff {head : List UInt8} {path : String} :
    parseRequest head = some path ↔ ∃ lead method gap target rest,
      Http.ofLatin1 head = lead ++ (method ++ (gap ++ (target ++ rest))) ∧
        (∀ c ∈ lead, isSpace c = true) ∧ IsGet method ∧
        gap ≠ [] ∧ (∀ c ∈ gap, isSpace c = true) ∧
        target ≠ [] ∧ (∀ c ∈ target, isSpace c = false) ∧ (∀ c ∈ rest.head?, isSpace c = true) ∧
        path = String.ofList (target.takeWhile (· ≠ '?')) := by
  have hparse : parseRequest head = some path ↔ ∃ method target words,
      Http.words isSpace (Http.ofLatin1 head) = method :: target :: words ∧ IsGet method ∧
        path = String.ofList (target.takeWhile (· ≠ '?')) := by
    unfold parseRequest
    rw [words_strip]
    split
    next method target words heq =>
      have hiff := @flatMap_upper_iff method _ (List.Subset.refl _)
      refine ⟨fun h => ?_, ?_⟩
      · split_ifs at h with hget
        exact ⟨method, target, words, heq, hiff.1 hget, (Option.some.inj h).symm⟩
      · rintro ⟨method', target', words', hw, hget, rfl⟩
        obtain ⟨rfl, hwords⟩ := List.cons.inj (heq.symm.trans hw)
        obtain ⟨rfl, -⟩ := List.cons.inj hwords
        exact if_pos (hiff.2 hget)
    next hno =>
      refine ⟨nofun, ?_⟩
      rintro ⟨method, target, words, heq, -⟩
      exact absurd heq (hno method target words)
  rw [hparse]
  constructor
  · rintro ⟨method, target, words, heq, hget, rfl⟩
    obtain ⟨lead, after, heq, hlead, -, -, hafter, hwords⟩ := Http.words_eq_cons_iff.1 heq
    obtain ⟨gap, rest, rfl, hgap, hne, htarget, hrest, -⟩ := Http.words_eq_cons_iff.1 hwords
    refine ⟨lead, method, gap, target, rest, heq, hlead, hget, fun hnil => ?_, hgap, hne, htarget,
      hrest, rfl⟩
    obtain ⟨c, target, rfl⟩ := List.exists_cons_of_ne_nil hne
    have hspace : isSpace c = true := hafter c (by rw [hnil]; rfl)
    rw [htarget c List.mem_cons_self] at hspace
    cases hspace
  · rintro ⟨lead, method, gap, target, rest, heq, hlead, hget, hne, hgap, htne, htarget, hrest,
      rfl⟩
    obtain ⟨hmne, hmethod⟩ := isSpace_of_isGet hget
    have hwords := Http.words_eq_cons_iff.2 ⟨gap, rest, rfl, hgap, htne, htarget, hrest, rfl⟩
    refine ⟨method, target, _, Http.words_eq_cons_iff.2 ⟨lead, _, heq, hlead, hmne, hmethod, ?_,
      hwords⟩, hget, rfl⟩
    obtain ⟨c, gap, rfl⟩ := List.exists_cons_of_ne_nil hne
    intro d hd
    obtain rfl : c = d := by simpa using hd
    exact hgap c List.mem_cons_self

/-! ## Headers -/

/-- What each `readline()` of a connection comes to, within its time. -/
abbrev Peer := ℕ → Except PyExc (List UInt8)

/-- The ends of a header : a line end alone, or the end of the stream. -/
def headerEnds : List (List UInt8) := [[13, 10], [10], []]

/-- Drop so many header lines at most, from the line of this index. -/
def drainHeaders (peer : Peer) : ℕ → ℕ → Except PyExc Unit
  | 0, _ => .ok ()
  | n + 1, i => do
    let line ← peer i
    if line ∈ headerEnds then return () else drainHeaders peer n (i + 1)

/-- `_read_head` -/
def readHead (peer : Peer) : Except PyExc (List UInt8) := do
  let requestLine ← peer 0
  drainHeaders peer MAX_HEADER_LINES 1
  return requestLine

/-- Of so many lines at most from this index, the header ends after `n`. -/
structure HeaderEnds (peer : Peer) (max i n : ℕ) : Prop where
  le : n ≤ max
  pos : max ≠ 0 → n ≠ 0
  before : ∀ j, j + 1 < n → ∃ line, peer (i + j) = .ok line ∧ line ∉ headerEnds
  last : ∀ j, j + 1 = n → ∃ line, peer (i + j) = .ok line ∧ (line ∈ headerEnds ∨ n = max)

/-- The first line of a header. -/
theorem HeaderEnds.head {peer : Peer} {max i n : ℕ} (h : HeaderEnds peer (max + 1) i n) :
    ∃ line, peer i = .ok line ∧
      (line ∉ headerEnds → ∃ m, n = m + 1 ∧ HeaderEnds peer max (i + 1) m) := by
  obtain ⟨m, rfl⟩ := Nat.exists_eq_succ_of_ne_zero (h.pos (Nat.succ_ne_zero max))
  have hrest : ∀ j, i + 1 + j = i + (j + 1) := fun j => by omega
  rcases m with _ | m
  · obtain ⟨line, hline, hend⟩ := h.last 0 rfl
    refine ⟨line, hline, fun hno => ⟨0, rfl, Nat.zero_le _, fun hne => ?_, nofun, nofun⟩⟩
    rcases hend with hend | hend
    · exact absurd hend hno
    · omega
  · obtain ⟨line, hline, -⟩ := h.before 0 (by omega)
    refine ⟨line, hline, fun _ => ⟨m + 1, rfl, Nat.le_of_succ_le_succ h.le,
      fun _ => Nat.succ_ne_zero m, fun j hj => ?_, fun j hj => ?_⟩⟩
    · rw [hrest]
      exact h.before (j + 1) (by omega)
    · obtain ⟨line, hline, hend⟩ := h.last (j + 1) (by omega)
      rw [hrest]
      exact ⟨line, hline, hend.imp_right fun heq => by omega⟩

theorem HeaderEnds.cons {peer : Peer} {max i n : ℕ} {line : List UInt8} (hline : peer i = .ok line)
    (hno : line ∉ headerEnds) (h : HeaderEnds peer max (i + 1) n) :
    HeaderEnds peer (max + 1) i (n + 1) where
  le := Nat.succ_le_succ h.le
  pos _ := Nat.succ_ne_zero n
  before
    | 0, _ => ⟨line, hline, hno⟩
    | j + 1, hj => by
      rw [← Nat.add_assoc, Nat.add_right_comm]
      exact h.before j (by omega)
  last
    | 0, hj => by
      refine ⟨line, hline, .inr ?_⟩
      by_cases hmax : max = 0
      · omega
      · exact absurd (Nat.succ.inj hj).symm (h.pos hmax)
    | j + 1, hj => by
      obtain ⟨line, hline, hend⟩ := h.last j (by omega)
      rw [← Nat.add_assoc, Nat.add_right_comm]
      exact ⟨line, hline, hend.imp_right fun heq => by omega⟩

theorem drainHeaders_eq_ok_iff {peer : Peer} : ∀ {max i : ℕ},
    drainHeaders peer max i = .ok () ↔ ∃ n, HeaderEnds peer max i n
  | 0, i => ⟨fun _ => ⟨0, le_rfl, fun h => absurd rfl h, nofun, nofun⟩, fun _ => rfl⟩
  | max + 1, i => by
    have ih := @drainHeaders_eq_ok_iff peer max (i + 1)
    have hstep : drainHeaders peer (max + 1) i = .ok () ↔ ∃ line, peer i = .ok line ∧
        (line ∉ headerEnds → drainHeaders peer max (i + 1) = .ok ()) := by
      rw [drainHeaders, Except.bind_eq_ok]
      refine exists_congr fun line => and_congr_right fun _ => ?_
      split_ifs with hend
      · simp [hend, pure, Except.pure]
      · simp [hend]
    rw [hstep]
    constructor
    · rintro ⟨line, hline, hrest⟩
      by_cases hend : line ∈ headerEnds
      · refine ⟨1, by omega, fun _ => one_ne_zero, fun j hj => by omega, fun j hj => ?_⟩
        obtain rfl : j = 0 := by omega
        exact ⟨line, hline, .inl hend⟩
      · obtain ⟨n, hn⟩ := ih.1 (hrest hend)
        exact ⟨n + 1, hn.cons hline hend⟩
    · rintro ⟨n, hn⟩
      obtain ⟨line, hline, hrest⟩ := hn.head
      refine ⟨line, hline, fun hno => ?_⟩
      obtain ⟨m, -, hm⟩ := hrest hno
      exact ih.2 ⟨m, hm⟩

/-- A request line and the end of its header, before any line that fails. -/
def Requests (peer : Peer) (head : List UInt8) : Prop :=
  peer 0 = .ok head ∧ ∃ n, HeaderEnds peer MAX_HEADER_LINES 1 n

theorem readHead_eq_ok_iff {peer : Peer} {head : List UInt8} :
    readHead peer = .ok head ↔ Requests peer head := by
  unfold readHead Requests
  rw [← drainHeaders_eq_ok_iff, Except.bind_eq_ok]
  constructor
  · rintro ⟨line, hline, h⟩
    obtain ⟨⟨⟩, hdrain, heq⟩ := Except.bind_eq_ok.1 h
    obtain rfl := Except.ok.inj heq
    exact ⟨hline, hdrain⟩
  · rintro ⟨hline, hdrain⟩
    exact ⟨head, hline, Except.bind_eq_ok.2 ⟨(), hdrain, rfl⟩⟩

/-! ## Answers -/

/-- Status, content type and body. -/
structure Answer where
  status : ℕ
  contentType : String
  body : String

/-- `age <= safety.max_data_age_s` -/
def ExportedBridge.fresh (bridge : ExportedBridge) (loopNow : Time) : Bool :=
  bridge.store.age loopNow ≤ bridge.spec.safety.maxDataAgeS

/-- What is shown of a bridge. -/
def healthPart (bridge : ExportedBridge) (loopNow : Time) : String :=
  let shown := match bridge.store.age loopNow with
    | ⊤ => "never polled"
    | (age : Time) => s!"{fixed2 age}s"
  let stale := if bridge.fresh loopNow then "" else " STALE"
  s!"{bridge.spec.name}={shown}{stale}"

/-- The answer to `/healthz`. -/
def healthAnswer (bridges : List ExportedBridge) (loopNow : Time) : Answer :=
  let detail := " ".intercalate (bridges.map (healthPart · loopNow))
  let stale := (bridges.filter (!·.fresh loopNow)).map (·.spec.name)
  if stale ≠ [] then
    let names := ", ".intercalate stale
    ⟨503, plainText, s!"stale: {names} ({detail})\n"⟩
  else ⟨200, plainText, s!"ok ({detail})\n"⟩

section Float

variable [FloatArith]

def route (path : Option String) (source : Exporter) (loopNow monoNow : Time) :
    Except PyExc Answer :=
  if path = some "/metrics" then do
    let text ← render source loopNow monoNow
    return ⟨200, CONTENT_TYPE, text⟩
  else if path = some "/healthz" then .ok (healthAnswer source.bridges loopNow)
  else if path = some "/" then .ok ⟨200, plainText, INDEX⟩
  else .ok ⟨404, plainText, "not found\n"⟩

/-- `_response` -/
def response (answer : Answer) : List UInt8 :=
  let payload := Http.toUtf8 answer.body
  let reason := (STATUS_TEXT.lookup answer.status).getD "OK"
  let head :=
    s!"HTTP/1.1 {answer.status} {reason}\r\n" ++
    s!"Content-Type: {answer.contentType}\r\n" ++
    s!"Content-Length: {payload.length}\r\n" ++
    "Connection: close\r\n" ++
    "\r\n"
  Http.toLatin1 head.toList ++ payload

inductive WriterCall where
  | write (bytes : List UInt8)
  | close

/-- `_handle`. What `drain` and `wait_closed` raise is caught. -/
def handle (peer : Peer) (source : Exporter) (loopNow monoNow : Time) : List WriterCall :=
  let answered := do
    let head ← readHead peer
    let answer ← route (parseRequest head) source loopNow monoNow
    return response answer
  match answered with
  | .ok bytes => [.write bytes, .close]
  | .error _ => [.close]

/-! ## What is read off the wire -/

/-- The response of an answer. -/
def Answer.message (answer : Answer) : Http.Response where
  status := answer.status
  reason := ((STATUS_TEXT.lookup answer.status).getD "OK").toList
  headers := [("Content-Type".toList, answer.contentType.toList),
    ("Content-Length".toList, Nat.toDigits 10 (Http.toUtf8 answer.body).length),
    ("Connection".toList, "close".toList)]
  body := Http.toUtf8 answer.body

omit [FloatArith] in
theorem response_eq (answer : Answer) : response answer = answer.message.print := by
  refine congrArg (Http.toLatin1 · ++ Http.toUtf8 answer.body) ?_
  simp only [String.toList_append, Answer.message, Http.Response.statusLine, Http.crlfLines,
    Http.Response.headerLine, toString, Http.version, List.flatMap_cons, List.map_cons,
    List.map_nil, List.flatMap_nil, List.append_assoc, List.cons_append, List.nil_append,
    Nat.toList_repr, String.reduceToList]

omit [FloatArith] in
theorem statusText_mem (status : ℕ) :
    (STATUS_TEXT.lookup status).getD "OK" ∈ ["OK", "Not Found", "Service Unavailable"] := by
  simp only [STATUS_TEXT, List.lookup]
  split
  · exact List.mem_cons_self
  · split
    · exact List.mem_cons_of_mem _ List.mem_cons_self
    · split
      · exact List.mem_of_mem_getLast? rfl
      · exact List.mem_cons_self

/-- What can be written on one line of a header. -/
structure LineText (s : String) : Prop where
  lineEnd : '\n' ∉ s.toList
  latin1 : Http.IsLatin1 s.toList
  blank : s.toList.head? ≠ some ' '

omit [FloatArith] in
theorem lineText_ofList {cs : List Char} (hall : (cs.all fun c => c ≠ '\n' && c.toNat < 256) = true)
    (hhead : (cs.head? ≠ some ' ' : Bool) = true) : LineText (String.ofList cs) := by
  rw [List.all_eq_true] at hall
  refine ⟨fun hmem => ?_, fun c hc => ?_, ?_⟩
  · rw [String.toList_ofList] at hmem
    simpa using hall _ hmem
  · rw [String.toList_ofList] at hc
    have := hall c hc
    rw [Bool.and_eq_true, decide_eq_true_iff, decide_eq_true_iff] at this
    exact this.2
  · rw [String.toList_ofList]
    exact of_decide_eq_true hhead

omit [FloatArith] in
theorem lineText_toDigits (n : ℕ) : LineText (String.ofList (Nat.toDigits 10 n)) := by
  have hdigit : ∀ c ∈ Nat.toDigits 10 n, c.isDigit = true := fun c hc =>
    Http.isDigit_of_mem_toDigits hc
  refine lineText_ofList (List.all_eq_true.2 fun c hc => ?_) (decide_eq_true fun hhead => ?_)
  · rw [Bool.and_eq_true, decide_eq_true_iff, decide_eq_true_iff]
    refine ⟨fun heq => ?_, Http.toNat_lt_of_isDigit (hdigit c hc)⟩
    have := hdigit c hc
    rw [heq] at this
    simp [Char.isDigit] at this
  · have := hdigit ' ' (List.mem_of_mem_head? hhead)
    simp [Char.isDigit] at this

omit [FloatArith] in
theorem header_wellFormed {name : List Char} {value : String}
    (hname : (name.all fun c => c ≠ ':' && (c ≠ '\n' && c.toNat < 256)) = true)
    (hvalue : LineText value) :
    Http.Response.WellFormedHeader ((String.ofList name).toList, value.toList) := by
  rw [String.toList_ofList]
  simp only [List.all_eq_true, Bool.and_eq_true, decide_eq_true_iff] at hname
  exact ⟨fun hmem => (hname _ hmem).1 rfl, ⟨fun hmem => (hname _ hmem).2.1 rfl, hvalue.lineEnd⟩,
    hvalue.blank, ⟨fun c hc => (hname c hc).2.2, hvalue.latin1⟩⟩

omit [FloatArith] in
/-- The length is the first header of its name, and that of the body. -/
theorem lengthOf_message (answer : Answer) :
    Http.lengthOf answer.message.headers = some answer.message.body.length := by
  unfold Http.lengthOf
  rw [Answer.message, List.find?_cons_of_neg (by simp [Http.contentLength]),
    List.find?_cons_of_pos (by simp [Http.contentLength])]
  exact Http.readNat_toDigits _

omit [FloatArith] in
theorem message_wellFormed {answer : Answer}
    (h : answer.contentType ∈ [CONTENT_TYPE, plainText]) : answer.message.WellFormed := by
  have hreason : ∀ s ∈ ["OK", "Not Found", "Service Unavailable"], LineText s := by
    simp only [List.forall_mem_cons, List.not_mem_nil, false_implies, implies_true, and_true]
    and_intros
    all_goals exact lineText_ofList (by decide) (by decide)
  have htype : ∀ s ∈ [CONTENT_TYPE, plainText], LineText s := by
    simp only [List.forall_mem_cons, List.not_mem_nil, false_implies, implies_true, and_true]
    and_intros
    all_goals exact lineText_ofList (by decide) (by decide)
  have hclose : LineText "close" := lineText_ofList (by decide) (by decide)
  have hlength := lineText_toDigits (Http.toUtf8 answer.body).length
  have htext := hreason _ (statusText_mem answer.status)
  refine ⟨⟨htext.lineEnd, htext.latin1⟩, ?_, lengthOf_message answer⟩
  simp only [Answer.message, List.forall_mem_cons, List.not_mem_nil, false_implies, implies_true,
    and_true]
  refine ⟨header_wellFormed (by decide) (htype _ h), ?_, header_wellFormed (by decide) hclose⟩
  have := @header_wellFormed "Content-Length".toList _ (by decide) hlength
  rwa [@String.toList_ofList (Nat.toDigits 10 _)] at this

theorem route_contentType {path : Option String} {source : Exporter} {loopNow monoNow : Time}
    {answer : Answer} (h : route path source loopNow monoNow = .ok answer) :
    answer.contentType ∈ [CONTENT_TYPE, plainText] := by
  unfold route at h
  split_ifs at h
  · obtain ⟨text, -, heq⟩ := Except.bind_eq_ok.1 h
    obtain rfl := Except.ok.inj heq
    exact List.mem_cons_self
  · obtain rfl := Except.ok.inj h
    unfold healthAnswer
    dsimp only
    split_ifs
    · exact List.mem_cons_of_mem _ List.mem_cons_self
    · exact List.mem_cons_of_mem _ List.mem_cons_self
  · obtain rfl := Except.ok.inj h
    exact List.mem_cons_of_mem _ List.mem_cons_self
  · obtain rfl := Except.ok.inj h
    exact List.mem_cons_of_mem _ List.mem_cons_self

/-- The text of an exposition reads as the lines that were rendered. -/
theorem readText_render {source : Exporter} {loopNow monoNow : Time} {text : String}
    (h : render source loopNow monoNow = .ok text) :
    ∃ out, renderOut source loopNow monoNow = .ok out ∧
      Exposition.readText text = some (MetricsOut.lines out) := by
  obtain ⟨out, hout, heq⟩ := Except.bind_eq_ok.1 h
  obtain rfl := Except.ok.inj heq
  have hsound := (renderOut_adds hout).sound .nil
  exact ⟨out, hout, Exposition.readText_printText hsound.wellFormed out.toList_text⟩

/-- Only the exposition can fail. -/
theorem route_eq_error {path : Option String} {source : Exporter} {loopNow monoNow : Time}
    {exc : PyExc} (h : route path source loopNow monoNow = .error exc) :
    path = some "/metrics" ∧ renderOut source loopNow monoNow = .error exc := by
  unfold route at h
  split_ifs at h with hpath
  refine ⟨hpath, ?_⟩
  rcases Except.bind_eq_error.1 h with h | ⟨text, -, h⟩
  · rcases Except.bind_eq_error.1 h with h | ⟨out, -, h⟩
    · exact h
    · cases h
  · cases h

/-- Whatever comes of a connection, it is closed, and at most one answer is written before. It is
where the request line and the end of its header, within so many lines, come before any line that
fails, and the exposition that is asked for renders. What is written reads as the status, the
content type and the text of the route, whatever follows, and the text of `/metrics` as the lines
that were rendered. -/
theorem handle_answers (peer : Peer) (source : Exporter) (loopNow monoNow : Time) :
    (handle peer source loopNow monoNow = [.close] ∧
        ∀ head, Requests peer head → ∃ exc, parseRequest head = some "/metrics" ∧
          renderOut source loopNow monoNow = .error exc) ∨
      ∃ head answer bytes, Requests peer head ∧
        route (parseRequest head) source loopNow monoNow = .ok answer ∧
        handle peer source loopNow monoNow = [.write bytes, .close] ∧
        (∀ more, Http.readResponse (bytes ++ more) = some (answer.message, more)) ∧
        Http.ofUtf8 answer.message.body = some answer.body ∧
        (parseRequest head = some "/metrics" →
          ∃ out, renderOut source loopNow monoNow = .ok out ∧
            Exposition.readText answer.body = some (MetricsOut.lines out)) := by
  unfold handle
  rcases hhead : readHead peer with exc | head
  · refine .inl ⟨rfl, fun head hrequest => ?_⟩
    cases hhead.symm.trans (readHead_eq_ok_iff.2 hrequest)
  · have hrequest := readHead_eq_ok_iff.1 hhead
    rcases hroute : route (parseRequest head) source loopNow monoNow with exc | answer
    · refine .inl ⟨?_, fun head' hrequest' => ⟨exc, ?_⟩⟩
      · simp only [bind, Except.bind, hroute]
      · obtain rfl := Except.ok.inj (hrequest.1.symm.trans hrequest'.1)
        exact route_eq_error hroute
    · refine .inr ⟨head, answer, response answer, hrequest, hroute, ?_, fun more => ?_,
        Http.ofUtf8_toUtf8 answer.body, fun hmetrics => ?_⟩
      · simp only [bind, Except.bind, hroute, pure, Except.pure]
      · rw [response_eq]
        exact Http.readResponse_print (message_wellFormed (route_contentType hroute)) more
      · rw [route, if_pos hmetrics] at hroute
        obtain ⟨text, htext, heq⟩ := Except.bind_eq_ok.1 hroute
        obtain rfl := Except.ok.inj heq
        exact readText_render htext

end Float

end DtsuBridge
