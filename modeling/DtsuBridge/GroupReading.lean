import DtsuBridge.Combine

/-!
# The reading of a group of relays

A poll of several e2TANGO relays either raises the error of the first device it cannot use
or combines those that aggregate. `Fault` : what is wrong with a device, wherever it shows
up. `Reported` : what the poll of the device raises for, since it looks at the raw values
one after the other and at the others only once the derive rules have run
(`deviceValues_cases`).

`FaultsShow` : no fault is hidden, as far as the section and the replies tell. A reading that
is not finite is hidden where a derive rule overwrites it. `reading_strict_iff` : the poll
raises for the faulty groups and no others where no fault is hidden, and elsewhere only by
the accident that the rules compute another value that is not finite. Without a fault the
order of the devices does not matter, nor what those that are not combined read.
-/

namespace DtsuBridge

namespace Etango

/-! ## Relays -/

/-- A relay and what it answers the reads of one poll with. -/
structure Relay where
  replies : ℕ → Response
  unitId : ℤ
  aggregate : Bool
  host : String

def Relay.link (r : Relay) : DeviceLink := ⟨replyClient r.replies, r.unitId, r.aggregate, r.host⟩

/-- The raw value is not finite, or at least `OVERRANGE` in magnitude. -/
def outOfRange (raw : PyFloat) : Bool := !raw.isFinite || OVERRANGE.le raw.abs

/-- The raw float32 of a point. -/
def rawValue (side : SourceSide) (groups : Blocks) (pt : SourcePoint) : Except PyExc PyFloat := do
  let regs ← extractRegisters pt.addr groups pt.width
  registersToFloat regs side.wordOrder side.byteOrder

/-- The section has float32 points with an address. -/
structure FloatSection (side : SourceSide) : Prop where
  groups : validateSourceCoverage side = .ok ()
  addr : ∀ pt ∈ side.points.values, pt.addr.isSome = true
  float32 : ∀ pt ∈ side.points.values, pt.dtype = .float32

section Float

variable [FloatArith]

/-- The sign of every point converts to a float. -/
def SignsConvert (side : SourceSide) : Prop :=
  ∀ pt ∈ side.points.values, (PyFloat.ofInt? pt.sign).isSome = true

/-- A value is not finite in the sample of a relay after the derive rules. -/
def DerivedFault (side : SourceSide) (r : Relay) : Prop :=
  ∃ values derived, decodeSource side (repliedBlocks side r.replies) r.host = .ok values ∧
    applyDerive values side.derive = .ok derived ∧
      ∃ key v, derived.get? key = some v ∧ v.isFinite = false

/-- A point decodes to a value that is not finite. -/
def DecodedFault (side : SourceSide) (r : Relay) (key : String) : Prop :=
  ∃ pt v, (key, pt) ∈ side.points.entries ∧
    decode side (repliedBlocks side r.replies) r.host key pt = .ok v ∧ v.isFinite = false

/-- A read error or a short read, a raw value out of range, or a decoded value that is not
finite. -/
def ReadFault (side : SourceSide) (r : Relay) : Prop :=
  ¬FullReplies side r.replies ∨
    (∃ pt ∈ side.points.values, ∃ raw,
      rawValue side (repliedBlocks side r.replies) pt = .ok raw ∧ outOfRange raw = true) ∨
    ∃ key, DecodedFault side r key

/-- A fault of the reading, or a derived value that is not finite. -/
def Fault (side : SourceSide) (r : Relay) : Prop := ReadFault side r ∨ DerivedFault side r

/-- A block that is not answered in full, or a raw value out of range no later than the first
sign that does not convert. -/
def EarlyFault (side : SourceSide) (r : Relay) : Prop :=
  ¬FullReplies side r.replies ∨
    ∃ pre e post raw, side.points.entries = pre ++ e :: post ∧
      (∀ e' ∈ pre, (PyFloat.ofInt? e'.2.sign).isSome = true) ∧
      rawValue side (repliedBlocks side r.replies) e.2 = .ok raw ∧ outOfRange raw = true

/-- What the poll of a relay raises a `PollError` for. -/
def Reported (side : SourceSide) (r : Relay) : Prop := EarlyFault side r ∨ DerivedFault side r

/-- No fault is hidden : the relays read without fault, or the first one has a fault before
any sign is looked at that does not convert, or all signs convert and some relay has a fault
that no derive rule overwrites. -/
def FaultsShow (side : SourceSide) (relays : List Relay) : Prop :=
  (∀ r ∈ relays, ¬ReadFault side r) ∨ (∃ r ∈ relays.head?, EarlyFault side r) ∨
    SignsConvert side ∧ ∃ r ∈ relays,
      EarlyFault side r ∨ ∃ key ∉ side.derive.flatMap (·.targets), DecodedFault side r key

/-- The weights of the rules of a relay add up in the range of a float. -/
def WeightsAdd (side : SourceSide) (r : Relay) : Prop :=
  ∀ values, decodeSource side (repliedBlocks side r.replies) r.host = .ok values →
    ¬DeriveOverflows values side.derive

theorem EarlyFault.readFault {side : SourceSide} {r : Relay} (h : EarlyFault side r) :
    ReadFault side r := by
  rcases h with h | ⟨pre, e, post, raw, hsplit, -, hraw, hout⟩
  · exact Or.inl h
  · refine Or.inr (Or.inl ⟨e.2, mem_values_of_mem_entries ?_, raw, hraw, hout⟩)
    rw [hsplit]
    simp

theorem Reported.fault {side : SourceSide} {r : Relay} (h : Reported side r) : Fault side r :=
  h.imp_left EarlyFault.readFault

/-! ## One relay -/

/-- A point has a raw value, and decodes where that is in range and its sign converts. -/
theorem decode_cases {side : SourceSide} (hside : FloatSection side) {replies : ℕ → Response}
    (hfull : FullReplies side replies) (host : String) {e : String × SourcePoint}
    (he : e ∈ side.points.entries) :
    ∃ raw, rawValue side (repliedBlocks side replies) e.2 = .ok raw ∧
      (outOfRange raw = true ∧ decode side (repliedBlocks side replies) host e.1 e.2 =
          .error (.pollError (.etangoOutOfRange host e.1 raw)) ∨
        outOfRange raw = false ∧ (PyFloat.ofInt? e.2.sign).isSome = true ∧
          (∃ v, decode side (repliedBlocks side replies) host e.1 e.2 = .ok v) ∨
        outOfRange raw = false ∧ ¬(PyFloat.ofInt? e.2.sign).isSome = true ∧
          decode side (repliedBlocks side replies) host e.1 e.2 =
            .error (.overflowError "int too large to convert to float")) := by
  have hpt := mem_values_of_mem_entries he
  obtain ⟨regs, hregs, hlen⟩ :=
    extractSized_isOk (readGroups_of_etango hside.groups) hfull hpt (hside.addr e.2 hpt)
  rw [width_float32 (hside.float32 e.2 hpt)] at hlen
  obtain ⟨raw, hraw⟩ := registersToFloat_isOk hlen.ge side.wordOrder side.byteOrder
  have hdec : decode side (repliedBlocks side replies) host e.1 e.2 =
      if outOfRange raw = true then .error (.pollError (.etangoOutOfRange host e.1 raw))
      else toSi raw e.2.scale e.2.sign e.2.offset := by
    simp only [decode, extractRegisters, hregs, hraw, bind, Except.bind]
    rfl
  refine ⟨raw, ?_, ?_⟩
  · simp only [rawValue, extractRegisters, hregs, bind, Except.bind, hraw]
  · rw [hdec]
    cases hout : outOfRange raw with
    | true => exact Or.inl ⟨rfl, rfl⟩
    | false =>
      rw [if_neg Bool.false_ne_true]
      by_cases hs : (PyFloat.ofInt? e.2.sign).isSome = true
      · exact Or.inr (Or.inl ⟨rfl, hs, toSi_isOk_iff.2 hs⟩)
      · refine Or.inr (Or.inr ⟨rfl, hs, ?_⟩)
        rw [Option.not_isSome_iff_eq_none] at hs
        simp [toSi, floatOfInt, hs, bind, Except.bind]

/-- A point that decodes has its raw value in range and a sign that converts. -/
theorem decode_eq_ok {side : SourceSide} (hside : FloatSection side) {replies : ℕ → Response}
    (hfull : FullReplies side replies) {host : String} {e : String × SourcePoint}
    (he : e ∈ side.points.entries) {v : PyFloat}
    (hv : decode side (repliedBlocks side replies) host e.1 e.2 = .ok v) :
    (PyFloat.ofInt? e.2.sign).isSome = true ∧ ∀ raw,
      rawValue side (repliedBlocks side replies) e.2 = .ok raw → outOfRange raw = false := by
  obtain ⟨raw, hraw, ⟨-, hbad⟩ | ⟨hin, hs, -⟩ | ⟨-, -, hbad⟩⟩ := decode_cases hside hfull host he
  · cases hv.symm.trans hbad
  · refine ⟨hs, fun raw' hraw' => ?_⟩
    obtain rfl := Except.ok.inj (hraw.symm.trans hraw')
    exact hin
  · cases hv.symm.trans hbad

omit [FloatArith] in
/-- Targets are all written, or the first whose value raises stops it. -/
theorem writeTargets_cases {α : Type} {F : α → Except PyExc PyFloat} :
    ∀ (ts : List (String × α)) (u : Sample),
      (∃ u', writeTargets (fun _ => F) ts u = .ok u') ∧ (∀ t ∈ ts, ∃ v, F t.2 = .ok v) ∨
        ∃ pre t post e, ts = pre ++ t :: post ∧ (∀ t' ∈ pre, ∃ v, F t'.2 = .ok v) ∧
          F t.2 = .error e ∧ writeTargets (fun _ => F) ts u = .error e
  | [], u => Or.inl ⟨⟨u, rfl⟩, by simp⟩
  | t :: ts, u => by
    rcases Except.ok_or_error (F t.2) with ⟨v, hv⟩ | ⟨e, he⟩
    · have hstep : writeTargets (fun _ => F) (t :: ts) u =
          writeTargets (fun _ => F) ts (u.set t.1 v) := by
        rw [writeTargets, hv]
        rfl
      rw [hstep]
      rcases writeTargets_cases ts (u.set t.1 v) with ⟨hok, hall⟩ | ⟨pre, t', post, e, rfl, h⟩
      · exact Or.inl ⟨hok, List.forall_mem_cons.2 ⟨⟨v, hv⟩, hall⟩⟩
      · exact Or.inr ⟨t :: pre, t', post, e, rfl, List.forall_mem_cons.2 ⟨⟨v, hv⟩, h.1⟩, h.2⟩
    · refine Or.inr ⟨[], t, ts, e, rfl, by simp, he, ?_⟩
      rw [writeTargets, he]
      rfl

omit [FloatArith] in
/-- Of two places in a list the first is before the second, the same, or after it. -/
theorem split_cases {α : Type} {pre post pre' post' : List α} {x x' : α}
    (h : pre ++ x :: post = pre' ++ x' :: post') : x' ∈ pre ∨ x' = x ∨ x ∈ pre' := by
  rcases List.append_eq_append_iff.1 h with ⟨mid, rfl, hmid⟩ | ⟨mid, rfl, hmid⟩
  · cases mid with
    | nil => exact Or.inr (Or.inl (List.cons.inj hmid).1.symm)
    | cons y mid =>
      obtain ⟨rfl, -⟩ := List.cons.inj hmid
      exact Or.inr (Or.inr (by simp))
  · cases mid with
    | nil => exact Or.inr (Or.inl (List.cons.inj hmid).1)
    | cons y mid =>
      obtain ⟨rfl, -⟩ := List.cons.inj hmid
      exact Or.inl (by simp)

theorem deviceValues_of_full {side : SourceSide} {r : Relay} (h : FullReplies side r.replies) :
    deviceValues side r.link = (do
      let values ← decodeSource side (repliedBlocks side r.replies) r.host
      let values ← applyDerive values side.derive
      checkFinite r.host values
      return values) := by
  unfold deviceValues
  rw [readGroups, Relay.link, readDeclaredGroups_of_full h]
  rfl

/-- The points of a relay all decode, or the first that does not is out of range or has a
sign that does not convert. -/
theorem decodeSource_cases {side : SourceSide} (hside : FloatSection side) {r : Relay}
    (hfull : FullReplies side r.replies) :
    (∃ values, decodeSource side (repliedBlocks side r.replies) r.host = .ok values) ∧
        SignsConvert side ∧
        (∀ pt ∈ side.points.values, ∀ raw,
          rawValue side (repliedBlocks side r.replies) pt = .ok raw → outOfRange raw = false) ∨
      (∃ e, decodeSource side (repliedBlocks side r.replies) r.host = .error (.pollError e)) ∧
        (∃ pre e post raw, side.points.entries = pre ++ e :: post ∧
          (∀ e' ∈ pre, (PyFloat.ofInt? e'.2.sign).isSome = true) ∧
          rawValue side (repliedBlocks side r.replies) e.2 = .ok raw ∧ outOfRange raw = true) ∨
      decodeSource side (repliedBlocks side r.replies) r.host =
          .error (.overflowError "int too large to convert to float") ∧
        ¬SignsConvert side ∧
        ¬∃ pre e post raw, side.points.entries = pre ++ e :: post ∧
          (∀ e' ∈ pre, (PyFloat.ofInt? e'.2.sign).isSome = true) ∧
          rawValue side (repliedBlocks side r.replies) e.2 = .ok raw ∧ outOfRange raw = true := by
  rcases writeTargets_cases (F := fun e : String × SourcePoint =>
      decode side (repliedBlocks side r.replies) r.host e.1 e.2)
    (side.points.entries.map fun e => (e.1, e)) .empty with
    ⟨hok, hall⟩ | ⟨pre, t, post, err, hsplit, hpre, ht, herr⟩
  · have hall : ∀ e ∈ side.points.entries,
        ∃ v, decode side (repliedBlocks side r.replies) r.host e.1 e.2 = .ok v := fun e he =>
      hall (e.1, e) (List.mem_map.2 ⟨e, he, rfl⟩)
    refine Or.inl ⟨hok, fun pt hpt => ?_, fun pt hpt => ?_⟩ <;>
      obtain ⟨e, he, rfl⟩ := List.mem_map.1 hpt <;>
      obtain ⟨v, hv⟩ := hall e he
    · exact (decode_eq_ok hside hfull he hv).1
    · exact (decode_eq_ok hside hfull he hv).2
  · obtain ⟨pre', rest, hentries, rfl, hrest⟩ := List.map_eq_append_iff.1 hsplit
    obtain ⟨e, post', rfl, rfl, rfl⟩ := List.map_eq_cons_iff.1 hrest
    have he : e ∈ side.points.entries := by
      rw [hentries]
      simp
    have hpre : ∀ e' ∈ pre', (PyFloat.ofInt? e'.2.sign).isSome = true ∧ ∀ raw,
        rawValue side (repliedBlocks side r.replies) e'.2 = .ok raw → outOfRange raw = false := by
      intro e' he'
      obtain ⟨v, hv⟩ := hpre (e'.1, e') (List.mem_map.2 ⟨e', he', rfl⟩)
      refine decode_eq_ok hside hfull ?_ hv
      rw [hentries]
      exact List.mem_append_left _ he'
    obtain ⟨raw, hraw, ⟨hout, hbad⟩ | ⟨-, -, v, hv⟩ | ⟨hin, hs, hbad⟩⟩ :=
      decode_cases hside hfull r.host he
    · obtain rfl := Except.error.inj (ht.symm.trans hbad)
      refine Or.inr (Or.inl ⟨⟨_, herr⟩, pre', e, post', raw, hentries, fun e' he' => ?_, hraw,
        hout⟩)
      exact (hpre e' he').1
    · cases ht.symm.trans hv
    · obtain rfl := Except.error.inj (ht.symm.trans hbad)
      refine Or.inr (Or.inr ⟨herr, fun hall => hs (hall e.2 (mem_values_of_mem_entries he)), ?_⟩)
      rintro ⟨pre₁, e₁, post₁, raw₁, hsplit₁, hpre₁, hraw₁, hout₁⟩
      rcases split_cases (hentries.symm.trans hsplit₁) with hmem | rfl | hmem
      · rw [(hpre e₁ hmem).2 raw₁ hraw₁] at hout₁
        cases hout₁
      · obtain rfl := Except.ok.inj (hraw.symm.trans hraw₁)
        rw [hin] at hout₁
        cases hout₁
      · exact hs (hpre₁ e hmem)

omit [FloatArith] in
/-- Values that are not all finite are an error. -/
theorem checkFinite_cases (host : String) (values : Sample) :
    checkFinite host values = .ok () ∧
        (∀ key v, values.get? key = some v → v.isFinite = true) ∨
      (∃ e, checkFinite host values = .error (.pollError e)) ∧
        ∃ key v, values.get? key = some v ∧ v.isFinite = false := by
  cases hfind : values.entries.find? (fun e => !e.2.isFinite) with
  | none =>
    have hok : checkFinite host values = .ok () := by
      unfold checkFinite
      rw [hfind]
    exact Or.inl ⟨hok, fun key v h => checkFinite_eq_ok hok _ (Dict.mem_entries_of_get? h)⟩
  | some e =>
    refine Or.inr ⟨?_, e.1, e.2, ?_, ?_⟩
    · unfold checkFinite
      rw [hfind]
      exact ⟨_, rfl⟩
    · exact Dict.get?_eq_some_iff.2 (List.mem_of_find?_eq_some hfind)
    · simpa using List.find?_some hfind

/-- A relay whose points decode has values, unless one of them is not finite after the derive
rules. -/
theorem deviceValues_of_decoded {side : SourceSide} {r : Relay} (hadd : WeightsAdd side r)
    (hfull : FullReplies side r.replies) {values : Sample}
    (hvalues : decodeSource side (repliedBlocks side r.replies) r.host = .ok values) :
    DerivedFault side r ∧ (∃ e, deviceValues side r.link = .error (.pollError e)) ∨
      ¬DerivedFault side r ∧ ∃ derived, deviceValues side r.link = .ok derived := by
  obtain ⟨derived, hderived⟩ : ∃ derived, applyDerive values side.derive = .ok derived := by
    rcases applyDerive_cases side.derive values with ⟨h, -⟩ | ⟨-, hover⟩
    · exact h
    · exact absurd hover (hadd values hvalues)
  rw [deviceValues_of_full hfull]
  simp only [hvalues, hderived, bind, Except.bind]
  rcases checkFinite_cases r.host derived with ⟨hok, hfin⟩ | ⟨⟨e, he⟩, hbad⟩
  · refine Or.inr ⟨?_, derived, ?_⟩
    · rintro ⟨values', derived', hv, hd, key, v, hget, hbad⟩
      obtain rfl := Except.ok.inj (hvalues.symm.trans hv)
      obtain rfl := Except.ok.inj (hderived.symm.trans hd)
      rw [hfin key v hget] at hbad
      cases hbad
    · simp only [hok]
      rfl
  · refine Or.inl ⟨⟨values, derived, hvalues, hderived, hbad⟩, e, ?_⟩
    simp only [he]

/-- The poll of a relay raises a `PollError` for what is reported, another error for a sign
that does not convert, and has values elsewhere. -/
theorem deviceValues_cases {side : SourceSide} (hside : FloatSection side) {r : Relay}
    (hadd : WeightsAdd side r) :
    Reported side r ∧ (∃ e, deviceValues side r.link = .error (.pollError e)) ∨
      ¬Reported side r ∧ SignsConvert side ∧ (∃ values, deviceValues side r.link = .ok values) ∨
      ¬Reported side r ∧ ¬SignsConvert side ∧ deviceValues side r.link =
        .error (.overflowError "int too large to convert to float") := by
  by_cases hfull : FullReplies side r.replies
  · rcases decodeSource_cases hside hfull with
      ⟨⟨values, hvalues⟩, hsigns, hrange⟩ | ⟨⟨e, he⟩, hraw⟩ | ⟨herr, hsigns, hraw⟩
    · have hreported : Reported side r ↔ DerivedFault side r := by
        refine ⟨?_, Or.inr⟩
        rintro ((hno | ⟨pre, e, post, raw, hsplit, -, hraw, hout⟩) | h)
        · exact absurd hfull hno
        · have he : e.2 ∈ side.points.values := mem_values_of_mem_entries (by rw [hsplit]; simp)
          rw [hrange e.2 he raw hraw] at hout
          cases hout
        · exact h
      rw [hreported]
      rcases deviceValues_of_decoded hadd hfull hvalues with ⟨hfault, herr⟩ | ⟨hfault, hok⟩
      · exact Or.inl ⟨hfault, herr⟩
      · exact Or.inr (Or.inl ⟨hfault, hsigns, hok⟩)
    · refine Or.inl ⟨Or.inl (Or.inr hraw), e, ?_⟩
      simp only [deviceValues_of_full hfull, he, bind, Except.bind]
    · refine Or.inr (Or.inr ⟨?_, hsigns, ?_⟩)
      swap
      · simp only [deviceValues_of_full hfull, herr, bind, Except.bind]
      rintro ((hno | h) | ⟨values, derived, hv, -⟩)
      · exact hno hfull
      · exact hraw h
      · cases herr.symm.trans hv
  · obtain ⟨e, he, -⟩ := @readDeclaredGroups_of_not_full _ _ hfull .input r.unitId
      (.etangoRead r.host) (.etangoShort r.host) (fun _ => True) (fun _ _ _ => trivial)
      fun _ _ _ _ => trivial
    refine Or.inl ⟨Or.inl (Or.inl hfull), e, ?_⟩
    exact Except.bind_eq_error.2 (Or.inl he)

theorem deviceValues_isOk {side : SourceSide} (hside : FloatSection side) {r : Relay}
    (hadd : WeightsAdd side r) (hsigns : SignsConvert side) (hrep : ¬Reported side r) :
    ∃ values, deviceValues side r.link = .ok values := by
  rcases deviceValues_cases hside hadd with ⟨h, -⟩ | ⟨-, -, h⟩ | ⟨-, h, -⟩
  · exact absurd h hrep
  · exact h
  · exact absurd hsigns h

theorem deviceValues_eq_overflow {side : SourceSide} (hside : FloatSection side) {r : Relay}
    (hadd : WeightsAdd side r) (hsigns : ¬SignsConvert side) (hrep : ¬Reported side r) :
    deviceValues side r.link = .error (.overflowError "int too large to convert to float") := by
  rcases deviceValues_cases hside hadd with ⟨h, -⟩ | ⟨-, h, -⟩ | ⟨-, -, h⟩
  · exact absurd h hrep
  · exact absurd h hsigns
  · exact h

theorem deviceValues_reported {side : SourceSide} (hside : FloatSection side) {r : Relay}
    (hadd : WeightsAdd side r) (hrep : Reported side r) :
    ∃ e, deviceValues side r.link = .error (.pollError e) := by
  rcases deviceValues_cases hside hadd with ⟨-, h⟩ | ⟨h, -⟩ | ⟨h, -⟩
  · exact h
  · exact absurd hrep h
  · exact absurd hrep h

/-! ## The group -/

/-- One poll of the relays. -/
def pollRelays (side : SourceSide) (slave : ℤ) (seen : Option (Finset String))
    (relays : List Relay) : Except PyExc Sample :=
  (pollOnce ⟨relays.map Relay.link⟩ side slave seen).result

/-- The same exception, or the same value for every name. -/
def SameReading (x y : Except PyExc Sample) : Prop := x.map Dict.get? = y.map Dict.get?

/-- `fsum` sums the readings of each key exactly and rounds once, in every order of them. -/
def ReadingsAdd (perDevice : List Sample) : Prop :=
  ∀ key xs, List.Perm xs (perDevice.filterMap (·.get? key)) →
    PyFloat.fsum xs = .ok (.ofSum (xs.map PyFloat.toRat).sum)

/-- `fsum` is exact summation : no weights of a rule overflow, and readings add up. -/
structure SumsExact (side : SourceSide) (relays : List Relay) : Prop where
  weights : ∀ r ∈ relays, WeightsAdd side r
  readings : ∀ perDevice, (relays.map Relay.link).mapM (deviceValues side) = .ok perDevice →
    ReadingsAdd (aggregating perDevice (relays.map Relay.link))

theorem ReadingsAdd.perm {perDevice perDevice' : List Sample} (h : ReadingsAdd perDevice)
    (hperm : perDevice'.Perm perDevice) : ReadingsAdd perDevice' :=
  fun key xs hxs => h key xs (hxs.trans (hperm.filterMap _))

/-- A key combines to a function of the sum and the number of its readings. -/
theorem combineKey_eq {side : SourceSide} {perDevice : List Sample}
    (hall : ∀ values ∈ perDevice, DeviceSample side values) (hadd : ReadingsAdd perDevice)
    {key : String} (hk : key ∈ mapKeys side) : combineKey perDevice side key =
      let total := PyFloat.ofSum (keyReadings perDevice key).sum
      if aggregateMode key side = .sum then .ok total else divLen total perDevice.length := by
  have hrat : (perDevice.map (getValue · key)).map PyFloat.toRat = keyReadings perDevice key := by
    rw [List.map_map]
    rfl
  have hsum := hadd key _ (List.Perm.refl _)
  rw [filterMap_get? hall hk, hrat] at hsum
  unfold combineKey
  simp only [filterMap_get? hall hk, fsum, hsum, List.length_map, bind, Except.bind]
  rfl

theorem combine_isOk {side : SourceSide} {perDevice : List Sample}
    (hall : ∀ values ∈ perDevice, DeviceSample side values) (hadd : ReadingsAdd perDevice) :
    ∃ combined, combine perDevice side = .ok combined := by
  refine exists_writeTargets _ fun t ht _ => ?_
  obtain ⟨key, hkey, rfl⟩ := List.mem_map.1 ht
  obtain ⟨values, hv, hkey⟩ := List.mem_flatMap.1 (List.mem_dedup.1 hkey)
  rw [combineKey_eq hall hadd (((hall values hv).keys key).1 hkey)]
  dsimp only
  split_ifs
  · exact ⟨_, rfl⟩
  · exact divLen_isOk (List.length_pos_of_mem hv).ne'

/-- The order of the devices does not matter. -/
theorem combine_perm {side : SourceSide} {perDevice perDevice' : List Sample}
    (hperm : perDevice'.Perm perDevice) (hall : ∀ values ∈ perDevice, DeviceSample side values)
    (hadd : ReadingsAdd perDevice) :
    SameReading (combine perDevice' side) (combine perDevice side) := by
  have hkey : ∀ key, (keyReadings perDevice' key).Perm (keyReadings perDevice key) := fun key =>
    hperm.map _
  have hall' : ∀ values ∈ perDevice', DeviceSample side values := fun values hv =>
    hall values (hperm.mem_iff.1 hv)
  have hadd' := hadd.perm hperm
  obtain ⟨combined, hcombined⟩ := combine_isOk hall hadd
  obtain ⟨combined', hcombined'⟩ := combine_isOk hall' hadd'
  have hkeys : ∀ key, key ∈ combined'.keys ↔ key ∈ combined.keys := by
    intro key
    rw [mem_keys_combine_iff hall hcombined, mem_keys_combine_iff hall' hcombined']
    refine and_congr_left fun _ => not_congr ⟨?_, ?_⟩
    · rintro rfl
      exact hperm.nil_eq.symm
    · rintro rfl
      exact hperm.eq_nil
  rw [SameReading, hcombined, hcombined']
  refine congrArg Except.ok (funext fun key => ?_)
  by_cases hk : key ∈ combined.keys
  · have hmap := ((mem_keys_combine_iff hall hcombined).1 hk).2
    obtain ⟨v, hv, hget⟩ := get?_combine hcombined hk
    obtain ⟨v', hv', hget'⟩ := get?_combine hcombined' ((hkeys key).2 hk)
    rw [combineKey_eq hall hadd hmap] at hv
    rw [combineKey_eq hall' hadd' hmap, (hkey key).sum_eq, hperm.length_eq] at hv'
    obtain rfl := Except.ok.inj (hv.symm.trans hv')
    rw [hget, hget']
  · rw [Dict.get?_eq_none_iff.2 hk, Dict.get?_eq_none_iff.2 (mt (hkeys key).1 hk)]

/-- The aliases are functions of the values. -/
theorem SameReading.computeDerived {x y : Except PyExc Sample} (h : SameReading x y) :
    SameReading (x.map DtsuBridge.computeDerived) (y.map DtsuBridge.computeDerived) := by
  cases x with
  | error e =>
    cases y with
    | error e' => exact congrArg Except.error (Except.error.inj h)
    | ok d' => cases h
  | ok d =>
    cases y with
    | error e' => cases h
    | ok d' =>
      have hget : d.get? = d'.get? := Except.ok.inj h
      refine congrArg Except.ok (funext fun key => ?_)
      rw [get?_computeDerived, get?_computeDerived, hget]

/-- The values of a relay that is read without fault. -/
def valuesOf (side : SourceSide) (r : Relay) : Sample :=
  (deviceValues side r.link).toOption.getD .empty

theorem deviceValues_eq_valuesOf {side : SourceSide} {r : Relay}
    (h : ∃ values, deviceValues side r.link = .ok values) :
    deviceValues side r.link = .ok (valuesOf side r) := by
  obtain ⟨values, hv⟩ := h
  rw [valuesOf, hv]
  rfl

omit [FloatArith] in
theorem aggregating_map (f : Relay → Sample) (relays : List Relay) :
    aggregating (relays.map f) (relays.map Relay.link) =
      (relays.filter (·.aggregate)).map f := by
  unfold aggregating
  rw [List.zip_map', List.filter_map, List.map_map]
  rfl

/-- Relays that are all read without fault. -/
theorem pollRelays_of_ok {side : SourceSide} {relays : List Relay}
    (h : ∀ r ∈ relays, ∃ values, deviceValues side r.link = .ok values) (slave : ℤ)
    (seen : Option (Finset String)) :
    (relays.map Relay.link).mapM (deviceValues side) = .ok (relays.map (valuesOf side)) ∧
      pollRelays side slave seen relays =
        (combine ((relays.filter (·.aggregate)).map (valuesOf side)) side).map computeDerived := by
  have hread : (relays.map Relay.link).mapM (deviceValues side) =
      .ok (relays.map (valuesOf side)) := by
    refine List.mapM_map.trans (Except.mapM_eq_ok_map fun r hr => ?_)
    exact deviceValues_eq_valuesOf (h r hr)
  refine ⟨hread, ?_⟩
  unfold pollRelays pollOnce
  simp only [hread, aggregating_map, bind, Except.bind]
  cases combine ((relays.filter (·.aggregate)).map (valuesOf side)) side <;> rfl

/-- The first relay is read first. -/
theorem pollRelays_of_head {side : SourceSide} {r : Relay} {e : PyExc}
    (h : deviceValues side r.link = .error e) (relays : List Relay) (slave : ℤ)
    (seen : Option (Finset String)) : pollRelays side slave seen (r :: relays) = .error e := by
  unfold pollRelays pollOnce
  simp only [List.map_cons, List.mapM_cons, h, bind, Except.bind]

/-- Relays that are all read without fault combine. -/
theorem pollRelays_isOk {side : SourceSide} {relays : List Relay} (hsums : SumsExact side relays)
    (h : ∀ r ∈ relays, ∃ values, deviceValues side r.link = .ok values) (slave : ℤ)
    (seen : Option (Finset String)) :
    ∃ sample, pollRelays side slave seen relays = .ok sample := by
  obtain ⟨hread, hpoll⟩ := pollRelays_of_ok h slave seen
  have hadd := hsums.readings _ hread
  have hall := deviceSample_of_mem_aggregating hread
  rw [aggregating_map] at hadd hall
  obtain ⟨combined, hcombined⟩ := combine_isOk hall hadd
  rw [hpoll, hcombined]
  exact ⟨_, rfl⟩

/-- With signs that convert, a poll raises where a relay is reported, and a `PollError`. -/
theorem pollRelays_of_signs {side : SourceSide} (hside : FloatSection side) {relays : List Relay}
    (hsums : SumsExact side relays) (hsigns : SignsConvert side) (slave : ℤ)
    (seen : Option (Finset String)) :
    (∃ e, pollRelays side slave seen relays = .error (.pollError e)) ↔
      ∃ r ∈ relays, Reported side r := by
  have hok : ∀ r ∈ relays, ¬Reported side r →
      ∃ values, deviceValues side r.link = .ok values := fun r hr =>
    deviceValues_isOk hside (hsums.weights r hr) hsigns
  have herr : ∀ r ∈ relays, Reported side r →
      ∃ e, deviceValues side r.link = .error (.pollError e) := fun r hr =>
    deviceValues_reported hside (hsums.weights r hr)
  by_cases hrep : ∃ r ∈ relays, Reported side r
  · refine iff_of_true ?_ hrep
    have hno : ¬∃ perDevice,
        (relays.map Relay.link).mapM (deviceValues side) = .ok perDevice := by
      intro hper
      obtain ⟨r, hr, hreported⟩ := hrep
      obtain ⟨_, hvalues⟩ := Except.exists_mapM_eq_ok.1 hper r.link (List.mem_map_of_mem hr)
      obtain ⟨e, he⟩ := herr r hr hreported
      cases hvalues.symm.trans he
    obtain ⟨exc, hexc⟩ := Except.exists_error_iff.2 hno
    obtain ⟨link, hmem, hlink⟩ := Except.exists_of_mapM_eq_error hexc
    obtain ⟨r, hr, rfl⟩ := List.mem_map.1 hmem
    by_cases hreported : Reported side r
    · obtain ⟨e, he⟩ := herr r hr hreported
      obtain rfl := Except.error.inj (hlink.symm.trans he)
      exact ⟨e, Except.bind_eq_error.2 (Or.inl hexc)⟩
    · obtain ⟨_, hvalues⟩ := hok r hr hreported
      cases hlink.symm.trans hvalues
  · refine iff_of_false ?_ hrep
    rintro ⟨e, he⟩
    obtain ⟨sample, hsample⟩ :=
      pollRelays_isOk hsums (fun r hr => hok r hr fun h => hrep ⟨r, hr, h⟩) slave seen
    cases he.symm.trans hsample

/-- With a sign that does not convert, the first relay decides. -/
theorem pollRelays_of_not_signs {side : SourceSide} (hside : FloatSection side)
    {relays : List Relay} (hsums : SumsExact side relays) (hsigns : ¬SignsConvert side) (slave : ℤ)
    (seen : Option (Finset String)) :
    (∃ e, pollRelays side slave seen relays = .error (.pollError e)) ↔
      ∃ r ∈ relays.head?, Reported side r := by
  cases relays with
  | nil =>
    refine iff_of_false ?_ (by simp)
    rintro ⟨e, he⟩
    cases he
  | cons r relays =>
    have hhead : (∃ r' ∈ (r :: relays).head?, Reported side r') ↔ Reported side r := by simp
    have hadd := hsums.weights r List.mem_cons_self
    rw [hhead]
    by_cases hrep : Reported side r
    · obtain ⟨e, he⟩ := deviceValues_reported hside hadd hrep
      exact iff_of_true ⟨e, pollRelays_of_head he relays slave seen⟩ hrep
    · refine iff_of_false ?_ hrep
      rintro ⟨e, h⟩
      rw [pollRelays_of_head (deviceValues_eq_overflow hside hadd hsigns hrep)] at h
      cases h

/-- A poll raises a `PollError` where a relay is reported, if the signs convert, and where
the first one is, if they do not. -/
theorem pollRelays_raises_iff {side : SourceSide} (hside : FloatSection side) {relays : List Relay}
    (hsums : SumsExact side relays) (slave : ℤ) (seen : Option (Finset String)) :
    (∃ e, pollRelays side slave seen relays = .error (.pollError e)) ↔
      (SignsConvert side ∧ ∃ r ∈ relays, Reported side r) ∨
        ∃ r ∈ relays.head?, Reported side r := by
  by_cases hsigns : SignsConvert side
  · have hhead : (∃ r ∈ relays.head?, Reported side r) → ∃ r ∈ relays, Reported side r :=
      fun ⟨r, hr, h⟩ => ⟨r, List.mem_of_mem_head? hr, h⟩
    rw [pollRelays_of_signs hside hsums hsigns, and_iff_right hsigns, or_iff_left_of_imp hhead]
  · rw [pollRelays_of_not_signs hside hsums hsigns, or_iff_right fun h => hsigns h.1]

/-- Two groups that combine the same relays in some order, none of them reported, have the
same reading. -/
theorem sameReading_of_perm {side : SourceSide} (hside : FloatSection side)
    {relays relays' : List Relay} (hne : relays ≠ []) (hne' : relays' ≠ [])
    (hsums : SumsExact side relays) (hadd' : ∀ r ∈ relays', WeightsAdd side r)
    (hrep : ∀ r ∈ relays, ¬Reported side r) (hrep' : ∀ r ∈ relays', ¬Reported side r)
    (hperm : (relays'.filter (·.aggregate)).Perm (relays.filter (·.aggregate))) (slave : ℤ)
    (seen : Option (Finset String)) :
    SameReading (pollRelays side slave seen relays') (pollRelays side slave seen relays) := by
  by_cases hsigns : SignsConvert side
  · obtain ⟨hread, hpoll⟩ := pollRelays_of_ok (fun r hr =>
      deviceValues_isOk hside (hsums.weights r hr) hsigns (hrep r hr)) slave seen
    obtain ⟨-, hpoll'⟩ := pollRelays_of_ok (fun r hr =>
      deviceValues_isOk hside (hadd' r hr) hsigns (hrep' r hr)) slave seen
    have hadd := hsums.readings _ hread
    have hall := deviceSample_of_mem_aggregating hread
    rw [aggregating_map] at hadd hall
    rw [hpoll, hpoll']
    exact (combine_perm (hperm.map _) hall hadd).computeDerived
  · have herr : ∀ {rs : List Relay}, rs ≠ [] → (∀ r ∈ rs, WeightsAdd side r) →
        (∀ r ∈ rs, ¬Reported side r) → pollRelays side slave seen rs =
          .error (.overflowError "int too large to convert to float") := by
      intro rs hrs hadd hrep
      obtain ⟨r, rest, rfl⟩ := List.exists_cons_of_ne_nil hrs
      have hmem : r ∈ r :: rest := List.mem_cons_self
      exact pollRelays_of_head
        (deviceValues_eq_overflow hside (hadd r hmem) hsigns (hrep r hmem)) rest slave seen
    rw [herr hne hsums.weights hrep, herr hne' hadd' hrep']
    rfl

/-- No division by zero occurs. -/
theorem pollRelays_ne_zeroDivision {side : SourceSide} (hside : FloatSection side)
    {relays : List Relay} (hsums : SumsExact side relays) (slave : ℤ)
    (seen : Option (Finset String)) (msg : String) :
    pollRelays side slave seen relays ≠ .error (.zeroDivisionError msg) := by
  intro h
  rcases Except.bind_eq_error.1 h with h | ⟨perDevice, hread, h⟩
  · obtain ⟨link, hmem, hlink⟩ := Except.exists_of_mapM_eq_error h
    obtain ⟨r, hr, rfl⟩ := List.mem_map.1 hmem
    rcases deviceValues_cases hside (hsums.weights r hr) with
      ⟨-, e, he⟩ | ⟨-, -, values, hok⟩ | ⟨-, -, he⟩
    · cases hlink.symm.trans he
    · cases hlink.symm.trans hok
    · cases hlink.symm.trans he
  · obtain ⟨combined, hcombined⟩ :=
      combine_isOk (deviceSample_of_mem_aggregating hread) (hsums.readings _ hread)
    rcases Except.bind_eq_error.1 h with h | ⟨_, -, h⟩
    · cases hcombined.symm.trans h
    · cases h

/-- A decoded value that is not finite and that no rule overwrites is reported. -/
theorem reported_of_decodedFault {side : SourceSide} (hside : FloatSection side) {r : Relay}
    (hadd : WeightsAdd side r) (hsigns : SignsConvert side) {key : String}
    (hkey : key ∉ side.derive.flatMap (·.targets)) (h : DecodedFault side r key) :
    Reported side r := by
  by_cases hfull : FullReplies side r.replies
  swap
  · exact Or.inl (Or.inl hfull)
  rcases decodeSource_cases hside hfull with
    ⟨⟨values, hvalues⟩, -, -⟩ | ⟨-, hraw⟩ | ⟨-, hno, -⟩
  · obtain ⟨pt, v, hmem, hdec, hfin⟩ := h
    obtain ⟨derived, hderived⟩ : ∃ derived, applyDerive values side.derive = .ok derived := by
      rcases applyDerive_cases side.derive values with ⟨h, -⟩ | ⟨-, hover⟩
      · exact h
      · exact absurd hover (hadd values hvalues)
    have hnodup : ((side.points.entries.map fun e => (e.1, e)).map Prod.fst).Nodup := by
      rw [List.map_map]
      exact side.points.nodup
    obtain ⟨v', hv', hget⟩ := (get?_writeTargets hnodup hvalues).1 (key, (key, pt))
      (List.mem_map_of_mem hmem)
    obtain rfl := Except.ok.inj (hdec.symm.trans hv')
    refine Or.inr ⟨values, derived, hvalues, hderived, key, v, ?_, hfin⟩
    rw [get?_applyDerive_of_not_mem hderived hkey, hget]
  · exact Or.inl (Or.inr hraw)
  · exact absurd hsigns hno

/-- With a sign that does not convert the rules of a relay do not run. -/
theorem earlyFault_of_not_signs {side : SourceSide} (hside : FloatSection side)
    (hsigns : ¬SignsConvert side) {r : Relay} (h : Reported side r) : EarlyFault side r := by
  rcases h with h | ⟨values, derived, hvalues, -⟩
  · exact h
  by_contra hearly
  have hfull : FullReplies side r.replies := not_not.1 fun h => hearly (Or.inl h)
  rcases decodeSource_cases hside hfull with ⟨-, hall, -⟩ | ⟨-, hraw⟩ | ⟨herr, -, -⟩
  · exact hsigns hall
  · exact hearly (Or.inr hraw)
  · cases herr.symm.trans hvalues

/-- A group of relays has no fault in its readings and reports none, or reports one, where its
faults show. -/
theorem fault_iff_raises_of_show {side : SourceSide} (hside : FloatSection side)
    {relays : List Relay} (hsums : SumsExact side relays) (hshow : FaultsShow side relays)
    (slave : ℤ) (seen : Option (Finset String)) :
    (∃ e, pollRelays side slave seen relays = .error (.pollError e)) ↔
      ∃ r ∈ relays, Fault side r := by
  rw [pollRelays_raises_iff hside hsums]
  refine ⟨?_, fun ⟨r, hr, hfault⟩ => ?_⟩
  · rintro (⟨-, r, hr, hrep⟩ | ⟨r, hr, hrep⟩)
    · exact ⟨r, hr, hrep.fault⟩
    · exact ⟨r, List.mem_of_mem_head? hr, hrep.fault⟩
  rcases hshow with hnone | ⟨r', hr', hearly⟩ | ⟨hsigns, r', hr', hearly | ⟨key, hkey, hdec⟩⟩
  · have hder : DerivedFault side r := hfault.resolve_left (hnone r hr)
    refine Or.inl ⟨?_, r, hr, Or.inr hder⟩
    by_contra hsigns
    exact hnone r hr (earlyFault_of_not_signs hside hsigns (Or.inr hder)).readFault
  · exact Or.inr ⟨r', hr', Or.inl hearly⟩
  · exact Or.inl ⟨hsigns, r', hr', Or.inl hearly⟩
  · exact Or.inl ⟨hsigns, r', hr',
      reported_of_decodedFault hside (hsums.weights r' hr') hsigns hkey hdec⟩

/-- Where a fault is hidden, only a derived value that is not finite makes the poll raise. -/
theorem raises_iff_of_not_show {side : SourceSide} (hside : FloatSection side)
    {relays : List Relay} (hsums : SumsExact side relays) (hshow : ¬FaultsShow side relays)
    (slave : ℤ) (seen : Option (Finset String)) :
    (∃ e, pollRelays side slave seen relays = .error (.pollError e)) ↔
      SignsConvert side ∧ ∃ r ∈ relays, DerivedFault side r := by
  simp only [FaultsShow, not_or, not_and, not_exists] at hshow
  obtain ⟨-, hhead, hrest⟩ := hshow
  rw [pollRelays_raises_iff hside hsums]
  constructor
  · rintro (⟨hsigns, r, hr, hearly | hder⟩ | ⟨r, hr, hrep⟩)
    · exact absurd hearly (hrest hsigns r hr).1
    · exact ⟨hsigns, r, hr, hder⟩
    · have hsigns : SignsConvert side := by
        by_contra hsigns
        exact hhead r hr (earlyFault_of_not_signs hside hsigns hrep)
      exact ⟨hsigns, r, List.mem_of_mem_head? hr, hrep.resolve_left (hhead r hr)⟩
  · rintro ⟨hsigns, r, hr, hder⟩
    exact Or.inl ⟨hsigns, r, hr, Or.inr hder⟩

/-- Exact arithmetic sums exactly. -/
theorem sumsExact [FloatArith.Exact] (side : SourceSide) (relays : List Relay) :
    SumsExact side relays := by
  refine ⟨fun r _ values _ => ?_, fun perDevice hread key xs hxs => ?_⟩
  · rintro ⟨-, op, -, values', -, -, hover⟩
    exact not_weightsOverflow values' op hover
  · refine PyFloat.fsum_of_isFinite fun x hx => ?_
    obtain ⟨values, hv, hget⟩ := List.mem_filterMap.1 (hxs.mem_iff.1 hx)
    exact (deviceSample_of_mem_aggregating hread values hv).finite key x hget

/-- The faults of a relay can be computed. -/
theorem not_fault_of_checks {side : SourceSide} {r : Relay} (hfull : FullReplies side r.replies)
    (hraw : ∀ pt ∈ side.points.values,
      (rawValue side (repliedBlocks side r.replies) pt).toOption.all (!outOfRange ·) = true)
    (hdec : ∀ e ∈ side.points.entries,
      (decode side (repliedBlocks side r.replies) r.host e.1 e.2).toOption.all (·.isFinite) = true)
    (hder : (decodeSource side (repliedBlocks side r.replies) r.host).toOption.all
      (fun values => (applyDerive values side.derive).toOption.all fun derived =>
        derived.entries.all (·.2.isFinite)) = true) : ¬Fault side r := by
  rintro ((h | ⟨pt, hpt, raw, hok, hout⟩ | ⟨key, pt, v, he, hok, hv⟩) | ⟨values, derived, hv, hd,
    key, v, hget, hfin⟩)
  · exact h hfull
  · have := hraw pt hpt
    simp [hok, Except.toOption, hout] at this
  · have := hdec (key, pt) he
    simp [hok, Except.toOption, hv] at this
  · simp only [hv, hd, Except.toOption, Option.all_some] at hder
    have := List.all_eq_true.1 hder _ (Dict.mem_entries_of_get? hget)
    simp [hfin] at this

end Float

/-- A relay that answers every block with the same registers. -/
def registersRelay (registers : List ℕ) (aggregate : Bool) : Relay where
  replies := fun _ => ⟨registers, none⟩
  unitId := 1
  aggregate := aggregate
  host := "relay"

/-- A relay of 10, and one of 30 that is not combined. -/
def tenRelay : Relay := registersRelay [0x4120, 0, 0, 0] true

def thirtyRelay : Relay := registersRelay [0x41F0, 0, 0, 0] false

theorem floatSection_overwrittenSource : FloatSection overwrittenSource :=
  ⟨rfl, by simp [overwrittenSource, Dict.values, etangoPoint],
    by simp [overwrittenSource, Dict.values, etangoPoint]⟩

def hugeScale : PyFloat := .lit (2 ^ 1000 : ℕ)

/-- A point that a large scale takes out of range, and a rule that overwrites it. -/
def maskedSource : SourceSide where
  points := ⟨[("p_total", etangoPoint 0 .sum 1 hugeScale)], by simp⟩
  readGroups := some [pairGroup]
  derive := [
    { op := .constant, targets := ["p_total"], value := some 0,
      targets_ne := by simp, arity := rfl }]
  covered := rfl

/-- The registers of `2 ^ 66`, in range itself. -/
def maskedRelay : Relay := registersRelay [0x6080, 0] true

theorem sumsExact_maskedSource : @SumsExact .double maskedSource [maskedRelay] := by
  refine @SumsExact.mk .double _ _ (fun r _ values _ => ?_) fun perDevice h key => ?_
  · rintro ⟨pre, op, post, -, hsplit, -, hop, -⟩
    have hmem : op ∈ maskedSource.derive := by
      rw [hsplit]
      simp
    simp only [maskedSource, List.mem_singleton] at hmem
    rw [hmem] at hop
    cases hop
  · have hzero : ((([maskedRelay].map Relay.link).mapM
        (@deviceValues .double maskedSource)).toOption.all fun per =>
          per.all fun values => values.entries.all fun e => e.2 = 0) = true := by
      decide +kernel
    rw [h] at hzero
    intro xs hxs
    have hxs : ∀ x ∈ xs, x = 0 := by
      intro x hx
      obtain ⟨values, hv, hget⟩ := List.mem_filterMap.1 (hxs.mem_iff.1 hx)
      have hall := List.all_eq_true.1 hzero values (mem_of_mem_aggregating hv)
      exact of_decide_eq_true (List.all_eq_true.1 hall _ (Dict.mem_entries_of_get? hget))
    have hsum : (xs.map PyFloat.toRat).sum = 0 := by
      refine List.sum_eq_zero fun q hq => ?_
      obtain ⟨x, hx, rfl⟩ := List.mem_map.1 hq
      rw [hxs x hx, PyFloat.toRat_zero]
    rw [@PyFloat.fsum_zeros .double _ hxs, hsum, @PyFloat.ofSum_zero .double]

end Etango

end DtsuBridge
