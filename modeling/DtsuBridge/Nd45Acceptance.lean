import DtsuBridge.Declared

/-!
# What an ND45 poll accepts

A poll of an ND45 that answers its three reads decodes every point, and the result is
decided by which of them are invalid. `Invalid` : a raw float the point reads, their
weighted sum, or the SI value is not finite or past the measuring range.

`poll_acceptance` : the poll raises a `PollError` exactly when a point other than a power
factor is invalid, and otherwise returns the section's points and the energy aliases, all
finite. A point whose sign is too large for a float raises an `OverflowError` instead
(`SignOverflows`), unless a part of it is invalid, and a point named like an energy alias
is overwritten by it.
-/

namespace DtsuBridge

namespace Nd45

section Float

variable [FloatArith] {side : SourceSide} {groups : Blocks} {pt : SourcePoint}

/-! ## Invalid points -/

/-- The raw floats a point reads. -/
def rawFloats (side : SourceSide) (groups : Blocks) (pt : SourcePoint) :
    Except PyExc (List PyFloat) :=
  (addresses pt).mapM (reading side groups)

/-- A raw float, the weighted sum of the parts or the SI value is not finite or at least
`OVERRANGE` in magnitude. -/
def Invalid (side : SourceSide) (groups : Blocks) (pt : SourcePoint) : Prop :=
  ∃ readings, rawFloats side groups pt = .ok readings ∧
    ((∃ r ∈ readings, overRange r = true) ∨ overRange (rawOf pt readings) = true ∨
      ∃ si, declaredValue pt readings = .ok si ∧ overRange si = true)

/-- The sign is too large for a float, and no part is found invalid before it is used. -/
def SignOverflows (side : SourceSide) (groups : Blocks) (pt : SourcePoint) : Prop :=
  PyFloat.ofInt? pt.sign = none ∧
    (pt.compose = none ∨ ∃ readings, rawFloats side groups pt = .ok readings ∧
      ∀ r ∈ readings, overRange r = false)

/-- What a decoder makes of a point that reads these floats. -/
def DecodesTo (side : SourceSide) (groups : Blocks) (pt : SourcePoint)
    (readings : List PyFloat) : Prop :=
  (SignOverflows side groups pt ∧
      decode side groups pt = .error (.overflowError "int too large to convert to float")) ∨
    ¬SignOverflows side groups pt ∧ ∃ raw si, decode side groups pt = .ok (raw, si) ∧
      ((overRange si || overRange raw) = true ↔ Invalid side groups pt) ∧
      (¬Invalid side groups pt → declaredValue pt readings = .ok si)

theorem toSi_cases (raw scale offset : PyFloat) (sign : ℤ) :
    (PyFloat.ofInt? sign = none ∧ toSi raw scale sign offset =
        .error (.overflowError "int too large to convert to float")) ∨
      PyFloat.ofInt? sign ≠ none ∧ ∃ si, toSi raw scale sign offset = .ok si := by
  unfold toSi floatOfInt
  cases PyFloat.ofInt? sign with
  | none => exact Or.inl ⟨rfl, rfl⟩
  | some s => exact Or.inr ⟨by simp, _, rfl⟩

/-- A point of one address : its float and its SI value are both looked at. -/
theorem decodesTo_addr {a : ℤ} (ha : pt.addr = some a) (hc : pt.compose = none)
    {readings : List PyFloat} (hr : rawFloats side groups pt = .ok readings) :
    DecodesTo side groups pt readings := by
  have hread := hr
  rw [rawFloats, addresses_of_addr ha hc] at hread
  obtain ⟨raw, _, hraw, hnil, rfl⟩ := List.forall₂_cons_left_iff.1 (Except.mapM_eq_ok.1 hread)
  obtain rfl := List.forall₂_nil_left_iff.1 hnil
  obtain ⟨regs, hregs, hfloat⟩ := Except.bind_eq_ok.1 hraw
  have hvalue := declaredValue_of_addr hc raw
  have hdecode : ∀ r : Except PyExc PyFloat, toSi raw pt.scale pt.sign pt.offset = r →
      decode side groups pt = r.bind fun si => .ok (raw, si) := by
    rintro r rfl
    unfold decode
    simp only [hc, ha, hregs, hfloat, decodePoint, bind, Except.bind]
    rfl
  rcases toSi_cases raw pt.scale pt.offset pt.sign with ⟨hs, hsi⟩ | ⟨hs, si, hsi⟩
  · exact Or.inl ⟨⟨hs, Or.inl hc⟩, hdecode _ hsi⟩
  · refine Or.inr ⟨fun h => hs h.1, raw, si, hdecode _ hsi, ?_, fun _ => hvalue.trans hsi⟩
    rw [hsi] at hvalue
    unfold Invalid
    rw [hr]
    simp only [Except.ok.injEq, exists_eq_left', rawOf_of_addr hc, hvalue, List.mem_singleton,
      exists_eq_left, Bool.or_eq_true]
    tauto

/-- A composed point : its parts are looked at before they are added up. -/
theorem decodesTo_compose {addrs : List ℤ} (hc : pt.compose = some addrs) (hne : addrs ≠ [])
    {readings : List PyFloat} (hr : rawFloats side groups pt = .ok readings) :
    DecodesTo side groups pt readings := by
  obtain ⟨a, addrs, rfl⟩ := List.exists_cons_of_ne_nil hne
  have hraw := hr
  have haddr : addresses pt = a :: addrs := by rw [addresses, hc]
  rw [rawFloats, haddr] at hraw
  have hrawOf : rawOf pt readings = compose readings (factorsOf pt readings.length) := by
    rw [rawOf, hc]
  cases hfind : readings.find? overRange with
  | some part =>
    have hmem := List.mem_of_find?_eq_some hfind
    have hpart : overRange part = true := List.find?_some hfind
    have hinvalid : Invalid side groups pt := ⟨readings, hr, Or.inl ⟨part, hmem, hpart⟩⟩
    refine Or.inr ⟨?_, part, part, ?_, by simp [hpart, hinvalid], fun h => absurd hinvalid h⟩
    · rintro ⟨-, h | ⟨rs, hrs, hall⟩⟩
      · simp [hc] at h
      · obtain rfl := Except.ok.inj (hr.symm.trans hrs)
        simp [hall part hmem] at hpart
    · unfold decode
      simp only [hc, hraw, bind, Except.bind, hfind]
      rfl
  | none =>
    have hall : ∀ r ∈ readings, overRange r = false := by
      simpa using List.find?_eq_none.1 hfind
    have hdecode : ∀ r : Except PyExc PyFloat,
        toSi (rawOf pt readings) pt.scale pt.sign pt.offset = r →
          decode side groups pt = r.bind fun si => .ok (rawOf pt readings, si) := by
      rintro r rfl
      unfold decode
      simp only [hc, hraw, bind, Except.bind, hfind, hrawOf]
      rfl
    rcases toSi_cases (rawOf pt readings) pt.scale pt.offset pt.sign with ⟨hs, hsi⟩ | ⟨hs, si, hsi⟩
    · exact Or.inl ⟨⟨hs, Or.inr ⟨readings, hr, hall⟩⟩, hdecode _ hsi⟩
    · refine Or.inr ⟨fun h => hs h.1, _, si, hdecode _ hsi, ?_, fun _ => hsi⟩
      have hno : ¬∃ r ∈ readings, overRange r = true := by
        rintro ⟨r, hr, h⟩
        simp [hall r hr] at h
      unfold Invalid
      rw [hr]
      simp only [Except.ok.injEq, exists_eq_left', declaredValue, hsi, Bool.or_eq_true, hno,
        false_or]
      exact or_comm

/-- Every point that reads its floats decodes to them. -/
theorem decodesTo {readings : List PyFloat} (hr : rawFloats side groups pt = .ok readings) :
    DecodesTo side groups pt readings := by
  rcases pt.cases with ⟨a, ha, hc⟩ | ⟨addrs, -, hc, hne, -, -⟩
  · exact decodesTo_addr ha hc hr
  · exact decodesTo_compose hc hne hr

/-! ## The point loop -/

/-- A point whose sign overflows makes the loop raise. -/
theorem pollPoints_overflows : ∀ {points : List (String × SourcePoint)} (acc : Gathered),
    (∀ e ∈ points, ∃ readings, rawFloats side groups e.2 = .ok readings) →
      (∃ e ∈ points, SignOverflows side groups e.2) →
        ∃ acc', pollPoints side groups points acc =
          (.error (.overflowError "int too large to convert to float"), acc')
  | [], _, _, hover => by simp at hover
  | (key, pt) :: points, acc, hreads, hover => by
    obtain ⟨⟨readings, hr⟩, hrest⟩ := List.forall_mem_cons.1 hreads
    unfold pollPoints
    rcases decodesTo hr with ⟨-, hdec⟩ | ⟨hno, raw, si, hdec, -⟩
    · rw [hdec]
      exact ⟨acc, rfl⟩
    · rw [hdec]
      refine pollPoints_overflows _ hrest ?_
      rcases (List.exists_mem_cons_iff ..).1 hover with h | h
      · exact absurd h hno
      · exact h

/-- What the loop gathered of a point. -/
def Taken (side : SourceSide) (groups : Blocks) (values : Sample) (e : String × SourcePoint) :
    Prop :=
  (Invalid side groups e.2 → e.1 ∈ OPTIONAL_INVALID_ZERO_POINTS → values.get? e.1 = some 0) ∧
    (¬Invalid side groups e.2 → ∃ readings si, rawFloats side groups e.2 = .ok readings ∧
      declaredValue e.2 readings = .ok si ∧ overRange si = false ∧ values.get? e.1 = some si)

/-- Taking a decoded point in. -/
theorem record_taken {raw si : PyFloat} {readings : List PyFloat} (acc : Gathered)
    (key : String) (hr : rawFloats side groups pt = .ok readings)
    (hinvalid : (overRange si || overRange raw) = true ↔ Invalid side groups pt)
    (hvalue : ¬Invalid side groups pt → declaredValue pt readings = .ok si) :
    Taken side groups (acc.record key raw si).values (key, pt) ∧
      (∀ k, k ≠ key → (acc.record key raw si).values.get? k = acc.values.get? k) ∧
      ((acc.record key raw si).invalidCritical = [] ↔ acc.invalidCritical = [] ∧
        (Invalid side groups pt → key ∈ OPTIONAL_INVALID_ZERO_POINTS)) := by
  unfold Gathered.record Taken
  dsimp only
  by_cases hinv : Invalid side groups pt
  · rw [if_pos (hinvalid.2 hinv)]
    by_cases hopt : key ∈ OPTIONAL_INVALID_ZERO_POINTS
    · simp only [hopt, decide_true, if_true]
      refine ⟨⟨fun _ _ => Dict.get?_set_self _ _ _, fun h => absurd hinv h⟩, fun k hk => ?_, ?_⟩
      · exact Dict.get?_set_ne _ _ hk
      · simp
    · simp only [hopt, decide_false, Bool.false_eq_true, if_false]
      refine ⟨⟨fun _ h => absurd h (by simp), fun h => absurd hinv h⟩, fun k hk => ?_, ?_⟩
      · exact Dict.get?_set_ne _ _ hk
      · simp [hinv]
  · have hfalse : (overRange si || overRange raw) = false := by
      simpa using mt hinvalid.1 hinv
    rw [hfalse, if_neg (by simp)]
    rw [Bool.or_eq_false_iff] at hfalse
    refine ⟨⟨fun h => absurd h hinv, fun _ => ?_⟩, fun k hk => Dict.get?_set_ne _ _ hk, ?_⟩
    · exact ⟨readings, si, hr, hvalue hinv, hfalse.1, Dict.get?_set_self _ _ _⟩
    · simp [hinv]

/-- The loop takes every point in, and notes the critical ones that are invalid. -/
theorem pollPoints_taken : ∀ {points : List (String × SourcePoint)} (acc : Gathered),
    (points.map Prod.fst).Nodup →
      (∀ e ∈ points, ∃ readings, rawFloats side groups e.2 = .ok readings) →
        (∀ e ∈ points, ¬SignOverflows side groups e.2) →
          ∃ acc', pollPoints side groups points acc = (.ok (), acc') ∧
            (∀ e ∈ points, Taken side groups acc'.values e) ∧
            (∀ k, k ∉ points.map Prod.fst → acc'.values.get? k = acc.values.get? k) ∧
            (acc'.invalidCritical = [] ↔ acc.invalidCritical = [] ∧
              ∀ e ∈ points, Invalid side groups e.2 → e.1 ∈ OPTIONAL_INVALID_ZERO_POINTS)
  | [], acc, _, _, _ => ⟨acc, rfl, by simp, by simp, by simp⟩
  | (key, pt) :: points, acc, hnodup, hreads, hno => by
    obtain ⟨⟨readings, hr⟩, hreads⟩ := List.forall_mem_cons.1 hreads
    obtain ⟨hno', hno⟩ := List.forall_mem_cons.1 hno
    rw [List.map_cons, List.nodup_cons] at hnodup
    rcases decodesTo hr with ⟨h, -⟩ | ⟨-, raw, si, hdec, hinvalid, hvalue⟩
    · exact absurd h hno'
    · obtain ⟨htaken, hother, hcritical⟩ := record_taken acc key hr hinvalid hvalue
      obtain ⟨acc', hloop, htaken', hother', hcritical'⟩ :=
        pollPoints_taken (acc.record key raw si) hnodup.2 hreads hno
      refine ⟨acc', ?_, List.forall_mem_cons.2 ⟨?_, htaken'⟩, fun k hk => ?_, ?_⟩
      · rw [pollPoints, hdec]
        exact hloop
      · unfold Taken at htaken ⊢
        rwa [hother' key hnodup.1]
      · rw [List.map_cons, List.mem_cons, not_or] at hk
        rw [hother' k hk.2, hother k hk.1]
      · rw [hcritical', hcritical, List.forall_mem_cons, and_assoc]

/-! ## Answers to the reads -/

/-- The client answers the three reads with these blocks, of the lengths asked for. -/
structure Answers (client : Client) (slave : ℤ) (blocks : Blocks) : Prop where
  lengths : List.Forall₂ (fun g b => b.1 = g.1 ∧ b.2.length = g.2) READ_GROUPS blocks
  replies : ∀ n g b, READ_GROUPS[n]? = some g → blocks[n]? = some b →
    client n ⟨.holding, g.1, g.2, slave⟩ = .ok ⟨b.2, none⟩

omit [FloatArith] in
theorem readGroups_of_answers {client : Client} {slave : ℤ} {blocks : Blocks}
    (h : Answers client slave blocks) : readGroups client slave = .ok blocks := by
  have key : ∀ {gs : List (ℤ × ℕ)} {bs : Blocks} {k : ℕ},
      List.Forall₂ (fun g b => b.1 = g.1 ∧ b.2.length = g.2) gs bs →
        (∀ n g b, gs[n]? = some g → bs[n]? = some b →
          client (k + n) ⟨.holding, g.1, g.2, slave⟩ = .ok ⟨b.2, none⟩) →
          List.Forall₂ (fun g b => (do
            let regs ← readBlock client g.2 ⟨.holding, g.1.1, g.1.2, slave⟩ (.nd45Read g.1.1)
              fun got => .nd45Short g.1.1 got g.1.2
            return (g.1.1, regs) : Except PyExc (ℤ × List ℕ)) = .ok b) (gs.zipIdx k) bs := by
    intro gs bs k hlen
    induction hlen generalizing k with
    | nil => exact fun _ => .nil
    | @cons g b gs bs hg _ ih =>
      intro hrep
      refine .cons ?_ (ih fun n g b hg hb => ?_)
      · have hread := hrep 0 g b rfl rfl
        rw [Nat.add_zero] at hread
        simp only [readBlock, hread, Response.isError, Option.isSome_none, hg.2, lt_irrefl]
        exact congrArg Except.ok (Prod.ext hg.1.symm rfl)
      · have := hrep (n + 1) g b hg hb
        rwa [← Nat.add_assoc, Nat.add_right_comm] at this
  refine Except.mapM_eq_ok.2 (key h.lengths fun n g b hg hb => ?_)
  rw [Nat.zero_add]
  exact h.replies n g b hg hb

omit [FloatArith] in
/-- An ND45 answers with the blocks of its registers. -/
theorem answers_imageClient (image : Image) (slave : ℤ) :
    Answers (imageClient image) slave (nd45Blocks image slave) := by
  refine ⟨?_, fun n g b hg hb => ?_⟩
  · unfold nd45Blocks
    rw [List.forall₂_map_right_iff]
    exact List.forall₂_same.2 fun g _ => ⟨rfl, length_regsAt ..⟩
  · rw [nd45Blocks, List.getElem?_map, hg] at hb
    obtain rfl := Option.some.inj hb
    rfl

omit [FloatArith] in
/-- A covered address has its two registers in the blocks. -/
theorem extractRegisters_isOk {addr : ℤ} : ∀ {gs : List (ℤ × ℕ)} {blocks : Blocks},
    List.Forall₂ (fun g b => b.1 = g.1 ∧ b.2.length = g.2) gs blocks →
      (∃ g ∈ gs, groupCovers addr g = true) →
        ∃ regs, extractRegisters addr blocks = .ok regs ∧ regs.length = 2
  | [], [], _, h => by simp at h
  | g :: gs, (base, regs) :: blocks, hlen, h => by
    obtain ⟨⟨hbase, hcount⟩, hrest⟩ := List.forall₂_cons.1 hlen
    have hbase : base = g.1 := hbase
    have hcount : regs.length = g.2 := hcount
    unfold extractRegisters
    by_cases hg : groupCovers addr g = true
    · simp only [groupCovers, Bool.and_eq_true, decide_eq_true_eq] at hg
      rw [if_pos (by omega)]
      refine ⟨_, rfl, ?_⟩
      have hin : Inside regs.length (addr - base) 2 :=
        (inside_of_le (by omega) (by push_cast; omega)).1
      exact length_slice hin
    · have hcond : ¬(base ≤ addr ∧ addr < base + (regs.length : ℤ) - 1) := by
        simp only [groupCovers, Bool.and_eq_true, decide_eq_true_eq] at hg
        omega
      rw [if_neg hcond]
      refine extractRegisters_isOk hrest ?_
      rcases (List.exists_mem_cons_iff ..).1 h with h | h
      · exact absurd h hg
      · exact h

omit [FloatArith] in
/-- Every point of a section that passes the check reads its floats. -/
theorem rawFloats_isOk (hcov : validateSourceCoverage side = .ok ())
    (hlen : List.Forall₂ (fun g b => b.1 = g.1 ∧ b.2.length = g.2) READ_GROUPS groups)
    (hpt : pt ∈ side.points.values) : ∃ readings, rawFloats side groups pt = .ok readings := by
  refine Except.exists_mapM_eq_ok.2 fun addr ha => ?_
  obtain ⟨regs, hregs, hlen⟩ := extractRegisters_isOk hlen (nd45_covers hcov hpt ha)
  obtain ⟨v, hv⟩ := registersToFloat_isOk hlen.ge side.wordOrder side.byteOrder
  exact ⟨v, Except.bind_eq_ok.2 ⟨regs, hregs, hv⟩⟩

/-! ## The sample -/

/-- What a poll returns when no point but a power factor is invalid. -/
structure Accepted (side : SourceSide) (groups : Blocks) (values : Sample) : Prop where
  keys : ∀ k, k ∈ values.keys ↔ k ∈ DERIVED_CANONICAL_KEYS ∨ k ∈ side.points.keys
  finite : ∀ k v, values.get? k = some v → v.isFinite = true
  valid : ∀ e ∈ side.points.entries, e.1 ∉ DERIVED_CANONICAL_KEYS → ¬Invalid side groups e.2 →
    ∃ readings si, rawFloats side groups e.2 = .ok readings ∧
      toSi (rawOf e.2 readings) e.2.scale e.2.sign e.2.offset = .ok si ∧ values.get? e.1 = some si
  zero : ∀ e ∈ side.points.entries, Invalid side groups e.2 →
    e.1 ∈ OPTIONAL_INVALID_ZERO_POINTS ∧ values.get? e.1 = some 0
  /-- An energy that the section does not have counts as zero. -/
  energy :
    let imp := (values.get? "imp_energy_total").getD 0
    let exp := (values.get? "exp_energy_total").getD 0
    values.get? "active_energy_total" = some (imp.add exp) ∧
      values.get? "net_imp_energy_total" = some imp ∧
        values.get? "net_exp_energy_total" = some exp

omit [FloatArith] in
/-- What is in range is finite and below the threshold. -/
theorem overRange_eq_false {v : PyFloat} (h : overRange v = false) :
    ∃ neg m, v = .fin neg m ∧ m < 10 ^ 20 := by
  simp only [overRange, Bool.or_eq_false_iff, Bool.not_eq_false'] at h
  obtain ⟨neg, m, rfl⟩ := PyFloat.isFinite_iff.1 h.1
  have hle := h.2
  rw [OVERRANGE, PyFloat.lit, PyFloat.abs, PyFloat.le_fin, decide_eq_false_iff_not, not_le] at hle
  refine ⟨neg, m, rfl, ?_⟩
  exact NNRat.coe_lt_coe.1 hle

theorem energy_computeDerived (values : Sample) :
    let imp := (values.get? "imp_energy_total").getD 0
    let exp := (values.get? "exp_energy_total").getD 0
    (computeDerived values).get? "active_energy_total" = some (imp.add exp) ∧
      (computeDerived values).get? "net_imp_energy_total" = some imp ∧
        (computeDerived values).get? "net_exp_energy_total" = some exp := by
  refine ⟨?_, ?_, ?_⟩ <;> rw [get?_computeDerived] <;> rfl

/-- What was taken in is finite and below the threshold. -/
theorem range_of_taken {values : Sample}
    (htaken : ∀ e ∈ side.points.entries, Taken side groups values e)
    (hother : ∀ k, k ∉ side.points.keys → values.get? k = none)
    (hopt : ∀ e ∈ side.points.entries, Invalid side groups e.2 →
      e.1 ∈ OPTIONAL_INVALID_ZERO_POINTS) (k : String) :
    ∃ neg m, (values.get? k).getD 0 = .fin neg m ∧ m < 10 ^ 20 := by
  by_cases hmem : k ∈ side.points.keys
  · obtain ⟨e, he, rfl⟩ := List.mem_map.1 hmem
    by_cases hinv : Invalid side groups e.2
    · rw [(htaken e he).1 hinv (hopt e he hinv)]
      exact ⟨false, 0, rfl, by positivity⟩
    · obtain ⟨readings, si, -, -, hsi, hget⟩ := (htaken e he).2 hinv
      rw [hget]
      exact overRange_eq_false hsi
  · rw [hother k hmem]
    exact ⟨false, 0, rfl, by positivity⟩

variable [FloatArith.Lawful]

/-- Points that are taken in, none of them critical, make an accepted sample. -/
theorem accepted_computeDerived {values : Sample}
    (htaken : ∀ e ∈ side.points.entries, Taken side groups values e)
    (hother : ∀ k, k ∉ side.points.keys → values.get? k = none)
    (hopt : ∀ e ∈ side.points.entries, Invalid side groups e.2 →
      e.1 ∈ OPTIONAL_INVALID_ZERO_POINTS)
    (hkeys : ∀ k, k ∈ values.keys ↔ k ∈ side.points.keys) :
    Accepted side groups (computeDerived values) := by
  have hrange := range_of_taken htaken hother hopt
  have hfinite : ∀ k v, values.get? k = some v → v.isFinite = true := by
    intro k v hv
    obtain ⟨neg, m, heq, -⟩ := hrange k
    rw [hv, Option.getD_some] at heq
    rw [heq]
    rfl
  have hderived := energy_computeDerived values
  have hoptional : ∀ k ∈ OPTIONAL_INVALID_ZERO_POINTS, k ∉ DERIVED_CANONICAL_KEYS := by decide
  refine ⟨fun k => ?_, (isFinite_computeDerived_iff hfinite).2 ?_, fun e he hk hinv => ?_,
    fun e he hinv => ?_, ?_⟩
  · rw [mem_keys_computeDerived, hkeys]
  · obtain ⟨a, m, himp, hm⟩ := hrange "imp_energy_total"
    obtain ⟨b, n, hexp, hn⟩ := hrange "exp_energy_total"
    rw [himp, hexp]
    refine PyFloat.isFinite_add ((add_le_add hm.le hn.le).trans ?_)
    norm_num
  · obtain ⟨readings, si, hr, hsi, -, hget⟩ := (htaken e he).2 hinv
    exact ⟨readings, si, hr, hsi, (get?_computeDerived_of_not_mem values hk).trans hget⟩
  · have hmem := hopt e he hinv
    refine ⟨hmem, (get?_computeDerived_of_not_mem values (hoptional _ hmem)).trans ?_⟩
    exact (htaken e he).1 hinv hmem
  · rw [get?_computeDerived_of_not_mem values (by decide),
      get?_computeDerived_of_not_mem values (by decide)]
    exact hderived

/-- A poll of a section that passes the check, of three replies of the lengths asked for :
without a sign that overflows it raises a `PollError` exactly when a point other than a
power factor is invalid, and otherwise returns an accepted sample. -/
theorem poll_acceptance (hcov : validateSourceCoverage side = .ok ()) {client : Client}
    {slave : ℤ} (hans : Answers client slave groups) (seen : Option (Finset String)) :
    let result := (pollOnce client side slave seen).result
    ((∃ e ∈ side.points.entries, SignOverflows side groups e.2) →
        result = .error (.overflowError "int too large to convert to float")) ∧
      ((¬∃ e ∈ side.points.entries, SignOverflows side groups e.2) →
        ((∃ e, result = .error (.pollError e)) ↔ ∃ e ∈ side.points.entries,
            e.1 ∉ OPTIONAL_INVALID_ZERO_POINTS ∧ Invalid side groups e.2) ∧
          ((¬∃ e ∈ side.points.entries,
              e.1 ∉ OPTIONAL_INVALID_ZERO_POINTS ∧ Invalid side groups e.2) →
            ∃ values, result = .ok values ∧ Accepted side groups values)) := by
  have hreads : ∀ e ∈ side.points.entries, ∃ readings,
      rawFloats side groups e.2 = .ok readings := fun e he =>
    rawFloats_isOk hcov hans.lengths (mem_values_of_mem_entries he)
  intro result
  refine ⟨fun hover => ?_, fun hno => ?_⟩
  · obtain ⟨acc', hloop⟩ := pollPoints_overflows { notes := ⟨seen, []⟩ } hreads hover
    simp only [result, pollOnce, readGroups_of_answers hans, hloop]
  · push Not at hno
    obtain ⟨acc', hloop, htaken, hother, hcritical⟩ :=
      pollPoints_taken { notes := ⟨seen, []⟩ } side.points.nodup hreads hno
    have hkeys : ∀ k, k ∈ acc'.values.keys ↔ k ∈ side.points.keys := by
      intro k
      rw [mem_keys_pollPoints hloop, Dict.keys_empty]
      simp [Dict.keys]
    have hresult : result = if acc'.invalidCritical ≠ [] then
        .error (.pollError (.nd45Invalid acc'.invalidCritical))
        else .ok (computeDerived acc'.values) := by
      simp only [result, pollOnce, readGroups_of_answers hans, hloop]
      split_ifs <;> rfl
    have hiff : acc'.invalidCritical = [] ↔ ¬∃ e ∈ side.points.entries,
        e.1 ∉ OPTIONAL_INVALID_ZERO_POINTS ∧ Invalid side groups e.2 := by
      rw [hcritical]
      push Not
      simp only [true_and]
      exact forall₂_congr fun e _ => by tauto
    rw [hresult]
    by_cases hc : acc'.invalidCritical = []
    · have hnone := hiff.1 hc
      rw [if_neg (not_not.2 hc)]
      refine ⟨⟨by simp, fun h => absurd h hnone⟩, fun _ => ⟨_, rfl, ?_⟩⟩
      push Not at hnone
      refine accepted_computeDerived htaken (fun k hk => ?_) (fun e he hinv => ?_) hkeys
      · exact (hother k hk).trans (Dict.get?_empty k)
      · by_contra hopt
        exact hnone e he hopt hinv
    · have hsome := not_not.1 (mt hiff.2 hc)
      rw [if_pos hc]
      exact ⟨⟨fun _ => hsome, fun _ => ⟨_, rfl⟩⟩, fun h => absurd hsome h⟩

end Float

/-! ## Where a poll does something else -/

/-- A frequency with a sign that no float can hold. -/
def hugeSignSource : SourceSide where
  points := ⟨[("freq", { addr := some 818, sign := 2 ^ 1024, shape := rfl })],
    List.nodup_singleton _⟩
  covered := rfl

/-- A reading with the name of an energy alias. -/
def aliasSource : SourceSide where
  points := ⟨[("net_imp_energy_total", { addr := some 900, shape := rfl })], by simp⟩
  covered := rfl

/-- An ND45 whose every quantity reads 50. -/
def nominalImage : Image := fun _ _ addr => if addr % 2 = 0 then 0x4248 else 0

/-- A point that reads zero raises an `OverflowError` for its sign, and a point named like an
energy alias, valid and read as 50, is returned as zero. -/
theorem poll_not_as_declared :
    (validateSourceCoverage hugeSignSource = .ok () ∧
      (@pollOnce .double (imageClient zeroImage) hugeSignSource 1 none).result =
        .error (.overflowError "int too large to convert to float")) ∧
      validateSourceCoverage aliasSource = .ok () ∧
        (∀ e ∈ aliasSource.points.entries, @decode .double aliasSource (nd45Blocks nominalImage 1)
          e.2 = .ok (nominalFreq, nominalFreq)) ∧
        ∃ values, (@pollOnce .double (imageClient nominalImage) aliasSource 1 none).result =
            .ok values ∧ values.get? "net_imp_energy_total" = some 0 := by
  have hraise : (@pollOnce .double (imageClient zeroImage) hugeSignSource 1 none).result.raised? =
      some (.overflowError "int too large to convert to float") := by decide +kernel
  have hrun : ((@pollOnce .double (imageClient nominalImage) aliasSource 1 none).result.toOption.any
      fun values => values.get? "net_imp_energy_total" = some 0) = true := by decide +kernel
  obtain ⟨values, hrun, hget⟩ := (Option.any_eq_true _ _).1 hrun
  exact ⟨⟨rfl, Except.raised?_eq_some.1 hraise⟩, rfl, by decide +kernel, values,
    Except.toOption_eq_some.1 hrun, decide_eq_true_iff.1 hget⟩

/-- The frequency alone is read and returned. -/
theorem poll_acceptance_freqSource :
    ∃ values, (@pollOnce .double (imageClient nominalImage) freqSource 1 none).result =
        .ok values ∧ @Accepted .double freqSource (nd45Blocks nominalImage 1) values := by
  have hread : ∀ e ∈ freqSource.points.entries, rawFloats freqSource (nd45Blocks nominalImage 1)
      e.2 = .ok [nominalFreq] := by decide +kernel
  have hraw : ∀ e ∈ freqSource.points.entries, @rawOf .double e.2 [nominalFreq] = nominalFreq := by
    decide +kernel
  have hvalue : ∀ e ∈ freqSource.points.entries,
      @declaredValue .double e.2 [nominalFreq] = .ok nominalFreq := by decide +kernel
  have hrange : overRange nominalFreq = false := by decide +kernel
  have hsign : ∀ e ∈ freqSource.points.entries, @PyFloat.ofInt? .double e.2.sign ≠ none := by
    decide +kernel
  have hans := answers_imageClient nominalImage 1
  refine ((@poll_acceptance .double freqSource _ inferInstance rfl _ _ hans none).2 ?_).2 ?_
  · rintro ⟨e, he, hover⟩
    exact hsign e he hover.1
  · rintro ⟨e, he, -, readings, hr, hinv⟩
    obtain rfl := Except.ok.inj ((hread e he).symm.trans hr)
    rw [hraw e he, hvalue e he] at hinv
    simp [hrange] at hinv

end Nd45

end DtsuBridge
