import DtsuBridge.Decode
import DtsuBridge.Replies
import DtsuBridge.Split

/-!
# What a bad SmartLogger channel reaches

A channel that the SmartLogger cannot supply is read as zero, and what a poll makes of it
spreads along the derive rules, in order, and the energy aliases (`Affects`). Two polls
whose decoded points differ in one channel agree on everything else
(`agreeOff_applyDerive` carries this through the rules).

`Huawei.isolated_iff` : this isolation always holds. That a poll returns a sample, and a
finite one, is up to the range of a double : a sign has to convert, no weights of a ratio
split may overflow their sum, and the energies must add up to a finite total, since the
aliases are filled in after the last scrub.
-/

namespace DtsuBridge

/-! ## Dependencies of the rules -/

/-- The names a step reads. -/
def DeriveOp.inputs (op : DeriveOp) : List String := op.from_ ++ op.weights

/-- A name reaches another through the inputs and the targets of steps, in order. -/
inductive Reaches : List DeriveOp → String → String → Prop
  | refl (ops : List DeriveOp) (k : String) : Reaches ops k k
  | skip {op : DeriveOp} {ops : List DeriveOp} {k k' : String} :
      Reaches ops k k' → Reaches (op :: ops) k k'
  | step {op : DeriveOp} {ops : List DeriveOp} {k target k' : String} :
      k ∈ op.inputs → target ∈ op.targets → Reaches ops target k' → Reaches (op :: ops) k k'

/-- Each energy and the aliases it goes into. -/
def energyAliases : List (String × String) :=
  [("imp_energy_total", "active_energy_total"), ("imp_energy_total", "net_imp_energy_total"),
    ("exp_energy_total", "active_energy_total"), ("exp_energy_total", "net_exp_energy_total")]

/-- A point reaches a name through the steps and the aliases. -/
def Affects (ops : List DeriveOp) (k name : String) : Prop :=
  ∃ d, Reaches ops k d ∧ (name = d ∨ (d, name) ∈ energyAliases)

/-- The samples agree outside a set of names. -/
def AgreeOff (D : Set String) (u v : Sample) : Prop :=
  ∀ name, name ∉ D → u.get? name = v.get? name

namespace AgreeOff

variable {D D' : Set String} {u v : Sample}

theorem mono (h : AgreeOff D u v) (hD : D ⊆ D') : AgreeOff D' u v :=
  fun name hname => h name fun hmem => hname (hD hmem)

theorem getValue (h : AgreeOff D u v) {name : String} (hname : name ∉ D) :
    getValue u name = getValue v name := by
  rw [DtsuBridge.getValue, DtsuBridge.getValue, h name hname]

theorem set (h : AgreeOff D u v) (k : String) (x : PyFloat) :
    AgreeOff D (u.set k x) (v.set k x) := by
  intro name hname
  rw [Dict.get?_set, Dict.get?_set, h name hname]

/-- A name that may differ is written. -/
theorem set_of_mem (h : AgreeOff D u v) {k : String} (hk : k ∈ D) (x y : PyFloat) :
    AgreeOff D (u.set k x) (v.set k y) := by
  intro name hname
  have hne : name ≠ k := fun heq => hname (heq ▸ hk)
  rw [Dict.get?_set_ne _ _ hne, Dict.get?_set_ne _ _ hne, h name hname]

theorem mapValues (h : AgreeOff D u v) (f : String → PyFloat → PyFloat) :
    AgreeOff D (u.mapValues f) (v.mapValues f) := by
  intro name hname
  rw [Dict.get?_mapValues, Dict.get?_mapValues, h name hname]

theorem foldl (h : AgreeOff D u v) (ws : List DeriveWrite) :
    AgreeOff D (ws.foldl DeriveWrite.apply u) (ws.foldl DeriveWrite.apply v) := by
  induction ws generalizing u v with
  | nil => exact h
  | cons w ws ih => exact ih (h.set w.target w.value)

end AgreeOff

/-- Each target is computed from names that agree. -/
theorem eachWrite_congr {α : Type} {op : DeriveOp} {names : α → List String}
    {f : Sample → α → PyFloat} {D : Set String} :
    ∀ {ts : List (String × α)} {u v : Sample}, AgreeOff D u v →
      (∀ t ∈ ts, ∀ name ∈ names t.2, name ∉ D) →
      (∀ t ∈ ts, ∀ u v, AgreeOff D u v → f u t.2 = f v t.2) →
        eachWrite op names f ts u = eachWrite op names f ts v
  | [], _, _, _, _, _ => rfl
  | (target, a) :: ts, u, v, h, hnames, hf => by
    obtain ⟨ha, hts⟩ := List.forall_mem_cons.1 hnames
    obtain ⟨hfa, hfts⟩ := List.forall_mem_cons.1 hf
    have hmap : (names a).map u.get? = (names a).map v.get? :=
      List.map_congr_left fun name hname => h name (ha name hname)
    rw [eachWrite, eachWrite, hfa u v h, hmap]
    exact congrArg _ (eachWrite_congr (h.set _ _) hts hfts)

theorem headD_mem {α : Type} {xs : List α} (h : xs.length = 1) (d : α) : xs.headD d ∈ xs := by
  obtain ⟨x, rfl⟩ := List.length_eq_one_iff.1 h
  exact List.mem_singleton_self x

theorem pairNames_mem {op : DeriveOp} (h : op.from_.length = 2 * op.targets.length)
    {t : String × ℕ} (ht : t ∈ op.targets.zipIdx) :
    (pairNames op.from_ t.2).1 ∈ op.from_ ∧ (pairNames op.from_ t.2).2 ∈ op.from_ := by
  have hi := (List.mem_zipIdx' ht).1
  have h1 : 2 * t.2 < op.from_.length := by omega
  have h2 : 2 * t.2 + 1 < op.from_.length := by omega
  rw [pairNames, List.getD_eq_getElem _ _ h1, List.getD_eq_getElem _ _ h2]
  exact ⟨List.getElem_mem h1, List.getElem_mem h2⟩

/-- Targets whose values agree where it matters. -/
theorem agreeOff_writeTargets {α : Type} {F G : α → Except PyExc PyFloat} {D : Set String} :
    ∀ {ts : List (String × α)} {u v u' v' : Sample}, AgreeOff D u v →
      (∀ t ∈ ts, t.1 ∉ D → F t.2 = G t.2) → writeTargets (fun _ => F) ts u = .ok u' →
        writeTargets (fun _ => G) ts v = .ok v' → AgreeOff D u' v'
  | [], _, _, _, _, h, _, hu, hv => by
    cases hu
    cases hv
    exact h
  | (target, a) :: ts, u, v, u', v', h, hF, hu, hv => by
    obtain ⟨ha, hts⟩ := List.forall_mem_cons.1 hF
    obtain ⟨x, hx, hu⟩ := Except.bind_eq_ok.1 hu
    obtain ⟨y, hy, hv⟩ := Except.bind_eq_ok.1 hv
    refine agreeOff_writeTargets ?_ hts hu hv
    by_cases ht : target ∈ D
    · exact h.set_of_mem ht x y
    · obtain rfl := Except.ok.inj (hx.symm.trans ((ha ht).trans hy))
      exact h.set target x

section Float

variable [FloatArith]

omit [FloatArith] in
theorem pairWrites_congr {op : DeriveOp} (hlen : op.from_.length = 2 * op.targets.length)
    {D : Set String} {u v : Sample} (h : AgreeOff D u v) (hin : ∀ name ∈ op.from_, name ∉ D)
    (f : PyFloat → PyFloat → PyFloat) : pairWrites op f u = pairWrites op f v := by
  refine eachWrite_congr h (fun t ht => ?_) fun t ht u v huv => ?_
  · obtain ⟨h1, h2⟩ := pairNames_mem hlen ht
    simpa using ⟨hin _ h1, hin _ h2⟩
  · obtain ⟨h1, h2⟩ := pairNames_mem hlen ht
    rw [huv.getValue (hin _ h1), huv.getValue (hin _ h2)]

/-- A step whose inputs agree writes the same. -/
theorem opWrites_congr {op : DeriveOp} {D : Set String} {u v : Sample} (h : AgreeOff D u v)
    (hin : ∀ name ∈ op.inputs, name ∉ D) : opWrites u op = opWrites v op := by
  have hlen := op.length_from
  have hfrom : ∀ name ∈ op.from_, name ∉ D := fun name hname =>
    hin name (List.mem_append_left _ hname)
  have hweight : ∀ name ∈ op.weights, name ∉ D := fun name hname =>
    hin name (List.mem_append_right _ hname)
  unfold opWrites
  cases hop : op.op with
  | constant => rfl
  | copy =>
    simp only [hop] at hlen ⊢
    have hhead := hfrom _ (headD_mem hlen "")
    rw [h _ hhead, h.getValue hhead]
  | splitEqual =>
    simp only [hop] at hlen ⊢
    have hhead := hfrom _ (headD_mem hlen "")
    rw [h _ hhead, h.getValue hhead]
  | phaseFromLine =>
    refine eachWrite_congr h (fun t ht => ?_) fun t ht u v huv => ?_
    · simpa using hfrom _ (List.of_mem_zip ht).2
    · rw [huv.getValue (hfrom _ (List.of_mem_zip ht).2)]
  | hypot =>
    simp only [hop] at hlen
    exact pairWrites_congr hlen h hfrom _
  | ratioSplit =>
    simp only [hop] at hlen
    have hhead := hfrom _ (headD_mem hlen "")
    have hget : op.weights.map u.get? = op.weights.map v.get? :=
      List.map_congr_left fun name hname => h name (hweight name hname)
    have hvalue : op.weights.map (getValue u) = op.weights.map (getValue v) :=
      List.map_congr_left fun name hname => h.getValue (hweight name hname)
    dsimp only
    rw [ratioWrites, ratioWrites, h _ hhead, h.getValue hhead, hget, hvalue]
  | pfFromPS =>
    simp only [hop] at hlen
    exact pairWrites_congr hlen h hfrom _

/-- A step spreads a difference from its inputs to its targets. -/
theorem agreeOff_applyOp {op : DeriveOp} {D : Set String} {u v u' v' : Sample}
    (h : AgreeOff D u v) (hu : applyOp u op = .ok u') (hv : applyOp v op = .ok v') :
    AgreeOff {name | name ∈ D ∨ (∃ d ∈ op.inputs, d ∈ D) ∧ name ∈ op.targets} u' v' := by
  by_cases hin : ∃ d ∈ op.inputs, d ∈ D
  · intro name hname
    rw [Set.mem_ofPred_eq, not_or, not_and] at hname
    rw [get?_applyOp_of_not_mem hu (hname.2 hin), get?_applyOp_of_not_mem hv (hname.2 hin)]
    exact h name hname.1
  · have hclean : ∀ name ∈ op.inputs, name ∉ D := fun name hname hmem => hin ⟨name, hname, hmem⟩
    rw [applyOp_eq_writes hu, applyOp_eq_writes hv, opWrites_congr h hclean]
    exact (h.foldl _).mono fun name hname => Or.inl hname

/-- Rules spread a difference to what it reaches. -/
theorem agreeOff_applyDerive : ∀ {ops : List DeriveOp} {D : Set String} {u v u' v' : Sample},
    AgreeOff D u v → applyDerive u ops = .ok u' → applyDerive v ops = .ok v' →
      AgreeOff {name | ∃ d ∈ D, Reaches ops d name} u' v'
  | [], D, u, v, u', v', h, hu, hv => by
    cases hu
    cases hv
    exact h.mono fun name hname => ⟨name, hname, .refl [] name⟩
  | op :: ops, D, u, v, u', v', h, hu, hv => by
    obtain ⟨u₁, hu₁, hu⟩ := Except.bind_eq_ok.1 hu
    obtain ⟨v₁, hv₁, hv⟩ := Except.bind_eq_ok.1 hv
    refine (agreeOff_applyDerive (agreeOff_applyOp h hu₁ hv₁) hu hv).mono ?_
    rintro name ⟨d, hd | ⟨⟨d', hd', hD⟩, htarget⟩, hreach⟩
    · exact ⟨d, hd, .skip hreach⟩
    · exact ⟨d', hD, .step hd' htarget hreach⟩

/-! ## Energy aliases -/

theorem agreeOff_computeDerived {D : Set String} {u v : Sample} (h : AgreeOff D u v) :
    AgreeOff {name | ∃ d ∈ D, name = d ∨ (d, name) ∈ energyAliases} (computeDerived u)
      (computeDerived v) := by
  intro name hname
  have hself : name ∉ D := fun hmem => hname ⟨name, hmem, Or.inl rfl⟩
  have hsource : ∀ d, (d, name) ∈ energyAliases → u.get? d = v.get? d := fun d hd =>
    h d fun hmem => hname ⟨d, hmem, Or.inr hd⟩
  rw [get?_computeDerived, get?_computeDerived]
  split_ifs with h1 h2 h3
  · subst h1
    rw [hsource "exp_energy_total" (by simp [energyAliases])]
  · subst h2
    rw [hsource "imp_energy_total" (by simp [energyAliases])]
  · subst h3
    rw [hsource "exp_energy_total" (by simp [energyAliases]),
      hsource "imp_energy_total" (by simp [energyAliases])]
  · exact h name hself

/-! ## One poll -/

namespace Huawei

/-- What a poll makes of the blocks it has read. -/
def pollValues (side : SourceSide) (groups : Blocks) : Except PyExc Sample := do
  let values ← decodeSource side groups
  let values ← applyDerive (scrub values) side.derive
  return computeDerived (scrub values)

theorem pollOnce_replyClient {side : SourceSide} {replies : ℕ → Response}
    (h : FullReplies side replies) (slave : ℤ) (seen : Option (Finset String)) :
    (pollOnce (replyClient replies) side slave seen).result =
      pollValues side (repliedBlocks side replies) := by
  unfold pollOnce pollValues
  rw [readGroups, readDeclaredGroups_of_full h]
  dsimp only
  cases decodeSource side (repliedBlocks side replies) with
  | error e => rfl
  | ok values =>
    simp only [bind, Except.bind]
    cases applyDerive (scrub values) side.derive with
    | error e => rfl
    | ok derived => rfl

/-- The registers of a point read the marker of an unavailable channel. -/
def SentinelAt (side : SourceSide) (groups : Blocks) (pt : SourcePoint) : Prop :=
  ∃ regs raw, extractRegisters pt.addr groups pt.width = .ok regs ∧
    registersToInt regs pt.dtype side.wordOrder side.byteOrder = .ok raw ∧
      intIsInvalid raw pt.dtype = true

/-- A channel that is unavailable decodes to NaN. -/
theorem decode_of_sentinel {side : SourceSide} {groups : Blocks} {pt : SourcePoint}
    (h : SentinelAt side groups pt) : decode side groups pt = .ok .nan := by
  obtain ⟨regs, raw, hregs, hraw, hinv⟩ := h
  have hd : pt.dtype ≠ .float32 := by
    intro hd
    rw [hd] at hraw
    cases hraw
  unfold decode decodeIntPoint
  simp only [hregs, hraw, hinv, if_neg hd, bind, Except.bind, if_true, pure, Except.pure]

/-- The registers of a point decode where its sign converts, or they need none. -/
theorem decode_isOk_iff {side : SourceSide} {groups : Blocks} {pt : SourcePoint} {regs : List ℕ}
    (hregs : extractRegisters pt.addr groups pt.width = .ok regs) (hlen : regs.length = pt.width) :
    (∃ v, decode side groups pt = .ok v) ↔
      (PyFloat.ofInt? pt.sign).isSome = true ∨ SentinelAt side groups pt := by
  by_cases hd : pt.dtype = .float32
  · have hno : ¬SentinelAt side groups pt := by
      rintro ⟨_, raw, -, hraw, -⟩
      rw [hd] at hraw
      cases hraw
    obtain ⟨raw, hraw⟩ := @registersToFloat_isOk regs
      (by rw [hlen, width_float32 hd]) side.wordOrder side.byteOrder
    have hdec : decode side groups pt = toSi raw pt.scale pt.sign pt.offset := by
      simp only [decode, hregs, hd, if_true, decodePoint, hraw, bind, Except.bind]
    rw [hdec, toSi_isOk_iff]
    exact (or_iff_left hno).symm
  · obtain ⟨raw, hraw, habs⟩ := @registersToInt_isOk regs _ hd
      (by rw [hlen, SourcePoint.width]) side.wordOrder side.byteOrder
    cases hinv : intIsInvalid raw pt.dtype with
    | true =>
      have hs : SentinelAt side groups pt := ⟨regs, raw, hregs, hraw, hinv⟩
      exact ⟨fun _ => Or.inr hs, fun _ => ⟨_, decode_of_sentinel hs⟩⟩
    | false =>
      have hno : ¬SentinelAt side groups pt := by
        rintro ⟨regs', raw', hregs', hraw', hinv'⟩
        obtain rfl := Except.ok.inj (hregs.symm.trans hregs')
        obtain rfl := Except.ok.inj (hraw.symm.trans hraw')
        rw [hinv] at hinv'
        cases hinv'
      obtain ⟨x, hx⟩ := Option.isSome_iff_exists.1 (PyFloat.ofInt?_isSome_of_le habs)
      have hdec : decode side groups pt = toSi x pt.scale pt.sign pt.offset := by
        simp only [decode, hregs, if_neg hd, decodeIntPoint, hraw, hinv, floatOfInt, hx, bind,
          Except.bind, if_neg Bool.false_ne_true]
      rw [hdec, toSi_isOk_iff]
      exact (or_iff_left hno).symm

/-! ## Scrubbed samples -/

/-- What a scrub makes of a value. -/
def scrubValue (value : PyFloat) : PyFloat := if value.isFinite then value else 0

omit [FloatArith] in
theorem scrub_set (values : Sample) (k : String) (v : PyFloat) :
    scrub (values.set k v) = (scrub values).set k (scrubValue v) :=
  Dict.mapValues_set _ _ _ _

omit [FloatArith] in
theorem isFinite_of_scrub {values : Sample} {k : String} {v : PyFloat}
    (h : (scrub values).get? k = some v) : v.isFinite = true := by
  rw [scrub, Dict.get?_mapValues] at h
  obtain ⟨x, -, rfl⟩ := Option.map_eq_some_iff.1 h
  cases hx : x.isFinite with
  | true => simp [hx]
  | false => simp

omit [FloatArith] in
/-- Targets whose values are the same after a scrub. -/
theorem writeTargets_scrub {α : Type} {F G : α → Except PyExc PyFloat} :
    ∀ {ts : List (String × α)} {u v : Sample}, scrub u = scrub v →
      (∀ t ∈ ts, (F t.2).map scrubValue = (G t.2).map scrubValue) →
        (writeTargets (fun _ => F) ts u).map scrub = (writeTargets (fun _ => G) ts v).map scrub
  | [], _, _, h, _ => congrArg Except.ok h
  | (target, a) :: ts, u, v, h, hF => by
    obtain ⟨ha, hts⟩ := List.forall_mem_cons.1 hF
    dsimp only at ha
    rw [writeTargets, writeTargets]
    cases hx : F a with
    | error e =>
      cases hy : G a with
      | error e' =>
        rw [hx, hy] at ha
        exact congrArg Except.error (Except.error.inj ha)
      | ok y =>
        rw [hx, hy] at ha
        cases ha
    | ok x =>
      cases hy : G a with
      | error e' =>
        rw [hx, hy] at ha
        cases ha
      | ok y =>
        rw [hx, hy] at ha
        refine writeTargets_scrub ?_ hts
        rw [scrub_set, scrub_set, h, Except.ok.inj ha]

theorem pollValues_congr {side : SourceSide} {groups groups' : Blocks}
    (h : (decodeSource side groups).map scrub = (decodeSource side groups').map scrub) :
    pollValues side groups = pollValues side groups' := by
  unfold pollValues
  cases hx : decodeSource side groups with
  | error e =>
    cases hy : decodeSource side groups' with
    | error e' =>
      rw [hx, hy] at h
      exact congrArg Except.error (Except.error.inj h)
    | ok y =>
      rw [hx, hy] at h
      cases h
  | ok x =>
    cases hy : decodeSource side groups' with
    | error e' =>
      rw [hx, hy] at h
      cases h
    | ok y =>
      rw [hx, hy] at h
      simp only [bind, Except.bind, Except.ok.inj h]

/-! ## The range of a double -/

/-- What a name stands at after some writes, from what it stood at before. -/
def settled (name : String) : List DeriveWrite → PyFloat → PyFloat
  | [], x => x
  | w :: ws, x => settled name ws (if w.target = name then w.value else x)

/-- An energy as the aliases take it, from the decoded points : the last value that a rule
writes, computed from the values before that rule, or else the reading. It counts as zero
where it is missing or not finite. -/
def energyTaken (side : SourceSide) (values : Sample) (name : String) : ℚ :=
  (scrubValue (settled name (deriveWrites (scrub values) side.derive)
    (getValue (scrub values) name))).toRat

/-- Nothing in a poll of these blocks leaves the range of a double : every sign that is
used converts, the weights of the rules add up, and the exact sum of the energies rounds to
a finite magnitude. -/
structure InRange (side : SourceSide) (groups : Blocks) : Prop where
  signs : ∀ pt ∈ side.points.values,
    (PyFloat.ofInt? pt.sign).isSome = true ∨ SentinelAt side groups pt
  weights : ∀ values, decodeSource side groups = .ok values →
    ¬DeriveOverflows (scrub values) side.derive
  energies : ∀ values, decodeSource side groups = .ok values →
    FloatArith.round (energyTaken side values "imp_energy_total" +
      energyTaken side values "exp_energy_total").nnabs ≠ ⊤

omit [FloatArith] in
theorem getValue_foldl_apply (name : String) : ∀ (ws : List DeriveWrite) (values : Sample),
    getValue (ws.foldl DeriveWrite.apply values) name = settled name ws (getValue values name)
  | [], _ => rfl
  | w :: ws, values => by
    rw [List.foldl_cons, getValue_foldl_apply name ws, settled]
    by_cases h : w.target = name
    · rw [if_pos h, DeriveWrite.apply, getValue, ← h, Dict.get?_set_self]
      rfl
    · rw [if_neg h, DeriveWrite.apply, getValue, Dict.get?_set_ne _ _ (Ne.symm h)]
      rfl

omit [FloatArith] in
theorem getD_scrub (values : Sample) (name : String) :
    ((scrub values).get? name).getD 0 = scrubValue (getValue values name) := by
  rw [scrub, Dict.get?_mapValues, getValue]
  cases values.get? name <;> rfl

/-- The energies of a derived sample add up where their exact sum is in range. -/
theorem isFinite_energies_iff {side : SourceSide} {values derived : Sample}
    (h : applyDerive (scrub values) side.derive = .ok derived) :
    ((((scrub derived).get? "imp_energy_total").getD 0).add
        (((scrub derived).get? "exp_energy_total").getD 0)).isFinite = true ↔
      FloatArith.round (energyTaken side values "imp_energy_total" +
        energyTaken side values "exp_energy_total").nnabs ≠ ⊤ := by
  have htaken : ∀ name, ((scrub derived).get? name).getD 0 =
      scrubValue (settled name (deriveWrites (scrub values) side.derive)
        (getValue (scrub values) name)) := by
    intro name
    rw [getD_scrub, applyDerive_eq_writes h, getValue_foldl_apply]
  have hfin : ∀ x, (scrubValue x).isFinite = true := by
    intro x
    cases hx : x.isFinite <;> simp [scrubValue, hx]
  rw [htaken, htaken, (PyFloat.rounds_add (hfin _) (hfin _)).isFinite, PyFloat.ofSum,
    PyFloat.isFinite_ofMag_iff]
  rfl

/-- Points all decode where their signs convert or they are unavailable. -/
theorem decodeSource_isOk_iff {side : SourceSide} {groups : Blocks}
    (hregs : ∀ pt ∈ side.points.values, ∃ regs,
      extractRegisters pt.addr groups pt.width = .ok regs ∧ regs.length = pt.width) :
    (∃ values, decodeSource side groups = .ok values) ↔ ∀ pt ∈ side.points.values,
      (PyFloat.ofInt? pt.sign).isSome = true ∨ SentinelAt side groups pt := by
  refine ⟨?_, fun h => exists_writeTargets _ fun e he _ => ?_⟩
  · rintro ⟨values, hvalues⟩ pt hpt
    obtain ⟨e, he, rfl⟩ := List.mem_map.1 hpt
    obtain ⟨regs, hextract, hlen⟩ := hregs e.2 hpt
    obtain ⟨_, v, hv⟩ := isOk_of_writeTargets hvalues e he
    exact (decode_isOk_iff hextract hlen).1 ⟨v, hv⟩
  · have hpt := mem_values_of_mem_entries he
    obtain ⟨regs, hextract, hlen⟩ := hregs e.2 hpt
    exact (decode_isOk_iff hextract hlen).2 (h e.2 hpt)

/-- A poll returns a sample, and a finite one, exactly where nothing leaves the range. -/
theorem pollValues_finite_iff {side : SourceSide} {groups : Blocks}
    (hregs : ∀ pt ∈ side.points.values, ∃ regs,
      extractRegisters pt.addr groups pt.width = .ok regs ∧ regs.length = pt.width) :
    (∃ sample, pollValues side groups = .ok sample ∧
        ∀ k v, sample.get? k = some v → v.isFinite = true) ↔ InRange side groups := by
  have hdecode := decodeSource_isOk_iff hregs
  refine ⟨?_, fun hrange => ?_⟩
  · rintro ⟨sample, hsample, hfin⟩
    obtain ⟨values, hvalues, hsample⟩ := Except.bind_eq_ok.1 hsample
    obtain ⟨derived, hderived, hsample⟩ := Except.bind_eq_ok.1 hsample
    cases hsample
    refine ⟨hdecode.1 ⟨values, hvalues⟩, fun values' hvalues' => ?_,
      fun values' hvalues' => ?_⟩
    · obtain rfl := Except.ok.inj (hvalues.symm.trans hvalues')
      rcases applyDerive_cases side.derive (scrub values) with ⟨-, hno⟩ | ⟨herr, -⟩
      · exact hno
      · rw [hderived] at herr
        cases herr
    · obtain rfl := Except.ok.inj (hvalues.symm.trans hvalues')
      rw [← isFinite_energies_iff hderived]
      exact (isFinite_computeDerived_iff fun _ _ => isFinite_of_scrub).1 hfin
  · obtain ⟨values, hvalues⟩ := hdecode.2 hrange.signs
    rcases applyDerive_cases side.derive (scrub values) with ⟨⟨derived, hderived⟩, -⟩ | ⟨-, hover⟩
    · refine ⟨computeDerived (scrub derived), ?_, ?_⟩
      · exact Except.bind_eq_ok.2 ⟨values, hvalues, Except.bind_eq_ok.2 ⟨derived, hderived, rfl⟩⟩
      · exact (isFinite_computeDerived_iff fun _ _ => isFinite_of_scrub).2
          ((isFinite_energies_iff hderived).2 (hrange.energies values hvalues))
    · exact absurd hover (hrange.weights values hvalues)

/-- Polls whose decoded points differ in one channel agree on what it does not affect. -/
theorem agree_pollValues {side : SourceSide} {groups groups' : Blocks} {k : String}
    (hsame : ∀ e ∈ side.points.entries, e.1 ≠ k →
      decode side groups e.2 = decode side groups' e.2) {sample sample' : Sample}
    (h : pollValues side groups = .ok sample) (h' : pollValues side groups' = .ok sample')
    {key : String} (hkey : ¬Affects side.derive k key) : sample.get? key = sample'.get? key := by
  obtain ⟨values, hvalues, h⟩ := Except.bind_eq_ok.1 h
  obtain ⟨values', hvalues', h'⟩ := Except.bind_eq_ok.1 h'
  obtain ⟨derived, hderived, h⟩ := Except.bind_eq_ok.1 h
  obtain ⟨derived', hderived', h'⟩ := Except.bind_eq_ok.1 h'
  cases h
  cases h'
  have hdecoded : AgreeOff {k} values values' :=
    agreeOff_writeTargets (fun _ _ => rfl) (fun e he hne => hsame e he hne) hvalues hvalues'
  have hrules := agreeOff_applyDerive (hdecoded.mapValues _) hderived hderived'
  refine agreeOff_computeDerived (hrules.mapValues _) key ?_
  rintro ⟨d, ⟨k', rfl, hreach⟩, halias⟩
  exact hkey ⟨d, hreach, halias⟩

/-- An unavailable channel decodes as a zero does. -/
theorem pollValues_of_sentinel {side : SourceSide} {groups groups' : Blocks} {k : String}
    {pt : SourcePoint} (hpt : (k, pt) ∈ side.points.entries)
    (hsame : ∀ e ∈ side.points.entries, e.1 ≠ k →
      decode side groups e.2 = decode side groups' e.2)
    (hsentinel : SentinelAt side groups pt) (hzero : decode side groups' pt = .ok 0) :
    pollValues side groups = pollValues side groups' := by
  refine pollValues_congr (writeTargets_scrub rfl fun e he => ?_)
  by_cases hne : e.1 = k
  · have hentry : e = (k, pt) := List.inj_on_of_nodup_map side.points.nodup he hpt hne
    rw [hentry, decode_of_sentinel hsentinel, hzero]
    rfl
  · rw [hsame e he hne]

end Huawei

end Float

/-- A point of one register, which the SmartLogger marks unavailable with `0xFFFF`. -/
def channel (addr : ℤ) (scale : PyFloat) : SourcePoint where
  addr := some addr
  dtype := .u16
  scale := scale
  shape := rfl

/-- The energies in one block, of this scale. -/
def energySource (scale : PyFloat) : SourceSide where
  points := ⟨[("imp_energy_total", channel 0 scale), ("exp_energy_total", channel 1 scale)],
    by simp⟩
  readGroups := some [pairGroup]
  covered := rfl

/-- One reply of two registers. -/
def twoRegisters (r₀ r₁ : ℕ) : ℕ → Response := fun _ => ⟨[r₀, r₁], none⟩

end DtsuBridge
