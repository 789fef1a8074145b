import DtsuBridge.Publish

/-!
# The layout of the served registers

Three output maps and two identity blocks are written into the two register blocks, and
only the points of one map are checked against each other at load. `ReadsBack` : every
point reads the encoding of the latest sample and every identity register its seeded
value. `readsBack_of_layout` gives it wherever the writers have a `Layout` : the FC03
block reaches the register 0x0046, every slice is whole in its block, and two writers
that share a register put the same in it. Where no address is negative, a layout is
necessary as well (`layout_of_readsBack`).
-/

namespace DtsuBridge

/-! ## Widths -/

theorem length_encodePoint [FloatArith] {si scale offset : PyFloat} {sign : ℤ}
    {wordOrder byteOrder : String} {zeroLowWord : Bool} {regs : List ℕ}
    (h : encodePoint si scale sign offset wordOrder byteOrder zeroLowWord = .ok regs) :
    regs.length = 2 := by
  obtain ⟨v, -, h⟩ := Except.bind_eq_ok.1 h
  obtain ⟨rs, hrs, h⟩ := Except.bind_eq_ok.1 h
  have hlen : rs.length = 2 := by
    rcases floatToRegisters_cases v wordOrder byteOrder with ⟨-, rs', hrs', hl⟩ | ⟨-, e, he⟩
    · rw [hrs'] at hrs
      cases hrs
      exact hl
    · rw [he] at hrs
      cases hrs
  cases h
  split_ifs <;> simp [hlen]

theorem length_encodeTargetPoint [FloatArith] {si ctRatio : PyFloat} {pt : TargetPoint}
    {side : TargetSide} {regs : List ℕ} (h : encodeTargetPoint si pt side ctRatio = .ok regs) :
    regs.length = 2 := by
  obtain ⟨v, -, h⟩ := Except.bind_eq_ok.1 h
  exact length_encodePoint h

theorem length_pairWords : ∀ {n : ℕ} {bytes : List ℕ}, bytes.length = n * 2 →
    (pairWords bytes).length = n
  | 0, [], _ => rfl
  | n + 1, hi :: lo :: bytes, h => by
    simp only [List.length_cons] at h
    rw [pairWords, List.length_cons, length_pairWords (n := n) (by omega)]
  | n + 1, [], h => by simp at h
  | n + 1, [_], h => by
    simp only [List.length_cons, List.length_nil] at h
    omega

/-- An identity point fills the registers it declares. -/
theorem length_identityValues (cfg : Option DtsuConf) (name : String) (p : StaticIdentityPoint) :
    ((identityValues cfg name p).length : ℤ) = p.registerCount := by
  rcases p.cases with ⟨s, n, ht, hv, hl, hn, hs⟩ | ⟨i, ht, hv, hl, hi⟩
  · have hcount : p.registerCount = n := by simp [StaticIdentityPoint.registerCount, ht, hl]
    simp only [identityValues, ht, hv, hcount, Nat.cast_inj]
    refine length_pairWords ?_
    have hn2 : ((n : ℤ) * 2).toNat = n * 2 := by omega
    simp only [List.length_append, List.length_map, List.length_replicate, String.length_toList,
      hn2]
    omega
  · simp [identityValues, ht, hv, StaticIdentityPoint.registerCount]

/-! ## Block sizes -/

theorem le_maxDefault {xs : List ℤ} {x : ℤ} (h : x ∈ xs) : x ≤ maxDefault xs := by
  unfold maxDefault
  cases hm : xs.max? with
  | none =>
    rw [List.max?_eq_none_iff] at hm
    simp [hm] at h
  | some a => exact (List.max?_eq_some_iff.1 hm).2 x h

/-- The size step of `buildContext` for one map. -/
theorem le_foldl_maxTarget (fc : FunctionCode) : ∀ (target : List TargetSide) (m : ℤ),
    let f := fun (m : ℤ) (side : TargetSide) =>
      if side.functionCode = fc then max m (maxDefault (side.points.values.map (·.addr + 1)))
      else m
    m ≤ target.foldl f m ∧ ∀ p ∈ targetPoints target, p.1.functionCode = fc →
      p.2.addr + 1 ≤ target.foldl f m
  | [], m => by simp [targetPoints]
  | side :: target, m => by
    intro f
    obtain ⟨h1, h2⟩ := le_foldl_maxTarget fc target (f m side)
    have hm : m ≤ f m side := by
      dsimp only [f]
      split_ifs
      · exact le_max_left _ _
      · exact le_rfl
    refine ⟨hm.trans h1, fun p hp hfc => ?_⟩
    rw [targetPoints, List.flatMap_cons, List.mem_append] at hp
    rcases hp with hp | hp
    · obtain ⟨pt, hpt, rfl⟩ := List.mem_map.1 hp
      refine le_trans ?_ h1
      have hfc : side.functionCode = fc := hfc
      dsimp only [f]
      rw [if_pos hfc]
      exact le_max_of_le_right (le_maxDefault (List.mem_map_of_mem hpt))
    · exact h2 p hp hfc

theorem maxTargetAddress_nonneg (target : List TargetSide) (fc : FunctionCode) :
    0 ≤ maxTargetAddress target fc :=
  (le_foldl_maxTarget fc target 0).1

theorem maxTargetAddress_le (target : List TargetSide) (identity : StaticIdentitySide)
    (fc : FunctionCode) : maxTargetAddress target fc ≤ maxAddress target (some identity) fc := by
  cases fc with
  | holding => exact le_max_left _ _
  | input => exact le_rfl

/-- The block of a point reaches its second register. -/
theorem addr_le_maxAddress {target : List TargetSide} {identity : StaticIdentitySide}
    {p : TargetSide × TargetPoint} (hp : p ∈ targetPoints target) :
    p.2.addr + 1 ≤ maxAddress target (some identity) p.1.functionCode :=
  ((le_foldl_maxTarget p.1.functionCode target 0).2 p hp rfl).trans (maxTargetAddress_le _ _ _)

/-- The FC03 block reaches the last register of an identity point. -/
theorem identity_le_maxAddress {target : List TargetSide} {identity : StaticIdentitySide}
    {p : StaticIdentityPoint} (hp : p ∈ identity.points.values) :
    p.addr + p.registerCount - 1 ≤ maxAddress target (some identity) .holding :=
  le_max_of_le_right (le_maxDefault (List.mem_map.2 ⟨p, hp, rfl⟩))

/-! ## The writers of a bridge -/

/-- The context `build_bridge` builds. -/
def bridgeContext (m : RegisterMap) (cfg : DtsuConf) : Datastore :=
  buildContext m.targetSides cfg.slaveId (some cfg) (some m.dtsuSigenIdentity)

/-- The lengths of the blocks before any register is seeded. -/
def initialLength (m : RegisterMap) (fc : FunctionCode) : ℕ :=
  (maxAddress m.targetSides (some m.dtsuSigenIdentity) fc + 1).toNat

/-- The lengths of the blocks once 0x0046 is seeded. -/
def blockLength (m : RegisterMap) : FunctionCode → ℕ
  | .holding => max (initialLength m .holding) 71
  | .input => initialLength m .input

/-- The identity registers a bridge seeds. -/
def identityWrites (m : RegisterMap) (cfg : DtsuConf) : List RegisterWrite :=
  staticWrites cfg.slaveId cfg ++ sigenWrites m.dtsuSigenIdentity (some cfg)

section Float

variable [FloatArith]

/-- The writes of a sample, none where there is none or it does not encode. -/
def sampleWrites (m : RegisterMap) (ctRatio : PyFloat) : Option Sample → List RegisterWrite
  | none => []
  | some v => match targetWrites v ctRatio m.targetSides with
    | .ok ws => ws
    | .error _ => []

/-- All who write registers, with what they put there. -/
def writers (m : RegisterMap) (cfg : DtsuConf) (ctRatio : PyFloat) (latest : Option Sample) :
    List RegisterWrite :=
  identityWrites m cfg ++ sampleWrites m ctRatio latest

/-- The updates, as long as each succeeds. -/
def publishAll (target : List TargetSide) (ctRatio : PyFloat) :
    List Sample → Datastore → Option Datastore
  | [], d => some d
  | v :: vs, d =>
    match updateDatastore d v target ctRatio with
    | (.ok (), d) => publishAll target ctRatio vs d
    | (.error _, _) => none

/-- Every point reads the encoding of the latest sample, every identity register its seed. -/
structure ReadsBack (m : RegisterMap) (cfg : DtsuConf) (ctRatio : PyFloat)
    (latest : Option Sample) (d : Datastore) : Prop where
  points : ∀ v, latest = some v → ∀ side ∈ m.targetSides, ∀ pt ∈ side.points.values,
    ∀ si regs, v.get? pt.from_ = some si → encodeTargetPoint si pt side ctRatio = .ok regs →
      getValues d side.functionCode pt.addr 2 = regs
  static : ∀ w ∈ staticWrites cfg.slaveId cfg,
    getValues d w.bank w.addr w.cells.length = w.cells
  sigen : ∀ w ∈ sigenWrites m.dtsuSigenIdentity (some cfg),
    getValues d w.bank w.addr w.cells.length = w.cells

/-- The FC03 block has the registers below 0x0046, the writers' slices are whole in their
blocks, and writers that share a register put the same in it. -/
structure Layout (m : RegisterMap) (cfg : DtsuConf) (ctRatio : PyFloat)
    (latest : Option Sample) : Prop where
  reaches : 70 ≤ initialLength m .holding
  fits : ∀ w ∈ writers m cfg ctRatio latest, w.Fits (blockLength m)
  agree : ∀ w ∈ writers m cfg ctRatio latest, ∀ w' ∈ writers m cfg ctRatio latest,
    w.Agree (blockLength m) w'

/-- No output map or identity point has a negative address. -/
def NoNegativeAddress (m : RegisterMap) : Prop :=
  (∀ p ∈ targetPoints m.targetSides, 0 ≤ p.2.addr) ∧
    ∀ p ∈ m.dtsuSigenIdentity.points.values, 0 ≤ p.addr

/-! ## Updates replace one another -/

/-- Writes of two samples go to the same slices. -/
theorem sameSlice_targetWrites {v v' : Sample} {ctRatio : PyFloat} {target : List TargetSide}
    {ws ws' : List RegisterWrite} (h : targetWrites v ctRatio target = .ok ws)
    (h' : targetWrites v' ctRatio target = .ok ws') : List.Forall₂ Write.SameSlice ws ws' := by
  replace h := Except.mapM_eq_ok.1 h
  replace h' := Except.mapM_eq_ok.1 h'
  generalize targetPoints target = ps at h h'
  induction h generalizing ws' with
  | nil =>
    cases h'
    exact .nil
  | cons hw _ ih =>
    cases h' with
    | cons hw' h' =>
      obtain ⟨_, _, _, hr, rfl⟩ := targetWrite_eq_ok.1 hw
      obtain ⟨_, _, _, hr', rfl⟩ := targetWrite_eq_ok.1 hw'
      refine .cons ⟨rfl, rfl, ?_⟩ (ih h')
      exact (length_encodeTargetPoint hr).trans (length_encodeTargetPoint hr').symm

theorem mem_targetWrites {v : Sample} {ctRatio : PyFloat} {target : List TargetSide}
    {ws : List RegisterWrite} (h : targetWrites v ctRatio target = .ok ws) {w : RegisterWrite} :
    w ∈ ws ↔ ∃ p ∈ targetPoints target, targetWrite v ctRatio p = .ok w := by
  replace h := Except.mapM_eq_ok.1 h
  generalize targetPoints target = ps at h ⊢
  induction h with
  | nil => simp
  | @cons p w' ps ws' hw _ ih =>
    rw [List.mem_cons, List.exists_mem_cons_iff, hw, Except.ok.injEq]
    exact or_congr eq_comm ih

/-- The points' slices are whole in blocks of these lengths. -/
def PointsFit (target : List TargetSide) (n : FunctionCode → ℕ) : Prop :=
  ∀ p ∈ targetPoints target, Inside (n p.1.functionCode) p.2.addr 2

theorem fits_targetWrites {v : Sample} {ctRatio : PyFloat} {target : List TargetSide}
    {ws : List RegisterWrite} (h : targetWrites v ctRatio target = .ok ws)
    {n : FunctionCode → ℕ} (hf : PointsFit target n) : ∀ w ∈ ws, w.Fits n := by
  intro w hw
  obtain ⟨p, hp, hpw⟩ := (mem_targetWrites h).1 hw
  obtain ⟨si, regs, -, hr, rfl⟩ := targetWrite_eq_ok.1 hpw
  unfold Write.Fits
  rw [length_encodeTargetPoint hr]
  exact hf p hp

theorem fits_sampleWrites {m : RegisterMap} {ctRatio : PyFloat} {n : FunctionCode → ℕ}
    (hf : PointsFit m.targetSides n) : ∀ latest : Option Sample,
      ∀ w ∈ sampleWrites m ctRatio latest, w.Fits n
  | none => by simp [sampleWrites]
  | some v => by
    unfold sampleWrites
    dsimp only
    split
    next ws hws => exact fits_targetWrites hws hf
    next => simp

omit [FloatArith] in
theorem mem_targetPoints {target : List TargetSide} {side : TargetSide} {pt : TargetPoint} :
    (side, pt) ∈ targetPoints target ↔ side ∈ target ∧ pt ∈ side.points.values := by
  simp [targetPoints]

/-- Where the writes of a sample fit, so do those of every other. -/
theorem pointsFit_of_fits {v : Sample} {ctRatio : PyFloat} {target : List TargetSide}
    {ws : List RegisterWrite} (h : targetWrites v ctRatio target = .ok ws)
    {n : FunctionCode → ℕ} (hf : ∀ w ∈ ws, w.Fits n) : PointsFit target n := by
  intro p hp
  obtain ⟨w, hw⟩ := Except.exists_mapM_eq_ok.1 ⟨ws, h⟩ p hp
  have hfit := hf w ((mem_targetWrites h).2 ⟨p, hp, hw⟩)
  obtain ⟨si, regs, -, hr, rfl⟩ := targetWrite_eq_ok.1 hw
  unfold Write.Fits at hfit
  rwa [length_encodeTargetPoint hr] at hfit

/-- An update that succeeds has encoded every point. -/
theorem updateDatastore_ok {d d' : Datastore} {v : Sample} {target : List TargetSide}
    {ctRatio : PyFloat} (h : updateDatastore d v target ctRatio = (.ok (), d')) :
    ∃ ws, targetWrites v ctRatio target = .ok ws ∧ d' = d.writeAll ws := by
  rcases updateDatastore_eq d v target ctRatio with ⟨ws, hws, hu⟩ | ⟨-, e, hu⟩
  · rw [hu] at h
    exact ⟨ws, hws, (Prod.mk.inj h).2.symm⟩
  · rw [hu] at h
    cases (Prod.mk.inj h).1

theorem publishAll_nil {target : List TargetSide} {ctRatio : PyFloat} {d d' : Datastore}
    (h : publishAll target ctRatio [] d = some d') : d' = d :=
  (Option.some.inj h).symm

/-- One update of `publishAll`. -/
theorem publishAll_cons {target : List TargetSide} {ctRatio : PyFloat} {v : Sample}
    {vs : List Sample} {d d' : Datastore} (h : publishAll target ctRatio (v :: vs) d = some d') :
    ∃ ws, targetWrites v ctRatio target = .ok ws ∧
      publishAll target ctRatio vs (d.writeAll ws) = some d' := by
  unfold publishAll at h
  split at h
  next d1 hu =>
    obtain ⟨ws, hws, rfl⟩ := updateDatastore_ok hu
    exact ⟨ws, hws, h⟩
  next => cases h

/-- One more update. -/
theorem publishAll_snoc {target : List TargetSide} {ctRatio : PyFloat} {v : Sample} :
    ∀ {vs : List Sample} {d d' d'' : Datastore}, publishAll target ctRatio vs d = some d' →
      updateDatastore d' v target ctRatio = (.ok (), d'') →
        publishAll target ctRatio (vs ++ [v]) d = some d''
  | [], d, d', d'', h, hu => by
    rw [publishAll_nil h] at hu
    simp [publishAll, hu]
  | u :: vs, d, d', d'', h, hu => by
    unfold publishAll at h
    rw [List.cons_append, publishAll]
    split at h
    next => exact publishAll_snoc h hu
    next => cases h

/-- Every sample published encodes. -/
theorem targetWrites_of_publishAll {target : List TargetSide} {ctRatio : PyFloat} :
    ∀ {vs : List Sample} {d d' : Datastore}, publishAll target ctRatio vs d = some d' →
      ∀ v ∈ vs, ∃ ws, targetWrites v ctRatio target = .ok ws
  | [], _, _, _ => by simp
  | v :: vs, _, _, h => by
    obtain ⟨ws, hws, h⟩ := publishAll_cons h
    exact List.forall_mem_cons.2 ⟨⟨ws, hws⟩, targetWrites_of_publishAll h⟩

/-- The last update wrote its sample over what was there. -/
theorem publishAll_getLast {target : List TargetSide} {ctRatio : PyFloat} {v : Sample} :
    ∀ {vs : List Sample} {d d' : Datastore}, publishAll target ctRatio vs d = some d' →
      vs.getLast? = some v →
        ∃ (before : Datastore) (ws : List RegisterWrite),
          targetWrites v ctRatio target = .ok ws ∧ d' = before.writeAll ws
  | [], _, _, _, hv => by simp at hv
  | [u], d, d', h, hv => by
    obtain ⟨ws, hws, h⟩ := publishAll_cons h
    obtain rfl : u = v := by simpa using hv
    exact ⟨d, ws, hws, publishAll_nil h⟩
  | u :: u' :: vs, d, d', h, hv => by
    obtain ⟨ws, hws, h⟩ := publishAll_cons h
    exact publishAll_getLast h (by simpa using hv)

/-- After updates that succeed, the registers are those of the latest sample alone. -/
theorem publishAll_eq {m : RegisterMap} {ctRatio : PyFloat} :
    ∀ {vs : List Sample} {d d' : Datastore}, publishAll m.targetSides ctRatio vs d = some d' →
      PointsFit m.targetSides d.lengths →
        d' = d.writeAll (sampleWrites m ctRatio vs.getLast?)
  | [], d, d', h, _ => publishAll_nil h
  | [v], d, d', h, hf => by
    obtain ⟨ws, hws, h⟩ := publishAll_cons h
    rw [publishAll_nil h]
    simp [sampleWrites, hws]
  | v :: u :: vs, d, d', h, hf => by
    obtain ⟨ws, hws, h⟩ := publishAll_cons h
    have hfit := fits_targetWrites hws hf
    have hlen := Banks.lengths_writeAll hfit
    obtain ⟨ws', hws'⟩ := targetWrites_of_publishAll h _ (List.getLast_mem (by simp))
    rw [publishAll_eq h (hlen ▸ hf), List.getLast?_cons_cons,
      List.getLast?_eq_some_getLast (by simp), sampleWrites]
    simp only [hws']
    exact Banks.writeAll_writeAll (sameSlice_targetWrites hws hws') hfit

/-! ## Seeding the identity -/

omit [FloatArith] in
theorem bridgeContext_eq (m : RegisterMap) (cfg : DtsuConf) :
    bridgeContext m cfg = Banks.writeAll (fun fc => List.replicate (initialLength m fc) 0)
      (identityWrites m cfg) :=
  (Banks.writeAll_append _ _ _).symm

/-- The identity registers up to 0x002E. -/
def lowStaticWrites (slaveId : ℕ) (cfg : DtsuConf) : List RegisterWrite :=
  (identityRegisterAddrs.map fun (field, addr) => ⟨.holding, addr, [(field cfg.identity).val]⟩) ++
    [⟨.holding, 0x002D, [(baudCodes.lookup (reportedBaudrate cfg)).getD 3]⟩,
      ⟨.holding, 0x002E, [slaveId]⟩]

omit [FloatArith] in
/-- The register 0x0046 is seeded after those below it, and two low ones after it. -/
theorem staticWrites_eq (slaveId : ℕ) (cfg : DtsuConf) :
    staticWrites slaveId cfg = lowStaticWrites slaveId cfg ++ [⟨.holding, 0x0046, [0]⟩] ++
      [⟨.holding, 0x0004, [1]⟩, ⟨.holding, 0x0008, [4]⟩] :=
  rfl

omit [FloatArith] in
theorem lowStaticWrites_spec {slaveId : ℕ} {cfg : DtsuConf} {w : RegisterWrite}
    (h : w ∈ lowStaticWrites slaveId cfg) :
    w.bank = .holding ∧ 0 ≤ w.addr ∧ w.addr ≤ 46 ∧ w.cells.length = 1 := by
  simp only [lowStaticWrites, identityRegisterAddrs, List.map_cons, List.map_nil,
    List.cons_append, List.nil_append, List.mem_cons, List.not_mem_nil, or_false] at h
  rcases h with rfl | rfl | rfl | rfl | rfl | rfl | rfl | rfl | rfl | rfl | rfl | rfl <;> simp

omit [FloatArith] in
theorem staticWrites_spec {slaveId : ℕ} {cfg : DtsuConf} {w : RegisterWrite}
    (h : w ∈ staticWrites slaveId cfg) :
    w.bank = .holding ∧ 0 ≤ w.addr ∧ w.addr ≤ 70 ∧ w.cells.length = 1 := by
  rw [staticWrites_eq, List.mem_append, List.mem_append] at h
  rcases h with (h | h) | h
  · obtain ⟨h1, h2, h3, h4⟩ := lowStaticWrites_spec h
    exact ⟨h1, h2, by omega, h4⟩
  · obtain rfl := List.mem_singleton.1 h
    simp
  · simp only [List.mem_cons, List.not_mem_nil, or_false] at h
    rcases h with rfl | rfl <;> simp

omit [FloatArith] in
/-- Zeroed blocks one register short of 0x0046 grow by it when it is seeded. -/
theorem writeAll_staticWrites_short {n : FunctionCode → ℕ} (hn : n .holding = 70) (slaveId : ℕ)
    (cfg : DtsuConf) :
    Banks.writeAll (fun fc => List.replicate (n fc) 0) (staticWrites slaveId cfg) =
      Banks.writeAll (fun fc => match fc with
        | .holding => List.replicate 71 0
        | .input => List.replicate (n .input) 0) (staticWrites slaveId cfg) := by
  set d : Datastore := fun fc => List.replicate (n fc) 0
  set r : Datastore := fun fc => match fc with | .holding => [0] | .input => []
  have hext : (fun fc => match fc with
      | .holding => List.replicate 71 0
      | .input => List.replicate (n .input) 0) = d.extend r := by
    funext fc
    cases fc with
    | holding =>
      simp only [Banks.extend, d, r, hn]
      rfl
    | input => simp [Banks.extend, d, r]
  have hlow : ∀ w ∈ lowStaticWrites slaveId cfg, 0 ≤ w.addr ∧
      w.addr + w.cells.length ≤ d.lengths w.bank := by
    intro w hw
    obtain ⟨h1, h2, h3, h4⟩ := lowStaticWrites_spec hw
    have : d.lengths w.bank = 70 := by simp [Banks.lengths, d, h1, hn]
    omega
  have hfit : ∀ w ∈ lowStaticWrites slaveId cfg, w.Fits d.lengths := fun w hw =>
    (inside_of_le (hlow w hw).1 (hlow w hw).2).1
  have hlen : (d.writeAll (lowStaticWrites slaveId cfg) .holding).length = 70 := by
    have := congrFun (Banks.lengths_writeAll hfit) .holding
    simpa [Banks.lengths, d, hn] using this
  set e := d.writeAll (lowStaticWrites slaveId cfg) with he
  have happend : ∀ l : List ℕ, l.length = 70 →
      sliceAssign l 0x0046 (0x0046 + ([0] : List ℕ).length) [0] =
        sliceAssign (l ++ [0]) 0x0046 (0x0046 + ([0] : List ℕ).length) [0] := by
    intro l hl
    have hlast := @sliceAssign_last ℕ l [0] [0] rfl
    rw [hl] at hlast
    exact (sliceAssign_of_le (by omega)).trans hlast.symm
  have hstep : e.write ⟨.holding, 0x0046, [0]⟩ = (e.extend r).write ⟨.holding, 0x0046, [0]⟩ := by
    funext fc
    unfold Banks.write Banks.extend
    cases fc with
    | holding =>
      simp only [Function.update_self]
      exact happend _ hlen
    | input => simp [Function.update_of_ne, r]
  have hcons : ∀ (x : Datastore) (w : RegisterWrite) (ws : List RegisterWrite),
      x.writeAll ([w] ++ ws) = (x.write w).writeAll ws := fun _ _ _ => rfl
  rw [hext, staticWrites_eq, List.append_assoc, Banks.writeAll_append d, ← he,
    Banks.writeAll_append (d.extend r), Banks.writeAll_extend hlow, ← he, hcons, hcons, hstep]

omit [FloatArith] in
/-- Blocks that reach 0x0046 end up as if they had it from the start. -/
theorem bridgeContext_eq_of_reaches {m : RegisterMap} {cfg : DtsuConf}
    (h : 70 ≤ initialLength m .holding) :
    bridgeContext m cfg =
      Banks.writeAll (fun fc => List.replicate (blockLength m fc) 0) (identityWrites m cfg) := by
  rw [bridgeContext_eq]
  rcases Nat.eq_or_lt_of_le h with h70 | h71
  · have hblocks : (fun fc => match fc with
        | .holding => List.replicate 71 0
        | .input => List.replicate (initialLength m .input) 0 : Datastore) =
        fun fc => List.replicate (blockLength m fc) 0 := by
      funext fc
      cases fc with
      | holding => simp [blockLength, ← h70]
      | input => rfl
    rw [identityWrites, Banks.writeAll_append, writeAll_staticWrites_short h70.symm, hblocks,
      ← Banks.writeAll_append]
  · have hlen : initialLength m = blockLength m := by
      funext fc
      cases fc with
      | holding => rw [blockLength, max_eq_left (by omega)]
      | input => rfl
    rw [hlen]

omit [FloatArith] in
theorem lengths_replicate (n : FunctionCode → ℕ) :
    Banks.lengths (fun fc => List.replicate (n fc) 0) = n := by
  funext fc
  simp [Banks.lengths]

/-! ## Reading back -/

/-- In a run that reaches 0x0046 and fits, the registers are those of all writers in turn. -/
theorem eq_writeAll_writers {m : RegisterMap} {cfg : DtsuConf} {ctRatio : PyFloat}
    {vs : List Sample} {d : Datastore}
    (h : publishAll m.targetSides ctRatio vs (bridgeContext m cfg) = some d)
    (hreach : 70 ≤ initialLength m .holding)
    (hfits : ∀ w ∈ writers m cfg ctRatio vs.getLast?, w.Fits (blockLength m)) :
    d = Banks.writeAll (fun fc => List.replicate (blockLength m fc) 0)
      (writers m cfg ctRatio vs.getLast?) := by
  have hctx := @bridgeContext_eq_of_reaches m cfg hreach
  have hlen : (bridgeContext m cfg).lengths = blockLength m := by
    rw [hctx, Banks.lengths_writeAll, lengths_replicate]
    rw [lengths_replicate]
    exact fun w hw => hfits w (List.mem_append_left _ hw)
  rw [writers, Banks.writeAll_append, ← hctx]
  cases vs with
  | nil => rw [publishAll_nil h, List.getLast?_nil, sampleWrites, Banks.writeAll_nil]
  | cons v vs =>
    refine publishAll_eq h ?_
    rw [hlen]
    have hlast := List.getLast?_eq_some_getLast (List.cons_ne_nil v vs)
    obtain ⟨ws, hws⟩ := targetWrites_of_publishAll h _ (List.getLast_mem (List.cons_ne_nil v vs))
    refine pointsFit_of_fits hws fun w hw => hfits w (List.mem_append_right _ ?_)
    simpa [sampleWrites, hlast, hws] using hw

/-- Reading back is that every writer holds. -/
theorem readsBack_iff {m : RegisterMap} {cfg : DtsuConf} {ctRatio : PyFloat}
    {latest : Option Sample} {d : Datastore}
    (hok : ∀ v, latest = some v → ∃ ws, targetWrites v ctRatio m.targetSides = .ok ws) :
    ReadsBack m cfg ctRatio latest d ↔ ∀ w ∈ writers m cfg ctRatio latest, d.Holds w := by
  simp only [writers, identityWrites, List.mem_append]
  refine ⟨fun h w hw => ?_, fun h => ⟨?_, fun w hw => h w (by simp [hw]),
    fun w hw => h w (by simp [hw])⟩⟩
  · rcases hw with (hw | hw) | hw
    · exact h.static w hw
    · exact h.sigen w hw
    · cases hl : latest with
      | none => simp [hl, sampleWrites] at hw
      | some v =>
        obtain ⟨ws, hws⟩ := hok v hl
        have hw : w ∈ ws := by simpa [hl, sampleWrites, hws] using hw
        obtain ⟨⟨side, pt⟩, hp, hpw⟩ := (mem_targetWrites hws).1 hw
        obtain ⟨si, regs, hsi, hr, rfl⟩ := targetWrite_eq_ok.1 hpw
        obtain ⟨hside, hpt⟩ := mem_targetPoints.1 hp
        have := h.points v hl side hside pt hpt si regs hsi hr
        rwa [← length_encodeTargetPoint hr] at this
  · rintro v rfl side hside pt hpt si regs hsi hr
    obtain ⟨ws, hws⟩ := hok v rfl
    have hmem : (⟨side.functionCode, pt.addr, regs⟩ : RegisterWrite) ∈ ws :=
      (mem_targetWrites hws).2
        ⟨(side, pt), mem_targetPoints.2 ⟨hside, hpt⟩, targetWrite_eq_ok.2 ⟨si, regs, hsi, hr, rfl⟩⟩
    have := h _ (Or.inr (by simpa [sampleWrites, hws] using hmem))
    unfold getValues
    rwa [Banks.Holds, length_encodeTargetPoint hr] at this

/-- A run ends with the latest sample encoded. -/
theorem targetWrites_getLast {target : List TargetSide} {ctRatio : PyFloat} {vs : List Sample}
    {d d' : Datastore} (h : publishAll target ctRatio vs d = some d') (v : Sample)
    (hv : vs.getLast? = some v) : ∃ ws, targetWrites v ctRatio target = .ok ws :=
  targetWrites_of_publishAll h v (List.mem_of_getLast? hv)

theorem readsBack_of_layout {m : RegisterMap} {cfg : DtsuConf} {ctRatio : PyFloat}
    {vs : List Sample} {d : Datastore}
    (h : publishAll m.targetSides ctRatio vs (bridgeContext m cfg) = some d)
    (hl : Layout m cfg ctRatio vs.getLast?) : ReadsBack m cfg ctRatio vs.getLast? d := by
  rw [readsBack_iff (targetWrites_getLast h), eq_writeAll_writers h hl.reaches hl.fits]
  refine (Banks.holds_writeAll_iff ?_).2 ?_
  · rw [lengths_replicate]
    exact hl.fits
  · rw [lengths_replicate]
    exact hl.agree

/-! ## What reading back needs -/

omit [FloatArith] in
/-- A FC03 block that ends before 0x0045 does not reach 0x0046 when it is seeded. -/
theorem length_staticWrites_short {n : FunctionCode → ℕ} (hn : n .holding ≤ 69) (slaveId : ℕ)
    (cfg : DtsuConf) :
    (Banks.writeAll (fun fc => List.replicate (n fc) 0) (staticWrites slaveId cfg)).lengths
      .holding ≤ 70 := by
  set d : Datastore := fun fc => List.replicate (n fc) 0
  have hd : d.lengths = n := lengths_replicate n
  by_cases h47 : 47 ≤ n .holding
  · have hlow : ∀ w ∈ lowStaticWrites slaveId cfg, w.Fits d.lengths := by
      intro w hw
      obtain ⟨h1, h2, h3, h4⟩ := lowStaticWrites_spec hw
      exact (inside_of_le h2 (by rw [hd, h1]; omega)).1
    rw [staticWrites_eq, Banks.writeAll_append, Banks.writeAll_append]
    set e := d.writeAll (lowStaticWrites slaveId cfg)
    set f := e.writeAll [⟨.holding, 0x0046, [0]⟩]
    have he : e.lengths .holding = n .holding := by rw [Banks.lengths_writeAll hlow, hd]
    have hef : e.lengths .holding ≤ f.lengths .holding := Banks.lengths_le_writeAll _ _ _
    have hf : f.lengths .holding ≤ e.lengths .holding + 1 := Banks.lengths_writeAll_le _ _ _
    rw [Banks.lengths_writeAll]
    · omega
    · intro w hw
      simp only [List.mem_cons, List.not_mem_nil, or_false] at hw
      rcases hw with rfl | rfl
      · exact (inside_of_le (by decide) (by simp only [List.length_singleton]; omega)).1
      · exact (inside_of_le (by decide) (by simp only [List.length_singleton]; omega)).1
  · have hle := Banks.lengths_writeAll_le .holding (staticWrites slaveId cfg) d
    have hsum : ((staticWrites slaveId cfg).map (·.cells.length)).sum = 15 := by
      simp [staticWrites, identityRegisterAddrs]
    rw [hsum, hd] at hle
    omega

omit [FloatArith] in
theorem maxAddress_nonneg (m : RegisterMap) (fc : FunctionCode) :
    0 ≤ maxAddress m.targetSides (some m.dtsuSigenIdentity) fc :=
  (maxTargetAddress_nonneg _ fc).trans (maxTargetAddress_le _ _ fc)

omit [FloatArith] in
/-- Where no address is negative, blocks of their initial size hold every slice. -/
theorem fits_of_noNegativeAddress {m : RegisterMap} (h : NoNegativeAddress m)
    {n : FunctionCode → ℕ} (hn : ∀ fc, initialLength m fc ≤ n fc) (cfg : DtsuConf) :
    (∀ w ∈ sigenWrites m.dtsuSigenIdentity (some cfg), w.Fits n) ∧
      PointsFit m.targetSides n := by
  have hlen : ∀ fc, maxAddress m.targetSides (some m.dtsuSigenIdentity) fc + 1 ≤ n fc := by
    intro fc
    have h1 := hn fc
    have h2 := maxAddress_nonneg m fc
    unfold initialLength at h1
    omega
  refine ⟨fun w hw => ?_, fun p hp => ?_⟩
  · obtain ⟨⟨name, p⟩, hp, rfl⟩ := List.mem_map.1 hw
    have hmem : p ∈ m.dtsuSigenIdentity.points.values := List.mem_map.2 ⟨_, hp, rfl⟩
    have h1 := @identity_le_maxAddress m.targetSides _ _ hmem
    have h2 := length_identityValues (some cfg) name p
    have h3 := hlen .holding
    exact (inside_of_le (h.2 p hmem) (by dsimp only; omega)).1
  · have h1 := @addr_le_maxAddress _ m.dtsuSigenIdentity _ hp
    have h2 := hlen p.1.functionCode
    exact (inside_of_le (h.1 p hp) (by push_cast; omega)).1

/-- With no negative address, identity registers read back only where 0x0046 is reached. -/
theorem reaches_of_readsBack {m : RegisterMap} {cfg : DtsuConf} {ctRatio : PyFloat}
    {vs : List Sample} {d : Datastore} (hneg : NoNegativeAddress m)
    (h : publishAll m.targetSides ctRatio vs (bridgeContext m cfg) = some d)
    (hr : ReadsBack m cfg ctRatio vs.getLast? d) : 70 ≤ initialLength m .holding := by
  by_contra hlt
  set b : Datastore := fun fc => List.replicate (initialLength m fc) 0
  have hb : b.lengths = initialLength m := lengths_replicate _
  set e := b.writeAll (staticWrites cfg.slaveId cfg)
  have he : e.lengths .holding ≤ 70 := length_staticWrites_short (by omega) _ _
  have hbe : ∀ fc, initialLength m fc ≤ e.lengths fc := fun fc =>
    hb ▸ Banks.lengths_le_writeAll fc _ b
  obtain ⟨hsigen, hpoints⟩ := fits_of_noNegativeAddress hneg hbe cfg
  have hctx : bridgeContext m cfg = e.writeAll (sigenWrites m.dtsuSigenIdentity (some cfg)) := by
    rw [bridgeContext_eq, identityWrites, Banks.writeAll_append]
  have hctxlen : (bridgeContext m cfg).lengths = e.lengths := by
    rw [hctx, Banks.lengths_writeAll hsigen]
  rw [← hctxlen] at hpoints
  have hdlen : d.lengths = e.lengths := by
    rw [publishAll_eq h hpoints, Banks.lengths_writeAll (fits_sampleWrites hpoints _), hctxlen]
  have h46 := hr.static ⟨.holding, 0x0046, [0]⟩ (by rw [staticWrites_eq]; simp)
  have hl : (d .holding).length ≤ 70 := by
    have := congrFun hdlen .holding
    unfold Banks.lengths at this he
    omega
  have hnil : getValues d .holding 0x0046 1 = [] := slice_of_le (by omega) _
  exact absurd (h46.symm.trans hnil) (by simp)

theorem layout_of_readsBack {m : RegisterMap} {cfg : DtsuConf} {ctRatio : PyFloat}
    {vs : List Sample} {d : Datastore} (hneg : NoNegativeAddress m)
    (h : publishAll m.targetSides ctRatio vs (bridgeContext m cfg) = some d)
    (hr : ReadsBack m cfg ctRatio vs.getLast? d) : Layout m cfg ctRatio vs.getLast? := by
  have hreach := reaches_of_readsBack hneg h hr
  have hle : ∀ fc, initialLength m fc ≤ blockLength m fc := by
    rintro (_ | _)
    · exact le_max_left _ _
    · exact le_rfl
  obtain ⟨hsigen, hpoints⟩ := fits_of_noNegativeAddress hneg hle cfg
  have hfits : ∀ w ∈ writers m cfg ctRatio vs.getLast?, w.Fits (blockLength m) := by
    intro w hw
    rcases List.mem_append.1 hw with hw | hw
    · rcases List.mem_append.1 hw with hw | hw
      · obtain ⟨h1, h2, h3, h4⟩ := staticWrites_spec hw
        have h71 : 71 ≤ blockLength m .holding := le_max_right _ _
        exact (inside_of_le h2 (by rw [h1]; omega)).1
      · exact hsigen w hw
    · exact fits_sampleWrites hpoints _ w hw
  refine ⟨hreach, hfits, ?_⟩
  have hb := lengths_replicate (blockLength m)
  have hall := (readsBack_iff (targetWrites_getLast h)).1 hr
  rw [eq_writeAll_writers h hreach hfits] at hall
  rw [← hb] at hfits ⊢
  exact (Banks.holds_writeAll_iff hfits).1 hall

/-- After any successful updates, a layout makes every point read the encoding of the
latest sample and every identity register its seed. Where no address is negative, nothing
less does. -/
theorem registers_readBack {m : RegisterMap} {cfg : DtsuConf} {ctRatio : PyFloat}
    {vs : List Sample} {d : Datastore}
    (h : publishAll m.targetSides ctRatio vs (bridgeContext m cfg) = some d) :
    (Layout m cfg ctRatio vs.getLast? → ReadsBack m cfg ctRatio vs.getLast? d) ∧
      (NoNegativeAddress m → ReadsBack m cfg ctRatio vs.getLast? d →
        Layout m cfg ctRatio vs.getLast?) :=
  ⟨readsBack_of_layout h, fun hneg => layout_of_readsBack hneg h⟩

end Float

/-- With the input maps' points side by side, an update reads back. -/
theorem registers_readBack_freqMap :
    ∃ d, @publishAll .double (freqMap 102).targetSides (.lit 10) [freqSample]
        (bridgeContext (freqMap 102) tcpConf) = some d ∧
      @ReadsBack .double (freqMap 102) tcpConf (.lit 10) (some freqSample) d := by
  have hsome : (@publishAll .double (freqMap 102).targetSides (.lit 10) [freqSample]
      (bridgeContext (freqMap 102) tcpConf)).isSome := by decide +kernel
  obtain ⟨d, hd⟩ := Option.isSome_iff_exists.1 hsome
  have hlayout : @Layout .double (freqMap 102) tcpConf (.lit 10) (some freqSample) :=
    @Layout.mk .double _ _ _ _ (by decide +kernel) (by decide +kernel) (by decide +kernel)
  exact ⟨d, hd, (@registers_readBack .double _ _ _ _ _ hd).1 hlayout⟩

/-- Points of two maps that overlap by one register are accepted, and one is overwritten. -/
theorem registers_overwritten :
    ∃ d, @publishAll .double (freqMap 101).targetSides (.lit 10) [freqSample]
        (bridgeContext (freqMap 101) tcpConf) = some d ∧
      ¬@ReadsBack .double (freqMap 101) tcpConf (.lit 10) (some freqSample) d := by
  have hread : (@publishAll .double (freqMap 101).targetSides (.lit 10) [freqSample]
      (bridgeContext (freqMap 101) tcpConf)).map (getValues · .input 100 2) =
        some [0x4248, 0x4248] := by decide +kernel
  obtain ⟨d, hd, hval⟩ := Option.map_eq_some_iff.1 hread
  refine ⟨d, hd, fun hr => ?_⟩
  have hside : freqSide .input 100 ∈ (freqMap 101).targetSides := by
    simp [RegisterMapFields.targetSides, RegisterMapFields.targets, freqMap]
  have := @ReadsBack.points .double _ _ _ _ _ hr freqSample rfl _ hside
    { addr := 100, from_ := "freq" } (by simp [freqSide, Dict.values]) nominalFreq [0x4248, 0] rfl
    (by decide +kernel)
  rw [show (freqSide .input 100).functionCode = .input from rfl, hval] at this
  exact absurd this (by decide)

end DtsuBridge
