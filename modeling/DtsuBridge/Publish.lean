import DtsuBridge.Datastore

/-!
# Publishing a sample

`onUpdate` encodes a sample into the served registers and then stamps the store fresh.
`onUpdate_all_or_nothing` : it either writes every point of the output maps in order and
replaces the store's sample and stamp, or raises with the registers and the store as they
were. It raises exactly when some point is `Rejected`.
-/

namespace DtsuBridge

/-- What a bridge serves from : the registers, and the store its freshness is judged by. -/
structure Served where
  datastore : Datastore
  store : CanonicalStore

section Float

variable [FloatArith]

/-- The callback of `build_on_update`. -/
def onUpdate (target : List TargetSide) (ctRatio : PyFloat) (s : Served) (values : Sample)
    (ts : Time) : Except PyExc Unit × Served :=
  match updateDatastore s.datastore values target ctRatio with
  | (.error e, d) => (.error e, { s with datastore := d })
  | (.ok (), d) => (.ok (), ⟨d, s.store.update values ts⟩)

/-- An update that raises leaves the store as well. -/
theorem onUpdate_cases (target : List TargetSide) (ctRatio : PyFloat) (s : Served)
    (values : Sample) (ts : Time) :
    (∃ e, onUpdate target ctRatio s values ts = (.error e, s)) ∨
      ∃ d, updateDatastore s.datastore values target ctRatio = (.ok (), d) ∧
        onUpdate target ctRatio s values ts = (.ok (), ⟨d, ⟨values, some ts⟩⟩) := by
  unfold onUpdate
  rcases updateDatastore_eq s.datastore values target ctRatio with ⟨ws, -, h⟩ | ⟨-, e, h⟩
  · rw [h]
    exact Or.inr ⟨_, rfl, rfl⟩
  · rw [h]
    exact Or.inl ⟨e, rfl⟩

/-! ## When a point encodes -/

/-- The value of a point after CT division, sign, scale and offset. -/
def convertedValue (si : PyFloat) (pt : TargetPoint) (ctRatio sign : PyFloat) : PyFloat :=
  (((if pt.divideByCt then si.div ctRatio else si).mul sign).mul pt.scale).add pt.offset

/-- The point has no encoding : its value is missing, its CT ratio is not positive and
finite, its sign does not convert, or its converted value is not a finite float32. -/
def Rejected (values : Sample) (ctRatio : PyFloat) (pt : TargetPoint) : Prop :=
  values.get? pt.from_ = none ∨
    (pt.divideByCt = true ∧ ¬(ctRatio.isFinite = true ∧ PyFloat.lt 0 ctRatio = true)) ∨
    PyFloat.ofInt? pt.sign = none ∨
    ∃ si sign, values.get? pt.from_ = some si ∧ PyFloat.ofInt? pt.sign = some sign ∧
      ((convertedValue si pt ctRatio sign).isFinite = false ∨
        FLOAT32_MAX.lt (convertedValue si pt ctRatio sign).abs = true)

omit [FloatArith] in
theorem ctRatioOk_iff {ctRatio : PyFloat} :
    ctRatioOk ctRatio = true ↔ ctRatio.isFinite = true ∧ PyFloat.lt 0 ctRatio = true := by
  unfold ctRatioOk
  cases ctRatio with
  | nan => simp
  | inf neg => simp
  | fin neg m =>
    have h0 : (0 : PyFloat) = .fin false 0 := rfl
    rw [h0, PyFloat.le_fin, PyFloat.lt_fin]
    simp

/-- A ratio that is accepted does not raise a division by zero. -/
theorem truediv_of_ctRatioOk {si ctRatio : PyFloat} (h : ctRatioOk ctRatio = true) :
    truediv si ctRatio = .ok (si.div ctRatio) := by
  obtain ⟨hfin, hlt⟩ := ctRatioOk_iff.1 h
  obtain ⟨neg, m, rfl⟩ := PyFloat.isFinite_iff.1 hfin
  have h0 : (0 : PyFloat) = .fin false 0 := rfl
  have hne : (PyFloat.fin neg m).eq 0 = false := by
    rw [h0, PyFloat.lt_fin, decide_eq_true_iff] at hlt
    rw [h0, PyFloat.eq_fin, decide_eq_false_iff_not]
    exact hlt.ne'
  rw [truediv, PyFloat.truediv?, hne]
  rfl

theorem divideCt_eq_ok {si : PyFloat} {pt : TargetPoint} {ctRatio v : PyFloat} :
    divideCt si pt ctRatio = .ok v ↔
      (pt.divideByCt = true → ctRatioOk ctRatio = true) ∧
        v = if pt.divideByCt then si.div ctRatio else si := by
  unfold divideCt
  split_ifs with hd hc
  · rw [truediv_of_ctRatioOk hc]
    simpa [hc] using eq_comm
  · simp [hc, hd]
  · rw [Except.ok.injEq]
    exact ⟨fun h => ⟨fun h' => absurd h' hd, h.symm⟩, fun h => h.2.symm⟩

theorem toRegisterFloat_eq_ok {si scale offset v : PyFloat} {sign : ℤ} :
    toRegisterFloat si scale sign offset = .ok v ↔
      ∃ s, PyFloat.ofInt? sign = some s ∧ v = ((si.mul s).mul scale).add offset := by
  unfold toRegisterFloat floatOfInt
  cases PyFloat.ofInt? sign with
  | none => simp
  | some s => simpa [Except.bind_eq_ok, pure, Except.pure] using eq_comm

/-- An encoding is there exactly when the converted value is a float32. -/
theorem encodePoint_isOk {si scale offset : PyFloat} {sign : ℤ} {wordOrder byteOrder : String}
    {zeroLowWord : Bool} :
    (∃ regs, encodePoint si scale sign offset wordOrder byteOrder zeroLowWord = .ok regs) ↔
      ∃ v, toRegisterFloat si scale sign offset = .ok v ∧ fitsFloat32 v = true := by
  simp only [encodePoint, Except.bind_eq_ok]
  refine ⟨?_, ?_⟩
  · rintro ⟨_, v, hv, regs, hregs, -⟩
    refine ⟨v, hv, ?_⟩
    rcases floatToRegisters_cases v wordOrder byteOrder with ⟨h, -⟩ | ⟨-, e, he⟩
    · exact h
    · rw [he] at hregs
      cases hregs
  · rintro ⟨v, hv, hfit⟩
    rcases floatToRegisters_cases v wordOrder byteOrder with ⟨-, regs, hregs, -⟩ | ⟨h, -⟩
    · exact ⟨_, v, hv, regs, hregs, rfl⟩
    · rw [hfit] at h
      cases h

/-- A point has a write exactly when it is not rejected. -/
theorem exists_targetWrite_iff {values : Sample} {ctRatio : PyFloat}
    {p : TargetSide × TargetPoint} :
    (∃ w, targetWrite values ctRatio p = .ok w) ↔ ¬Rejected values ctRatio p.2 := by
  have hfit : ∀ v : PyFloat,
      (v.isFinite = false ∨ FLOAT32_MAX.lt v.abs = true) ↔ ¬fitsFloat32 v = true := by
    intro v
    unfold fitsFloat32
    cases v.isFinite <;> cases FLOAT32_MAX.lt v.abs <;> simp
  have henc : ∀ si, (∃ regs, encodeTargetPoint si p.2 p.1 ctRatio = .ok regs) ↔
      (p.2.divideByCt = true → ctRatioOk ctRatio = true) ∧
        ∃ s, PyFloat.ofInt? p.2.sign = some s ∧
          fitsFloat32 (convertedValue si p.2 ctRatio s) = true := by
    intro si
    simp only [encodeTargetPoint, Except.bind_eq_ok, divideCt_eq_ok]
    rw [exists_comm]
    simp only [exists_and_left, and_assoc, encodePoint_isOk, toRegisterFloat_eq_ok]
    simp only [exists_eq_left, convertedValue]
    refine and_congr_right fun _ => ?_
    refine ⟨?_, ?_⟩
    · rintro ⟨v, ⟨s, hs, rfl⟩, hv⟩
      exact ⟨s, hs, hv⟩
    · rintro ⟨s, hs, hv⟩
      exact ⟨_, ⟨s, hs, rfl⟩, hv⟩
  have hw : (∃ w, targetWrite values ctRatio p = .ok w) ↔
      ∃ si, values.get? p.2.from_ = some si ∧
        ∃ regs, encodeTargetPoint si p.2 p.1 ctRatio = .ok regs := by
    simp only [targetWrite_eq_ok]
    refine ⟨?_, ?_⟩
    · rintro ⟨w, si, regs, hsi, hregs, -⟩
      exact ⟨si, hsi, regs, hregs⟩
    · rintro ⟨si, hsi, regs, hregs⟩
      exact ⟨_, si, regs, hsi, hregs, rfl⟩
  simp only [hw, henc, Rejected, hfit, ctRatioOk_iff]
  cases values.get? p.2.from_ with
  | none => simp
  | some si =>
    cases PyFloat.ofInt? p.2.sign with
    | none => simp
    | some s => simp

/-! ## All or nothing -/

/-- `onUpdate` publishes the whole sample, or raises and changes nothing, the latter
exactly when some point is rejected. -/
theorem onUpdate_all_or_nothing (target : List TargetSide) (ctRatio : PyFloat) (s : Served)
    (values : Sample) (ts : Time) :
    ((∃ ws, List.Forall₂ (fun p w => ∃ si regs, values.get? p.2.from_ = some si ∧
            encodeTargetPoint si p.2 p.1 ctRatio = .ok regs ∧
            w = ⟨p.1.functionCode, p.2.addr, regs⟩) (targetPoints target) ws ∧
          onUpdate target ctRatio s values ts =
            (.ok (), ⟨s.datastore.writeAll ws, ⟨values, some ts⟩⟩)) ∨
        ∃ e, onUpdate target ctRatio s values ts = (.error e, s)) ∧
      ((∃ e, (onUpdate target ctRatio s values ts).1 = .error e) ↔
        ∃ p ∈ targetPoints target, Rejected values ctRatio p.2) := by
  unfold onUpdate
  rcases updateDatastore_eq s.datastore values target ctRatio with
    ⟨ws, hws, h⟩ | ⟨⟨p, hp, hno⟩, e, h⟩
  · rw [h]
    refine ⟨Or.inl ⟨ws, ?_, rfl⟩, ?_⟩
    · exact (Except.mapM_eq_ok.1 hws).imp fun _ _ => targetWrite_eq_ok.1
    · have hall := Except.exists_mapM_eq_ok.1 ⟨ws, hws⟩
      refine ⟨fun ⟨e, he⟩ => (by cases he), fun ⟨p, hp, hrej⟩ => ?_⟩
      exact absurd hrej (exists_targetWrite_iff.1 (hall p hp))
  · rw [h]
    refine ⟨Or.inr ⟨e, rfl⟩, fun _ => ⟨p, hp, ?_⟩, fun _ => ⟨e, rfl⟩⟩
    rwa [exists_targetWrite_iff, not_not] at hno

end Float

/-- An output map of one point, at address 0, whose sign no float can hold. -/
def bigSignSide : TargetSide where
  points := ⟨[("p", { addr := 0, from_ := "p", sign := 2 ^ 1024 })], by decide⟩
  noOverlap := by rfl

/-- The value 0 is rejected for that sign, though the value is there, no CT ratio is
applied, and 0 times the sign is 0. -/
theorem onUpdate_raises_bigSign :
    (∃ e, (@onUpdate .double [bigSignSide] 1 ⟨fun _ => [], {}⟩
        ⟨[("p", 0)], by decide⟩ 0).1 = .error e) ∧
      ¬∃ p ∈ targetPoints [bigSignSide],
        (⟨[("p", 0)], by decide⟩ : Sample).get? p.2.from_ = none ∨
          (p.2.divideByCt = true ∧
            ¬((1 : PyFloat).isFinite = true ∧ PyFloat.lt 0 1 = true)) ∨
          ∃ si, (⟨[("p", 0)], by decide⟩ : Sample).get? p.2.from_ = some si ∧
            let v := @convertedValue .double si p.2 1 (.fin (decide (p.2.sign < 0)) p.2.sign.natAbs)
            v.isFinite = false ∨ FLOAT32_MAX.lt v.abs = true := by
  refine ⟨⟨.overflowError "int too large to convert to float", by decide +kernel⟩, ?_⟩
  decide +kernel

end DtsuBridge
