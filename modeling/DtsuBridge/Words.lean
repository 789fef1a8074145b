import DtsuBridge.Registers
import DtsuBridge.Lib.Run

/-!
# Registers are words

A register is packed into two bytes when a response is sent, and packing a larger number
raises. `registers_fit_word` : whatever is published, accepted or not, every register of
both blocks fits a word, so a response over any range of addresses packs. Each writer has
its own reason : the identity fields are bounded at load, an ascii identity has ASCII
characters only, a uint32 is split by masks, and the words of a float32 are made of bytes.
-/

namespace DtsuBridge

/-- `struct.pack(">H", register)`, as the high and the low byte. -/
def packRegister (register : ℕ) : Except PyExc (ℕ × ℕ) :=
  if register ≤ 0xFFFF then .ok (register / 256, register % 256)
  else .error (.other "struct.error" "'H' format requires 0 <= number <= 65535")

/-- The registers of a read response, in wire order. -/
def packRegisters (registers : List ℕ) : Except PyExc (List (ℕ × ℕ)) :=
  registers.mapM packRegister

/-- All registers fit a word. -/
def Words (d : Datastore) : Prop :=
  ∀ fc, ∀ r ∈ d fc, r ≤ 0xFFFF

/-- Registers of words pack, whatever range of them is read. -/
theorem Words.packRegisters_isOk {d : Datastore} (h : Words d) (fc : FunctionCode) (addr : ℤ)
    (count : ℕ) : ∃ bytes, packRegisters (getValues d fc addr count) = .ok bytes := by
  refine Except.exists_mapM_eq_ok.2 fun r hr => ⟨_, if_pos ?_⟩
  exact h fc r (mem_of_mem_slice hr)

theorem Words.writeAll {d : Datastore} {ws : List RegisterWrite} (hd : Words d)
    (hws : ∀ w ∈ ws, ∀ r ∈ w.cells, r ≤ 0xFFFF) : Words (d.writeAll ws) :=
  Banks.forall_mem_writeAll hd hws

/-! ## Each writer writes words -/

/-- A word of two bytes. -/
theorem word_of_bytes {hi lo : ℕ} (hhi : hi < 256) (hlo : lo < 256) :
    (hi <<< 8) ||| lo ≤ 0xFFFF := by
  have h1 : hi <<< 8 < 2 ^ 16 := by
    rw [Nat.shiftLeft_eq]
    omega
  have h2 := Nat.or_lt_two_pow h1 (show lo < 2 ^ 16 by omega)
  omega

theorem bytesWord_le {pair : ℕ × ℕ} (h1 : pair.1 < 256) (h2 : pair.2 < 256) (byteOrder : String) :
    bytesWord pair byteOrder ≤ 0xFFFF := by
  unfold bytesWord
  split_ifs
  · exact word_of_bytes h1 h2
  · exact word_of_bytes h2 h1

theorem pairWords_le :
    ∀ {bytes : List ℕ}, (∀ b ∈ bytes, b < 256) → ∀ r ∈ pairWords bytes, r ≤ 0xFFFF
  | [], _ => by simp [pairWords]
  | [_], _ => by simp [pairWords]
  | hi :: lo :: bytes, h => by
    obtain ⟨hhi, h⟩ := List.forall_mem_cons.1 h
    obtain ⟨hlo, h⟩ := List.forall_mem_cons.1 h
    exact List.forall_mem_cons.2 ⟨word_of_bytes hhi hlo, pairWords_le h⟩

theorem staticWrites_le (cfg : DtsuConf) :
    ∀ w ∈ staticWrites cfg.slaveId cfg, ∀ r ∈ w.cells, r ≤ 0xFFFF := by
  intro w hw r hr
  rcases List.mem_append.1 hw with hw | hw
  · obtain ⟨⟨field, addr⟩, -, rfl⟩ := List.mem_map.1 hw
    obtain rfl := List.mem_singleton.1 hr
    exact Nat.le_of_lt_succ (field cfg.identity).isLt
  · have hslave := cfg.slaveId_le
    have hbaud : (baudCodes.lookup (reportedBaudrate cfg)).getD 3 ≤ 3 := by
      cases h : baudCodes.lookup (reportedBaudrate cfg) with
      | none => exact le_rfl
      | some code =>
        obtain ⟨pre, post, hmem, -⟩ := List.lookup_eq_some_iff.1 h
        have hall : ∀ e ∈ baudCodes, e.2 ≤ 3 := by decide
        exact hall (reportedBaudrate cfg, code) (by rw [hmem]; simp)
    simp only [List.mem_cons, List.not_mem_nil, or_false] at hw
    rcases hw with rfl | rfl | rfl | rfl | rfl <;> obtain rfl := List.mem_singleton.1 hr <;> omega

theorem identityValues_le (cfg : Option DtsuConf) (name : String) (p : StaticIdentityPoint) :
    ∀ r ∈ identityValues cfg name p, r ≤ 0xFFFF := by
  have hmask : ∀ n : ℕ, n &&& 0xFFFF ≤ 0xFFFF := fun n => Nat.and_le_right
  unfold identityValues
  split
  next s ht hs =>
    refine pairWords_le fun b hb => ?_
    rcases List.mem_append.1 hb with hb | hb
    · obtain ⟨c, hc, rfl⟩ := List.mem_map.1 hb
      exact (p.ascii_lt ht hs c hc).trans (by decide)
    · rw [List.eq_of_mem_replicate hb]
      decide
  next => simp [hmask]
  next => simp

theorem sigenWrites_le (identity : StaticIdentitySide) (cfg : Option DtsuConf) :
    ∀ w ∈ sigenWrites identity cfg, ∀ r ∈ w.cells, r ≤ 0xFFFF := by
  intro w hw
  obtain ⟨⟨name, p⟩, -, rfl⟩ := List.mem_map.1 hw
  exact identityValues_le cfg name p

section Float

variable [FloatArith]

omit [FloatArith] in
theorem floatToRegisters_le {v : PyFloat} {wordOrder byteOrder : String} {regs : List ℕ}
    (h : floatToRegisters v wordOrder byteOrder = .ok regs) : ∀ r ∈ regs, r ≤ 0xFFFF := by
  cases hfit : fitsFloat32 v with
  | false => simp [floatToRegisters_of_not_fits hfit] at h
  | true =>
    obtain ⟨b, hb⟩ := Option.isSome_iff_exists.1 (toBits?_isSome_of_fits hfit)
    obtain rfl := Except.ok.inj ((floatToRegisters_eq hfit hb _ _).symm.trans h)
    have hword : ∀ i j : ℕ, bytesWord (i % 256, j % 256) byteOrder ≤ 0xFFFF := fun i j =>
      bytesWord_le (Nat.mod_lt _ (by decide)) (Nat.mod_lt _ (by decide)) _
    unfold registersOfBits
    split_ifs <;> simp [hword]

theorem encodeTargetPoint_le {si ctRatio : PyFloat} {pt : TargetPoint} {side : TargetSide}
    {regs : List ℕ} (h : encodeTargetPoint si pt side ctRatio = .ok regs) :
    ∀ r ∈ regs, r ≤ 0xFFFF := by
  obtain ⟨v, -, h⟩ := Except.bind_eq_ok.1 h
  obtain ⟨x, -, h⟩ := Except.bind_eq_ok.1 h
  obtain ⟨rs, hrs, h⟩ := Except.bind_eq_ok.1 h
  cases h
  cases pt.zeroLowWord with
  | true =>
    intro r hr
    rcases List.mem_or_eq_of_mem_set hr with hr | rfl
    · exact floatToRegisters_le hrs r hr
    · exact Nat.zero_le _
  | false => exact floatToRegisters_le hrs

theorem targetWrites_le {v : Sample} {ctRatio : PyFloat} {target : List TargetSide}
    {ws : List RegisterWrite} (h : targetWrites v ctRatio target = .ok ws) :
    ∀ w ∈ ws, ∀ r ∈ w.cells, r ≤ 0xFFFF := by
  intro w hw
  obtain ⟨p, -, hp⟩ := (mem_targetWrites h).1 hw
  obtain ⟨si, regs, -, hr, rfl⟩ := targetWrite_eq_ok.1 hp
  exact encodeTargetPoint_le hr

/-! ## Every run of updates -/

/-- The updates a bridge may be called with, from the context it builds. -/
def updateSystem (m : RegisterMap) (cfg : DtsuConf) (ctRatio : PyFloat) :
    System Served (Sample × Time) where
  init s := s = ⟨bridgeContext m cfg, {}⟩
  step u s := some (onUpdate m.targetSides ctRatio s u.1 u.2).2

omit [FloatArith] in
theorem words_bridgeContext (m : RegisterMap) (cfg : DtsuConf) : Words (bridgeContext m cfg) := by
  rw [bridgeContext_eq]
  refine Words.writeAll (fun fc r hr => ?_) fun w hw => ?_
  · rw [List.eq_of_mem_replicate hr]
    exact Nat.zero_le _
  · rcases List.mem_append.1 hw with hw | hw
    · exact staticWrites_le cfg w hw
    · exact sigenWrites_le _ _ w hw

/-- An update keeps the registers words, also where it raises. -/
theorem words_onUpdate {target : List TargetSide} {ctRatio : PyFloat} {s : Served}
    (h : Words s.datastore) (values : Sample) (ts : Time) :
    Words (onUpdate target ctRatio s values ts).2.datastore := by
  rcases onUpdate_cases target ctRatio s values ts with ⟨e, he⟩ | ⟨d, hd, hok⟩
  · rwa [he]
  · obtain ⟨ws, hws, rfl⟩ := updateDatastore_ok hd
    rw [hok]
    exact h.writeAll (targetWrites_le hws)

/-- After any updates, every register of both blocks fits a word, and a response over any
range of them packs. -/
theorem registers_fit_word {m : RegisterMap} {cfg : DtsuConf} {ctRatio : PyFloat} {s : Served}
    (h : (updateSystem m cfg ctRatio).Reachable s) :
    (∀ fc, ∀ r ∈ s.datastore fc, r ≤ 0xFFFF) ∧
      ∀ fc addr count, ∃ bytes,
        packRegisters (getValues s.datastore fc addr count) = .ok bytes := by
  have hwords : Words s.datastore := by
    refine h.invariant (I := fun s => Words s.datastore) ?_ ?_
    · rintro s rfl
      exact words_bridgeContext m cfg
    · rintro u s s' hs - hstep
      obtain rfl := Option.some.inj hstep
      exact words_onUpdate hs u.1 u.2
  exact ⟨hwords, hwords.packRegisters_isOk⟩

end Float

/-- A published sample and one that is rejected. -/
theorem registers_fit_word_freqMap :
    ∃ s, @System.run _ _ (@updateSystem .double (freqMap 102) tcpConf (.lit 10))
        [(freqSample, 1), (.empty, 2)] ⟨bridgeContext (freqMap 102) tcpConf, {}⟩ = some s ∧
      (∀ fc, ∀ r ∈ s.datastore fc, r ≤ 0xFFFF) ∧
        ∀ fc addr count, ∃ bytes,
          packRegisters (getValues s.datastore fc addr count) = .ok bytes := by
  refine ⟨_, rfl, ?_⟩
  refine @registers_fit_word .double (freqMap 102) tcpConf (.lit 10) _ ?_
  exact System.reachable_of_run (.init rfl) [(freqSample, 1), (.empty, 2)] rfl

end DtsuBridge
