import DtsuBridge.Pollers

/-!
# Polls of given replies

A poll of declared blocks sees of a device only what it answers each read with
(`replyClient`). Replies that are no errors and have all registers are read as they are
(`readDeclaredGroups_of_full`), and any other fails the poll with its own error
(`readDeclaredGroups_of_not_full`). Out of full replies every point of one address has its
registers (`extractSized_isOk`).
-/

namespace DtsuBridge

/-- A device that answers the reads of one poll with these responses. -/
def replyClient (replies : ℕ → Response) : Client := fun n _ => .ok (replies n)

/-- A response that is no error and has this many registers, or more. -/
def Response.full (rr : Response) (count : ℕ) : Prop :=
  rr.isError = false ∧ count ≤ rr.registers.length

instance (rr : Response) (count : ℕ) : Decidable (rr.full count) :=
  inferInstanceAs (Decidable (_ ∧ _))

/-- The declared blocks, with the number of their read. -/
def SourceSide.reads (side : SourceSide) : List (ReadGroup × ℕ) :=
  (side.readGroups.getD []).zipIdx

/-- The request for a declared block. -/
def SourceSide.request (side : SourceSide) (fc : FunctionCode) (slave : ℤ) (g : ReadGroup) :
    Request :=
  ⟨fc, g.base + side.addressOffset, g.count, g.unitId.getD slave⟩

/-- Every block is answered in full. -/
def FullReplies (side : SourceSide) (replies : ℕ → Response) : Prop :=
  ∀ e ∈ side.reads, (replies e.2).full e.1.count

instance (side : SourceSide) (replies : ℕ → Response) : Decidable (FullReplies side replies) :=
  List.decidableBAll _ _

/-- The blocks that were answered. -/
def repliedBlocks (side : SourceSide) (replies : ℕ → Response) : Blocks :=
  side.reads.map fun e => (e.1.base, (replies e.2).registers)

/-! ## Reading -/

theorem readBlock_of_full {replies : ℕ → Response} {n : ℕ} {req : Request}
    (h : (replies n).full req.count) (readError : Response → PollError)
    (shortRead : ℕ → PollError) :
    readBlock (replyClient replies) n req readError shortRead = .ok (replies n).registers := by
  have hshort : ¬(replies n).registers.length < req.count := not_lt.2 h.2
  simp [readBlock, replyClient, h.1, hshort]

/-- A reply that is not full is an error of the poll. -/
theorem readBlock_of_not_full {replies : ℕ → Response} {n : ℕ} {req : Request}
    (h : ¬(replies n).full req.count) {readError : Response → PollError}
    {shortRead : ℕ → PollError} {P : PollError → Prop} (hread : ∀ rr, P (readError rr))
    (hshort : ∀ got, P (shortRead got)) :
    ∃ e, readBlock (replyClient replies) n req readError shortRead = .error (.pollError e) ∧
      P e := by
  cases he : (replies n).isError with
  | true => exact ⟨_, if_pos he, hread _⟩
  | false =>
    have hlt : (replies n).registers.length < req.count := not_le.1 fun hle => h ⟨he, hle⟩
    refine ⟨_, ?_, hshort (replies n).registers.length⟩
    simp [readBlock, replyClient, he, hlt]

theorem readDeclaredGroups_of_full {side : SourceSide} {replies : ℕ → Response}
    (h : FullReplies side replies) (fc : FunctionCode) (slave : ℤ)
    (readError : ℤ → ℤ → Response → PollError) (shortRead : ℤ → ℤ → ℕ → ℕ → PollError) :
    readDeclaredGroups (replyClient replies) fc side slave readError shortRead =
      .ok (repliedBlocks side replies) := by
  refine Except.mapM_eq_ok_map fun e he => ?_
  have hread := @readBlock_of_full _ _ (side.request fc slave e.1) (h e he)
  simp only [SourceSide.request] at hread
  simp only [hread]
  rfl

/-- A block that is not answered in full fails the poll with an error of its own. -/
theorem readDeclaredGroups_of_not_full {side : SourceSide} {replies : ℕ → Response}
    (h : ¬FullReplies side replies) (fc : FunctionCode) (slave : ℤ)
    {readError : ℤ → ℤ → Response → PollError} {shortRead : ℤ → ℤ → ℕ → ℕ → PollError}
    {P : PollError → Prop} (hread : ∀ wireBase unit rr, P (readError wireBase unit rr))
    (hshort : ∀ wireBase unit got count, P (shortRead wireBase unit got count)) :
    ∃ e, readDeclaredGroups (replyClient replies) fc side slave readError shortRead =
      .error (.pollError e) ∧ P e := by
  have hbad : ∀ e : ReadGroup × ℕ, ¬(replies e.2).full e.1.count →
      ∃ err, (do
        let unit := e.1.unitId.getD slave
        let wireBase := e.1.base + side.addressOffset
        let regs ← readBlock (replyClient replies) e.2 ⟨fc, wireBase, e.1.count, unit⟩
          (readError wireBase unit) fun got => shortRead wireBase unit got e.1.count
        return (e.1.base, regs) : Except PyExc (ℤ × List ℕ)) = .error (.pollError err) ∧
          P err := by
    intro e hfull
    obtain ⟨err, herr, hP⟩ := @readBlock_of_not_full _ _ (side.request fc slave e.1) hfull
      _ _ P (hread _ _) fun got => hshort _ _ got e.1.count
    exact ⟨err, Except.bind_eq_error.2 (Or.inl herr), hP⟩
  have hno : ¬∃ blocks,
      readDeclaredGroups (replyClient replies) fc side slave readError shortRead = .ok blocks := by
    intro hok
    refine h fun e he => ?_
    by_contra hfull
    obtain ⟨_, hok⟩ := Except.exists_mapM_eq_ok.1 hok e he
    obtain ⟨err, herr, -⟩ := hbad e hfull
    cases hok.symm.trans herr
  obtain ⟨err, herr⟩ := Except.exists_error_iff.2 hno
  obtain ⟨-, e, -, -, -, -, he⟩ := Except.mapM_eq_error.1 herr
  by_cases hfull : (replies e.2).full e.1.count
  · have hblock := @readBlock_of_full _ _ (side.request fc slave e.1) hfull
    simp only [SourceSide.request] at hblock
    simp only [hblock] at he
    cases he
  · obtain ⟨err', herr', hP⟩ := hbad e hfull
    obtain rfl := Except.error.inj (he.symm.trans herr')
    exact ⟨err', herr, hP⟩

/-! ## Taking points out -/

/-- A block of at least its declared length that holds a point. -/
theorem extractSized_of_holds {addr : ℤ} {width : ℕ} : ∀ {blocks : Blocks},
    (∃ b ∈ blocks, b.1 ≤ addr ∧ addr + width ≤ b.1 + b.2.length) →
      ∃ regs, extractSized (some addr) width blocks = .ok regs ∧ regs.length = width
  | [], h => by simp at h
  | (base, regs) :: blocks, h => by
    rw [extractSized]
    by_cases hin : 0 ≤ addr - base ∧ addr - base + width ≤ (regs.length : ℤ)
    · exact ⟨_, if_pos hin, length_slice (inside_of_le hin.1 hin.2).1⟩
    · rw [if_neg hin]
      refine extractSized_of_holds ?_
      rcases (List.exists_mem_cons_iff _ _ _).1 h with hb | hb
      · have hb : base ≤ addr ∧ addr + width ≤ base + (regs.length : ℤ) := hb
        exact absurd ⟨by omega, by omega⟩ hin
      · exact hb

/-- Every point of one address has its registers in full replies. -/
theorem extractSized_isOk {side : SourceSide} (hgroups : side.readGroups.getD [] ≠ [])
    {replies : ℕ → Response} (h : FullReplies side replies) {pt : SourcePoint}
    (hpt : pt ∈ side.points.values) (ha : pt.addr.isSome) :
    ∃ regs, extractSized pt.addr pt.width (repliedBlocks side replies) = .ok regs ∧
      regs.length = pt.width := by
  obtain ⟨addr, haddr⟩ := Option.isSome_iff_exists.1 ha
  obtain ⟨groups, hg⟩ : ∃ groups, side.readGroups = some groups := by
    cases hg : side.readGroups with
    | none => simp [hg] at hgroups
    | some groups => exact ⟨groups, rfl⟩
  obtain ⟨g, hmem, hholds⟩ := side.holds_of_mem hg hpt haddr
  obtain ⟨i, hi, rfl⟩ := List.mem_iff_getElem.1 hmem
  have he : (groups[i], i) ∈ side.reads := by
    rw [SourceSide.reads, hg]
    exact List.mem_zipIdx_iff_getElem?.2 (List.getElem?_eq_getElem hi)
  have hfull := (h _ he).2
  simp only [ReadGroup.holds, Bool.and_eq_true, decide_eq_true_eq] at hholds
  rw [haddr]
  refine extractSized_of_holds ⟨_, List.mem_map_of_mem he, hholds.1, ?_⟩
  dsimp only at hfull ⊢
  omega

end DtsuBridge
