import DtsuBridge.Lib.Slice
import Mathlib.Logic.Function.Basic

/-!
# Writes to banks of cells

A bank is a list of cells, and a write replaces the cells of a slice of one bank
(`Banks.write`). A write fits when its slice is whole in its bank (`Write.Fits`), and
holds when reading its slice back gives its cells (`Banks.Holds`).

Over writes that fit, a cell has what the last write over it put there, or what it had
before (`getElem?_writeAll`). So after a list of writes all of them hold exactly when any
two agree on the cells they share (`holds_writeAll_iff`), and writing a second list of the
same slices replaces the first (`writeAll_writeAll`).
-/

variable {β α : Type*}

/-- Lists of cells by bank. -/
abbrev Banks (β α : Type*) := β → List α

/-- Cells to assign to a slice of a bank. -/
structure Write (β α : Type*) where
  bank : β
  addr : ℤ
  cells : List α
deriving DecidableEq

namespace Write

/-- The slice is whole in banks of these lengths. -/
def Fits (n : β → ℕ) (w : Write β α) : Prop :=
  Inside (n w.bank) w.addr w.cells.length

/-- The first cell of the slice in banks of these lengths. -/
def start (n : β → ℕ) (w : Write β α) : ℕ :=
  clampIndex (n w.bank) w.addr

/-- The slice has the cell `p` of the bank `b`. -/
def Covers (n : β → ℕ) (w : Write β α) (b : β) (p : ℕ) : Prop :=
  w.bank = b ∧ w.start n ≤ p ∧ p < w.start n + w.cells.length

/-- What the write puts in a cell. -/
def cell? (n : β → ℕ) (w : Write β α) (p : ℕ) : Option α :=
  w.cells[p - w.start n]?

/-- Two writes put the same in the cells they share. -/
def Agree (n : β → ℕ) (w w' : Write β α) : Prop :=
  ∀ b p, w.Covers n b p → w'.Covers n b p → w.cell? n p = w'.cell? n p

/-- Two writes to the same slice. -/
def SameSlice (w w' : Write β α) : Prop :=
  w.bank = w'.bank ∧ w.addr = w'.addr ∧ w.cells.length = w'.cells.length

theorem Agree.symm {n : β → ℕ} {w w' : Write β α} (h : w.Agree n w') : w'.Agree n w :=
  fun b p h1 h2 => (h b p h2 h1).symm

theorem Agree.rfl {n : β → ℕ} {w : Write β α} : w.Agree n w :=
  fun _ _ _ _ => Eq.refl _

theorem SameSlice.fits {n : β → ℕ} {w w' : Write β α} (h : w.SameSlice w') (hw : w.Fits n) :
    w'.Fits n := by
  unfold Fits at hw ⊢
  rwa [← h.1, ← h.2.1, ← h.2.2]

theorem SameSlice.covers {n : β → ℕ} {w w' : Write β α} (h : w.SameSlice w') {b : β} {p : ℕ} :
    w.Covers n b p ↔ w'.Covers n b p := by
  unfold Covers start
  rw [h.1, h.2.1, h.2.2]

theorem agree_iff {n : β → ℕ} {w w' : Write β α} : w.Agree n w' ↔ w.bank = w'.bank →
    ∀ i < w.cells.length, ∀ j < w'.cells.length, w.start n + i = w'.start n + j →
      w.cells[i]? = w'.cells[j]? := by
  unfold Agree Covers cell?
  refine ⟨fun h hb i hi j hj hij => ?_, fun h b p hc hc' => ?_⟩
  · have := h w'.bank (w.start n + i) ⟨hb, by omega, by omega⟩ ⟨rfl, by omega, by omega⟩
    rwa [Nat.add_sub_cancel_left, hij, Nat.add_sub_cancel_left] at this
  · exact h (hc.1.trans hc'.1.symm) _ (by omega) _ (by omega) (by omega)

instance [DecidableEq β] [DecidableEq α] (n : β → ℕ) (w w' : Write β α) :
    Decidable (w.Agree n w') :=
  decidable_of_iff _ agree_iff.symm

instance (n : β → ℕ) (w : Write β α) : Decidable (w.Fits n) :=
  inferInstanceAs (Decidable (Inside _ _ _))

/-- Writes whose slices share no cell agree. -/
theorem agree_of_apart {n : β → ℕ} {w w' : Write β α}
    (h : ∀ b p, w.Covers n b p → ¬w'.Covers n b p) : w.Agree n w' :=
  fun b p h1 h2 => absurd h2 (h b p h1)

end Write

namespace Banks

/-- The lengths of the banks. -/
def lengths (d : Banks β α) (b : β) : ℕ := (d b).length

/-- The `k` cells at `addr`. -/
def read (d : Banks β α) (b : β) (addr : ℤ) (k : ℕ) : List α :=
  slice (d b) addr (addr + k)

/-- Reading the slice of a write gives its cells. -/
def Holds (d : Banks β α) (w : Write β α) : Prop :=
  d.read w.bank w.addr w.cells.length = w.cells

/-- A write that fits holds exactly when each of its cells is there. -/
theorem holds_iff {d : Banks β α} {w : Write β α} (h : w.Fits d.lengths) :
    d.Holds w ↔ ∀ p, w.Covers d.lengths w.bank p → (d w.bank)[p]? = w.cell? d.lengths p := by
  unfold Write.Covers Write.cell?
  refine ⟨fun hw p hp => ?_, fun hw => List.ext_getElem? fun m => ?_⟩
  · have hlt : p - w.start d.lengths < w.cells.length := by omega
    have h1 := getElem?_slice h hlt
    rw [show slice (d w.bank) w.addr (w.addr + w.cells.length) = w.cells from hw] at h1
    rw [h1]
    congr 1
    unfold Write.start lengths at hp ⊢
    omega
  · rcases Nat.lt_or_ge m w.cells.length with hm | hm
    · have h1 := hw (w.start d.lengths + m) ⟨rfl, by omega, by omega⟩
      rw [Nat.add_sub_cancel_left] at h1
      exact (getElem?_slice h hm).trans h1
    · have hlen : (d.read w.bank w.addr w.cells.length).length = w.cells.length := length_slice h
      rw [List.getElem?_eq_none (by omega), List.getElem?_eq_none hm]

/-- Writes that hold at once agree. -/
theorem agree_of_holds {d : Banks β α} {w w' : Write β α} (hf : w.Fits d.lengths)
    (hf' : w'.Fits d.lengths) (h : d.Holds w) (h' : d.Holds w') : w.Agree d.lengths w' := by
  intro b p hc hc'
  obtain rfl := hc.1
  have h1 := (holds_iff hf).1 h p hc
  have h2 := (holds_iff hf').1 h' p (hc'.1 ▸ hc')
  rw [← h1, ← h2, hc'.1]

variable [DecidableEq β]

def write (d : Banks β α) (w : Write β α) : Banks β α :=
  Function.update d w.bank (sliceAssign (d w.bank) w.addr (w.addr + w.cells.length) w.cells)

/-- The writes in order. -/
def writeAll (d : Banks β α) (ws : List (Write β α)) : Banks β α :=
  ws.foldl write d

@[simp] theorem writeAll_nil (d : Banks β α) : d.writeAll [] = d :=
  rfl

@[simp] theorem writeAll_cons (d : Banks β α) (w : Write β α) (ws : List (Write β α)) :
    d.writeAll (w :: ws) = (d.write w).writeAll ws :=
  rfl

theorem writeAll_append (d : Banks β α) (ws ws' : List (Write β α)) :
    d.writeAll (ws ++ ws') = (d.writeAll ws).writeAll ws' :=
  List.foldl_append

theorem lengths_write {d : Banks β α} {w : Write β α} (h : w.Fits d.lengths) :
    (d.write w).lengths = d.lengths := by
  funext b
  unfold lengths write
  by_cases hb : b = w.bank
  · subst hb
    rw [Function.update_self]
    exact length_sliceAssign h
  · rw [Function.update_of_ne hb]

theorem lengths_writeAll : ∀ {ws : List (Write β α)} {d : Banks β α},
    (∀ w ∈ ws, w.Fits d.lengths) → (d.writeAll ws).lengths = d.lengths
  | [], _, _ => rfl
  | w :: ws, d, h => by
    obtain ⟨hw, hws⟩ := List.forall_mem_cons.1 h
    have hlen := lengths_write hw
    rw [writeAll_cons, lengths_writeAll (hlen ▸ hws), hlen]

/-- What holds of every cell before and of every cell written holds of every cell after. -/
theorem forall_mem_writeAll {P : α → Prop} : ∀ {ws : List (Write β α)} {d : Banks β α},
    (∀ b, ∀ x ∈ d b, P x) → (∀ w ∈ ws, ∀ x ∈ w.cells, P x) → ∀ b, ∀ x ∈ d.writeAll ws b, P x
  | [], _, hd, _ => hd
  | w :: ws, d, hd, h => by
    obtain ⟨hw, hws⟩ := List.forall_mem_cons.1 h
    have hstep : ∀ b, ∀ x ∈ d.write w b, P x := by
      intro b x hx
      unfold write at hx
      by_cases hb : b = w.bank
      · subst hb
        rw [Function.update_self] at hx
        exact (mem_sliceAssign hx).elim (hd _ x) (hw x)
      · rw [Function.update_of_ne hb] at hx
        exact hd b x hx
    intro b
    rw [writeAll_cons]
    exact forall_mem_writeAll hstep hws b

/-- Writes add at most the cells they have. -/
theorem lengths_writeAll_le (b : β) : ∀ (ws : List (Write β α)) (d : Banks β α),
    (d.writeAll ws).lengths b ≤ d.lengths b + (ws.map (·.cells.length)).sum
  | [], _ => by simp
  | w :: ws, d => by
    have ih := lengths_writeAll_le b ws (d.write w)
    have hw : (d.write w).lengths b ≤ d.lengths b + w.cells.length := by
      unfold lengths write
      by_cases hb : b = w.bank
      · subst hb
        rw [Function.update_self]
        exact length_sliceAssign_le _ _ _ _
      · rw [Function.update_of_ne hb]
        omega
    rw [writeAll_cons, List.map_cons, List.sum_cons]
    omega

/-- Writes remove no cell. -/
theorem lengths_le_writeAll (b : β) : ∀ (ws : List (Write β α)) (d : Banks β α),
    d.lengths b ≤ (d.writeAll ws).lengths b
  | [], _ => le_rfl
  | w :: ws, d => by
    refine le_trans ?_ (lengths_le_writeAll b ws (d.write w))
    unfold lengths write
    by_cases hb : b = w.bank
    · subst hb
      rw [Function.update_self]
      exact le_length_sliceAssign _ _ _
    · rw [Function.update_of_ne hb]

/-- Cells after the ends of the banks. -/
def extend (d r : Banks β α) : Banks β α := fun b => d b ++ r b

/-- Writes by natural bounds leave the cells after the ends alone. -/
theorem writeAll_extend {r : Banks β α} : ∀ {ws : List (Write β α)} {d : Banks β α},
    (∀ w ∈ ws, 0 ≤ w.addr ∧ w.addr + w.cells.length ≤ d.lengths w.bank) →
      (d.extend r).writeAll ws = (d.writeAll ws).extend r
  | [], _, _ => rfl
  | w :: ws, d, h => by
    obtain ⟨⟨h0, hw⟩, hws⟩ := List.forall_mem_cons.1 h
    have hstep : (d.extend r).write w = (d.write w).extend r := by
      funext b
      unfold write extend
      by_cases hb : b = w.bank
      · subst hb
        rw [Function.update_self, Function.update_self]
        exact sliceAssign_append h0 hw _
      · rw [Function.update_of_ne hb, Function.update_of_ne hb]
    rw [writeAll_cons, hstep, writeAll_extend fun w' hw' => ⟨(hws w' hw').1, ?_⟩, writeAll_cons]
    have := lengths_le_writeAll w'.bank [w] d
    have := (hws w' hw').2
    rw [writeAll_cons, writeAll_nil] at *
    omega

/-- A write changes the cells of its slice and no other. -/
theorem getElem?_write {d : Banks β α} {w : Write β α} (h : w.Fits d.lengths) (b : β) (p : ℕ)
    [Decidable (w.Covers d.lengths b p)] :
    (d.write w b)[p]? = if w.Covers d.lengths b p then w.cell? d.lengths p else (d b)[p]? := by
  by_cases hb : b = w.bank
  · subst hb
    unfold write
    rw [Function.update_self, getElem?_sliceAssign h]
    simp only [Write.Covers, true_and]
    rfl
  · rw [write, Function.update_of_ne hb, if_neg fun hc => hb hc.1.symm]

instance (n : β → ℕ) (w : Write β α) (b : β) (p : ℕ) : Decidable (w.Covers n b p) :=
  inferInstanceAs (Decidable (_ ∧ _))

/-- What the last of the writes over a cell puts there. -/
def lastCell? (n : β → ℕ) (b : β) (p : ℕ) : List (Write β α) → Option α
  | [] => none
  | w :: ws => (lastCell? n b p ws).or (if w.Covers n b p then w.cell? n p else none)

theorem getElem?_writeAll (b : β) (p : ℕ) : ∀ {ws : List (Write β α)} {d : Banks β α},
    (∀ w ∈ ws, w.Fits d.lengths) →
      (d.writeAll ws b)[p]? = (lastCell? d.lengths b p ws).or (d b)[p]?
  | [], _, _ => rfl
  | w :: ws, d, h => by
    obtain ⟨hw, hws⟩ := List.forall_mem_cons.1 h
    have hlen := lengths_write hw
    rw [writeAll_cons, getElem?_writeAll b p (hlen ▸ hws), hlen, lastCell?, Option.or_assoc,
      getElem?_write hw]
    by_cases hc : w.Covers d.lengths b p
    · have hlt : p - w.start d.lengths < w.cells.length := by
        obtain ⟨-, h1, h2⟩ := hc
        omega
      have hcell : w.cell? d.lengths p = some (w.cells[p - w.start d.lengths]) :=
        List.getElem?_eq_getElem hlt
      rw [if_pos hc, if_pos hc, hcell, Option.some_or]
    · rw [if_neg hc, if_neg hc, Option.none_or]

/-- Whether a write is over a cell depends on the slices alone. -/
theorem isSome_lastCell? {n : β → ℕ} {b : β} {p : ℕ} : ∀ {ws : List (Write β α)},
    (lastCell? n b p ws).isSome ↔ ∃ w ∈ ws, w.Covers n b p
  | [] => by simp [lastCell?]
  | w :: ws => by
    have ih : (lastCell? n b p ws).isSome ↔ ∃ w ∈ ws, w.Covers n b p := isSome_lastCell?
    rw [lastCell?, Option.isSome_or, Bool.or_eq_true, ih, List.exists_mem_cons_iff, or_comm]
    refine or_congr ?_ Iff.rfl
    split_ifs with hc
    · have hlt : p - w.start n < w.cells.length := by
        obtain ⟨-, h1, h2⟩ := hc
        omega
      simp [Write.cell?, hlt, hc]
    · simp [hc]

/-- Where the writes agree with `w`, the last over a cell of `w` puts there what `w` does. -/
theorem lastCell?_eq_of_agree {n : β → ℕ} {b : β} {p : ℕ} {w : Write β α}
    (hc : w.Covers n b p) : ∀ {ws : List (Write β α)}, (∀ w' ∈ ws, w.Agree n w') →
      lastCell? n b p ws = none ∨ lastCell? n b p ws = w.cell? n p
  | [], _ => Or.inl rfl
  | w' :: ws, h => by
    obtain ⟨hw', hws⟩ := List.forall_mem_cons.1 h
    rw [lastCell?]
    rcases lastCell?_eq_of_agree hc hws with h0 | h0
    · rw [h0, Option.none_or]
      split_ifs with hc'
      · exact Or.inr (hw' b p hc hc').symm
      · exact Or.inl rfl
    · obtain ⟨-, h1, h2⟩ := hc
      have hlt : p - w.start n < w.cells.length := by omega
      have hcell : w.cell? n p = some (w.cells[p - w.start n]) := List.getElem?_eq_getElem hlt
      rw [h0, hcell, Option.some_or]
      exact Or.inr rfl

/-- After writes that fit, all of them hold exactly when any two agree. -/
theorem holds_writeAll_iff {ws : List (Write β α)} {d : Banks β α}
    (h : ∀ w ∈ ws, w.Fits d.lengths) :
    (∀ w ∈ ws, (d.writeAll ws).Holds w) ↔ ∀ w ∈ ws, ∀ w' ∈ ws, w.Agree d.lengths w' := by
  have hlen := lengths_writeAll h
  refine ⟨fun hh w hw w' hw' => ?_, fun hh w hw => ?_⟩
  · have := agree_of_holds (hlen ▸ h w hw) (hlen ▸ h w' hw') (hh w hw) (hh w' hw')
    rwa [hlen] at this
  · rw [holds_iff (hlen ▸ h w hw), hlen]
    intro p hc
    have hsome := isSome_lastCell?.2 ⟨w, hw, hc⟩
    rw [getElem?_writeAll _ _ h]
    rcases lastCell?_eq_of_agree hc (hh w hw) with h0 | h0
    · simp [h0] at hsome
    · obtain ⟨a, ha⟩ := Option.isSome_iff_exists.1 hsome
      rw [← h0, ha, Option.some_or]

/-- Writing the same slices again replaces what was written. -/
theorem writeAll_writeAll {ws ws' : List (Write β α)} {d : Banks β α}
    (hs : List.Forall₂ Write.SameSlice ws ws') (h : ∀ w ∈ ws, w.Fits d.lengths) :
    (d.writeAll ws).writeAll ws' = d.writeAll ws' := by
  have hlen := lengths_writeAll h
  have hex : ∀ {b p}, (∃ w ∈ ws, w.Covers d.lengths b p) ↔ ∃ w ∈ ws', w.Covers d.lengths b p := by
    intro b p
    clear h hlen
    induction hs with
    | nil => simp
    | cons hw _ ih => rw [List.exists_mem_cons_iff, List.exists_mem_cons_iff, ih, hw.covers]
  have hfits : ∀ w ∈ ws', w.Fits d.lengths := by
    clear hlen hex
    induction hs with
    | nil => simp
    | cons hw _ ih =>
      obtain ⟨h1, h2⟩ := List.forall_mem_cons.1 h
      exact List.forall_mem_cons.2 ⟨hw.fits h1, ih h2⟩
  funext b
  refine List.ext_getElem? fun p => ?_
  rw [getElem?_writeAll b p (hlen ▸ hfits), hlen, getElem?_writeAll b p hfits,
    getElem?_writeAll b p h]
  cases hl : lastCell? d.lengths b p ws' with
  | some a => simp
  | none =>
    have hnone : lastCell? d.lengths b p ws = none := by
      rw [← Option.not_isSome_iff_eq_none, isSome_lastCell?, hex, ← isSome_lastCell?, hl]
      simp
    simp [hnone]

end Banks
