import Mathlib.Tactic

/-!
# List slices with signed bounds

`slice l i j` is `l[i:j]` and `sliceAssign l i j vs` is `l[i:j] = vs` for signed bounds :
a negative bound counts from the end, a bound past either end is clamped, and a stop
before the start makes the slice empty at the start. An assignment of another length
than its slice changes the length of the list.

`Inside n i k` : the slice of `k` elements from `i` is whole in a list of length `n`, with
its first element at `clampIndex n i`. `getElem?_sliceAssign` reads a list after an
assignment to such a slice, `length_sliceAssign` says that it keeps the length, and
`sliceAssign_of_le` that one past the end appends.
-/

variable {α : Type*}

/-- The index a signed slice bound stands for in a list of length `n`. -/
def clampIndex (n : ℕ) (i : ℤ) : ℕ :=
  if i < 0 then (i + n).toNat else min i.toNat n

/-- `l[i:j]`. -/
def slice (l : List α) (i j : ℤ) : List α :=
  (l.take (clampIndex l.length j)).drop (clampIndex l.length i)

/-- `l[i:j] = vs`. -/
def sliceAssign (l : List α) (i j : ℤ) (vs : List α) : List α :=
  l.take (clampIndex l.length i) ++ vs ++
    l.drop (max (clampIndex l.length i) (clampIndex l.length j))

/-- The `k` elements from `i` on are all in a list of length `n`. -/
def Inside (n : ℕ) (i : ℤ) (k : ℕ) : Prop :=
  clampIndex n (i + k) = clampIndex n i + k

instance (n : ℕ) (i : ℤ) (k : ℕ) : Decidable (Inside n i k) :=
  inferInstanceAs (Decidable (_ = _))

theorem clampIndex_le (n : ℕ) (i : ℤ) : clampIndex n i ≤ n := by
  unfold clampIndex
  split_ifs <;> omega

theorem clampIndex_of_le {n k : ℕ} (h : k ≤ n) : clampIndex n (k : ℤ) = k := by
  simp [clampIndex, h]

theorem Inside.add_le {n k : ℕ} {i : ℤ} (h : Inside n i k) : clampIndex n i + k ≤ n :=
  h ▸ clampIndex_le n (i + k)

/-- Natural bounds within the length. -/
theorem inside_of_le {n k : ℕ} {i : ℤ} (h0 : 0 ≤ i) (h : i + k ≤ n) :
    Inside n i k ∧ (clampIndex n i : ℤ) = i := by
  unfold Inside clampIndex
  split_ifs <;> omega

theorem length_slice {l : List α} {i : ℤ} {k : ℕ} (h : Inside l.length i k) :
    (slice l i (i + k)).length = k := by
  have hle := h.add_le
  rw [slice, h, List.length_drop, List.length_take]
  omega

theorem getElem?_slice {l : List α} {i : ℤ} {k : ℕ} (h : Inside l.length i k) {m : ℕ}
    (hm : m < k) : (slice l i (i + k))[m]? = l[clampIndex l.length i + m]? := by
  rw [slice, h, List.getElem?_drop, List.getElem?_take_of_lt (by omega)]

/-- A slice from the end on has nothing. -/
theorem slice_of_le {l : List α} {i : ℤ} (h : (l.length : ℤ) ≤ i) (j : ℤ) : slice l i j = [] := by
  have hi : clampIndex l.length i = l.length := by
    unfold clampIndex
    split_ifs <;> omega
  have hj := clampIndex_le l.length j
  exact List.drop_eq_nil_of_le (by rw [List.length_take]; omega)

/-- A slice inside the list, by natural bounds. -/
theorem slice_natCast {l : List α} {a n : ℕ} (h : a + n ≤ l.length) :
    slice l (a : ℤ) ((a : ℤ) + n) = (l.drop a).take n := by
  have h2 : ((a : ℤ) + n) = ((a + n : ℕ) : ℤ) := by push_cast; ring
  rw [slice, h2, clampIndex_of_le h, clampIndex_of_le (by omega), List.drop_take]
  congr 1
  omega

theorem mem_of_mem_slice {l : List α} {i j : ℤ} {x : α} (h : x ∈ slice l i j) : x ∈ l :=
  List.mem_of_mem_take (List.mem_of_mem_drop h)

theorem mem_sliceAssign {l vs : List α} {i j : ℤ} {x : α} (h : x ∈ sliceAssign l i j vs) :
    x ∈ l ∨ x ∈ vs := by
  rw [sliceAssign, List.append_assoc, List.mem_append, List.mem_append] at h
  rcases h with h | h | h
  · exact Or.inl (List.mem_of_mem_take h)
  · exact Or.inr h
  · exact Or.inl (List.mem_of_mem_drop h)

theorem length_sliceAssign {l vs : List α} {i : ℤ} (h : Inside l.length i vs.length) :
    (sliceAssign l i (i + vs.length) vs).length = l.length := by
  have hle := h.add_le
  rw [sliceAssign, h]
  simp only [List.length_append, List.length_take, List.length_drop]
  omega

theorem getElem?_sliceAssign {l vs : List α} {i : ℤ} (h : Inside l.length i vs.length) (m : ℕ) :
    (sliceAssign l i (i + vs.length) vs)[m]? =
      if clampIndex l.length i ≤ m ∧ m < clampIndex l.length i + vs.length then
        vs[m - clampIndex l.length i]?
      else l[m]? := by
  have hle := h.add_le
  have hlen : (l.take (clampIndex l.length i)).length = clampIndex l.length i := by
    rw [List.length_take]
    omega
  rw [sliceAssign, h, max_eq_right (by omega), List.append_assoc]
  rcases Nat.lt_or_ge m (clampIndex l.length i) with hm | hm
  · rw [if_neg (by omega), List.getElem?_append_left (by omega), List.getElem?_take_of_lt hm]
  · rw [List.getElem?_append_right (by omega), hlen]
    rcases Nat.lt_or_ge m (clampIndex l.length i + vs.length) with hj | hj
    · rw [if_pos ⟨hm, hj⟩, List.getElem?_append_left (by omega)]
    · rw [if_neg (by omega), List.getElem?_append_right (by omega), List.getElem?_drop]
      congr 1
      omega

/-- An assignment past the end appends. -/
theorem sliceAssign_of_le {l vs : List α} {i : ℤ} (h : (l.length : ℤ) ≤ i) :
    sliceAssign l i (i + vs.length) vs = l ++ vs := by
  have h1 : clampIndex l.length i = l.length := by
    unfold clampIndex
    split_ifs <;> omega
  rw [sliceAssign, h1, List.take_length, List.drop_eq_nil_of_le (le_max_left _ _),
    List.append_nil]

/-- An assignment adds at most the elements assigned. -/
theorem length_sliceAssign_le (l vs : List α) (i j : ℤ) :
    (sliceAssign l i j vs).length ≤ l.length + vs.length := by
  have := clampIndex_le l.length i
  simp only [sliceAssign, List.length_append, List.length_take, List.length_drop]
  omega

/-- An assignment of as many elements as its slice asks for removes none. -/
theorem le_length_sliceAssign (l vs : List α) (i : ℤ) :
    l.length ≤ (sliceAssign l i (i + vs.length) vs).length := by
  have hle := clampIndex_le l.length i
  have hstep : clampIndex l.length (i + vs.length) ≤ clampIndex l.length i + vs.length := by
    unfold clampIndex
    split_ifs <;> omega
  simp only [sliceAssign, List.length_append, List.length_take, List.length_drop]
  omega

/-- An assignment by natural bounds leaves what comes after the list alone. -/
theorem sliceAssign_append {l vs : List α} {i : ℤ} (h0 : 0 ≤ i) (h : i + vs.length ≤ l.length)
    (r : List α) : sliceAssign (l ++ r) i (i + vs.length) vs =
      sliceAssign l i (i + vs.length) vs ++ r := by
  have hc : ∀ n : ℕ, l.length ≤ n → clampIndex n i = i.toNat ∧
      clampIndex n (i + vs.length) = i.toNat + vs.length := by
    intro n hn
    unfold clampIndex
    split_ifs <;> omega
  obtain ⟨h1, h2⟩ := hc l.length le_rfl
  obtain ⟨h3, h4⟩ := hc (l ++ r).length (by simp)
  unfold sliceAssign
  rw [h1, h2, h3, h4, List.take_append_of_le_length (by omega),
    List.drop_append_of_le_length (by omega)]
  simp

/-- An assignment to the last elements replaces them. -/
theorem sliceAssign_last {l r vs : List α} (h : r.length = vs.length) :
    sliceAssign (l ++ r) l.length (l.length + vs.length) vs = l ++ vs := by
  have h1 : clampIndex (l ++ r).length (l.length : ℤ) = l.length :=
    clampIndex_of_le (by simp)
  have h2 : clampIndex (l ++ r).length ((l.length : ℤ) + vs.length) = (l ++ r).length := by
    rw [← h, ← Nat.cast_add, ← List.length_append]
    exact clampIndex_of_le le_rfl
  rw [sliceAssign, h1, h2, List.take_left' rfl,
    List.drop_eq_nil_of_le (le_max_right _ _), List.append_nil]
