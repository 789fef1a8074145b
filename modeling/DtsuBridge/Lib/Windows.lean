import Mathlib.Data.List.DropRight
import Mathlib.Tactic

/-!
# Windows of a stream

`windows n xs` : the runs of `n` consecutive elements of a list, by their offset. A stream
that comes in chunks is searched with the last elements kept, one less than a window has :
the windows of the chunk behind them are those the stream had not before (`windows_append`),
and they are all that the next chunk needs (`rtake_append`).

`countP_windows` : how many windows satisfy a predicate, as a number of offsets.
-/

variable {α : Type*}

/-- The runs of `n` elements, by their offset. -/
def windows (n : ℕ) (xs : List α) : List (List α) :=
  (List.range (xs.length + 1 - n)).map fun i => (xs.drop i).take n

theorem windows_of_lt {n : ℕ} {xs : List α} (h : xs.length < n) : windows n xs = [] := by
  have hlen : xs.length + 1 - n = 0 := by omega
  simp [windows, hlen]

/-- A short list is kept whole. -/
theorem rtake_of_le {k : ℕ} {xs : List α} (h : xs.length ≤ k) : xs.rtake k = xs := by
  simp [List.rtake, Nat.sub_eq_zero_of_le h]

/-- The last elements of a list with more at its end depend on its last elements. -/
theorem rtake_append (k : ℕ) (xs ys : List α) :
    (xs ++ ys).rtake k = (xs.rtake k ++ ys).rtake k := by
  simp only [List.rtake, List.length_append, List.length_drop, List.drop_append, List.drop_drop]
  congr 2 <;> omega

/-- The last elements are none where there are none. -/
theorem rtake_eq_nil_iff {k : ℕ} (hk : 1 ≤ k) {xs : List α} : xs.rtake k = [] ↔ xs = [] := by
  rw [List.rtake, List.drop_eq_nil_iff]
  constructor
  · intro h
    exact List.eq_nil_of_length_eq_zero (by omega)
  · rintro rfl
    exact Nat.zero_le _

/-- The windows that end in a new chunk are those of the chunk behind the last elements. -/
theorem windows_append (k : ℕ) (xs ys : List α) :
    windows (k + 1) (xs ++ ys) = windows (k + 1) xs ++ windows (k + 1) (xs.rtake k ++ ys) := by
  rcases Nat.lt_or_ge xs.length (k + 1) with hlt | hle
  · rw [windows_of_lt hlt, rtake_of_le (Nat.le_of_lt_succ hlt), List.nil_append]
  · have hkeep : (xs.rtake k).length = k := by
      rw [List.rtake, List.length_drop]
      omega
    have hcount : (xs ++ ys).length + 1 - (k + 1) =
        (xs.length + 1 - (k + 1)) + ((xs.rtake k ++ ys).length + 1 - (k + 1)) := by
      simp only [List.length_append, hkeep]
      omega
    rw [windows, hcount, List.range_add, List.map_append, List.map_map]
    congr 1
    · refine List.map_congr_left fun i hi => ?_
      have hlt := List.mem_range.1 hi
      rw [List.drop_append_of_le_length (by omega),
        List.take_append_of_le_length (by rw [List.length_drop]; omega)]
    · refine List.map_congr_left fun i _ => ?_
      have hoff : xs.length + 1 - (k + 1) + i = (xs.length - k) + i := by omega
      rw [Function.comp_apply, hoff, ← List.drop_drop,
        List.drop_append_of_le_length (Nat.sub_le _ _), List.rtake]

/-- The windows that satisfy a predicate, counted by their offsets. -/
theorem countP_windows (n : ℕ) (xs : List α) (p : List α → Bool) :
    (windows n xs).countP p =
      ((Finset.range (xs.length + 1 - n)).filter fun i => p ((xs.drop i).take n) = true).card := by
  have hcard : ((Finset.range (xs.length + 1 - n)).filter
      fun i => p ((xs.drop i).take n) = true).card =
        ((List.range (xs.length + 1 - n)).filter
          fun i => decide (p ((xs.drop i).take n) = true)).length := rfl
  rw [windows, List.countP_map, List.countP_eq_length_filter, hcard]
  simp [Function.comp_def]
