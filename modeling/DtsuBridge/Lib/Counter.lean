import DtsuBridge.Lib.Dict

/-!
# Counters of bounded size

`Dict.count` counts an occurrence of a key, unless the key is new and there are as many keys as
may be. A tracked key stays and its count grows (`countsGrow_foldl_count`). After any occurrences
the keys are the first distinct ones (`keys_foldl_count`), and each is counted as often as it
occurred (`get?_foldl_count`) : a key that was refused once is refused for good, so no tracked key
has an occurrence that was missed.
-/

namespace Dict

variable {κ : Type*} [DecidableEq κ]

/-- Count a key that is tracked or may still be. -/
def count (max : ℤ) (d : Dict κ ℕ) (k : κ) : Dict κ ℕ :=
  if k ∈ d.keys ∨ d.keys.length < max then d.set k ((d.get? k).getD 0 + 1) else d

/-- Every key that is tracked stays so, and is counted at least as often. -/
def CountsGrow (d d' : Dict κ ℕ) : Prop :=
  ∀ k n, d.get? k = some n → ∃ n', n ≤ n' ∧ d'.get? k = some n'

theorem CountsGrow.refl (d : Dict κ ℕ) : d.CountsGrow d :=
  fun _ n h => ⟨n, le_rfl, h⟩

theorem CountsGrow.trans {d d' d'' : Dict κ ℕ} (h : d.CountsGrow d') (h' : d'.CountsGrow d'') :
    d.CountsGrow d'' := by
  intro k n hn
  obtain ⟨n', hle, hn'⟩ := h k n hn
  obtain ⟨n'', hle', hn''⟩ := h' k n' hn'
  exact ⟨n'', hle.trans hle', hn''⟩

theorem countsGrow_count (max : ℤ) (d : Dict κ ℕ) (k : κ) : d.CountsGrow (d.count max k) := by
  intro k' n hn
  unfold count
  split_ifs
  · rw [get?_set]
    by_cases hk : k' = k
    · subst hk
      exact ⟨n + 1, n.le_succ, by simp [hn]⟩
    · exact ⟨n, le_rfl, by simp [hk, hn]⟩
  · exact ⟨n, le_rfl, hn⟩

theorem countsGrow_foldl_count (max : ℤ) : ∀ (ks : List κ) (d : Dict κ ℕ),
    d.CountsGrow (ks.foldl (count max) d)
  | [], d => .refl d
  | k :: ks, d => (countsGrow_count max d k).trans (countsGrow_foldl_count max ks _)

section Keys

variable [BEq κ] [LawfulBEq κ]

omit [DecidableEq κ] in
theorem eraseDups_concat (ks : List κ) (k : κ) :
    (ks ++ [k]).eraseDups = if k ∈ ks then ks.eraseDups else ks.eraseDups ++ [k] := by
  rw [List.eraseDups_append]
  by_cases h : k ∈ ks
  · simp [List.removeAll, h]
  · simp [List.removeAll, h, List.eraseDups_cons]

/-- The keys are the first distinct ones, as many as may be tracked. -/
theorem keys_foldl_count (max : ℤ) (ks : List κ) :
    (ks.foldl (count max) empty).keys = ks.eraseDups.take max.toNat := by
  induction ks using List.reverseRecOn with
  | nil => simp
  | append_singleton ks k ih =>
    have hlen := congrArg List.length ih
    rw [List.length_take] at hlen
    rw [List.foldl_append, List.foldl_cons, List.foldl_nil, eraseDups_concat, count]
    by_cases hold : k ∈ ks
    · rw [if_pos hold]
      by_cases hkey : k ∈ (ks.foldl (count max) empty).keys
      · rw [if_pos (.inl hkey), keys_set_of_mem hkey, ih]
      · have hfull : ¬((ks.foldl (count max) empty).keys.length : ℤ) < max := by
          intro hc
          refine hkey ?_
          rw [ih, List.take_of_length_le (by omega)]
          exact List.mem_eraseDups.2 hold
        rw [if_neg (by simp [hkey, hfull]), ih]
    · have hkey : k ∉ (ks.foldl (count max) empty).keys := by
        rw [ih]
        exact fun hc => hold (List.mem_eraseDups.1 (List.mem_of_mem_take hc))
      rw [if_neg hold]
      by_cases hroom : ((ks.foldl (count max) empty).keys.length : ℤ) < max
      · rw [if_pos (.inr hroom), keys_set_of_notMem hkey, ih,
          List.take_of_length_le (l := ks.eraseDups) (by omega),
          List.take_of_length_le (by simp; omega)]
      · rw [if_neg (by simp [hkey, hroom]), ih, List.take_append_of_le_length (by omega)]

/-- With room for another key, all that occurred are tracked. -/
theorem mem_keys_foldl_count {max : ℤ} {ks : List κ} {k : κ} (h : k ∈ ks)
    (hroom : ((ks.foldl (count max) empty).keys.length : ℤ) < max) :
    k ∈ (ks.foldl (count max) empty).keys := by
  rw [keys_foldl_count, List.length_take] at hroom
  rw [keys_foldl_count, List.take_of_length_le (by omega)]
  exact List.mem_eraseDups.2 h

/-- A tracked key is counted as often as it occurred. -/
theorem get?_foldl_count {max : ℤ} {ks : List κ} {k : κ}
    (h : k ∈ (ks.foldl (count max) empty).keys) :
    (ks.foldl (count max) empty).get? k = some (ks.count k) := by
  induction ks using List.reverseRecOn with
  | nil => simp at h
  | append_singleton ks k' ih =>
    rw [List.foldl_append, List.foldl_cons, List.foldl_nil] at h ⊢
    rw [List.count_append, List.count_singleton]
    set d := ks.foldl (count max) empty with hd
    by_cases htrack : k' ∈ d.keys ∨ (d.keys.length : ℤ) < max
    · rw [count, if_pos htrack] at h ⊢
      rw [get?_set]
      by_cases hk : k = k'
      · subst hk
        have hcount : (d.get? k).getD 0 = ks.count k := by
          by_cases hkey : k ∈ d.keys
          · rw [ih hkey]
            rfl
          · have hnew : k ∉ ks := fun hc =>
              hkey (mem_keys_foldl_count hc (htrack.resolve_left hkey))
            rw [get?_eq_none_iff.2 hkey, List.count_eq_zero_of_not_mem hnew]
            rfl
        simp [hcount]
      · have hkey := (mem_keys_set.1 h).resolve_left hk
        simp [hk, Ne.symm hk, ih hkey]
    · rw [count, if_neg htrack] at h ⊢
      have hk : k' ≠ k := by
        rintro rfl
        exact htrack (.inl h)
      simp [hk, ih h]

end Keys

end Dict
