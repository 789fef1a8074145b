import DtsuBridge.Lib.Interleave

/-!
# Runs that end

A ranking is a measure that every step lowers from the states of an invariant, which holds after the
step again. A run from such a state is no longer than its rank (`Ranking.length_le`). Where a step
can be taken from every such state that is not final, some run ends in a final one
(`Ranking.exists_run`), so no run is stuck before.

The sum of the ranks of systems side by side is lowered by each of their steps (`sum_rank_lt`).
-/

namespace System

variable {σ α : Type*} {M : System σ α} {I Q : σ → Prop} {rank : σ → ℕ}

/-- Every step from the states of an invariant keeps it and lowers the rank. -/
structure Ranking (M : System σ α) (I : σ → Prop) (rank : σ → ℕ) : Prop where
  keeps : ∀ {a s s'}, I s → M.step a s = some s' → I s'
  lowers : ∀ {a s s'}, I s → M.step a s = some s' → rank s' < rank s

namespace Ranking

/-- A run takes no more steps than the rank it starts from. -/
theorem length_le (h : M.Ranking I rank) : ∀ (as : List α) {s s' : σ}, I s →
    M.run as s = some s' → I s' ∧ as.length + rank s' ≤ rank s
  | [], _, _, hI, hrun => by
    obtain rfl := Option.some.inj hrun
    exact ⟨hI, by simp⟩
  | a :: as, s, s', hI, hrun => by
    obtain ⟨t, ht, hrun⟩ := Option.bind_eq_some_iff.1 hrun
    have hlt := h.lowers hI ht
    obtain ⟨hI', hle⟩ := h.length_le as (h.keeps hI ht) hrun
    refine ⟨hI', ?_⟩
    rw [List.length_cons]
    omega

/-- Where no state is stuck before it is final, a final state can be reached. -/
theorem exists_run (h : M.Ranking I rank) (hprogress : ∀ s, I s → Q s ∨ ∃ a, (M.step a s).isSome)
    {s : σ} (hI : I s) : ∃ as s', M.run as s = some s' ∧ Q s' := by
  induction hn : rank s using Nat.strong_induction_on generalizing s with
  | _ n ih =>
    rcases hprogress s hI with hQ | ⟨a, ha⟩
    · exact ⟨[], s, rfl, hQ⟩
    · obtain ⟨t, ht⟩ := Option.isSome_iff_exists.1 ha
      obtain ⟨as, s', hrun, hQ⟩ := ih (rank t) (hn ▸ h.lowers hI ht) (h.keeps hI ht) rfl
      exact ⟨a :: as, s', Option.bind_eq_some_iff.2 ⟨t, ht, hrun⟩, hQ⟩

end Ranking

end System

/-- A list in which one element is replaced by one of less weight. -/
theorem sum_set_lt {α : Type*} {f : α → ℕ} {b : α} : ∀ {l : List α} {i : ℕ} {a : α},
    l[i]? = some a → f b < f a → ((l.set i b).map f).sum < (l.map f).sum
  | x :: l, 0, a, hi, hlt => by
    obtain rfl := Option.some.inj hi
    simpa using hlt
  | x :: l, i + 1, a, hi, hlt => by
    have ih := sum_set_lt (l := l) hi hlt
    simpa using ih

namespace Clocked

variable {ι σ α τ : Type*} [DecidableEq ι] [Fintype ι] [LinearOrder τ] {M : ι → Clocked σ α τ}

/-- A step lowers the sum of the ranks where it lowers that of the system that moves. -/
theorem sum_rank_lt {s s' : (ι → σ) × τ} {a : ι × α} (h : (interleave M).step a s = some s')
    {rank : σ → ℕ} (hlt : rank (s'.1 a.1) < rank (s.1 a.1)) :
    ∑ i, rank (s'.1 i) < ∑ i, rank (s.1 i) := by
  refine Finset.sum_lt_sum (fun i _ => ?_) ⟨a.1, Finset.mem_univ _, hlt⟩
  rcases step_component h i with ⟨rfl, -⟩ | ⟨-, hsame⟩
  · exact hlt.le
  · rw [hsame]

end Clocked
