import DtsuBridge.Lib.Run

/-!
# Systems side by side

A clocked system names what each of its actions reads of a clock. `interleave M` runs the systems
`M i` side by side under one clock that does not go back : an action is one of one of them, which
reads nothing earlier than what was read before, by any of them.

In a step one of them moves and the others do not (`step_component`), so what holds in every state
of a system that runs alone holds of it beside any others (`reachable_component`).
-/

/-- A system whose actions read a clock. -/
structure Clocked (σ α τ : Type*) extends System σ α where
  /-- What an action reads, in order. -/
  readings : α → List τ
  /-- Nothing later than this reading is in the state. -/
  past : σ → τ → Prop

namespace Clocked

variable {ι σ α τ : Type*} [DecidableEq ι] [LinearOrder τ]

/-- The systems side by side, and the latest reading of their clock. -/
def interleave (M : ι → Clocked σ α τ) : System ((ι → σ) × τ) (ι × α) where
  init s := ∀ i, (M i).init (s.1 i) ∧ (M i).past (s.1 i) s.2
  step a s :=
    if (s.2 :: (M a.1).readings a.2).IsChain (· ≤ ·) then
      ((M a.1).step a.2 (s.1 a.1)).map fun t =>
        (Function.update s.1 a.1 t, ((M a.1).readings a.2).getLast?.getD s.2)
    else none

/-- The last of readings in order is the latest. -/
theorem le_last {now : τ} : ∀ {readings : List τ}, (now :: readings).IsChain (· ≤ ·) →
    now ≤ readings.getLast?.getD now ∧ ∀ t ∈ readings, now ≤ t ∧ t ≤ readings.getLast?.getD now
  | [], _ => ⟨le_rfl, by simp⟩
  | t :: readings, h => by
    obtain ⟨hle, hrest⟩ := List.isChain_cons_cons.1 h
    obtain ⟨hlast, hall⟩ := le_last hrest
    have heq : (t :: readings).getLast?.getD now = readings.getLast?.getD t := by
      rw [List.getLast?_cons, Option.getD_some]
    rw [heq]
    refine ⟨hle.trans hlast, List.forall_mem_cons.2 ⟨⟨hle, hlast⟩, fun u hu => ?_⟩⟩
    exact ⟨hle.trans (hall u hu).1, (hall u hu).2⟩

variable {M : ι → Clocked σ α τ}

/-- A step is one of one of the systems, at readings that are not before the clock. -/
theorem step_cases {s s' : (ι → σ) × τ} {a : ι × α} (h : (interleave M).step a s = some s') :
    ∃ t, (M a.1).step a.2 (s.1 a.1) = some t ∧ s'.1 = Function.update s.1 a.1 t ∧ s.2 ≤ s'.2 ∧
      (∀ r ∈ (M a.1).readings a.2, s.2 ≤ r ∧ r ≤ s'.2) ∧
      ((M a.1).readings a.2 = [] → s'.2 = s.2) := by
  simp only [interleave] at h
  split_ifs at h with hchain
  obtain ⟨t, ht, rfl⟩ := Option.map_eq_some_iff.1 h
  obtain ⟨hle, hall⟩ := le_last hchain
  exact ⟨t, ht, rfl, hle, hall, fun hnil => by simp [hnil]⟩

/-- The other systems keep their states. -/
theorem step_frame {s s' : (ι → σ) × τ} {a : ι × α} (h : (interleave M).step a s = some s')
    {i : ι} (hi : i ≠ a.1) : s'.1 i = s.1 i := by
  obtain ⟨t, -, heq, -⟩ := step_cases h
  rw [heq, Function.update_of_ne hi]

/-- In a step one system moves, and the others do not. -/
theorem step_component {s s' : (ι → σ) × τ} {a : ι × α} (h : (interleave M).step a s = some s')
    (i : ι) : i = a.1 ∧ (M i).step a.2 (s.1 i) = some (s'.1 i) ∨ i ≠ a.1 ∧ s'.1 i = s.1 i := by
  by_cases hi : i = a.1
  · obtain ⟨t, ht, heq, -⟩ := step_cases h
    subst hi
    exact Or.inl ⟨rfl, by rw [heq, Function.update_self, ht]⟩
  · exact Or.inr ⟨hi, step_frame h hi⟩

/-- A component of a reachable state is reachable alone. -/
theorem reachable_component {s : (ι → σ) × τ} (h : (interleave M).Reachable s) (i : ι) :
    (M i).Reachable (s.1 i) := by
  refine h.invariant (I := fun s => (M i).Reachable (s.1 i)) ?_ ?_
  · exact fun s h0 => .init (h0 i).1
  · intro a s s' hs _ hstep
    rcases step_component hstep i with ⟨-, hmove⟩ | ⟨-, hsame⟩
    · exact hs.step hmove
    · rw [hsame]
      exact hs

end Clocked
