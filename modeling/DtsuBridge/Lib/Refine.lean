import DtsuBridge.Lib.Run

/-!
# Refinement of transition systems

A system refines another along an abstraction of its states when each of its steps, from a
reachable state, is a run of the other : the actions of that run are the trace of the step, none
where the other system does not move (`System.Refines`). Then a whole run is a run of the other
system along the traces of its steps (`Refines.run`), and what is reachable abstracts to what is
reachable (`Refines.reachable`).
-/

namespace System

variable {σ α τ β : Type*}

theorem run_singleton (C : System σ α) (a : α) (s : σ) : C.run [a] s = C.step a s :=
  Option.bind_fun_some _

/-- What an abstract system does along a run. -/
def traces (C : System σ α) (trace : α → σ → List β) : List α → σ → List β
  | [], _ => []
  | a :: as, s => trace a s ++ (C.step a s).elim [] (traces C trace as)

/-- Every step of `C` is a run of `A`. -/
structure Refines (C : System σ α) (A : System τ β) (abs : σ → τ) (trace : α → σ → List β) :
    Prop where
  init : ∀ s, C.init s → A.init (abs s)
  step : ∀ a s s', C.Reachable s → C.step a s = some s' →
    A.run (trace a s) (abs s) = some (abs s')

namespace Refines

variable {C : System σ α} {A : System τ β} {abs : σ → τ} {trace : α → σ → List β}

theorem run (h : Refines C A abs trace) : ∀ (as : List α) {s s' : σ}, C.Reachable s →
    C.run as s = some s' → A.run (C.traces trace as s) (abs s) = some (abs s')
  | [], _, _, _, hrun => by
    obtain rfl := Option.some.inj hrun
    rfl
  | a :: as, s, s', hs, hrun => by
    obtain ⟨t, ht, hrun⟩ := Option.bind_eq_some_iff.1 hrun
    have hnext := h.run as (hs.step ht) hrun
    rw [traces, run_append, h.step a s t hs ht, ht]
    exact hnext

theorem reachable (h : Refines C A abs trace) {s : σ} (hs : C.Reachable s) :
    A.Reachable (abs s) := by
  induction hs with
  | init h0 => exact .init (h.init _ h0)
  | step hr _ hstep ih => exact reachable_of_run ih _ (h.step _ _ _ hr hstep)

end Refines

end System
