import Mathlib.Tactic

/-!
# Runs of a transition system

A system has initial states and a partial step for each action (`System`). `run` takes
a list of actions from a state. `Reachable` is every state a run from an initial state
ends in, `ReachableBy p` those whose runs take only steps that `p` allows, which are the runs of
the system restricted to them (`restrict`).

An invariant is proved on the initial states and on one step (`ReachableBy.invariant`),
the step possibly with an invariant proved before (`ReachableBy.invariant_of`). One that
speaks of the actions taken so far is carried along a run (`run_history`).

A history is the list of what happened, the latest last. `EachAfter P` : each of its events
satisfies `P` of the events before it.
-/

/-- A transition system with labelled steps. -/
structure System (σ α : Type*) where
  /-- The states a run starts from. -/
  init : σ → Prop
  /-- The state after an action, none where the action is not enabled. -/
  step : α → σ → Option σ

namespace System

variable {σ α : Type*} (M : System σ α)

/-- Take the actions in order. -/
def run : List α → σ → Option σ
  | [], s => some s
  | a :: as, s => (M.step a s).bind (run as)

@[simp] theorem run_nil (s : σ) : M.run [] s = some s :=
  rfl

@[simp] theorem run_cons (a : α) (as : List α) (s : σ) :
    M.run (a :: as) s = (M.step a s).bind (M.run as) :=
  rfl

theorem run_append : ∀ (as bs : List α) (s : σ),
    M.run (as ++ bs) s = (M.run as s).bind (M.run bs)
  | [], _, _ => rfl
  | a :: as, bs, s => by
    cases h : M.step a s with
    | none => simp [h]
    | some s' => simpa [h] using run_append as bs s'

/-- The states of the runs whose every step `p` allows. -/
inductive ReachableBy (p : α → σ → Prop) : σ → Prop
  | init {s : σ} : M.init s → ReachableBy p s
  | step {s s' : σ} {a : α} : ReachableBy p s → p a s → M.step a s = some s' → ReachableBy p s'

/-- The states of all runs. -/
abbrev Reachable : σ → Prop :=
  M.ReachableBy fun _ _ => True

variable {M} {p : α → σ → Prop} {I J : σ → Prop}

theorem Reachable.step {s s' : σ} {a : α} (h : M.Reachable s) (hs : M.step a s = some s') :
    M.Reachable s' :=
  ReachableBy.step h trivial hs

theorem ReachableBy.reachable {s : σ} (h : M.ReachableBy p s) : M.Reachable s := by
  induction h with
  | init h0 => exact .init h0
  | step _ _ hs ih => exact ih.step hs

/-- What holds initially and along every allowed step holds in every reachable state. -/
theorem ReachableBy.invariant (h0 : ∀ s, M.init s → I s)
    (hstep : ∀ a s s', I s → p a s → M.step a s = some s' → I s') {s : σ}
    (h : M.ReachableBy p s) : I s := by
  induction h with
  | init hs => exact h0 _ hs
  | step _ hp hs ih => exact hstep _ _ _ ih hp hs

/-- The step of an invariant may use one proved before. -/
theorem ReachableBy.invariant_of (hJ : ∀ s, M.ReachableBy p s → J s)
    (h0 : ∀ s, M.init s → I s)
    (hstep : ∀ a s s', J s → I s → p a s → M.step a s = some s' → I s') {s : σ}
    (h : M.ReachableBy p s) : I s := by
  induction h with
  | init hs => exact h0 _ hs
  | step hr hp hs ih => exact hstep _ _ _ (hJ _ hr) ih hp hs

/-- What every step preserves, a whole run preserves. -/
theorem run_invariant (hstep : ∀ a s s', I s → M.step a s = some s' → I s') :
    ∀ (as : List α) {s s' : σ}, I s → M.run as s = some s' → I s'
  | [], _, _, hI, h => by
    obtain rfl := Option.some.inj h
    exact hI
  | a :: as, s, s', hI, h => by
    obtain ⟨t, ht, h⟩ := Option.bind_eq_some_iff.1 h
    exact run_invariant hstep as (hstep _ _ _ hI ht) h

/-- An invariant of the actions taken so far and the state. -/
theorem run_history {H : List α → σ → Prop}
    (hstep : ∀ as a s s', H as s → M.step a s = some s' → H (as ++ [a]) s') :
    ∀ (as : List α) {pre : List α} {s s' : σ}, H pre s → M.run as s = some s' → H (pre ++ as) s'
  | [], pre, _, _, hH, h => by
    obtain rfl := Option.some.inj h
    simpa using hH
  | a :: as, pre, s, s', hH, h => by
    obtain ⟨t, ht, h⟩ := Option.bind_eq_some_iff.1 h
    have := run_history hstep as (hstep _ _ _ _ hH ht) h
    simpa using this

/-- Where `p` allows the actions of a run in every state, it ends in such a state too. -/
theorem reachableBy_of_run : ∀ {s s' : σ}, M.ReachableBy p s →
    ∀ as : List α, (∀ a ∈ as, ∀ t, p a t) → M.run as s = some s' → M.ReachableBy p s'
  | _, _, h0, [], _, h => by
    obtain rfl := Option.some.inj h
    exact h0
  | s, _, h0, a :: as, hp, h => by
    obtain ⟨ha, has⟩ := List.forall_mem_cons.1 hp
    obtain ⟨t, ht, h⟩ := Option.bind_eq_some_iff.1 h
    exact reachableBy_of_run (h0.step (ha s) ht) as has h

theorem reachable_of_run {s s' : σ} (h0 : M.Reachable s) (as : List α)
    (h : M.run as s = some s') : M.Reachable s' :=
  reachableBy_of_run h0 as (fun _ _ _ => trivial) h

/-- The system without the steps that `p` does not allow. -/
def restrict (M : System σ α) (p : α → σ → Prop) [∀ a s, Decidable (p a s)] : System σ α where
  init := M.init
  step a s := if p a s then M.step a s else none

theorem reachableBy_of_restrict [∀ a s, Decidable (p a s)] {s : σ}
    (h : (M.restrict p).Reachable s) : M.ReachableBy p s := by
  induction h with
  | init h0 => exact .init h0
  | step _ _ hs ih =>
    obtain ⟨hp, hs⟩ := Option.ite_none_right_eq_some.1 hs
    exact ih.step hp hs

end System

/-! ## Histories -/

section History

variable {ε : Type*} {P : List ε → ε → Prop}

/-- Every event satisfies `P` of those before it. -/
def EachAfter (P : List ε → ε → Prop) (h : List ε) : Prop :=
  ∀ pre e post, h = pre ++ e :: post → P pre e

@[simp] theorem eachAfter_nil : EachAfter P [] := by
  intro pre e post h
  simp at h

@[simp] theorem eachAfter_cons {e : ε} {h : List ε} :
    EachAfter P (e :: h) ↔ P [] e ∧ EachAfter (fun pre => P (e :: pre)) h := by
  refine ⟨fun hP => ⟨hP [] e h rfl, fun pre e' post hh => hP (e :: pre) e' post (by rw [hh]; rfl)⟩,
    ?_⟩
  rintro ⟨he, hP⟩ (_ | ⟨e', pre⟩) e'' post hh
  · obtain ⟨rfl, -⟩ := List.cons.inj hh
    exact he
  · obtain ⟨rfl, rfl⟩ := List.cons.inj hh
    exact hP pre e'' post rfl

/-- The events of a continuation follow those before it. -/
theorem eachAfter_append : ∀ {h h' : List ε} {P : List ε → ε → Prop},
    EachAfter P (h ++ h') ↔ EachAfter P h ∧ EachAfter (fun pre => P (h ++ pre)) h'
  | [], _, _ => by simp
  | e :: h, h', P => by
    rw [List.cons_append, eachAfter_cons, eachAfter_cons, eachAfter_append, and_assoc]
    rfl

/-- One more event follows all before it. -/
theorem eachAfter_concat {h : List ε} {e : ε} : EachAfter P (h ++ [e]) ↔ EachAfter P h ∧ P h e := by
  rw [eachAfter_append, eachAfter_cons, List.append_nil]
  simp

theorem EachAfter.imp {Q : List ε → ε → Prop} {h : List ε} (hP : EachAfter P h)
    (himp : ∀ pre e, P pre e → Q pre e) : EachAfter Q h :=
  fun pre e post hh => himp _ _ (hP pre e post hh)

end History
