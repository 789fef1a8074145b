import Mathlib.Tactic

/-!
# Computations that may raise

When a sequence of fallible computations succeeds and when it raises : `bind_eq_ok` and
`bind_eq_error` for two of them, `mapM_eq_ok` and `mapM_eq_error` for one per element of
a list, run in order and stopped by the first that raises. `foldlM_invariant` and
`exists_foldlM_eq_ok` : the invariant rules of a fold. `exists_foldlM_of_eq_ok` : that of two.
-/

universe u v

namespace Except

variable {ε : Type u} {α β : Type v}

theorem bind_eq_ok {x : Except ε α} {f : α → Except ε β} {b : β} :
    x >>= f = .ok b ↔ ∃ a, x = .ok a ∧ f a = .ok b := by
  cases x with
  | error e => exact ⟨nofun, by rintro ⟨_, h, _⟩; cases h⟩
  | ok a => exact ⟨fun h => ⟨a, rfl, h⟩, by rintro ⟨_, h, h'⟩; cases h; exact h'⟩

theorem bind_eq_error {x : Except ε α} {f : α → Except ε β} {e : ε} :
    x >>= f = .error e ↔ x = .error e ∨ ∃ a, x = .ok a ∧ f a = .error e := by
  cases x with
  | error e' =>
    refine ⟨fun h => Or.inl (by cases h; rfl), ?_⟩
    rintro (h | ⟨_, h, _⟩) <;> cases h
    rfl
  | ok a =>
    refine ⟨fun h => Or.inr ⟨a, rfl, h⟩, ?_⟩
    rintro (h | ⟨_, h, h'⟩) <;> cases h
    exact h'

/-- A computation succeeds or raises. -/
theorem ok_or_error (x : Except ε α) : (∃ a, x = .ok a) ∨ ∃ e, x = .error e := by
  cases x with
  | error e => exact Or.inr ⟨e, rfl⟩
  | ok a => exact Or.inl ⟨a, rfl⟩

theorem exists_error_iff {x : Except ε α} : (∃ e, x = .error e) ↔ ¬∃ a, x = .ok a := by
  cases x with
  | error e => simp
  | ok a => simp

theorem toOption_eq_some {x : Except ε α} {a : α} : x.toOption = some a ↔ x = .ok a := by
  cases x with
  | error e => exact ⟨nofun, nofun⟩
  | ok b => exact ⟨fun h => by cases h; rfl, fun h => by cases h; rfl⟩

/-- What a computation raised. -/
def raised? : Except ε α → Option ε
  | .error e => some e
  | .ok _ => none

theorem raised?_eq_some {x : Except ε α} {e : ε} : x.raised? = some e ↔ x = .error e := by
  rcases ok_or_error x with ⟨a, rfl⟩ | ⟨e', rfl⟩
  · simp [raised?]
  · simp [raised?]

/-- A list of computations succeeds exactly when each does, with their results. -/
theorem mapM_eq_ok {f : α → Except ε β} : ∀ {xs : List α} {ys : List β},
    xs.mapM f = .ok ys ↔ List.Forall₂ (fun x y => f x = .ok y) xs ys
  | [], ys => by
    rw [List.mapM_nil, List.forall₂_nil_left_iff]
    exact ⟨fun h => by cases h; rfl, fun h => by rw [h]; rfl⟩
  | x :: xs, ys => by
    rw [List.mapM_cons, bind_eq_ok, List.forall₂_cons_left_iff]
    refine exists_congr fun y => ?_
    rw [bind_eq_ok]
    refine ⟨?_, ?_⟩
    · rintro ⟨hy, ys', hys, h⟩
      cases h
      exact ⟨ys', hy, mapM_eq_ok.1 hys, rfl⟩
    · rintro ⟨ys', hy, hys, rfl⟩
      exact ⟨hy, ys', mapM_eq_ok.2 hys, rfl⟩

/-- A list of computations raises what the first to raise does. -/
theorem mapM_eq_error {f : α → Except ε β} {e : ε} : ∀ {xs : List α},
    xs.mapM f = .error e ↔ ∃ pre x post ys, xs = pre ++ x :: post ∧
      pre.mapM f = .ok ys ∧ f x = .error e
  | [] => by
    refine ⟨nofun, ?_⟩
    rintro ⟨pre, x, post, _, h, _⟩
    exact absurd h (by simp)
  | x :: xs => by
    rw [List.mapM_cons, bind_eq_error]
    refine ⟨?_, ?_⟩
    · rintro (h | ⟨y, hy, h⟩)
      · exact ⟨[], x, xs, [], rfl, rfl, h⟩
      · rcases bind_eq_error.1 h with h | ⟨ys, _, h⟩
        · obtain ⟨pre, x', post, ys, rfl, hpre, hx'⟩ := mapM_eq_error.1 h
          refine ⟨x :: pre, x', post, y :: ys, rfl, ?_, hx'⟩
          exact mapM_eq_ok.2 (.cons hy (mapM_eq_ok.1 hpre))
        · cases h
    · rintro ⟨pre, x', post, ys, h, hpre, hx'⟩
      cases pre with
      | nil =>
        obtain ⟨rfl, rfl⟩ := List.cons.inj h
        exact Or.inl hx'
      | cons p pre =>
        obtain ⟨rfl, rfl⟩ := List.cons.inj h
        cases mapM_eq_ok.1 hpre with
        | @cons _ y _ ys' hy hys =>
          refine Or.inr ⟨y, hy, bind_eq_error.2 (Or.inl ?_)⟩
          exact mapM_eq_error.2 ⟨pre, x', post, ys', rfl, mapM_eq_ok.2 hys, hx'⟩

/-- What a list of computations raises, one of them does. -/
theorem exists_of_mapM_eq_error {f : α → Except ε β} {xs : List α} {e : ε}
    (h : xs.mapM f = .error e) : ∃ x ∈ xs, f x = .error e := by
  obtain ⟨pre, x, post, -, rfl, -, hx⟩ := mapM_eq_error.1 h
  exact ⟨x, by simp, hx⟩

/-- Each result of a list of computations is that of one of them. -/
theorem exists_of_mem_mapM {f : α → Except ε β} {xs : List α} {ys : List β}
    (h : xs.mapM f = .ok ys) {y : β} (hy : y ∈ ys) : ∃ x ∈ xs, f x = .ok y := by
  induction mapM_eq_ok.1 h with
  | nil => cases hy
  | cons hxy hrest ih =>
    rcases List.mem_cons.1 hy with rfl | hy
    · exact ⟨_, List.mem_cons_self, hxy⟩
    · obtain ⟨x, hx, hxy⟩ := ih (mapM_eq_ok.2 hrest) hy
      exact ⟨x, List.mem_cons_of_mem _ hx, hxy⟩

/-- A list of computations succeeds exactly when each does. -/
theorem exists_mapM_eq_ok {f : α → Except ε β} : ∀ {xs : List α},
    (∃ ys, xs.mapM f = .ok ys) ↔ ∀ x ∈ xs, ∃ y, f x = .ok y
  | [] => ⟨fun _ => by simp, fun _ => ⟨[], mapM_eq_ok.2 .nil⟩⟩
  | x :: xs => by
    rw [List.forall_mem_cons, ← exists_mapM_eq_ok]
    refine ⟨?_, ?_⟩
    · rintro ⟨ys, h⟩
      obtain ⟨y, ys', hy, hys, rfl⟩ := List.forall₂_cons_left_iff.1 (mapM_eq_ok.1 h)
      exact ⟨⟨y, hy⟩, ys', mapM_eq_ok.2 hys⟩
    · rintro ⟨⟨y, hy⟩, ys, hys⟩
      exact ⟨y :: ys, mapM_eq_ok.2 (.cons hy (mapM_eq_ok.1 hys))⟩

theorem mapM_congr {f g : α → Except ε β} : ∀ {xs : List α}, (∀ x ∈ xs, f x = g x) →
    xs.mapM f = xs.mapM g
  | [], _ => rfl
  | x :: xs, h => by
    obtain ⟨hx, hxs⟩ := List.forall_mem_cons.1 h
    rw [List.mapM_cons, List.mapM_cons, hx, mapM_congr hxs]

/-- Two lists of computations with the same results have them element by element. -/
theorem eq_ok_of_mapM {f g : α → Except ε β} : ∀ {xs : List α} {ys : List β},
    xs.mapM f = .ok ys → xs.mapM g = .ok ys → ∀ x ∈ xs, ∃ y ∈ ys, f x = .ok y ∧ g x = .ok y
  | [], _, _, _ => by simp
  | x :: xs, ys, hf, hg => by
    obtain ⟨y, ys', hy, hys, rfl⟩ := List.forall₂_cons_left_iff.1 (mapM_eq_ok.1 hf)
    obtain ⟨y', ys'', hy', hys', h⟩ := List.forall₂_cons_left_iff.1 (mapM_eq_ok.1 hg)
    obtain ⟨rfl, rfl⟩ := List.cons.inj h
    refine List.forall_mem_cons.2 ⟨⟨y, by simp, hy, hy'⟩, fun z hz => ?_⟩
    obtain ⟨w, hw, h⟩ := eq_ok_of_mapM (mapM_eq_ok.2 hys) (mapM_eq_ok.2 hys') z hz
    exact ⟨w, List.mem_cons_of_mem _ hw, h⟩

/-- Computations that all succeed. -/
theorem mapM_eq_ok_map {f : α → Except ε β} {g : α → β} : ∀ {xs : List α},
    (∀ x ∈ xs, f x = .ok (g x)) → xs.mapM f = .ok (xs.map g)
  | [], _ => rfl
  | x :: xs, h => by
    obtain ⟨hx, hxs⟩ := List.forall_mem_cons.1 h
    rw [List.mapM_cons, hx, mapM_eq_ok_map hxs]
    rfl

/-- Computations that all succeed, whatever their place in the list. -/
theorem mapM_zipIdx_eq_ok {f : α × ℕ → Except ε β} {g : α → β} (h : ∀ x n, f (x, n) = .ok (g x))
    (xs : List α) : xs.zipIdx.mapM f = .ok (xs.map g) := by
  have key : ∀ (xs : List α) (k : ℕ), (xs.zipIdx k).mapM f = .ok (xs.map g) := by
    intro xs
    induction xs with
    | nil => intro _; rfl
    | cons x xs ih =>
      intro k
      rw [List.zipIdx_cons, List.mapM_cons, h, ih]
      rfl
  exact key xs 0

/-- What every step of a fold that succeeds keeps, the fold keeps. -/
theorem foldlM_invariant {f : β → α → Except ε β} {I : β → Prop} :
    ∀ {xs : List α} {s s' : β}, (∀ x ∈ xs, ∀ s s', I s → f s x = .ok s' → I s') → I s →
      xs.foldlM f s = .ok s' → I s'
  | [], s, s', _, hs, h => by cases h; exact hs
  | x :: xs, s, s', hstep, hs, h => by
    obtain ⟨hx, hxs⟩ := List.forall_mem_cons.1 hstep
    rw [List.foldlM_cons] at h
    obtain ⟨t, ht, h⟩ := bind_eq_ok.1 h
    exact foldlM_invariant hxs (hx s t hs ht) h

/-- A fold succeeds where every step does from a state that the steps keep. -/
theorem exists_foldlM_eq_ok {f : β → α → Except ε β} {I : β → Prop}
    (hstep : ∀ x s, I s → ∃ s', f s x = .ok s' ∧ I s') :
    ∀ (xs : List α) {s : β}, I s → ∃ s', xs.foldlM f s = .ok s' ∧ I s'
  | [], s, hs => ⟨s, rfl, hs⟩
  | x :: xs, s, hs => by
    obtain ⟨t, ht, hI⟩ := hstep x s hs
    obtain ⟨s', hfold, hI'⟩ := exists_foldlM_eq_ok hstep xs hI
    refine ⟨s', ?_, hI'⟩
    rw [List.foldlM_cons]
    exact bind_eq_ok.2 ⟨t, ht, hfold⟩

/-- A fold follows another whose steps it follows. -/
theorem exists_foldlM_of_eq_ok {γ : Type v} {f : β → α → Except ε β} {g : γ → α → Except ε γ}
    {R : β → γ → Prop}
    (hstep : ∀ x s s' t, R s t → f s x = .ok s' → ∃ t', g t x = .ok t' ∧ R s' t') :
    ∀ {xs : List α} {s s' : β} {t : γ}, R s t → xs.foldlM f s = .ok s' →
      ∃ t', xs.foldlM g t = .ok t' ∧ R s' t'
  | [], _, _, t, hR, h => by cases h; exact ⟨t, rfl, hR⟩
  | x :: xs, s, s', t, hR, h => by
    rw [List.foldlM_cons] at h
    obtain ⟨s₁, hs₁, h⟩ := bind_eq_ok.1 h
    obtain ⟨t₁, ht₁, hR₁⟩ := hstep x s s₁ t hR hs₁
    obtain ⟨t', hfold, hR'⟩ := exists_foldlM_of_eq_ok hstep hR₁ h
    refine ⟨t', ?_, hR'⟩
    rw [List.foldlM_cons]
    exact bind_eq_ok.2 ⟨t₁, ht₁, hfold⟩

/-- The error of a fold is one of a step. -/
theorem exists_of_foldlM_eq_error {f : β → α → Except ε β} {e : ε} :
    ∀ {xs : List α} {s : β}, xs.foldlM f s = .error e → ∃ s x, f s x = .error e
  | [], _, h => by cases h
  | x :: xs, s, h => by
    rw [List.foldlM_cons] at h
    rcases bind_eq_error.1 h with h | ⟨t, -, h⟩
    · exact ⟨s, x, h⟩
    · exact exists_of_foldlM_eq_error h

end Except
