import Mathlib.Data.List.MinMax
import Mathlib.Tactic

/-!
# The latest of stamped entries

Entries in the order they came, with increasing stamps. The last one that a test accepts
is the accepted one of the largest stamp (`findRev?_eq_some_iff`), so that a search from
the end and a search for the largest stamp come to the same entry.
-/

namespace Latest

variable {α τ : Type*} [LinearOrder τ] {stamp : α → τ} {p : α → Bool}

/-- Of the entries `p` accepts, the one of the largest stamp. -/
structure IsLatest (stamp : α → τ) (p : α → Bool) (xs : List α) (x : α) : Prop where
  mem : x ∈ xs
  accepted : p x = true
  le : ∀ y ∈ xs, p y = true → stamp y ≤ stamp x

/-- Stamps in order tell entries apart. -/
theorem eq_of_stamp_eq : ∀ {xs : List α}, xs.Pairwise (stamp · < stamp ·) →
    ∀ x ∈ xs, ∀ y ∈ xs, stamp x = stamp y → x = y
  | [], _ => by simp
  | z :: xs, h => by
    obtain ⟨hz, hxs⟩ := List.pairwise_cons.1 h
    rintro x (_ | ⟨_, hx⟩) y (_ | ⟨_, hy⟩) he
    · rfl
    · exact absurd he (hz y hy).ne
    · exact absurd he.symm (hz x hx).ne
    · exact eq_of_stamp_eq hxs x hx y hy he

/-- There is one latest entry. -/
theorem IsLatest.unique {xs : List α} (h : xs.Pairwise (stamp · < stamp ·)) {x y : α}
    (hx : IsLatest stamp p xs x) (hy : IsLatest stamp p xs y) : x = y :=
  eq_of_stamp_eq h x hx.mem y hy.mem
    (le_antisymm (hy.le x hx.mem hx.accepted) (hx.le y hy.mem hy.accepted))

theorem findRev?_eq_none_iff {xs : List α} :
    xs.findRev? p = none ↔ ∀ x ∈ xs, p x = false := by
  simp

/-- The last accepted entry is the latest. -/
theorem findRev?_eq_some_iff : ∀ {xs : List α}, xs.Pairwise (stamp · < stamp ·) → ∀ {x : α},
    xs.findRev? p = some x ↔ IsLatest stamp p xs x
  | [], _, x => ⟨nofun, fun h => absurd h.mem List.not_mem_nil⟩
  | z :: xs, h, x => by
    obtain ⟨hz, hxs⟩ := List.pairwise_cons.1 h
    have ih : ∀ {y}, xs.findRev? p = some y ↔ IsLatest stamp p xs y := findRev?_eq_some_iff hxs
    rw [List.findRev?]
    cases hf : xs.findRev? p with
    | some y =>
      have hy := ih.1 hf
      have hy' : IsLatest stamp p (z :: xs) y := by
        refine ⟨List.mem_cons_of_mem _ hy.mem, hy.accepted, ?_⟩
        rintro w (_ | ⟨_, hw⟩) hpw
        · exact (hz y hy.mem).le
        · exact hy.le w hw hpw
      exact ⟨fun h => Option.some.inj h ▸ hy', fun hx => congrArg some (hy'.unique h hx)⟩
    | none =>
      rw [findRev?_eq_none_iff] at hf
      by_cases hpz : p z = true
      · simp only [hpz, if_true, Option.some.injEq]
        have hz' : IsLatest stamp p (z :: xs) z := by
          refine ⟨List.mem_cons_self, hpz, ?_⟩
          rintro w (_ | ⟨_, hw⟩) hpw
          · exact le_rfl
          · simp [hf w hw] at hpw
        exact ⟨fun h => h ▸ hz', fun hx => hz'.unique h hx⟩
      · rw [if_neg hpz]
        refine ⟨nofun, fun hx => ?_⟩
        rcases List.mem_cons.1 hx.mem with rfl | hmem
        · exact absurd hx.accepted hpz
        · exact absurd hx.accepted (by simp [hf x hmem])

/-- Where an entry is accepted there is a latest one. -/
theorem exists_isLatest {xs : List α} (h : xs.Pairwise (stamp · < stamp ·)) {x : α}
    (hx : x ∈ xs) (hp : p x = true) : ∃ y, IsLatest stamp p xs y := by
  cases hf : xs.findRev? p with
  | none => simp [findRev?_eq_none_iff.1 hf x hx] at hp
  | some y => exact ⟨y, (findRev?_eq_some_iff h).1 hf⟩

end Latest
