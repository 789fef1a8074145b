import Mathlib.Data.List.SplitBy
import Mathlib.Tactic

/-!
# Episodes

A history of readings, each bad or not. `episodes` : the maximal runs of bad readings, and
`endedEpisodes` those that are over. Each is counted as the readings come
(`episodes_concat`, `endedEpisodes_concat`) : an episode begins with a bad reading after one that
is not, and has ended with the first good one.
-/

namespace Episodes

/-- The maximal runs of equal readings. -/
def blocks (bs : List Bool) : List (List Bool) := bs.splitBy (· == ·)

/-- The maximal runs of bad readings. -/
def episodes (bs : List Bool) : ℕ := (blocks bs).countP (true ∈ ·)

/-- The maximal runs of bad readings that have ended. -/
def endedEpisodes (bs : List Bool) : ℕ := (blocks bs).dropLast.countP (true ∈ ·)

/-- A reading that is not as the one before begins a run. -/
theorem blocks_concat_of_ne {bs : List Bool} {b : Bool} (h : bs.getLast? ≠ some b) :
    blocks (bs ++ [b]) = blocks bs ++ [[b]] := by
  refine (List.splitBy_append_cons [] fun x hx => ?_).trans ?_
  · rw [beq_eq_false_iff_ne]
    rintro rfl
    exact h hx
  · rw [List.splitBy_of_isChain (List.cons_ne_nil _ _) (List.isChain_singleton b)]
    rfl

/-- The readings of a run are equal. -/
theorem eq_of_isChain : ∀ {run : List Bool} {b : Bool}, run.IsChain (fun x y => (x == y) = true) →
    run.getLast? = some b → ∀ x ∈ run, x = b
  | [], _, _, _ => by simp
  | [x], b, _, hlast => by simpa using hlast
  | x :: y :: run, b, hchain, hlast => by
    obtain ⟨hxy, hrest⟩ := List.isChain_cons_cons.1 hchain
    have hall := eq_of_isChain hrest (by simpa using hlast)
    refine List.forall_mem_cons.2 ⟨?_, hall⟩
    exact (eq_of_beq hxy).trans (hall y (by simp))

/-- The last run is the end of the readings. -/
theorem exists_last_block {bs : List Bool} {b : Bool} (h : bs.getLast? = some b) :
    ∃ before run, blocks bs = before ++ [run] ∧ before.flatten ++ run = bs ∧
      run.getLast? = some b := by
  have hbs : bs ≠ [] := by
    rintro rfl
    simp at h
  have hblocks : blocks bs ≠ [] := List.splitBy_ne_nil.2 hbs
  obtain ⟨before, run, heq⟩ : ∃ before run, blocks bs = before ++ [run] :=
    ⟨_, _, (List.dropLast_append_getLast hblocks).symm⟩
  have hrun : run ≠ [] := List.ne_nil_of_mem_splitBy (r := (· == ·)) (l := bs) (by
    rw [← blocks, heq]
    simp)
  have hflat : before.flatten ++ run = bs := by
    have hflat := List.flatten_splitBy (· == ·) bs
    rw [← blocks, heq] at hflat
    simpa using hflat
  refine ⟨before, run, heq, hflat, ?_⟩
  rw [← hflat, List.getLast?_append_of_ne_nil _ hrun] at h
  exact h

/-- A reading as the one before goes on with its run, all of which are the same. -/
theorem blocks_concat_of_eq {bs : List Bool} {b : Bool} (h : bs.getLast? = some b) :
    ∃ before run, blocks bs = before ++ [run] ∧ blocks (bs ++ [b]) = before ++ [run ++ [b]] ∧
      (true ∈ run ↔ b = true) := by
  obtain ⟨before, run, heq, hflat, hlast⟩ := exists_last_block h
  have hrun : run ≠ [] := by
    rintro rfl
    simp at hlast
  obtain ⟨-, hnil, hruns, hsteps⟩ := List.splitBy_eq_iff.1 heq
  have hall := eq_of_isChain (hruns run (by simp)) hlast
  refine ⟨before, run, heq, List.splitBy_eq_iff.2 ⟨?_, ?_, ?_, ?_⟩, ?_⟩
  · rw [← hflat]
    simp
  · simp only [List.mem_append, List.mem_singleton, not_or] at hnil ⊢
    exact ⟨hnil.1, by simp⟩
  · intro m hm
    rcases List.mem_append.1 hm with hm | hm
    · exact hruns m (List.mem_append_left _ hm)
    · rw [List.mem_singleton.1 hm]
      refine List.isChain_append.2 ⟨hruns run (by simp), List.isChain_singleton b, ?_⟩
      intro x hx y hy
      rw [hlast] at hx
      simp_all
  · obtain ⟨hbefore, -, hjoin⟩ := List.isChain_append.1 hsteps
    refine List.isChain_append.2 ⟨hbefore, List.isChain_singleton _, fun m hm n hn => ?_⟩
    obtain rfl : run ++ [b] = n := by simpa using hn
    obtain ⟨hm', hrun', hdiff⟩ := hjoin m hm run (by simp)
    exact ⟨hm', by simp, by rwa [List.head_append_of_ne_nil hrun']⟩
  · constructor
    · exact fun hmem => (hall true hmem).symm
    · rintro rfl
      exact List.mem_of_getLast? hlast

/-- A bad reading begins an episode, unless the one before was bad. -/
theorem episodes_concat (bs : List Bool) (b : Bool) : episodes (bs ++ [b]) =
    episodes bs + if b = true ∧ bs.getLast? ≠ some true then 1 else 0 := by
  by_cases h : bs.getLast? = some b
  · obtain ⟨before, run, hbs, hnew, hmem⟩ := blocks_concat_of_eq h
    have hno : ¬(b = true ∧ bs.getLast? ≠ some true) := by
      rintro ⟨rfl, hne⟩
      exact hne h
    rw [episodes, episodes, hbs, hnew, if_neg hno, List.countP_append, List.countP_append]
    cases b <;> simp [hmem]
  · rw [episodes, episodes, blocks_concat_of_ne h, List.countP_append]
    cases b with
    | false => simp
    | true => simp [h]

/-- A good reading ends the episode before it. -/
theorem endedEpisodes_concat (bs : List Bool) (b : Bool) : endedEpisodes (bs ++ [b]) =
    endedEpisodes bs + if b = false ∧ bs.getLast? = some true then 1 else 0 := by
  by_cases h : bs.getLast? = some b
  · obtain ⟨before, run, hbs, hnew, -⟩ := blocks_concat_of_eq h
    have hno : ¬(b = false ∧ bs.getLast? = some true) := by
      rintro ⟨rfl, hc⟩
      simp [h] at hc
    rw [endedEpisodes, endedEpisodes, hbs, hnew, if_neg hno, List.dropLast_concat,
      List.dropLast_concat, Nat.add_zero]
  · rw [endedEpisodes, endedEpisodes, blocks_concat_of_ne h, List.dropLast_concat]
    cases hlast : bs.getLast? with
    | none =>
      obtain rfl := List.getLast?_eq_none_iff.1 hlast
      simp [blocks]
    | some b' =>
      obtain ⟨before, run, hbs, -, hmem⟩ := blocks_concat_of_eq hlast
      have hne : b' ≠ b := fun hc => h (hc ▸ hlast)
      rw [hbs, List.dropLast_concat, List.countP_append]
      cases b' <;> cases b <;> simp_all

/-! ## Counting as the readings come -/

/-- What a counter of episodes holds : whether one is going on, and how many began and ended. -/
structure Tally where
  bad : Bool := false
  begun : ℕ := 0
  ended : ℕ := 0

/-- Take a reading in. -/
def Tally.record (t : Tally) (b : Bool) : Tally where
  bad := b
  begun := t.begun + if b = true ∧ t.bad = false then 1 else 0
  ended := t.ended + if b = false ∧ t.bad = true then 1 else 0

/-- The counts go on from where they are. -/
theorem foldl_record_add (m n : ℕ) : ∀ (bs : List Bool) (t : Tally),
    bs.foldl Tally.record ⟨t.bad, m + t.begun, n + t.ended⟩ =
      ⟨(bs.foldl Tally.record t).bad, m + (bs.foldl Tally.record t).begun,
        n + (bs.foldl Tally.record t).ended⟩
  | [], _ => rfl
  | b :: bs, t => by
    rw [List.foldl_cons, List.foldl_cons, ← foldl_record_add m n bs (t.record b)]
    simp only [Tally.record, Nat.add_assoc]

/-- The counter holds the episodes of the readings it took in. -/
theorem tally_foldl (bs : List Bool) : bs.foldl Tally.record {} =
    ⟨bs.getLast?.getD false, episodes bs, endedEpisodes bs⟩ := by
  induction bs using List.reverseRecOn with
  | nil => rfl
  | append_singleton bs b ih =>
    rw [List.foldl_append, List.foldl_cons, List.foldl_nil, ih, Tally.record, episodes_concat,
      endedEpisodes_concat]
    cases hlast : bs.getLast? <;> simp

end Episodes
