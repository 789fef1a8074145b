import Mathlib.Data.List.Nodup
import Mathlib.Tactic

/-!
# Dictionaries in insertion order

A `Dict` is a list of entries with distinct keys, iterated in that order. Setting a key
that is present keeps its place, a new key goes to the end (`Dict.set`). `get?_set` says
what a key reads after a write, `mem_keys_set` which keys there are.
-/

/-- Entries with distinct keys, in insertion order. -/
structure Dict (κ ν : Type*) where
  entries : List (κ × ν)
  nodup : (entries.map Prod.fst).Nodup

namespace Dict

variable {κ ν : Type*}

@[ext] theorem ext {d d' : Dict κ ν} (h : d.entries = d'.entries) : d = d' := by
  cases d
  cases d'
  simp_all

/-- The dictionary with no entry. -/
def empty : Dict κ ν := ⟨[], by simp⟩

/-- The keys, in order. -/
def keys (d : Dict κ ν) : List κ := d.entries.map Prod.fst

/-- The values, in order. -/
def values (d : Dict κ ν) : List ν := d.entries.map Prod.snd

@[simp] theorem keys_empty : (empty : Dict κ ν).keys = [] :=
  rfl

/-- Apply `f` to every value. -/
def mapValues (f : κ → ν → ν) (d : Dict κ ν) : Dict κ ν where
  entries := d.entries.map fun e => (e.1, f e.1 e.2)
  nodup := by simpa [Function.comp_def] using d.nodup

@[simp] theorem keys_mapValues (f : κ → ν → ν) (d : Dict κ ν) : (d.mapValues f).keys = d.keys := by
  simp [keys, mapValues, Function.comp_def]

variable [DecidableEq κ]

/-- The value at `k`. -/
def get? (d : Dict κ ν) (k : κ) : Option ν :=
  (d.entries.find? fun e => e.1 = k).map Prod.snd

/-- The entries with `k` bound to `v`, in place where `k` is present. -/
def setEntries (k : κ) (v : ν) : List (κ × ν) → List (κ × ν)
  | [] => [(k, v)]
  | e :: es => if e.1 = k then (k, v) :: es else e :: setEntries k v es

theorem mem_keys_setEntries (k : κ) (v : ν) {k' : κ} : ∀ {es : List (κ × ν)},
    k' ∈ (setEntries k v es).map Prod.fst ↔ k' = k ∨ k' ∈ es.map Prod.fst
  | [] => by simp [setEntries]
  | e :: es => by
    unfold setEntries
    split_ifs with h
    · simp [h]
    · have ih : k' ∈ (setEntries k v es).map Prod.fst ↔ k' = k ∨ k' ∈ es.map Prod.fst :=
        mem_keys_setEntries k v
      simp only [List.map_cons, List.mem_cons, ih]
      tauto

theorem nodup_setEntries (k : κ) (v : ν) : ∀ {es : List (κ × ν)}, (es.map Prod.fst).Nodup →
    ((setEntries k v es).map Prod.fst).Nodup
  | [], _ => by simp [setEntries]
  | e :: es, h => by
    rw [List.map_cons, List.nodup_cons] at h
    unfold setEntries
    split_ifs with he
    · simpa [← he] using h
    · rw [List.map_cons, List.nodup_cons, mem_keys_setEntries]
      exact ⟨fun hmem => hmem.elim he h.1, nodup_setEntries k v h.2⟩

/-- `d[k] = v`. -/
def set (d : Dict κ ν) (k : κ) (v : ν) : Dict κ ν :=
  ⟨setEntries k v d.entries, nodup_setEntries k v d.nodup⟩

/-- Set each of `ks` to `v`, in order. -/
def setAll (d : Dict κ ν) (ks : List κ) (v : ν) : Dict κ ν :=
  ks.foldl (fun d k => d.set k v) d

theorem mem_keys_set {d : Dict κ ν} {k k' : κ} {v : ν} :
    k' ∈ (d.set k v).keys ↔ k' = k ∨ k' ∈ d.keys :=
  mem_keys_setEntries k v

theorem keys_set_of_mem {d : Dict κ ν} {k : κ} (h : k ∈ d.keys) (v : ν) :
    (d.set k v).keys = d.keys := by
  have hentries : ∀ es : List (κ × ν), k ∈ es.map Prod.fst →
      (setEntries k v es).map Prod.fst = es.map Prod.fst := by
    intro es hes
    induction es with
    | nil => simp at hes
    | cons e es ih =>
      by_cases he : e.1 = k
      · simp [setEntries, he]
      · rw [List.map_cons, List.mem_cons] at hes
        have hmem := hes.resolve_left (Ne.symm he)
        simp [setEntries, he, ih hmem]
  exact hentries d.entries h

/-- A new key goes to the end. -/
theorem entries_set_of_notMem {d : Dict κ ν} {k : κ} (h : k ∉ d.keys) (v : ν) :
    (d.set k v).entries = d.entries ++ [(k, v)] := by
  have hentries : ∀ es : List (κ × ν), k ∉ es.map Prod.fst →
      setEntries k v es = es ++ [(k, v)] := by
    intro es hes
    induction es with
    | nil => rfl
    | cons e es ih =>
      rw [List.map_cons, List.mem_cons, not_or] at hes
      rw [setEntries, if_neg (Ne.symm hes.1), ih hes.2, List.cons_append]
  exact hentries d.entries h

theorem keys_set_of_notMem {d : Dict κ ν} {k : κ} (h : k ∉ d.keys) (v : ν) :
    (d.set k v).keys = d.keys ++ [k] := by
  rw [keys, entries_set_of_notMem h, List.map_append]
  rfl

theorem mem_keys_setAll {k' : κ} {v : ν} : ∀ {ks : List κ} {d : Dict κ ν},
    k' ∈ (d.setAll ks v).keys ↔ k' ∈ ks ∨ k' ∈ d.keys
  | [], d => by simp [setAll]
  | k :: ks, d => by
    have ih : k' ∈ ((d.set k v).setAll ks v).keys ↔ k' ∈ ks ∨ k' ∈ (d.set k v).keys :=
      mem_keys_setAll
    rw [mem_keys_set] at ih
    rw [List.mem_cons, or_assoc]
    exact ih.trans or_left_comm

theorem find?_setEntries (k k' : κ) (v : ν) : ∀ es : List (κ × ν),
    (setEntries k v es).find? (fun e => e.1 = k') =
      if k' = k then some (k, v) else es.find? fun e => e.1 = k'
  | [] => by
    by_cases h : k' = k
    · simp [setEntries, h]
    · simp [setEntries, h, Ne.symm h]
  | e :: es => by
    have ih := find?_setEntries k k' v es
    unfold setEntries
    split_ifs with he hk hk
    · simp [hk]
    · have h1 : ¬k = k' := Ne.symm hk
      have h2 : ¬e.1 = k' := he ▸ h1
      simp [h1, h2]
    · have h2 : ¬e.1 = k' := hk ▸ he
      rw [List.find?_cons_of_neg (by simpa using h2), ih, if_pos hk]
    · by_cases h2 : e.1 = k'
      · simp [h2]
      · simp [h2, ih, hk]

theorem get?_set (d : Dict κ ν) (k k' : κ) (v : ν) :
    (d.set k v).get? k' = if k' = k then some v else d.get? k' := by
  unfold get? set
  simp only [find?_setEntries]
  split_ifs <;> rfl

@[simp] theorem get?_set_self (d : Dict κ ν) (k : κ) (v : ν) : (d.set k v).get? k = some v := by
  rw [get?_set, if_pos rfl]

theorem get?_set_ne (d : Dict κ ν) {k k' : κ} (v : ν) (h : k' ≠ k) :
    (d.set k v).get? k' = d.get? k' := by
  rw [get?_set, if_neg h]

@[simp] theorem get?_empty (k : κ) : (empty : Dict κ ν).get? k = none :=
  rfl

/-- A key is present exactly when it reads a value. -/
theorem isSome_get?_iff {d : Dict κ ν} {k : κ} : (d.get? k).isSome ↔ k ∈ d.keys := by
  simp [get?, keys, List.find?_isSome]

theorem get?_eq_none_iff {d : Dict κ ν} {k : κ} : d.get? k = none ↔ k ∉ d.keys := by
  rw [← isSome_get?_iff]
  cases d.get? k <;> simp

theorem mem_entries_of_get? {d : Dict κ ν} {k : κ} {v : ν} (h : d.get? k = some v) :
    (k, v) ∈ d.entries := by
  obtain ⟨e, he, rfl⟩ := Option.map_eq_some_iff.1 h
  have hk : e.1 = k := by simpa using List.find?_some he
  rw [← hk]
  exact List.mem_of_find?_eq_some he

/-- Distinct keys : an entry is what its key reads. -/
theorem get?_eq_some_iff {d : Dict κ ν} {k : κ} {v : ν} :
    d.get? k = some v ↔ (k, v) ∈ d.entries := by
  refine ⟨mem_entries_of_get?, fun h => ?_⟩
  have hmem : k ∈ d.keys := List.mem_map.2 ⟨_, h, rfl⟩
  obtain ⟨w, hw⟩ := Option.isSome_iff_exists.1 (isSome_get?_iff.2 hmem)
  have := List.inj_on_of_nodup_map d.nodup (mem_entries_of_get? hw) h rfl
  rw [hw, (Prod.mk.inj this).2]

theorem get?_mapValues (f : κ → ν → ν) (d : Dict κ ν) (k : κ) :
    (d.mapValues f).get? k = (d.get? k).map (f k) := by
  cases h : d.get? k with
  | none =>
    rw [get?_eq_none_iff] at h
    rw [Option.map_none, get?_eq_none_iff, keys_mapValues]
    exact h
  | some v =>
    rw [Option.map_some, get?_eq_some_iff]
    exact List.mem_map.2 ⟨_, mem_entries_of_get? h, rfl⟩

theorem mapValues_set (f : κ → ν → ν) (d : Dict κ ν) (k : κ) (v : ν) :
    (d.set k v).mapValues f = (d.mapValues f).set k (f k v) := by
  have : ∀ es : List (κ × ν), (setEntries k v es).map (fun e => (e.1, f e.1 e.2)) =
      setEntries k (f k v) (es.map fun e => (e.1, f e.1 e.2)) := by
    intro es
    induction es with
    | nil => rfl
    | cons e es ih =>
      unfold setEntries
      split_ifs with he
      · simp [he]
      · simp [he, ih]
  exact ext (this d.entries)

/-! ## Claiming keys -/

/-- Claim the key of every element that has one. A key that has an owner raises. -/
def claimAll {α ε : Type*} (key : α → Option κ) (owner : α → ν) (clash : ν → α → ε) :
    List α → Dict κ ν → Except ε (Dict κ ν)
  | [], d => .ok d
  | x :: xs, d =>
    match key x with
    | none => claimAll key owner clash xs d
    | some k =>
      match d.get? k with
      | some other => .error (clash other x)
      | none => claimAll key owner clash xs (d.set k (owner x))

/-- Keys that were claimed are distinct, were free before and are taken now. -/
theorem claimAll_ok {α ε : Type*} {key : α → Option κ} {owner : α → ν} {clash : ν → α → ε} :
    ∀ {xs : List α} {d d' : Dict κ ν}, claimAll key owner clash xs d = .ok d' →
      (xs.filterMap key).Nodup ∧ (∀ k ∈ xs.filterMap key, k ∉ d.keys) ∧
        ∀ k, k ∈ d'.keys ↔ k ∈ xs.filterMap key ∨ k ∈ d.keys
  | [], d, d', h => by
    obtain rfl : d = d' := Except.ok.inj h
    simp
  | x :: xs, d, d', h => by
    unfold claimAll at h
    split at h
    next hk =>
      rw [List.filterMap_cons_none hk]
      exact claimAll_ok h
    next k hk =>
      rw [List.filterMap_cons_some hk]
      split at h
      next => contradiction
      next hfree =>
        obtain ⟨hnodup, hdisj, hkeys⟩ := claimAll_ok h
        have hnew : k ∉ xs.filterMap key := fun hmem =>
          hdisj k hmem (mem_keys_set.2 (Or.inl rfl))
        refine ⟨List.nodup_cons.2 ⟨hnew, hnodup⟩, ?_, fun k' => ?_⟩
        · rintro k' (_ | ⟨_, hk'⟩)
          · exact get?_eq_none_iff.1 hfree
          · exact fun hd => hdisj k' hk' (mem_keys_set.2 (Or.inr hd))
        · rw [hkeys, mem_keys_set, List.mem_cons]
          tauto

end Dict
