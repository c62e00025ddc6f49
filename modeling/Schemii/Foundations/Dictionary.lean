import Mathlib.Data.List.Nodup
import Mathlib.Data.List.Perm.Subperm
import Mathlib.Tactic

/-!
# Insertion-ordered dictionaries

A `Dictionary` is a list of entries with distinct keys, in the order in which the keys were first
added. Assigning to a key that is there keeps its place (`insert`), assigning to a new key appends
it. Every operation has a pointwise reading: what a look-up answers afterwards in terms of what it
answered before (`get?_insert`, `get?_erase`, `get?_filter`, `get?_mapValues`). Together with
`mem_entries` these are all that a proof about a store needs; the order only matters where a program
walks over the entries.
-/

set_option autoImplicit false

namespace Schemii.Foundations

/-- A dictionary: entries in insertion order, with distinct keys. -/
@[ext]
structure Dictionary (K V : Type) where
  entries : List (K × V)
  nodup : (entries.map Prod.fst).Nodup

namespace Dictionary

variable {K V W : Type} [DecidableEq K]

omit [DecidableEq K] in
/-- The dictionary without entries. -/
def empty : Dictionary K V := ⟨[], List.nodup_nil⟩

/-- The value at a key. -/
def get? (d : Dictionary K V) (k : K) : Option V := d.entries.lookup k

/-- Whether a key is there. -/
def contains (d : Dictionary K V) (k : K) : Bool := (d.get? k).isSome

omit [DecidableEq K] in
/-- The keys, in order. -/
def keys (d : Dictionary K V) : List K := d.entries.map Prod.fst

omit [DecidableEq K] in
/-- The values, in the order of their keys. -/
def values (d : Dictionary K V) : List V := d.entries.map Prod.snd

omit [DecidableEq K] in
/-- The number of entries. -/
def size (d : Dictionary K V) : ℕ := d.entries.length

/-! ### Look-ups in lists of entries -/

theorem lookup_cons_eq_ite (k k₁ : K) (v₁ : V) (rest : List (K × V)) :
    ((k₁, v₁) :: rest).lookup k = if k = k₁ then some v₁ else rest.lookup k := by
  rw [List.lookup_cons]
  by_cases hk : k = k₁
  · simp [hk]
  · have hbeq : (k == k₁) = false := by simpa using hk
    simp [hbeq, hk]

variable {k : K} {v : V}

theorem lookup_eq_some_iff_mem {entries : List (K × V)} (hnodup : (entries.map Prod.fst).Nodup) :
    entries.lookup k = some v ↔ (k, v) ∈ entries := by
  induction entries with
  | nil => simp
  | cons entry rest ih =>
    obtain ⟨k', v'⟩ := entry
    simp only [List.map_cons, List.nodup_cons] at hnodup
    by_cases hk : k = k'
    · subst hk
      have hfresh : (k, v) ∉ rest := fun hmem ↦
        hnodup.1 (List.mem_map_of_mem (f := Prod.fst) hmem)
      simp [hfresh, eq_comm]
    · simp [lookup_cons_eq_ite, ih hnodup.2, hk]

/-- The entries after an assignment. -/
def insertEntries (k : K) (v : V) : List (K × V) → List (K × V)
  | [] => [(k, v)]
  | (k', v') :: rest => if k' = k then (k, v) :: rest else (k', v') :: insertEntries k v rest

theorem keys_insertEntries (k : K) (v : V) (entries : List (K × V)) :
    (insertEntries k v entries).map Prod.fst =
      if k ∈ entries.map Prod.fst then entries.map Prod.fst else entries.map Prod.fst ++ [k] := by
  induction entries with
  | nil => simp [insertEntries]
  | cons entry rest ih =>
    obtain ⟨k', v'⟩ := entry
    by_cases hk : k' = k
    · subst hk
      simp [insertEntries]
    · have hne : k ≠ k' := fun h ↦ hk h.symm
      simp only [insertEntries, if_neg hk, List.map_cons, ih, List.mem_cons, hne, false_or]
      split <;> simp

theorem lookup_insertEntries (k : K) (v : V) (entries : List (K × V)) (k' : K) :
    (insertEntries k v entries).lookup k' = if k' = k then some v else entries.lookup k' := by
  induction entries with
  | nil => simp only [insertEntries, lookup_cons_eq_ite]
  | cons entry rest ih =>
    obtain ⟨k₁, v₁⟩ := entry
    by_cases hfirst : k₁ = k
    · subst hfirst
      simp only [insertEntries, if_true, lookup_cons_eq_ite]
      split <;> rfl
    · simp only [insertEntries, if_neg hfirst, lookup_cons_eq_ite, ih]
      by_cases hk : k' = k₁
      · subst hk
        simp [hfirst]
      · simp only [if_neg hk]

/-! ### Operations -/

/-- Assign a value to a key: in place when the key is there, at the end when it is new. -/
def insert (d : Dictionary K V) (k : K) (v : V) : Dictionary K V where
  entries := insertEntries k v d.entries
  nodup := by
    rw [keys_insertEntries]
    split
    · exact d.nodup
    · next hk =>
      refine d.nodup.append (List.nodup_singleton k) ?_
      simpa using hk

/-- The entries that satisfy a condition. -/
def filter (d : Dictionary K V) (p : K → V → Bool) : Dictionary K V where
  entries := d.entries.filter fun entry ↦ p entry.1 entry.2
  nodup := d.nodup.sublist (List.filter_sublist.map Prod.fst)

/-- Remove a key, if it is there. -/
def erase (d : Dictionary K V) (k : K) : Dictionary K V := d.filter fun k' _ ↦ decide (k' ≠ k)

omit [DecidableEq K] in
/-- Change every value, by its key. -/
def mapValues (d : Dictionary K V) (f : K → V → W) : Dictionary K W where
  entries := d.entries.map fun entry ↦ (entry.1, f entry.1 entry.2)
  nodup := by
    have hkeys : (d.entries.map fun entry ↦ (entry.1, f entry.1 entry.2)).map Prod.fst =
        d.entries.map Prod.fst := by simp
    exact hkeys ▸ d.nodup

/-! ### Pointwise readings -/

variable {d : Dictionary K V}

theorem mem_entries :
    (k, v) ∈ d.entries ↔ d.get? k = some v :=
  (lookup_eq_some_iff_mem d.nodup).symm

theorem mem_values : v ∈ d.values ↔ ∃ k, d.get? k = some v := by
  simp only [values, List.mem_map, Prod.exists, exists_eq_right, mem_entries]

theorem mem_keys : k ∈ d.keys ↔ ∃ v, d.get? k = some v := by
  simp only [keys, List.mem_map, Prod.exists, exists_and_right, exists_eq_right, mem_entries]

theorem contains_iff :
    d.contains k = true ↔ ∃ v, d.get? k = some v := by
  rw [contains, Option.isSome_iff_exists]

@[simp]
theorem get?_empty (k : K) : (empty : Dictionary K V).get? k = none := rfl

@[simp]
theorem get?_insert (d : Dictionary K V) (k : K) (v : V) (k' : K) :
    (d.insert k v).get? k' = if k' = k then some v else d.get? k' :=
  lookup_insertEntries k v d.entries k'

@[simp]
theorem get?_filter (d : Dictionary K V) (p : K → V → Bool) (k : K) :
    (d.filter p).get? k = (d.get? k).filter (p k) := by
  ext v
  rw [← mem_entries, Option.filter_eq_some_iff, ← mem_entries]
  simp [filter]

@[simp]
theorem get?_erase (d : Dictionary K V) (k k' : K) :
    (d.erase k).get? k' = if k' = k then none else d.get? k' := by
  rw [erase, get?_filter]
  by_cases hk : k' = k
  · simp [hk, Option.filter]
    cases d.get? k <;> rfl
  · cases hv : d.get? k' <;> simp [hk]

@[simp]
theorem get?_mapValues (d : Dictionary K V) (f : K → V → W) (k : K) :
    (d.mapValues f).get? k = (d.get? k).map (f k) := by
  ext w
  rw [← mem_entries, Option.map_eq_some_iff]
  constructor
  · intro hmem
    obtain ⟨⟨k', v⟩, hentry, heq⟩ := List.mem_map.1 hmem
    simp only [Prod.mk.injEq] at heq
    obtain ⟨rfl, rfl⟩ := heq
    exact ⟨v, mem_entries.1 hentry, rfl⟩
  · rintro ⟨v, hv, rfl⟩
    exact List.mem_map.2 ⟨(k, v), mem_entries.2 hv, rfl⟩

theorem keys_insert (d : Dictionary K V) (k : K) (v : V) :
    (d.insert k v).keys = if k ∈ d.keys then d.keys else d.keys ++ [k] :=
  keys_insertEntries k v d.entries

/-! ### Counting entries -/

omit [DecidableEq K] in
theorem nodup_entries (d : Dictionary K V) : d.entries.Nodup := .of_map Prod.fst d.nodup

/-- Assumes: what a look-up answers in one dictionary, it answers in another. The entries of the first
are among those of the second. -/
theorem subperm_of_get? {d d' : Dictionary K V}
    (h : ∀ k v, d.get? k = some v → d'.get? k = some v) : d.entries.Subperm d'.entries := by
  refine List.subperm_of_subset d.nodup_entries fun entry hentry ↦ ?_
  exact mem_entries.2 (h _ _ (mem_entries.1 hentry))

/-- Assumes: a key is there. The entries are its entry and the ones that stay when it is removed. -/
theorem perm_erase (h : d.get? k = some v) :
    d.entries.Perm ((k, v) :: (d.erase k).entries) := by
  have hfresh : (k, v) ∉ (d.erase k).entries := fun hmem ↦ by
    have hget := mem_entries.1 hmem
    simp at hget
  refine (List.perm_ext_iff_of_nodup d.nodup_entries
    (List.nodup_cons.2 ⟨hfresh, (d.erase k).nodup_entries⟩)).2 fun entry ↦ ?_
  obtain ⟨k', v'⟩ := entry
  rw [List.mem_cons, mem_entries, mem_entries, get?_erase]
  by_cases hk : k' = k
  · subst hk
    simp [h, eq_comm]
  · simp [hk]

theorem entries_insert (h : d.get? k = none) :
    (d.insert k v).entries = d.entries ++ [(k, v)] := by
  have hall : ∀ entries : List (K × V), entries.lookup k = none →
      insertEntries k v entries = entries ++ [(k, v)] := by
    intro entries hnone
    induction entries with
    | nil => rfl
    | cons entry rest ih =>
      obtain ⟨k', v'⟩ := entry
      rw [lookup_cons_eq_ite] at hnone
      split_ifs at hnone with hk
      rw [insertEntries, if_neg (Ne.symm hk), ih hnone, List.cons_append]
  exact hall d.entries h

/-- Assumes: a key is not there. The entries after an assignment are its entry and the ones before. -/
theorem perm_insert (h : d.get? k = none) :
    (d.insert k v).entries.Perm ((k, v) :: d.entries) := by
  rw [entries_insert h]
  exact List.perm_append_singleton _ _

/-! ### Values by their keys -/

/-- The values of a list are assigned to their keys; a later one replaces an earlier one. -/
def insertAll (key : V → K) (d : Dictionary K V) (values : List V) : Dictionary K V :=
  values.foldl (fun found value ↦ found.insert (key value) value) d

theorem get?_insertAll {key : V → K} {values : List V}
    (h : (d.insertAll key values).get? k = some v) : v ∈ values ∧ key v = k ∨ d.get? k = some v := by
  induction values generalizing d with
  | nil => exact .inr h
  | cons value values ih =>
    rcases ih h with ⟨hmem, hkey⟩ | hfirst
    · exact .inl ⟨List.mem_cons_of_mem _ hmem, hkey⟩
    · rw [get?_insert] at hfirst
      split_ifs at hfirst with heq
      · obtain rfl := Option.some.inj hfirst
        exact .inl ⟨by simp, heq.symm⟩
      · exact .inr hfirst

theorem contains_insertAll {key : V → K} {values : List V} :
    (d.insertAll key values).contains k = true ↔ d.contains k = true ∨ k ∈ values.map key := by
  induction values generalizing d with
  | nil => simp [insertAll]
  | cons value values ih =>
    have hone : (d.insert (key value) value).contains k = true ↔
        k = key value ∨ d.contains k = true := by
      rw [contains, contains, get?_insert]
      split_ifs with heq <;> simp [heq]
    rw [insertAll, List.foldl_cons, ← insertAll, ih, hone, List.map_cons, List.mem_cons]
    tauto

end Dictionary

end Schemii.Foundations
