/-
Finite maps with a constant value type, as Mathlib's association lists:
`retain` (drop the entries that fail a test) and the lookup lemmas the
state machines over such maps are reasoned with.  A map carries the proof
that its keys are distinct, so a lookup determines its entry.  `bucket` and
`insertIn` are the two-level maps that group values under a key.
-/
import Mathlib

/-- A finite map from `κ` to `ν`: an association list with distinct keys. -/
abbrev AssocMap (κ ν : Type) := AList (fun _ : κ => ν)

namespace AssocMap

variable {κ ν : Type} [DecidableEq κ]

/-- Keep the entries that pass the test. -/
def retain (p : κ → ν → Bool) (m : AssocMap κ ν) : AssocMap κ ν where
  entries := m.entries.filter (fun s => p s.1 s.2)
  nodupKeys := m.nodupKeys.sublist List.filter_sublist

/-- The values of the map, in entry order. -/
def values (m : AssocMap κ ν) : List ν := m.entries.map (fun s => s.2)

variable {m : AssocMap κ ν} {k k' : κ} {v v' : ν}

theorem lookup_eq_some_iff : m.lookup k = some v ↔ ⟨k, v⟩ ∈ m.entries := AList.mem_lookup_iff

theorem lookup_insert (m : AssocMap κ ν) (k k' : κ) (v : ν) :
    (AList.insert k v m).lookup k' = if k' = k then some v else m.lookup k' := by
  by_cases h : k' = k
  · subst h
    rw [if_pos rfl]
    exact AList.lookup_insert m
  · rw [if_neg h]
    exact AList.lookup_insert_ne h

/-- Where a lookup after an insertion comes from. -/
theorem lookup_insert_cases (h : (AList.insert k v m).lookup k' = some v') :
    (k' = k ∧ v' = v) ∨ m.lookup k' = some v' := by
  rw [lookup_insert] at h
  split at h
  · next heq => exact .inl ⟨heq, (Option.some.inj h).symm⟩
  · exact .inr h

theorem lookup_insert_of_vacant (hvacant : m.lookup k = none) (h : m.lookup k' = some v') :
    (AList.insert k v m).lookup k' = some v' := by
  rw [lookup_insert, if_neg, h]
  rintro rfl
  rw [hvacant] at h
  cases h

/-- A lookup in a retained map is the old lookup, if it passes the test. -/
theorem lookup_retain_eq_some {p : κ → ν → Bool} :
    (retain p m).lookup k = some v ↔ m.lookup k = some v ∧ p k v = true := by
  rw [lookup_eq_some_iff, lookup_eq_some_iff]
  simp [retain]

theorem mem_iff_lookup : k ∈ m ↔ ∃ v, m.lookup k = some v := by
  rw [← AList.lookup_isSome, Option.isSome_iff_exists]

theorem mem_values_iff : v ∈ values m ↔ ∃ k, m.lookup k = some v := by
  simp only [values, List.mem_map]
  constructor
  · rintro ⟨⟨k, v'⟩, hmem, rfl⟩
    exact ⟨k, lookup_eq_some_iff.mpr hmem⟩
  · rintro ⟨k, hk⟩
    exact ⟨⟨k, v⟩, lookup_eq_some_iff.mp hk, rfl⟩

/-- Values that name their own key list the keys. -/
theorem values_map_eq_keys {f : ν → κ}
    (h : ∀ k v, m.lookup k = some v → f v = k) : (values m).map f = m.keys := by
  unfold values AList.keys List.keys
  rw [List.map_map]
  apply List.map_congr_left
  rintro ⟨k, v⟩ hmem
  exact h k v (lookup_eq_some_iff.mpr hmem)

@[simp] theorem lookup_empty (k : κ) : (∅ : AssocMap κ ν).lookup k = none := AList.lookup_empty k

section Buckets

variable {κ' : Type} [DecidableEq κ']

/-- The inner map under `k`, empty if there is none. -/
def bucket (m : AssocMap κ (AssocMap κ' ν)) (k : κ) : AssocMap κ' ν := (m.lookup k).getD ∅

/-- Insert into the inner map under `k`, creating it if there is none. -/
def insertIn (m : AssocMap κ (AssocMap κ' ν)) (k : κ) (k' : κ') (v : ν) :
    AssocMap κ (AssocMap κ' ν) :=
  AList.insert k (AList.insert k' v (bucket m k)) m

/-- After an insertion: the new value in its own place, the old ones elsewhere. -/
theorem lookup_bucket_insertIn (m : AssocMap κ (AssocMap κ' ν)) (k j : κ) (k' j' : κ') (v : ν) :
    (bucket (insertIn m k k' v) j).lookup j' =
      if j = k ∧ j' = k' then some v else (bucket m j).lookup j' := by
  rw [bucket, insertIn, lookup_insert]
  by_cases hj : j = k
  · subst hj
    rw [if_pos rfl, Option.getD_some, lookup_insert]
    simp
  · simp [hj, bucket]

omit [DecidableEq κ'] in
@[simp] theorem bucket_empty (k : κ) : bucket (∅ : AssocMap κ (AssocMap κ' ν)) k = ∅ := by
  rw [bucket, lookup_empty, Option.getD_none]

end Buckets

end AssocMap
