/-
Finite maps with a constant value type and extensional equality: Mathlib's
`Finmap`, with one writing operation `set` that inserts or removes, and the
sum of a weight over all entries.

Two maps with the same lookups are equal, so "the same map after two
different histories" is plain equality.  `total_set` is the accounting
identity: a write exchanges the weight at its key and nothing else.
`toSortedList` lists the entries in ascending key order, whatever order
they were stored in.
-/
import Mathlib

/-- A finite map from `κ` to `ν`; equal maps are those with equal lookups. -/
abbrev FinMap (κ ν : Type) := Finmap (fun _ : κ => ν)

namespace FinMap

open Finmap Multiset

variable {κ ν : Type} [DecidableEq κ]

/-- Store `some v` at `k`, or remove the entry of `k`. -/
def set (m : FinMap κ ν) (k : κ) : Option ν → FinMap κ ν
  | some v => Finmap.insert k v m
  | none => Finmap.erase k m

theorem lookup_set (m : FinMap κ ν) (k k' : κ) (o : Option ν) :
    (set m k o).lookup k' = if k' = k then o else m.lookup k' := by
  by_cases h : k' = k
  · subst h
    cases o with
    | some v => simp [set]
    | none => simp [set]
  · rw [if_neg h]
    cases o with
    | some v => exact lookup_insert_of_ne m h
    | none => exact lookup_erase_ne h

/-- The lookup does not depend on how equality of keys is decided. -/
theorem lookup_decEq {κ ν : Type} (i j : DecidableEq κ) (k : κ) (m : FinMap κ ν) :
    @Finmap.lookup κ (fun _ => ν) i k m = @Finmap.lookup κ (fun _ => ν) j k m := by
  rw [Subsingleton.elim i j]

section

variable (m : FinMap κ ν)
include m

@[simp] theorem lookup_set_self (k : κ) (o : Option ν) : (set m k o).lookup k = o := by
  rw [lookup_set, if_pos rfl]

theorem lookup_set_of_ne {k k' : κ} (o : Option ν) (h : k' ≠ k) :
    (set m k o).lookup k' = m.lookup k' := by
  rw [lookup_set, if_neg h]

/-- Writing back what is there changes nothing. -/
@[simp] theorem set_lookup (k : κ) : set m k (m.lookup k) = m := by
  apply ext_lookup
  intro k'
  rw [lookup_set]
  split
  · rename_i h
    rw [h]
  · rfl

theorem set_eq_self_iff (k : κ) (o : Option ν) :
    set m k o = m ↔ m.lookup k = o := by
  constructor
  · intro h
    rw [← h, lookup_set_self]
  · rintro rfl
    exact set_lookup m k

theorem set_set (k : κ) (o o' : Option ν) : set (set m k o) k o' = set m k o' := by
  apply ext_lookup
  intro k'
  simp only [lookup_set]
  split <;> rfl

theorem set_comm {k k' : κ} (o o' : Option ν) (h : k ≠ k') :
    set (set m k o) k' o' = set (set m k' o') k o := by
  apply ext_lookup
  intro j
  simp only [lookup_set]
  by_cases hk : j = k
  · subst hk
    simp [h]
  · simp [hk]

/-! ## Sums over a map -/

end

section Total

variable (w : ν → Nat)

/-- The sum of the weights of all entries. -/
def total (m : FinMap κ ν) : Nat := (m.entries.map fun e => w e.2).sum

/-- The weight at one key; an absent key weighs nothing. -/
def weightAt (m : FinMap κ ν) (k : κ) : Nat := (m.lookup k).elim 0 w

private theorem sum_kerase (k : κ) (l : List (Sigma fun _ : κ => ν)) :
    ((l.kerase k).map fun e => w e.2).sum + (l.dlookup k).elim 0 w =
      (l.map fun e => w e.2).sum := by
  induction l with
  | nil => simp
  | cons e l ih =>
    obtain ⟨k', v⟩ := e
    by_cases h : k = k'
    · subst h
      simp [Nat.add_comm]
    · rw [List.kerase_cons_ne h, List.dlookup_cons_ne _ _ h]
      simp only [List.map_cons, List.sum_cons]
      omega

section

variable (m : FinMap κ ν)
include m

theorem total_erase (k : κ) : total w (Finmap.erase k m) + weightAt w m k = total w m := by
  induction m using induction_on with
  | H m =>
    exact sum_kerase w k m.entries

theorem total_insert (k : κ) (v : ν) :
    total w (Finmap.insert k v m) + weightAt w m k = total w m + w v := by
  induction m using induction_on with
  | H m =>
    simp only [total, weightAt, insert_toFinmap, AList.toFinmap_entries,
      lookup_toFinmap, map_coe, sum_coe, AList.entries_insert,
      AList.lookup, List.map_cons, List.sum_cons]
    have h := sum_kerase w k m.entries
    omega

/-- **Accounting identity.**  A write exchanges the weight at its key. -/
theorem total_set (k : κ) (o : Option ν) :
    total w (set m k o) + weightAt w m k = total w m + o.elim 0 w := by
  cases o with
  | some v => exact total_insert w m k v
  | none => simpa [set] using total_erase w m k

theorem weightAt_le_total (k : κ) : weightAt w m k ≤ total w m := by
  have h := total_erase w m k
  omega

end

omit [DecidableEq κ] in
omit [DecidableEq κ] in
/-- How often a value occurs among the entries, as a sum of weights. -/
theorem count_map_entries {β : Type} [DecidableEq β] (g : ν → β) (m : FinMap κ ν) (b : β) :
    (m.entries.map fun e => g e.2).count b = total (fun v => if g v = b then 1 else 0) m := by
  rw [total]
  induction m.entries using Multiset.induction_on with
  | empty => rfl
  | cons e s ih =>
    rw [map_cons, count_cons, ih]
    by_cases h : g e.2 = b
    · simp [h, Nat.add_comm]
    · simp [h, Ne.symm h]

end Total

/-! ## One change at every key of a set -/

section AlterAll

variable (f : Option ν → Option ν)

/-- Replace what is stored at `k` by its image. -/
def alterAt (m : FinMap κ ν) (k : κ) : FinMap κ ν := set m k (f (m.lookup k))

instance : RightCommutative (alterAt f : FinMap κ ν → κ → FinMap κ ν) where
  right_comm m k k' := by
    by_cases h : k = k'
    · rw [h]
    · rw [alterAt, alterAt, alterAt, alterAt, lookup_set_of_ne _ _ h,
        lookup_set_of_ne _ _ (Ne.symm h), set_comm _ _ _ h]

/-- Replace what is stored at every key of `s`; the order does not matter. -/
def alterAll (m : FinMap κ ν) (s : Finset κ) : FinMap κ ν := s.val.foldl (alterAt f) m

theorem lookup_alterAll (m : FinMap κ ν) (s : Finset κ) (k : κ) :
    (alterAll f m s).lookup k = if k ∈ s then f (m.lookup k) else m.lookup k := by
  induction s using Finset.induction_on generalizing m with
  | empty => simp [alterAll]
  | insert j s hj ih =>
    have hstep : alterAll f m (insert j s) = alterAll f (alterAt f m j) s := by
      rw [alterAll, Finset.insert_val_of_notMem hj, foldl_cons, alterAll]
    rw [hstep, ih, alterAt, lookup_set]
    by_cases hk : k = j
    · subst hk
      simp [hj]
    · simp [hk]

end AlterAll

/-! ## Writes in sequence -/

section SetAll

/-- Write the entries of a list one after another. -/
def setAll (m : FinMap κ ν) (l : List (κ × ν)) : FinMap κ ν :=
  l.foldl (fun m e => set m e.1 (some e.2)) m

/-- With distinct keys the writes do not overwrite each other. -/
theorem lookup_setAll {l : List (κ × ν)} (hl : (l.map Prod.fst).Nodup) (m : FinMap κ ν) (k : κ) :
    (setAll m l).lookup k = (l.lookup k).or (m.lookup k) := by
  induction l generalizing m with
  | nil => rfl
  | cons e l ih =>
    obtain ⟨hfirst, hrest⟩ := List.nodup_cons.mp hl
    show (setAll (set m e.1 (some e.2)) l).lookup k = _
    rw [ih hrest, List.lookup_cons, lookup_set]
    by_cases hk : k = e.1
    · -- the key does not occur again
      have hnone : l.lookup k = none := by
        rw [List.lookup_eq_none_iff]
        intro p hp
        have hne : k ≠ p.1 := by
          rintro rfl
          exact hfirst (hk ▸ List.mem_map_of_mem hp)
        simpa using hne
      rw [hnone, if_pos hk, beq_iff_eq.mpr hk]
      rfl
    · rw [if_neg hk, beq_false_of_ne hk]

end SetAll

/-! ## Entries in key order -/

section Sorted

/-- Store the entries of a list one after another. -/
def ofList (l : List (κ × ν)) : FinMap κ ν := l.foldl (fun m e => set m e.1 (some e.2)) ∅

/-- The keys of a list, as a set. -/
theorem lookup_ofList_unit {l : List κ} {k : κ} :
    (ofList (l.map fun k => (k, ()))).lookup k = some () ↔ k ∈ l := by
  have hfold : ∀ m : FinMap κ Unit,
      ((l.map fun k => (k, ())).foldl (fun m e => set m e.1 (some e.2)) m).lookup k = some () ↔
        k ∈ l ∨ m.lookup k = some () := by
    induction l with
    | nil => simp
    | cons j l ih =>
      intro m
      rw [List.map_cons, List.foldl_cons, ih, lookup_set]
      by_cases heq : k = j <;> simp [heq]
  rw [ofList, hfold ∅]
  simp

variable {κ : Type} [LinearOrder κ]

private def sortEntries (l : List (Sigma fun _ : κ => ν)) : List (κ × ν) :=
  (l.map fun e => (e.1, e.2)).insertionSort fun x y => x.1 ≤ y.1

private theorem mem_sortEntries {l : List (Sigma fun _ : κ => ν)} {e : κ × ν} :
    e ∈ sortEntries l ↔ ⟨e.1, e.2⟩ ∈ l := by
  rw [sortEntries, List.mem_insertionSort, List.mem_map]
  constructor
  · rintro ⟨⟨k, v⟩, hmem, rfl⟩
    exact hmem
  · intro hmem
    exact ⟨⟨e.1, e.2⟩, hmem, rfl⟩

private theorem pairwise_sortEntries (l : List (Sigma fun _ : κ => ν)) :
    (sortEntries l).Pairwise fun x y => x.1 ≤ y.1 := by
  exact List.pairwise_insertionSort _ _

/-- Distinct keys leave only one sorted list. -/
private theorem sortEntries_eq_of_perm {l l' : List (Sigma fun _ : κ => ν)} (hl : l.NodupKeys)
    (h : l.Perm l') : sortEntries l = sortEntries l' := by
  have hperm : (sortEntries l).Perm (sortEntries l') :=
    ((List.perm_insertionSort _ _).trans (h.map _)).trans (List.perm_insertionSort _ _).symm
  refine hperm.eq_of_pairwise ?_ (pairwise_sortEntries l) (pairwise_sortEntries l')
  intro a b ha hb hab hba
  have hkey : a.1 = b.1 := le_antisymm hab hba
  have ha' := mem_sortEntries.mp ha
  have hb' := (h.mem_iff).mpr (mem_sortEntries.mp hb)
  rw [← hkey] at hb'
  exact Prod.ext hkey (hl.eq_of_mk_mem ha' hb')

/-- The entries in ascending key order. -/
def toSortedList (m : FinMap κ ν) : List (κ × ν) :=
  Finmap.liftOn m (fun l => sortEntries l.entries) fun l _ h => sortEntries_eq_of_perm l.nodupKeys h

theorem mem_toSortedList {m : FinMap κ ν} {k : κ} {v : ν} :
    (k, v) ∈ toSortedList m ↔ m.lookup k = some v := by
  induction m using induction_on with
  | H m =>
    rw [toSortedList, liftOn_toFinmap, mem_sortEntries]
    exact AList.mem_lookup_iff.symm

/-- The keys of the list are strictly ascending. -/
theorem toSortedList_pairwise (m : FinMap κ ν) :
    (toSortedList m).Pairwise fun x y => x.1 < y.1 := by
  induction m using induction_on with
  | H m =>
    have hkeys : ((sortEntries m.entries).map Prod.fst).Nodup := by
      have hperm := (List.perm_insertionSort (fun x y : κ × ν => x.1 ≤ y.1)
        (m.entries.map fun e => (e.1, e.2))).map Prod.fst
      rw [sortEntries, hperm.nodup_iff, List.map_map]
      exact m.nodupKeys
    exact (pairwise_sortEntries m.entries).imp₂ (fun _ _ hle hne => lt_of_le_of_ne hle hne)
      (List.pairwise_map.mp hkeys)

end Sorted

section Strict

variable {κ ν : Type} [DecidableEq κ] [LinearOrder κ]

/-- Entries written in strictly ascending order are listed as they were written. -/
theorem toSortedList_setAll {l : List (κ × ν)} (hl : l.Pairwise fun x y => x.1 < y.1) :
    toSortedList (setAll ∅ l) = l := by
  have hkeys : (l.map Prod.fst).Nodup := List.pairwise_map.mpr (hl.imp fun hlt => ne_of_lt hlt)
  have hmem : ∀ e, e ∈ toSortedList (setAll ∅ l) ↔ e ∈ l := by
    rintro ⟨k, v⟩
    rw [mem_toSortedList, lookup_decEq _ inferInstance, lookup_setAll hkeys, lookup_empty,
      Option.or_none]
    constructor
    · intro hlookup
      obtain ⟨l₁, l₂, rfl, -⟩ := List.lookup_eq_some_iff.mp hlookup
      simp
    · intro hin
      induction l with
      | nil => cases hin
      | cons e l ih =>
        obtain ⟨hfirst, hrest⟩ := List.nodup_cons.mp hkeys
        rw [List.lookup_cons]
        rcases List.mem_cons.mp hin with heq | hin
        · subst heq
          rw [beq_self_eq_true]
        · have hne : k ≠ e.1 := by
            rintro rfl
            exact hfirst (List.mem_map.mpr ⟨_, hin, rfl⟩)
          rw [beq_false_of_ne hne]
          exact ih (List.pairwise_cons.mp hl).2 hrest hin
  have hsorted := toSortedList_pairwise (setAll ∅ l)
  have hnodup : ∀ {m : List (κ × ν)}, (m.Pairwise fun x y => x.1 < y.1) → m.Nodup :=
    fun hm => hm.imp fun hlt heq => ne_of_lt hlt (congrArg Prod.fst heq)
  have hperm : (toSortedList (setAll ∅ l)).Perm l :=
    (List.perm_ext_iff_of_nodup (hnodup hsorted) (hnodup hl)).mpr hmem
  exact hperm.eq_of_pairwise (fun a b _ _ hab hba => absurd hab (lt_asymm hba)) hsorted hl

end Strict

end FinMap
