/-
Binary Merkle trees over a list of leaves, level by level, for an
arbitrary type of nodes and an arbitrary combining function.

A level of odd length is padded with a copy of its last node, the leaf
level always, an inner level unless it is the root.

What a root binds is proved on the tree itself: `tree` is the root over
the free combining function, so a root is the value of that tree
(`root_eq_value`) and the tree's leaves are the given ones followed by
repetitions (`leaves_tree`).  If the combining function has no collision
among the pairs really combined, trees with equal values and equally many
leaves are equal (`eq_of_value_eq`); if moreover no combined pair is a
leaf, the number of leaves is bound as well (`Separated.eq_of_value_eq`),
and a path that ends in the root starts at one of the leaves
(`Separated.mem_leaves_of_follow`).
-/
import Mathlib

namespace Merkle

open List

variable {α : Type*} (combine : α → α → α)

/-- Repeat the last node of a level of odd length. -/
def pad (l : List α) : List α :=
  if l.length % 2 = 1 then l ++ l.getLast?.toList else l

/-- The parents of a level; a single node at the end is its own sibling. -/
def parents : List α → List α
  | a :: b :: rest => combine a b :: parents rest
  | [a] => [combine a a]
  | [] => []

/-- The level above. -/
def above (l : List α) : List α :=
  if 1 < (parents combine l).length then pad (parents combine l) else parents combine l

/-- A level and those above it, up to the root. -/
def climb : Nat → List α → List (List α)
  | 0, l => [l]
  | fuel + 1, l => if 1 < l.length then l :: climb fuel (above combine l) else [l]

/-- All levels over the leaves. -/
def levels (leaves : List α) : List (List α) := climb combine leaves.length (pad leaves)

/-- The root; `empty` stands for the tree without leaves. -/
def root (empty : α) (leaves : List α) : α :=
  if leaves = [] then empty
  else ((levels combine leaves).getLast?.bind List.head?).getD empty

/-! ## The tree itself -/

/-- A binary tree with values at its leaves. -/
inductive Tree (α : Type*) where
  | leaf (a : α)
  | node (left right : Tree α)
deriving DecidableEq

namespace Tree

/-- The node the tree has under a combining function. -/
def value : Tree α → α
  | leaf a => a
  | node left right => combine left.value right.value

def leaves : Tree α → List α
  | leaf a => [a]
  | node left right => left.leaves ++ right.leaves

/-- The pairs that are combined. -/
def pairs : Tree α → List (α × α)
  | leaf _ => []
  | node left right =>
    (left.value combine, right.value combine) :: (left.pairs ++ right.pairs)

def map {β : Type*} (f : α → β) : Tree α → Tree β
  | leaf a => leaf (f a)
  | node left right => node (left.map f) (right.map f)

/-- Two trees branch alike. -/
def SameShape {β : Type*} (s : Tree α) (t : Tree β) : Prop :=
  s.map (fun _ => ()) = t.map fun _ => ()

end Tree

/-- The tree over a list of leaves; there is none over no leaves. -/
def tree (leaves : List α) : Option (Tree α) :=
  (levels Tree.node (leaves.map Tree.leaf)).getLast?.bind List.head?

/-! ## Levels under a map -/

section Map

variable {β : Type*} {combine} {combine' : β → β → β} {f : α → β}

theorem map_pad (f : α → β) (l : List α) : pad (l.map f) = (pad l).map f := by
  unfold pad
  rw [length_map, List.getLast?_map]
  split
  · cases l.getLast? with
    | none => simp
    | some a => simp
  · rfl

variable (hf : ∀ a b, f (combine a b) = combine' (f a) (f b))

include hf

theorem map_parents (l : List α) : parents combine' (l.map f) = (parents combine l).map f := by
  fun_induction parents combine l with
  | case1 a b rest ih => simp [parents, hf, ih]
  | case2 a => simp [parents, hf]
  | case3 => rfl

theorem map_above (l : List α) : above combine' (l.map f) = (above combine l).map f := by
  unfold above
  rw [map_parents hf, length_map, map_pad]
  split <;> rfl

theorem map_climb (fuel : Nat) (l : List α) :
    climb combine' fuel (l.map f) = (climb combine fuel l).map (List.map f) := by
  induction fuel generalizing l with
  | zero => rfl
  | succ fuel ih =>
    unfold climb
    rw [length_map, map_above hf, ih]
    split <;> rfl

theorem map_levels (l : List α) :
    levels combine' (l.map f) = (levels combine l).map (List.map f) := by
  rw [levels, levels, length_map, map_pad, map_climb hf]

end Map

/-! ## The top level -/

theorem length_pad (l : List α) : (pad l).length = l.length + l.length % 2 := by
  unfold pad
  by_cases hodd : l.length % 2 = 1
  · have hne : l ≠ [] := by
      rintro rfl
      cases hodd
    rw [List.getLast?_eq_some_getLast hne]
    simp [hodd]
  · rw [if_neg hodd]
    omega

theorem length_parents (l : List α) : (parents combine l).length = (l.length + 1) / 2 := by
  fun_induction parents combine l with
  | case1 a b rest ih =>
    simp only [length_cons]
    omega
  | case2 a => simp
  | case3 => simp

variable {l : List α}

/-- A level of several nodes has a shorter one above it, which is not empty. -/
theorem length_above (hl : 1 < l.length) :
    0 < (above combine l).length ∧ (above combine l).length < l.length := by
  have hparents := length_parents combine l
  unfold above
  split
  · rw [length_pad]
    omega
  · omega

/-- Given enough fuel the climb ends in a single node. -/
theorem getLast?_climb {fuel : Nat} (hpos : 0 < l.length)
    (hfuel : l.length ≤ fuel + 1) : ∃ a, (climb combine fuel l).getLast? = some [a] := by
  induction fuel generalizing l with
  | zero =>
    obtain ⟨a, rfl⟩ := length_eq_one_iff.mp (show l.length = 1 by omega)
    exact ⟨a, rfl⟩
  | succ fuel ih =>
    unfold climb
    by_cases hl : 1 < l.length
    · obtain ⟨habove, hless⟩ := length_above combine hl
      obtain ⟨a, ha⟩ := ih habove (by omega)
      rw [if_pos hl, List.getLast?_cons, ha]
      exact ⟨a, rfl⟩
    · obtain ⟨a, rfl⟩ := length_eq_one_iff.mp (show l.length = 1 by omega)
      exact ⟨a, rfl⟩

/-- The levels end in a single node. -/
theorem getLast?_levels (hl : l ≠ []) : ∃ a, (levels combine l).getLast? = some [a] := by
  have hpos : 0 < l.length := length_pos_iff.mpr hl
  have hpad := length_pad l
  exact getLast?_climb combine (by omega) (by omega)

theorem exists_tree (hl : l ≠ []) :
    ∃ t, tree l = some t ∧ (levels Tree.node (l.map Tree.leaf)).getLast? = some [t] := by
  obtain ⟨t, ht⟩ := getLast?_levels Tree.node (show l.map Tree.leaf ≠ [] by simpa using hl)
  exact ⟨t, by rw [tree, ht]; rfl, ht⟩

variable {t : Tree α}

/-- A root is the value of the tree over the leaves. -/
theorem root_eq_value (empty : α) (ht : tree l = some t) :
    root combine empty l = t.value combine := by
  have hl : l ≠ [] := by
    rintro rfl
    cases ht
  have hlevels : levels combine l =
      (levels Tree.node (l.map Tree.leaf)).map (List.map (Tree.value combine)) := by
    rw [← map_levels (fun a b => rfl), map_map]
    congr 1
    exact (map_id l).symm
  obtain ⟨t', ht', hlast⟩ := exists_tree hl
  obtain rfl : t' = t := Option.some.inj (ht'.symm.trans ht)
  rw [root, if_neg hl, hlevels, List.getLast?_map, hlast]
  rfl

/-- The shape of a tree depends on the number of its leaves only. -/
theorem tree_units (ht : tree l = some t) :
    tree (List.replicate l.length ()) = some (t.map fun _ => ()) := by
  have hunits : (List.replicate l.length ()).map Tree.leaf =
      (l.map Tree.leaf).map (Tree.map fun _ => ()) := by
    rw [map_map, map_replicate]
    exact map_const'.symm
  have hlevels : levels Tree.node ((List.replicate l.length ()).map Tree.leaf) =
      (levels Tree.node (l.map Tree.leaf)).map (List.map (Tree.map fun _ => ())) := by
    rw [hunits]
    exact map_levels (fun a b => rfl) _
  rw [tree] at ht ⊢
  obtain ⟨level, hlevel, hhead⟩ := Option.bind_eq_some_iff.mp ht
  rw [hlevels, List.getLast?_map, hlevel, Option.map_some, Option.bind_some, List.head?_map, hhead]
  rfl

/-- Equally many leaves give trees that branch alike. -/
theorem sameShape_of_length_eq {l l' : List α} {t t' : Tree α}
    (ht : tree l = some t) (ht' : tree l' = some t') (hlen : l.length = l'.length) :
    t.SameShape t' := by
  have h := tree_units ht
  rw [hlen, tree_units ht'] at h
  exact (Option.some.inj h).symm

/-! ## The leaves of the tree -/

/-- `m` is `l` followed by repetitions of what is in it. -/
def Repeats (l m : List α) : Prop := ∃ extra, m = l ++ extra ∧ ∀ a ∈ extra, a ∈ l

theorem Repeats.refl (l : List α) : Repeats l l := ⟨[], by simp, by simp⟩

theorem Repeats.trans {l m k : List α} (h : Repeats l m) (h' : Repeats m k) : Repeats l k := by
  obtain ⟨extra, rfl, hextra⟩ := h
  obtain ⟨extra', rfl, hextra'⟩ := h'
  refine ⟨extra ++ extra', append_assoc _ _ _, fun a ha => ?_⟩
  rcases mem_append.mp ha with ha | ha
  · exact hextra a ha
  · rcases mem_append.mp (hextra' a ha) with ha | ha
    · exact ha
    · exact hextra a ha

/-- A list without repetitions is determined by what repeats it. -/
theorem Repeats.unique {l l' m : List α} (h : Repeats l m) (h' : Repeats l' m)
    (hl : l.Nodup) (hl' : l'.Nodup) : l = l' := by
  -- the longer one would repeat an element of the shorter one
  have hlonger : ∀ {k rest extra : List α}, (k ++ rest).Nodup → (∀ a ∈ extra, a ∈ k) →
      (∀ a ∈ rest, a ∈ extra) → rest = [] := by
    intro k rest extra hnodup hextra hrest
    refine eq_nil_iff_forall_not_mem.mpr fun a ha => ?_
    exact disjoint_of_nodup_append hnodup (hextra a (hrest a ha)) ha
  obtain ⟨extra, rfl, hextra⟩ := h
  obtain ⟨extra', heq, hextra'⟩ := h'
  rcases append_eq_append_iff.mp heq with ⟨rest, rfl, rfl⟩ | ⟨rest, rfl, rfl⟩
  · rw [hlonger hl' hextra (fun a ha => mem_append_left _ ha), append_nil]
  · rw [hlonger hl hextra' (fun a ha => mem_append_left _ ha), append_nil]

theorem repeats_pad (l : List (Tree α)) :
    Repeats (l.flatMap Tree.leaves) ((pad l).flatMap Tree.leaves) := by
  unfold pad
  split
  · refine ⟨l.getLast?.toList.flatMap Tree.leaves, by simp, fun a ha => ?_⟩
    obtain ⟨t, ht, hat⟩ := mem_flatMap.mp ha
    exact mem_flatMap.mpr ⟨t, mem_of_getLast? (by simpa using ht), hat⟩
  · exact Repeats.refl _

theorem repeats_parents (l : List (Tree α)) :
    Repeats (l.flatMap Tree.leaves) ((parents Tree.node l).flatMap Tree.leaves) := by
  fun_induction parents Tree.node l with
  | case1 a b rest ih =>
    obtain ⟨extra, heq, hextra⟩ := ih
    refine ⟨extra, by simp [Tree.leaves, heq], fun x hx => ?_⟩
    simp only [flatMap_cons, mem_append]
    exact Or.inr (Or.inr (hextra x hx))
  | case2 a => exact ⟨a.leaves, by simp [Tree.leaves], by simp⟩
  | case3 => exact Repeats.refl _

theorem repeats_climb {fuel : Nat} {l level : List (Tree α)}
    (hlevel : level ∈ climb Tree.node fuel l) :
    Repeats (l.flatMap Tree.leaves) (level.flatMap Tree.leaves) := by
  induction fuel generalizing l with
  | zero =>
    obtain rfl := mem_singleton.mp hlevel
    exact Repeats.refl _
  | succ fuel ih =>
    unfold climb at hlevel
    split at hlevel
    · rcases mem_cons.mp hlevel with rfl | hlevel
      · exact Repeats.refl _
      · refine Repeats.trans ?_ (ih hlevel)
        unfold above
        split
        · exact (repeats_parents l).trans (repeats_pad _)
        · exact repeats_parents l
    · obtain rfl := mem_singleton.mp hlevel
      exact Repeats.refl _

/-- The tree has the given leaves, then repetitions from the padding. -/
theorem leaves_tree (ht : tree l = some t) : Repeats l t.leaves := by
  have hl : l ≠ [] := by
    rintro rfl
    cases ht
  obtain ⟨t', ht', hlast⟩ := exists_tree hl
  obtain rfl : t' = t := Option.some.inj (ht'.symm.trans ht)
  have hpadded := repeats_pad (l.map Tree.leaf)
  have hclimbed := repeats_climb (mem_of_getLast? hlast)
  have hflat : (l.map Tree.leaf).flatMap Tree.leaves = l := by
    rw [flatMap_map]
    exact flatMap_singleton' l
  rw [hflat] at hpadded
  simpa using hpadded.trans hclimbed

/-! ## What a root binds -/

variable {combine} {P : α × α → Prop}

theorem Tree.forall_pairs_node {left right : Tree α} :
    (∀ p ∈ (Tree.node left right).pairs combine, P p) ↔
      P (left.value combine, right.value combine) ∧ (∀ p ∈ left.pairs combine, P p) ∧
        ∀ p ∈ right.pairs combine, P p := by
  rw [Tree.pairs, forall_mem_cons, forall_mem_append]

/-- Trees that branch alike and have the same value are equal, if no two of the
    combined pairs collide. -/
theorem eq_of_value_eq
    (hinj : ∀ p q, P p → P q → combine p.1 p.2 = combine q.1 q.2 → p = q) {s t : Tree α}
    (hshape : s.SameShape t) (hs : ∀ p ∈ s.pairs combine, P p)
    (ht : ∀ p ∈ t.pairs combine, P p) (hvalue : s.value combine = t.value combine) : s = t := by
  induction s generalizing t with
  | leaf a =>
    cases t with
    | leaf b => exact congrArg Tree.leaf hvalue
    | node left right => cases hshape
  | node left right ihl ihr =>
    cases t with
    | leaf b => cases hshape
    | node left' right' =>
      obtain ⟨hleft, hright⟩ := Tree.node.inj hshape
      obtain ⟨hs, hsl, hsr⟩ := Tree.forall_pairs_node.mp hs
      obtain ⟨ht, htl, htr⟩ := Tree.forall_pairs_node.mp ht
      have hpair := hinj _ _ hs ht hvalue
      rw [ihl hleft hsl htl (congrArg Prod.fst hpair), ihr hright hsr htr (congrArg Prod.snd hpair)]

/-- No two pairs of `P` collide, and none of them is combined to a leaf of `L`. -/
structure Separated (combine : α → α → α) (P : α × α → Prop) (L : α → Prop) : Prop where
  inj : ∀ p q, P p → P q → combine p.1 p.2 = combine q.1 q.2 → p = q
  apart : ∀ p, P p → ¬ L (combine p.1 p.2)

/-- The nodes met on a path from a leaf: each step combines with a sibling, which stands
    on the left if the flag is set. -/
def follow (combine : α → α → α) (a : α) : List (α × Bool) → α
  | [] => a
  | (sibling, isLeft) :: rest =>
    follow combine (if isLeft then combine sibling a else combine a sibling) rest

/-- The pairs a path combines. -/
def followPairs (combine : α → α → α) (a : α) : List (α × Bool) → List (α × α)
  | [] => []
  | (sibling, isLeft) :: rest =>
    let pair := if isLeft then (sibling, a) else (a, sibling)
    pair :: followPairs combine (combine pair.1 pair.2) rest

theorem follow_append (a : α) (path : List (α × Bool)) (sibling : α) (isLeft : Bool) :
    follow combine a (path ++ [(sibling, isLeft)]) =
      if isLeft then combine sibling (follow combine a path)
      else combine (follow combine a path) sibling := by
  induction path generalizing a with
  | nil => rfl
  | cons step path ih => exact ih _

theorem followPairs_append (a : α) (path : List (α × Bool)) (sibling : α) (isLeft : Bool) :
    followPairs combine a (path ++ [(sibling, isLeft)]) = followPairs combine a path ++
      [if isLeft then (sibling, follow combine a path) else (follow combine a path, sibling)] := by
  induction path generalizing a with
  | nil => rfl
  | cons step path ih =>
    obtain ⟨sibling', isLeft'⟩ := step
    cases isLeft' with
    | false | true => exact congrArg _ (ih _)

section Separated

variable {P : α × α → Prop} {L : α → Prop} {t : Tree α}

/-- Trees with the same value are equal. -/
theorem Separated.eq_of_value_eq (h : Separated combine P L) {s : Tree α}
    (hs : ∀ p ∈ s.pairs combine, P p) (ht : ∀ p ∈ t.pairs combine, P p)
    (hsl : ∀ a ∈ s.leaves, L a) (htl : ∀ a ∈ t.leaves, L a)
    (hvalue : s.value combine = t.value combine) : s = t := by
  refine Merkle.eq_of_value_eq h.inj ?_ hs ht hvalue
  induction s generalizing t with
  | leaf a =>
    cases t with
    | leaf b => rfl
    | node left right =>
      -- a leaf is not a combined pair
      have hleaf : L a := hsl a (mem_singleton_self a)
      exact absurd (show L (combine _ _) from hvalue.subst hleaf) (h.apart _ (ht _ mem_cons_self))
  | node left right ihl ihr =>
    cases t with
    | leaf b =>
      have hleaf : L b := htl b (mem_singleton_self b)
      exact absurd (show L (combine _ _) from hvalue.symm.subst hleaf)
        (h.apart _ (hs _ mem_cons_self))
    | node left' right' =>
      obtain ⟨hs, hsleft, hsright⟩ := Tree.forall_pairs_node.mp hs
      obtain ⟨ht, htleft, htright⟩ := Tree.forall_pairs_node.mp ht
      obtain ⟨hslleft, hslright⟩ := forall_mem_append.mp hsl
      obtain ⟨htlleft, htlright⟩ := forall_mem_append.mp htl
      have hpair := h.inj _ _ hs ht hvalue
      exact congrArg₂ Tree.node (ihl hsleft htleft hslleft htlleft (congrArg Prod.fst hpair))
        (ihr hsright htright hslright htlright (congrArg Prod.snd hpair))

variable {path : List (α × Bool)}

/-- A path that ends in the value of a tree starts at one of its leaves or at a combined pair.
    Read from its end, the path descends the tree, and it cannot leave it. -/
theorem Separated.follow_start (h : Separated combine P L) {a : α}
    (hpath : ∀ p ∈ followPairs combine a path, P p)
    (ht : ∀ p ∈ t.pairs combine, P p) (htl : ∀ b ∈ t.leaves, L b)
    (hvalue : follow combine a path = t.value combine) :
    a ∈ t.leaves ∨ ∃ p ∈ t.pairs combine, a = combine p.1 p.2 := by
  induction path using List.reverseRecOn generalizing t with
  | nil =>
    cases t with
    | leaf b => exact .inl (mem_singleton.mpr hvalue)
    | node left right => exact .inr ⟨_, mem_cons_self, hvalue⟩
  | append_singleton path step ih =>
    obtain ⟨sibling, isLeft⟩ := step
    rw [followPairs_append] at hpath
    obtain ⟨hrest, hlast⟩ := forall_mem_append.mp hpath
    replace hlast := hlast _ (mem_singleton_self _)
    have hcombined : follow combine a (path ++ [(sibling, isLeft)]) =
        combine (if isLeft then (sibling, follow combine a path)
          else (follow combine a path, sibling)).1
        (if isLeft then (sibling, follow combine a path)
          else (follow combine a path, sibling)).2 := by
      rw [follow_append]
      cases isLeft <;> rfl
    rw [hcombined] at hvalue
    cases t with
    | leaf b =>
      have hleaf : L b := htl b (mem_singleton_self b)
      exact absurd (Eq.subst hvalue.symm hleaf) (h.apart _ hlast)
    | node left right =>
      obtain ⟨htop, htleft, htright⟩ := Tree.forall_pairs_node.mp ht
      obtain ⟨hlleft, hlright⟩ := forall_mem_append.mp htl
      have hpair := h.inj _ _ hlast htop hvalue
      cases isLeft with
      | false =>
        refine (ih hrest htleft hlleft (congrArg Prod.fst hpair)).imp (mem_append_left _) ?_
        exact fun ⟨p, hp, ha⟩ => ⟨p, mem_cons_of_mem _ (mem_append_left _ hp), ha⟩
      | true =>
        refine (ih hrest htright hlright (congrArg Prod.snd hpair)).imp (mem_append_right _) ?_
        exact fun ⟨p, hp, ha⟩ => ⟨p, mem_cons_of_mem _ (mem_append_right _ hp), ha⟩

theorem Separated.mem_leaves_of_follow (h : Separated combine P L) {a : α} (ha : L a)
    (hpath : ∀ p ∈ followPairs combine a path, P p)
    (ht : ∀ p ∈ t.pairs combine, P p) (htl : ∀ b ∈ t.leaves, L b)
    (hvalue : follow combine a path = t.value combine) : a ∈ t.leaves := by
  refine (h.follow_start hpath ht htl hvalue).resolve_right ?_
  rintro ⟨p, hp, rfl⟩
  exact h.apart p (ht p hp) ha

end Separated

end Merkle
