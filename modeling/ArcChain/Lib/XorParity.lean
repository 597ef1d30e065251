/-
Exclusive-or of byte rows, and groups of rows that are protected by their
parity: a row is the exclusive-or of its group's parity and the other rows
(`foldl_skip_parity`).  Which rows of a family of groups can be recovered
is a matter of the rows and parities present (`Recoverable`), and one pass
over the groups recovers all that ever can be (`Recoverable.mem_recoverAll`).
-/
import Mathlib

namespace XorParity

open List

/-! ## Rows -/

/-- `acc[i] ^= row[i]` for every index of both. -/
def xorOnto : List UInt8 → List UInt8 → List UInt8
  | [], _ => []
  | acc, [] => acc
  | a :: acc, b :: row => (a ^^^ b) :: xorOnto acc row

theorem xorOnto_nil (acc : List UInt8) : xorOnto acc [] = acc := by
  cases acc <;> rfl

theorem xorOnto_right_comm (acc r s : List UInt8) :
    xorOnto (xorOnto acc r) s = xorOnto (xorOnto acc s) r := by
  induction acc generalizing r s with
  | nil => rfl
  | cons a acc ih =>
    cases r with
    | nil => rw [xorOnto_nil, xorOnto_nil]
    | cons b r =>
      cases s with
      | nil => rw [xorOnto_nil, xorOnto_nil]
      | cons c s =>
        rw [xorOnto, xorOnto, xorOnto, xorOnto, ih, UInt8.xor_assoc, UInt8.xor_comm b,
          ← UInt8.xor_assoc]

theorem xorOnto_xorOnto_self (acc r : List UInt8) : xorOnto (xorOnto acc r) r = acc := by
  induction acc generalizing r with
  | nil => rfl
  | cons a acc ih =>
    cases r with
    | nil => rw [xorOnto_nil, xorOnto_nil]
    | cons b r => rw [xorOnto, xorOnto, ih, UInt8.xor_assoc, UInt8.xor_self, UInt8.xor_zero]

theorem xorOnto_zeros (row : List UInt8) : xorOnto (List.replicate row.length 0) row = row := by
  induction row with
  | nil => rfl
  | cons b row ih =>
    rw [length_cons, replicate_succ, xorOnto, ih, UInt8.zero_xor]

theorem foldl_xorOnto (acc r : List UInt8) (rows : List (List UInt8)) :
    rows.foldl xorOnto (xorOnto acc r) = xorOnto (rows.foldl xorOnto acc) r := by
  induction rows generalizing acc with
  | nil => rfl
  | cons s rows ih => rw [foldl_cons, foldl_cons, xorOnto_right_comm, ih]

/-- **Recovery.**  The parity of a group, with every row of the group but one added again, is the
    row left out. -/
theorem foldl_skip_parity {κ : Type*} [DecidableEq κ] (row : κ → List UInt8) (m : κ)
    (group : List κ) (hgroup : group.Nodup) (acc : List UInt8) :
    group.foldl (fun acc i => if i ≠ m then xorOnto acc (row i) else acc)
        ((group.map row).foldl xorOnto acc) =
      if m ∈ group then xorOnto acc (row m) else acc := by
  induction group generalizing acc with
  | nil => rfl
  | cons i group ih =>
    obtain ⟨hi, hgroup⟩ := nodup_cons.mp hgroup
    by_cases him : i = m
    · subst him
      have hrest := ih hgroup (xorOnto acc (row i))
      rw [if_neg hi] at hrest
      simpa using hrest
    · have hcancel : xorOnto ((group.map row).foldl xorOnto (xorOnto acc (row i))) (row i) =
          (group.map row).foldl xorOnto acc := by
        rw [foldl_xorOnto, xorOnto_xorOnto_self]
      rw [map_cons, foldl_cons, foldl_cons, if_pos him, hcancel, ih hgroup]
      simp [Ne.symm him]

/-! ## Groups

Row `i` of `k` rows belongs to the group `i % p`. -/

section Groups

variable (k p : Nat)

/-- The rows of a group, in order. -/
def groupIndices (j : Nat) : List Nat := (List.range k).filter fun i => i % p = j

/-- The rows of a group that are not present. -/
def missing (present : Finset Nat) (j : Nat) : List Nat :=
  (groupIndices k p j).filter fun i => i ∉ present

/-- The rows present after an attempt on one group: it recovers a single missing row if the
    group's parity is there. -/
def recoverOne (parities present : Finset Nat) (j : Nat) : Finset Nat :=
  if j ∈ parities then
    match missing k p present j with
    | [m] => insert m present
    | _ => present
  else present

/-- The rows present after an attempt on every group. -/
def recoverAll (parities present : Finset Nat) : Finset Nat :=
  (List.range p).foldl (recoverOne k p parities) present

/-- Every missing row is the only one of its group, and the group's parity is there. -/
def Recoverable (parities present : Finset Nat) : Prop :=
  ∀ i < k, i ∉ present → i % p ∈ parities ∧ missing k p present (i % p) = [i]

variable {k p} {parities present : Finset Nat}

theorem nodup_groupIndices (j : Nat) : (groupIndices k p j).Nodup := nodup_range.filter _

variable {j i : Nat}

theorem mem_groupIndices : i ∈ groupIndices k p j ↔ i < k ∧ i % p = j := by
  simp [groupIndices]

theorem mem_missing : i ∈ missing k p present j ↔ (i < k ∧ i % p = j) ∧ i ∉ present := by
  simp [missing, mem_groupIndices]

theorem mem_recoverOne : i ∈ recoverOne k p parities present j ↔
      i ∈ present ∨ (j ∈ parities ∧ missing k p present j = [i]) := by
  unfold recoverOne
  split
  · split
    · rename_i m hm
      simp only [Finset.mem_insert, hm, List.cons.injEq]
      tauto
    · rename_i hm
      constructor
      · exact Or.inl
      · rintro (hi | ⟨-, hi⟩)
        · exact hi
        · exact absurd hi (hm i)
  · rename_i hj
    simp [hj]

/-- An attempt on one group leaves the others alone. -/
theorem missing_recoverOne (h : i ≠ j) :
    missing k p (recoverOne k p parities present j) i = missing k p present i := by
  refine filter_congr fun x hx => ?_
  have hx := (mem_groupIndices.mp hx).2
  have hiff : x ∈ recoverOne k p parities present j ↔ x ∈ present := by
    rw [mem_recoverOne, or_iff_left]
    rintro ⟨-, hmissing⟩
    have hmem : x ∈ missing k p present j := by rw [hmissing]; exact mem_singleton_self x
    exact h (hx.symm.trans (mem_missing.mp hmem).1.2)
  simp [hiff]

theorem mem_foldl_recoverOne {groups : List Nat} (hgroups : groups.Nodup) :
    i ∈ groups.foldl (recoverOne k p parities) present ↔ i ∈ present ∨
      (∃ j ∈ groups, j ∈ parities ∧ missing k p present j = [i]) := by
  induction groups generalizing present with
  | nil => simp
  | cons j groups ih =>
    obtain ⟨hj, hgroups⟩ := nodup_cons.mp hgroups
    have hrest : ∀ j' ∈ groups, missing k p (recoverOne k p parities present j) j' =
        missing k p present j' := fun j' hj' =>
      missing_recoverOne fun heq => hj (heq ▸ hj')
    rw [foldl_cons, ih hgroups, mem_recoverOne]
    simp only [mem_cons, exists_eq_or_imp, or_assoc]
    refine or_congr_right (or_congr_right (exists_congr fun j' => and_congr_right fun hj' => ?_))
    rw [hrest j' hj']

/-- What is present after a pass over the groups. -/
theorem mem_recoverAll (hp : 0 < p) : i ∈ recoverAll k p parities present ↔
      i ∈ present ∨ (i % p ∈ parities ∧ missing k p present (i % p) = [i]) := by
  rw [recoverAll, mem_foldl_recoverOne nodup_range]
  refine or_congr_right ⟨?_, fun h => ⟨i % p, mem_range.mpr (Nat.mod_lt i hp), h⟩⟩
  rintro ⟨j, -, hj, hmissing⟩
  have hmem : i ∈ missing k p present j := by rw [hmissing]; exact mem_singleton_self i
  rw [(mem_missing.mp hmem).1.2]
  exact ⟨hj, hmissing⟩

/-- A pass recovers everything that can be recovered. -/
theorem Recoverable.mem_recoverAll (h : Recoverable k p parities present) (hp : 0 < p)
    (hi : i < k) : i ∈ recoverAll k p parities present := by
  rw [XorParity.mem_recoverAll hp]
  by_cases hpresent : i ∈ present
  · exact .inl hpresent
  · exact .inr (h i hi hpresent)

theorem recoverable_of_full (h : ∀ i < k, i ∈ present) : Recoverable k p parities present :=
  fun i hi hmissing => absurd (h i hi) hmissing

/-- A pass does not make recoverable what was not. -/
theorem recoverable_of_recoverAll (hp : 0 < p)
    (h : Recoverable k p parities (recoverAll k p parities present)) :
    Recoverable k p parities present := by
  intro i hi hmissing
  by_cases hrecovered : i ∈ recoverAll k p parities present
  · exact ((mem_recoverAll hp).mp hrecovered).resolve_left hmissing
  -- only `i` is still missing, so any other missing row of its group was recovered alone
  obtain ⟨hparity, honly⟩ := h i hi hrecovered
  refine ⟨hparity, ?_⟩
  have hself : i ∈ missing k p present (i % p) := mem_missing.mpr ⟨⟨hi, rfl⟩, hmissing⟩
  have hothers : ∀ x ∈ missing k p present (i % p), x = i := by
    intro x hx
    obtain ⟨⟨hxk, hxp⟩, hxmissing⟩ := mem_missing.mp hx
    by_contra hne
    have hxrecovered : x ∈ recoverAll k p parities present := by
      by_contra hxleft
      have hmem := mem_missing.mpr ⟨⟨hxk, hxp⟩, hxleft⟩
      rw [honly] at hmem
      exact hne (mem_singleton.mp hmem)
    obtain ⟨-, hxonly⟩ := ((mem_recoverAll hp).mp hxrecovered).resolve_left hxmissing
    rw [hxp] at hxonly
    rw [hxonly] at hself
    exact hne (mem_singleton.mp hself).symm
  have hnodup : (missing k p present (i % p)).Nodup := (nodup_groupIndices _).filter _
  exact perm_singleton.mp (perm_of_nodup_nodup_toFinset_eq hnodup (by simp) (Finset.ext fun x => by
      simp only [mem_toFinset, mem_singleton]
      exact ⟨hothers x, fun hx => hx ▸ hself⟩))

/-- A recoverable family has at least as many rows and parities as rows. -/
theorem Recoverable.card_le (h : Recoverable k p parities present)
    (hpresent : present ⊆ Finset.range k) : k ≤ present.card + parities.card := by
  have hle : (Finset.range k \ present).card ≤ parities.card := by
    refine Finset.card_le_card_of_injOn (· % p) ?_ ?_
    · intro i hi
      obtain ⟨hik, hip⟩ := Finset.mem_sdiff.mp hi
      exact (h i (Finset.mem_range.mp hik) hip).1
    · intro i hi i' hi' heq
      obtain ⟨hik, hip⟩ := Finset.mem_sdiff.mp hi
      obtain ⟨hik', hip'⟩ := Finset.mem_sdiff.mp hi'
      have honly := (h i (Finset.mem_range.mp hik) hip).2
      have honly' := (h i' (Finset.mem_range.mp hik') hip').2
      dsimp only at heq
      rw [heq, honly'] at honly
      exact (List.cons.inj honly).1.symm
  rw [Finset.card_sdiff_of_subset hpresent, Finset.card_range] at hle
  omega

end Groups

end XorParity
