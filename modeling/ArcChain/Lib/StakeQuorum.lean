/-
Stake-weighted quorums over an arbitrary type of members: the weight of a
finite set of members, and the intersection facts that two heavy sets
share a member, and share an honest one when the dishonest weight is
small.

The weight function is taken to vanish outside the committee `U`, so a set
may mention strangers without gaining weight.  `supermajority` is the least
weight strictly above two thirds of a total.
-/
import Mathlib

namespace StakeQuorum

open Finset

/-- The total weight of a finite set of members. -/
def weight {α : Type*} (w : α → ℕ) (s : Finset α) : ℕ := ∑ a ∈ s, w a

section Weight

variable {α : Type*} {w : α → ℕ} {A B U : Finset α}

theorem weight_mono (h : A ⊆ B) : weight w A ≤ weight w B := sum_le_sum_of_subset h

/-- A set of positive weight has a member. -/
theorem nonempty_of_weight_pos (h : 0 < weight w A) : A.Nonempty := by
  rw [nonempty_iff_ne_empty]
  rintro rfl
  simp [weight] at h

/-- The weight of a set splits into its honest and dishonest parts. -/
theorem weight_filter_add (honest : α → Prop) [DecidablePred honest] (A : Finset α) :
    weight w (A.filter honest) + weight w (A.filter (fun a => ¬ honest a)) = weight w A :=
  sum_filter_add_sum_filter_not A honest w

variable [DecidableEq α] (hU : ∀ a, a ∉ U → w a = 0)

include hU

/-- Strangers carry no weight: a set weighs what its members weigh. -/
theorem weight_inter_committee (A : Finset α) : weight w (A ∩ U) = weight w A := by
  refine sum_subset inter_subset_left ?_
  intro a haA hnot
  exact hU a (fun haU => hnot (mem_inter.mpr ⟨haA, haU⟩))

/-- What a set holds of a property weighs at most what the committee holds of it. -/
theorem weight_filter_le (p : α → Prop) [DecidablePred p] (A : Finset α) :
    weight w (A.filter p) ≤ weight w (U.filter p) := by
  rw [← weight_inter_committee hU (A.filter p)]
  apply weight_mono
  intro a ha
  obtain ⟨haA, haU⟩ := mem_inter.mp ha
  exact mem_filter.mpr ⟨haU, (mem_filter.mp haA).2⟩

theorem weight_le_committee (A : Finset α) : weight w A ≤ weight w U := by
  rw [← weight_inter_committee hU A]
  exact weight_mono inter_subset_right

/-- The honest part of a set is what remains of its weight after the dishonest
    weight of the whole committee. -/
theorem le_honest_weight_add (honest : α → Prop) [DecidablePred honest] (A : Finset α) :
    weight w A ≤ weight w (A.filter honest) + weight w (U.filter (fun a => ¬ honest a)) := by
  have hsplit := weight_filter_add (w := w) honest A
  have hbad := weight_filter_le hU (fun a => ¬ honest a) A
  omega

/-- **Quorum intersection.**  If the honest part of `A` together with the weight
    `q` of `B` exceeds the committee, then `A` and `B` share an honest member:
    the dishonest weight counts once in `B` and once in the committee. -/
theorem exists_honest_mem_inter (honest : α → Prop) [DecidablePred honest]
    (h : weight w U < weight w (A.filter honest) + weight w B) :
    ∃ a, a ∈ A ∧ a ∈ B ∧ honest a := by
  by_contra hnone
  have hdisj : Disjoint (A.filter honest) (B.filter honest) := by
    rw [disjoint_left]
    intro a haA haB
    obtain ⟨haA, hh⟩ := mem_filter.mp haA
    exact hnone ⟨a, haA, (mem_filter.mp haB).1, hh⟩
  have hunion : weight w (A.filter honest) + weight w (B.filter honest) =
      weight w ((A ∪ B).filter honest) := by
    rw [filter_union]
    exact (sum_union hdisj).symm
  have hle := weight_filter_le hU honest (A ∪ B)
  have hB := le_honest_weight_add hU honest B
  have hsplit := weight_filter_add (w := w) honest U
  omega

/-- Two sets cover at most the committee, so what they weigh beyond it they share. -/
theorem weight_add_le (A B : Finset α) :
    weight w A + weight w B ≤ weight w U + weight w (A ∩ B) := by
  have hcover := weight_le_committee hU (A ∪ B)
  have hsum : weight w (A ∪ B) + weight w (A ∩ B) = weight w A + weight w B := sum_union_inter
  omega

end Weight

/-! ## The strict two-thirds threshold -/

/-- The least weight strictly above two thirds of `total`; one for an empty total,
    so that an empty committee authorises nothing. -/
def supermajority (total : ℕ) : ℕ :=
  if total = 0 then 1 else total - (total - 1) / 3

theorem supermajority_pos (total : ℕ) : 0 < supermajority total := by
  unfold supermajority
  split <;> omega

/-- The threshold and the weight it tolerates as missing: `total = q + f` with
    `3 f < total`. -/
theorem supermajority_spec {total : ℕ} (h : 0 < total) :
    supermajority total ≤ total ∧ 3 * (total - supermajority total) < total := by
  unfold supermajority
  rw [if_neg (by omega)]
  omega

/-- Two supermajorities share more weight than a supermajority may miss. -/
theorem slack_lt_weight_inter {α : Type*} [DecidableEq α] {w : α → ℕ} {A B U : Finset α}
    (hU : ∀ a, a ∉ U → w a = 0) (hpos : 0 < weight w U)
    (hA : supermajority (weight w U) ≤ weight w A)
    (hB : supermajority (weight w U) ≤ weight w B) :
    weight w U - supermajority (weight w U) < weight w (A ∩ B) := by
  have hcover := weight_add_le hU A B
  have hspec := supermajority_spec hpos
  omega

/-- A smaller committee tolerates no more missing weight. -/
theorem supermajority_slack_mono {t t' : ℕ} (h : t' ≤ t) :
    t' - supermajority t' ≤ t - supermajority t := by
  unfold supermajority
  split <;> split <;> omega

/-! ## Committees that lost dishonest weight -/

section Lowered

variable {α : Type*} {w w' : α → ℕ}

/-- `w'` is `w` after dishonest members may have lost weight. -/
structure Lowers (honest : α → Prop) (w w' : α → ℕ) : Prop where
  honest_eq : ∀ a, honest a → w' a = w a
  le : ∀ a, w' a ≤ w a

variable {honest : α → Prop} [DecidablePred honest] {A U U' : Finset α} (h : Lowers honest w w')

include h

theorem Lowers.weight_honest (A : Finset α) :
    weight w' (A.filter honest) = weight w (A.filter honest) :=
  sum_congr rfl fun a ha => h.honest_eq a (mem_filter.mp ha).2

variable [DecidableEq α] (hU : ∀ a, a ∉ U → w a = 0)

include hU

theorem Lowers.weight_dishonest_members (U' : Finset α) :
    weight w' (U'.filter fun a => ¬ honest a) ≤ weight w (U.filter fun a => ¬ honest a) := by
  refine Nat.le_trans (sum_le_sum fun a _ => h.le a) ?_
  exact weight_filter_le hU (fun a => ¬ honest a) U'

variable (hU' : ∀ a, a ∉ U' → w' a = 0)

include hU'

/-- The honest members of the two committees weigh the same. -/
theorem Lowers.weight_honest_members :
    weight w' (U'.filter honest) = weight w (U.filter honest) := by
  apply Nat.le_antisymm
  · rw [h.weight_honest]
    exact weight_filter_le hU honest U'
  · rw [← h.weight_honest]
    exact weight_filter_le hU' honest U

/-- The lowered committee weighs no more than the original one. -/
theorem Lowers.weight_members_le : weight w' U' ≤ weight w U := by
  have hmembers := h.weight_honest_members hU hU'
  have hdishonest := h.weight_dishonest_members hU U'
  have hsplit := weight_filter_add (w := w) honest U
  have hsplit' := weight_filter_add (w := w') honest U'
  omega

variable (hbyz : weight w (U.filter fun a => ¬ honest a) ≤ weight w U - supermajority (weight w U))

include hbyz

/-- A supermajority of the lowered committee holds more honest weight than a
    supermajority of the original one may miss. -/
theorem Lowers.honest_outweighs (hA : supermajority (weight w' U') ≤ weight w' A) :
    weight w U < weight w (A.filter honest) + supermajority (weight w U) := by
  have hmembers := h.weight_honest_members hU hU'
  have hsplit := weight_filter_add (w := w) honest U
  have hsplit' := weight_filter_add (w := w') honest U'
  have hhonest := le_honest_weight_add hU' honest A
  rw [h.weight_honest] at hhonest
  have hle := h.weight_members_le hU hU'
  have hA' := weight_le_committee hU' A
  have hpos := supermajority_pos (weight w' U')
  have hspec := supermajority_spec (show 0 < weight w U by omega)
  have hslack := supermajority_slack_mono hle
  omega

/-- More weight than a supermajority of the lowered committee may miss is partly honest. -/
theorem Lowers.exists_honest (hA : weight w' U' - supermajority (weight w' U') < weight w' A) :
    ∃ a ∈ A, honest a := by
  have hmembers := h.weight_honest_members hU hU'
  have hdishonest := h.weight_dishonest_members hU U'
  have hsplit := weight_filter_add (w := w) honest U
  have hsplit' := weight_filter_add (w := w') honest U'
  have hhonest := le_honest_weight_add hU' honest A
  have hA' := weight_le_committee hU' A
  have hspec := supermajority_spec (show 0 < weight w U by omega)
  -- the dishonest third of the original committee is still below a third of what is left
  have hthird : 3 * (weight w' U' - supermajority (weight w' U')) + 3 ≥ weight w' U' := by
    unfold supermajority
    split <;> omega
  have hpart : 0 < weight w' (A.filter honest) := by omega
  obtain ⟨a, ha⟩ := nonempty_of_weight_pos hpart
  exact ⟨a, (mem_filter.mp ha).1, (mem_filter.mp ha).2⟩

end Lowered

end StakeQuorum
