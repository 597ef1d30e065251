/-
Running tasks in different orders.

A task changes a state and gives an answer.  Two lists of the same tasks
lead to the same state, with the same answer for every task, if all pairs
that stand in opposite order commute (`runAll_perm`).  `InBatches` is the
order a scheduler may choose that finishes one batch before the next.
-/
import Mathlib

namespace Schedule

open List

variable {τ σ ρ : Type}

variable {batches : List (List τ)}

section Run

variable (step : τ → σ → σ × ρ)

/-- Run the tasks in order: the last state, and the answer of each task. -/
def runAll : List τ → σ → σ × List (τ × ρ)
  | [], s => (s, [])
  | x :: l, s =>
    ((runAll l (step x s).1).1, (x, (step x s).2) :: (runAll l (step x s).1).2)

/-- From every state, both orders lead to the same state and neither task notices the other. -/
def Commute (x y : τ) : Prop :=
  ∀ s, (step y (step x s).1).1 = (step x (step y s).1).1 ∧
    (step y (step x s).1).2 = (step y s).2 ∧ (step x (step y s).1).2 = (step x s).2

variable {step}

theorem Commute.symm {x y : τ} (h : Commute step x y) : Commute step y x :=
  fun s => ⟨(h s).1.symm, (h s).2.2, (h s).2.1⟩

/-- A task that commutes with everything in front of it may run first. -/
theorem runAll_move_front {a b : List τ} {y : τ} (h : ∀ x ∈ a, Commute step x y) (s : σ) :
    (runAll step (a ++ y :: b) s).1 = (runAll step (y :: (a ++ b)) s).1 ∧
      (runAll step (a ++ y :: b) s).2.Perm (runAll step (y :: (a ++ b)) s).2 := by
  induction a generalizing s with
  | nil => exact ⟨rfl, List.Perm.refl _⟩
  | cons x a ih =>
    obtain ⟨hstate, hy, hx⟩ := h x mem_cons_self s
    obtain ⟨hrest, hperm⟩ := ih (fun x' hx' => h x' (mem_cons_of_mem _ hx')) (step x s).1
    simp only [cons_append, runAll] at hrest hperm ⊢
    rw [hstate, hy] at hperm
    rw [hstate] at hrest
    refine ⟨hrest, (hperm.cons _).trans ?_⟩
    rw [hx]
    exact List.Perm.swap _ _ _

/-- **Reordering.**  Two orders of the same tasks agree if every pair in opposite order
    commutes. -/
theorem runAll_perm {l l' : List τ} (hperm : l.Perm l')
    (h : ∀ x y, [x, y].Sublist l → [y, x].Sublist l' → Commute step x y) (s : σ) :
    (runAll step l s).1 = (runAll step l' s).1 ∧ (runAll step l s).2.Perm (runAll step l' s).2 := by
  induction l' generalizing l s with
  | nil =>
    obtain rfl := hperm.eq_nil
    exact ⟨rfl, List.Perm.refl _⟩
  | cons y l' ih =>
    -- the first task of the new order is moved to the front of the old one
    obtain ⟨a, b, rfl⟩ := append_of_mem (hperm.mem_iff.mpr mem_cons_self)
    have hrest : (a ++ b).Perm l' := (perm_middle.symm.trans hperm).cons_inv
    have hfront : ∀ x ∈ a, Commute step x y := by
      intro x hx
      have hx' : x ∈ l' := hrest.mem_iff.mp (mem_append_left b hx)
      refine h x y ?_ (cons_sublist_cons.mpr (singleton_sublist.mpr hx'))
      exact (singleton_sublist.mpr hx).append (cons_sublist_cons.mpr (nil_sublist b))
    obtain ⟨hstate, hanswers⟩ := runAll_move_front hfront (b := b) s
    obtain ⟨hstate', hanswers'⟩ := ih hrest (fun x z hxz hzx => h x z
      (hxz.trans ((List.Sublist.refl a).append (sublist_cons_self y b)))
      (hzx.trans (sublist_cons_self y l'))) (step y s).1
    exact ⟨hstate.trans hstate', hanswers.trans (hanswers'.cons _)⟩

/-- Tasks that commute with each other all answer as from the first state. -/
theorem runAll_answers {l : List τ} (h : l.Pairwise (Commute step)) (s : σ) :
    (runAll step l s).2 = l.map fun x => (x, (step x s).2) := by
  induction l generalizing s with
  | nil => rfl
  | cons x l ih =>
    obtain ⟨hhead, htail⟩ := pairwise_cons.mp h
    have hrest : (l.map fun y => (y, (step y (step x s).1).2)) = l.map fun y => (y, (step y s).2) :=
      map_congr_left fun y hy => by rw [(hhead y hy s).2.1]
    simp only [runAll, map_cons, ih htail, hrest]

end Run

/-! ## Batches -/

/-- The list runs the batches one after another, each in some order. -/
def InBatches (batches : List (List τ)) (l : List τ) : Prop :=
  ∃ orders, List.Forall₂ List.Perm batches orders ∧ l = orders.flatten

theorem InBatches.perm {l : List τ} (h : InBatches batches l) : batches.flatten.Perm l := by
  obtain ⟨orders, horders, rfl⟩ := h
  exact List.Perm.flatten_congr horders

/-- A task is in a batch that does not come after a batch of the other. -/
def NotAfter (batches : List (List τ)) (y x : τ) : Prop :=
  ∃ k m, k ≤ m ∧ y ∈ batches.getD k [] ∧ x ∈ batches.getD m []

theorem notAfter_cons {batch : List τ} {y x : τ} (h : NotAfter batches y x) :
    NotAfter (batch :: batches) y x := by
  obtain ⟨k, m, hle, hy, hx⟩ := h
  exact ⟨k + 1, m + 1, Nat.succ_le_succ hle, by simpa using hy, by simpa using hx⟩

theorem exists_getD_of_mem_flatten {x : τ} (h : x ∈ batches.flatten) :
    ∃ m, x ∈ batches.getD m [] := by
  obtain ⟨batch, hbatch, hx⟩ := mem_flatten.mp h
  obtain ⟨m, hm, rfl⟩ := getElem_of_mem hbatch
  exact ⟨m, by simpa [hm] using hx⟩

/-- What runs first is not in a later batch. -/
theorem InBatches.notAfter {l : List τ} (h : InBatches batches l) {x y : τ} (hyx : [y, x].Sublist l) :
    NotAfter batches y x := by
  obtain ⟨orders, horders, rfl⟩ := h
  induction horders with
  | nil => exact absurd hyx.length_le (by simp)
  | @cons batch order batches orders hperm horders ih =>
    rw [flatten_cons, sublist_append_iff] at hyx
    obtain ⟨l₁, l₂, hsplit, h₁, h₂⟩ := hyx
    have hrest : ∀ z, z ∈ orders.flatten → z ∈ batches.flatten := fun z hz =>
      (List.Perm.flatten_congr horders).mem_iff.mpr hz
    -- both tasks are in the first batch, or the second or both are in the rest
    match l₁, hsplit with
    | [], hsplit =>
      obtain rfl : [y, x] = l₂ := by simpa using hsplit
      exact notAfter_cons (ih h₂)
    | [z], hsplit =>
      obtain ⟨rfl, rfl⟩ : y = z ∧ [x] = l₂ := by simpa using hsplit
      obtain ⟨m, hm⟩ := exists_getD_of_mem_flatten (hrest x (singleton_sublist.mp h₂))
      exact ⟨0, m + 1, Nat.zero_le _, by simpa using hperm.mem_iff.mpr (singleton_sublist.mp h₁),
        by simpa using hm⟩
    | z :: z' :: l₁, hsplit =>
      obtain ⟨rfl, rfl, _⟩ : y = z ∧ x = z' ∧ [] = l₁ ++ l₂ := by simpa using hsplit
      have hmem := h₁.subset
      exact ⟨0, 0, Nat.le_refl _, by simpa using hperm.mem_iff.mpr (hmem (by simp)),
        by simpa using hperm.mem_iff.mpr (hmem (by simp))⟩

end Schedule
