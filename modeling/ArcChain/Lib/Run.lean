/-
Runs of a partial transition function under a guard: every step is taken
from a state in which the guard holds, and a step that is not enabled (or
that crashes) has no successor.  The invariant rule and the composition of
runs, for arbitrary states and labels.
-/
import Mathlib

variable {σ ι : Type*}

/-- A function that returns a result has passed its check. -/
theorem check_eq_ok {ε α : Type*} {c : Prop} [Decidable c] {err : ε} {x : Except ε α} {a : α} :
    (if c then .error err else x) = .ok a ↔ ¬ c ∧ x = .ok a := by
  by_cases h : c <;> simp [h]

/-- `Run step guard s l t`: the labels `l` lead from `s` to `t`, and each step
    meets `guard` in the state before it. -/
inductive Run (step : σ → ι → Option σ) (guard : σ → ι → Prop) : σ → List ι → σ → Prop
  | nil (s : σ) : Run step guard s [] s
  | cons {s t u : σ} {i : ι} {l : List ι} (hguard : guard s i) (hstep : step s i = some t)
      (hrest : Run step guard t l u) : Run step guard s (i :: l) u

namespace Run

variable {step : σ → ι → Option σ} {guard guard' : σ → ι → Prop} {s t u : σ} {l l' : List ι}

/-- **Invariant rule.**  What holds at the start and survives every guarded step
    holds at the end. -/
theorem invariant {I : σ → Prop} (hinv : ∀ s i t, guard s i → I s → step s i = some t → I t)
    (h : Run step guard s l t) (hs : I s) : I t := by
  induction h with
  | nil s => exact hs
  | cons hguard hstep _ ih => exact ih (hinv _ _ _ hguard hs hstep)

theorem append (h : Run step guard s l t) (h' : Run step guard t l' u) :
    Run step guard s (l ++ l') u := by
  induction h with
  | nil s => exact h'
  | cons hguard hstep _ ih => exact .cons hguard hstep (ih h')

theorem single {i : ι} (hguard : guard s i) (hstep : step s i = some t) : Run step guard s [i] t :=
  .cons hguard hstep (.nil t)

/-- A step that is taken only where the guard holds. -/
def guarded (step : σ → ι → Option σ) (guard : σ → ι → Prop) [∀ s i, Decidable (guard s i)]
    (s : σ) (i : ι) : Option σ :=
  if guard s i then step s i else none

/-- Evaluating the guarded steps one after another is a run. -/
theorem of_foldlM [∀ s i, Decidable (guard s i)]
    (h : l.foldlM (guarded step guard) s = some t) : Run step guard s l t := by
  induction l generalizing s with
  | nil =>
    obtain rfl := Option.some.inj h
    exact .nil _
  | cons i l ih =>
    obtain ⟨u, hstep, hrest⟩ := Option.bind_eq_some_iff.mp h
    rw [guarded] at hstep
    split at hstep
    · rename_i hguard
      exact .cons hguard hstep (ih hrest)
    · cases hstep

/-- A run meets every weaker guard. -/
theorem mono (hg : ∀ s i, guard s i → guard' s i) (h : Run step guard s l t) :
    Run step guard' s l t := by
  induction h with
  | nil s => exact .nil s
  | cons hguard hstep _ ih => exact .cons (hg _ _ hguard) hstep ih

/-- A run splits at every point of its label list. -/
theorem split (h : Run step guard s (l ++ l') u) :
    ∃ t, Run step guard s l t ∧ Run step guard t l' u := by
  induction l generalizing s with
  | nil => exact ⟨s, .nil s, h⟩
  | cons i l ih =>
    cases h with
    | cons hguard hstep hrest =>
      obtain ⟨t, h1, h2⟩ := ih hrest
      exact ⟨t, .cons hguard hstep h1, h2⟩

/-- The last step is taken from a state that the earlier labels reach. -/
theorem snoc_cases {i : ι} (h : Run step guard s (l ++ [i]) u) :
    ∃ t, Run step guard s l t ∧ guard t i ∧ step t i = some u := by
  obtain ⟨t, h1, h2⟩ := split h
  cases h2 with
  | cons hguard hstep hrest =>
    cases hrest with
    | nil => exact ⟨t, h1, hguard, hstep⟩

/-- A run determines its end. -/
theorem deterministic (h : Run step guard s l t) (h' : Run step guard s l u) : t = u := by
  induction h with
  | nil s =>
    cases h'
    rfl
  | cons _ hstep _ ih =>
    cases h' with
    | cons _ hstep' hrest' =>
      obtain rfl := Option.some.inj (hstep.symm.trans hstep')
      exact ih hrest'

/-- **History rule.**  A property of the labels so far and the state they lead to. -/
theorem history {H : List ι → σ → Prop} (hnil : H [] s)
    (hsnoc : ∀ l t i u, Run step guard s l t → H l t → guard t i → step t i = some u →
      H (l ++ [i]) u)
    (h : Run step guard s l u) : H l u := by
  induction l using List.reverseRecOn generalizing u with
  | nil =>
    cases h
    exact hnil
  | append_singleton l i ih =>
    obtain ⟨t, hrun, hguard, hstep⟩ := h.snoc_cases
    exact hsnoc l t i u hrun (ih hrun) hguard hstep

/-- **Change rule.**  What does not hold at the start and holds at the end is brought about
    by one of the steps. -/
theorem exists_change {P : σ → Prop} (h : Run step guard s l u) (hs : ¬ P s) (hu : P u) :
    ∃ l₁ i l₂ t t', l = l₁ ++ i :: l₂ ∧ Run step guard s l₁ t ∧ guard t i ∧
      step t i = some t' ∧ ¬ P t ∧ P t' := by
  induction h with
  | nil s => exact absurd hu hs
  | @cons s t u i l hguard hstep _ ih =>
    by_cases ht : P t
    · exact ⟨[], i, l, s, t, rfl, .nil s, hguard, hstep, hs, ht⟩
    · obtain ⟨l₁, j, l₂, m, m', rfl, hrun, hrest⟩ := ih ht hu
      exact ⟨i :: l₁, j, l₂, m, m', rfl, .cons hguard hstep hrun, hrest⟩

/-- How many of the steps that the labels take from `s` satisfy `P`. -/
def occurrences (step : σ → ι → Option σ) (P : σ → ι → Bool) : σ → List ι → Nat
  | _, [] => 0
  | s, i :: l =>
    (if P s i then 1 else 0) +
      match step s i with
      | some t => occurrences step P t l
      | none => 0

/-- **Counter rule.**  A counter that no step lowers, and that a counted step raises without
    passing a limit, bounds the number of counted steps. -/
theorem occurrences_le {P : σ → ι → Bool} (I : σ → Prop) (count : σ → Nat) {limit : Nat}
    (hinv : ∀ s i t, guard s i → I s → step s i = some t → I t)
    (hkeep : ∀ s i t, guard s i → I s → step s i = some t → count s ≤ count t)
    (hraise : ∀ s i t, guard s i → I s → step s i = some t → P s i = true →
      count s < count t ∧ count t ≤ limit)
    (h : Run step guard s l t) (hs : I s) : occurrences step P s l ≤ limit := by
  -- what is still to come fits above the counter
  have hfits : occurrences step P s l = 0 ∨ count s + occurrences step P s l ≤ limit := by
    induction h with
    | nil s => exact .inl rfl
    | @cons s t u i l hguard hstep _ ih =>
      have hrest := ih (hinv _ _ _ hguard hs hstep)
      have hle := hkeep _ _ _ hguard hs hstep
      rw [occurrences, hstep]
      by_cases hcounted : P s i = true
      · obtain ⟨hlt, hlimit⟩ := hraise _ _ _ hguard hs hstep hcounted
        rw [if_pos hcounted]
        dsimp only
        omega
      · rw [if_neg hcounted]
        dsimp only
        omega
  omega

end Run
