/-
Depth-first reachability with a worklist and a set of seen nodes, over an
arbitrary successor function.

`search` pops one node at a time, scans its successors for the target and
pushes those not seen before.  It runs on fuel; `search_iff` shows that as
many steps as there are nodes suffice, so with that fuel the search decides
reachability by at least one edge.
-/
import Mathlib

namespace Worklist

open List

variable {α : Type*} [DecidableEq α]

/-- Scan the successors of one node: stop with `none` on the target, otherwise
    mark and push every successor not seen before. -/
def visit (target : α) : List α → List α → List α → Option (List α × List α)
  | [], seen, frontier => some (seen, frontier)
  | p :: ps, seen, frontier =>
    if p = target then none
    else if p ∈ seen then visit target ps seen frontier
    else visit target ps (p :: seen) (p :: frontier)

/-- Pop nodes from the frontier until the target shows up among the successors
    of one, the frontier is empty, or the fuel is gone. -/
def search (succ : α → List α) (target : α) : ℕ → List α → List α → Bool
  | 0, _, _ => false
  | _ + 1, _, [] => false
  | fuel + 1, seen, x :: rest =>
    match visit target (succ x) seen rest with
    | none => true
    | some (seen', frontier') => search succ target fuel seen' frontier'

/-- One edge of the graph that is searched. -/
def Edge (succ : α → List α) (x y : α) : Prop := y ∈ succ x

section Visit

variable {target : α} {ps seen frontier seen' frontier' : List α}

theorem visit_eq_none : visit target ps seen frontier = none ↔ target ∈ ps := by
  induction ps generalizing seen frontier with
  | nil => simp [visit]
  | cons p ps ih =>
    simp only [visit]
    by_cases hp : p = target
    · simp [hp]
    rw [if_neg hp]
    have hp' : target ≠ p := fun h => hp h.symm
    split
    · rw [ih]
      simp [hp']
    · rw [ih]
      simp [hp']

/-- What one scan adds: the new nodes are successors, they are pushed exactly
    when they are marked, and every successor ends up marked. -/
theorem visit_spec (h : visit target ps seen frontier = some (seen', frontier')) :
    ∃ new : List α, seen' = new ++ seen ∧ frontier' = new ++ frontier ∧
      (∀ x ∈ new, x ∈ ps ∧ x ∉ seen) ∧ new.Nodup ∧ (∀ x ∈ ps, x ∈ seen') := by
  induction ps generalizing seen frontier with
  | nil =>
    obtain ⟨rfl, rfl⟩ := h
    exact ⟨[], by simp⟩
  | cons p ps ih =>
    simp only [visit] at h
    split at h
    · cases h
    split at h
    · rename_i hps
      obtain ⟨new, hs, hf, hnew, hnd, hall⟩ := ih h
      refine ⟨new, hs, hf, ?_, hnd, ?_⟩
      · intro x hx
        exact ⟨mem_cons_of_mem _ (hnew x hx).1, (hnew x hx).2⟩
      · intro x hx
        rcases mem_cons.mp hx with rfl | hx
        · rw [hs]
          exact mem_append_right _ hps
        · exact hall x hx
    · rename_i hps
      obtain ⟨new, hs, hf, hnew, hnd, hall⟩ := ih h
      refine ⟨new ++ [p], by simp [hs], by simp [hf], ?_, ?_, ?_⟩
      · intro x hx
        rcases mem_append.mp hx with hx | hx
        · obtain ⟨h1, h2⟩ := hnew x hx
          exact ⟨mem_cons_of_mem _ h1, fun hseen => h2 (mem_cons_of_mem _ hseen)⟩
        · rw [mem_singleton] at hx
          subst hx
          exact ⟨mem_cons_self, hps⟩
      · rw [nodup_append]
        refine ⟨hnd, by simp, ?_⟩
        intro x hx y hy hxy
        rw [mem_singleton] at hy
        subst hy
        subst hxy
        exact (hnew x hx).2 mem_cons_self
      · intro x hx
        rcases mem_cons.mp hx with rfl | hx
        · rw [hs]
          exact mem_append_right _ mem_cons_self
        · exact hall x hx

end Visit

variable {succ : α → List α} {target : α} {seen frontier : List α} {fuel : ℕ}

/-- A search that answers yes found an edge into the target from a node that
    the frontier reaches. -/
theorem search_sound (h : search succ target fuel seen frontier = true) :
    ∃ x ∈ frontier, Relation.TransGen (Edge succ) x target := by
  induction fuel generalizing seen frontier with
  | zero => simp [search] at h
  | succ fuel ih =>
    cases frontier with
    | nil => simp [search] at h
    | cons x rest =>
      simp only [search] at h
      cases hv : visit target (succ x) seen rest with
      | none =>
        exact ⟨x, mem_cons_self, .single (visit_eq_none.mp hv)⟩
      | some r =>
        rw [hv] at h
        obtain ⟨y, hy, hreach⟩ := ih h
        obtain ⟨new, -, hf, hnew, -, -⟩ := visit_spec hv
        rw [hf] at hy
        rcases mem_append.mp hy with hy | hy
        · exact ⟨x, mem_cons_self, .head (hnew y hy).1 hreach⟩
        · exact ⟨y, mem_cons_of_mem _ hy, hreach⟩

omit [DecidableEq α] in
/-- A set closed under edges that avoid the target never reaches it. -/
theorem not_reaches_of_closed {S : α → Prop} {x : α} (hx : S x)
    (hclosed : ∀ y, S y → target ∉ succ y ∧ ∀ z ∈ succ y, S z) :
    ¬ Relation.TransGen (Edge succ) x target := by
  intro hreach
  induction hreach using Relation.TransGen.head_induction_on with
  | single h => exact (hclosed _ hx).1 h
  | head h _ ih => exact ih ((hclosed _ hx).2 _ h)

/-- Marking fresh nodes moves them out of the unseen part, one for one. -/
theorem card_unseen_append (nodes : Finset α) {new : List α} (hnd : new.Nodup)
    (hnew : ∀ y ∈ new, y ∈ nodes ∧ y ∉ seen) :
    (nodes.filter (fun y => y ∉ new ++ seen)).card + new.length =
      (nodes.filter (fun y => y ∉ seen)).card := by
  rw [← toFinset_card_of_nodup hnd, ← Finset.card_union_of_disjoint]
  · congr 1
    ext y
    simp only [Finset.mem_union, Finset.mem_filter, mem_append, mem_toFinset]
    constructor
    · rintro (⟨hy, hn⟩ | hy)
      · exact ⟨hy, fun hseen => hn (Or.inr hseen)⟩
      · exact hnew y hy
    · rintro ⟨hy, hn⟩
      by_cases hyn : y ∈ new
      · exact Or.inr hyn
      · exact Or.inl ⟨hy, fun hor => hor.elim hyn hn⟩
  · rw [Finset.disjoint_left]
    intro y hy hyn
    exact (Finset.mem_filter.mp hy).2 (mem_append_left _ (mem_toFinset.mp hyn))

/-- With enough fuel the search answers no only when nothing it has seen leads
    to the target.  The fuel covers the nodes still unseen and those on the
    frontier; a pop pays one, a push moves one from the first kind to the
    second. -/
theorem search_complete (nodes : Finset α) (hnodes : ∀ x, ∀ y ∈ succ x, y ∈ nodes)
        (hfuel : (nodes.filter (fun x => x ∉ seen)).card + frontier.length ≤ fuel)
    (hfront : ∀ x ∈ frontier, x ∈ seen)
    (hclosed : ∀ y ∈ seen, y ∉ frontier → target ∉ succ y ∧ ∀ z ∈ succ y, z ∈ seen)
    (h : search succ target fuel seen frontier = false) :
    ∀ x ∈ seen, ¬ Relation.TransGen (Edge succ) x target := by
  induction fuel generalizing seen frontier with
  | zero =>
    have hnil : frontier = [] := length_eq_zero_iff.mp (by omega)
    subst hnil
    intro x hx
    exact not_reaches_of_closed (S := (· ∈ seen)) hx (fun y hy => hclosed y hy (by simp))
  | succ fuel ih =>
    cases frontier with
    | nil =>
      intro x hx
      exact not_reaches_of_closed (S := (· ∈ seen)) hx (fun y hy => hclosed y hy (by simp))
    | cons x rest =>
      simp only [search] at h
      cases hv : visit target (succ x) seen rest with
      | none => simp [hv] at h
      | some r =>
        obtain ⟨seen', frontier'⟩ := r
        rw [hv] at h
        obtain ⟨new, hs, hf, hnew, hnd, hall⟩ := visit_spec hv
        subst hs
        subst hf
        have hmove := card_unseen_append nodes hnd
          (fun y hy => ⟨hnodes x y (hnew y hy).1, (hnew y hy).2⟩)
        have htarget : target ∉ succ x := by
          intro hmem
          have hnone : visit target (succ x) seen rest = none := visit_eq_none.mpr hmem
          rw [hv] at hnone
          cases hnone
        refine fun y hy => ih ?_ ?_ ?_ h y (mem_append_right _ hy)
        · -- a pop pays for the step, the pushes are paid by the unseen part
          simp only [length_append, length_cons] at hfuel ⊢
          omega
        · intro y hy
          rcases mem_append.mp hy with hy | hy
          · exact mem_append_left _ hy
          · exact mem_append_right _ (hfront y (mem_cons_of_mem _ hy))
        · intro y hy hyf
          have hynew : y ∉ new := fun hn => hyf (mem_append_left _ hn)
          have hyrest : y ∉ rest := fun hn => hyf (mem_append_right _ hn)
          have hyseen : y ∈ seen := (mem_append.mp hy).resolve_left hynew
          by_cases hyx : y = x
          · subst hyx
            exact ⟨htarget, hall⟩
          · have hyfr : y ∉ x :: rest := by simp [hyx, hyrest]
            obtain ⟨h1, h2⟩ := hclosed y hyseen hyfr
            exact ⟨h1, fun z hz => mem_append_right _ (h2 z hz)⟩

/-- **The search decides reachability.**  Started at one node, with as much fuel
    as there are nodes, it answers whether a nonempty path leads to the target. -/
theorem search_iff (nodes : Finset α) (hnodes : ∀ x, ∀ y ∈ succ x, y ∈ nodes)
    {start : α} (hstart : start ∈ nodes) (hfuel : nodes.card ≤ fuel) :
    search succ target fuel [start] [start] = true ↔
      Relation.TransGen (Edge succ) start target := by
  constructor
  · intro h
    obtain ⟨x, hx, hreach⟩ := search_sound h
    rw [mem_singleton] at hx
    exact hx ▸ hreach
  · intro hreach
    by_contra hno
    have hno' : search succ target fuel [start] [start] = false := by
      simpa using hno
    have hcard : (nodes.filter (fun x => x ∉ [start])).card + 1 = nodes.card := by
      have heq : nodes.filter (fun x => x ∉ [start]) = nodes.erase start := by
        ext x
        simp [and_comm]
      rw [heq, Finset.card_erase_of_mem hstart]
      have := Finset.card_pos.mpr ⟨start, hstart⟩
      omega
    exact search_complete nodes hnodes (by rw [length_singleton, hcard]; exact hfuel)
      (by simp) (by simp) hno' start (by simp) hreach

end Worklist
