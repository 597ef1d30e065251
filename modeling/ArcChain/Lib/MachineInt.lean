/-
Signed machine integers as integers that are narrowed after an operation.
A program is written once over an `Arith`, which says what a narrowing
does: wrap (`machine`), nothing (`exact`), or stop when the value does not
fit (`checked`).  An `Arith` is faithful when it leaves every value that
fits alone; all three are, so one proof that the values fit says that the
program does not overflow and that wrapping does not change its result.

Loops are folds in `Except`; `foldlM_range` gives a loop's result from its
state after each iteration, and `foldlM_add` is the accumulator loop.
-/
import Mathlib

namespace MachineInt

open List

variable {ε : Type}

/-! ## Narrowing -/

/-- The values of a signed `w`-bit integer. -/
def Fits (w : Nat) (v : Int) : Prop := -2 ^ (w - 1) ≤ v ∧ v < 2 ^ (w - 1)

instance (w : Nat) (v : Int) : Decidable (Fits w v) := inferInstanceAs (Decidable (_ ∧ _))

variable {w : Nat}

theorem fits_of_abs_lt {v : Int} (h : |v| < 2 ^ (w - 1)) : Fits w v := by
  obtain ⟨hlow, hhigh⟩ := abs_lt.mp h
  exact ⟨hlow.le, hhigh⟩

/-- The stop of a checked operation, where a program has no error of its own. -/
inductive Overflow where
  | overflow
  deriving DecidableEq, Repr

/-- What is done with the result of an operation on `i32`, `i64` and `i128`. -/
structure Arith (ε : Type) where
  i32 : Int → Except ε Int
  i64 : Int → Except ε Int
  i128 : Int → Except ε Int

namespace Arith

/-- Results wrap. -/
def machine : Arith ε where
  i32 v := .ok (v.bmod (2 ^ 32))
  i64 v := .ok (v.bmod (2 ^ 64))
  i128 v := .ok (v.bmod (2 ^ 128))

/-- Unbounded integers. -/
def exact : Arith ε := ⟨.ok, .ok, .ok⟩

/-- A result that does not fit stops the program with `overflow`. -/
def checked (overflow : ε) : Arith ε where
  i32 v := if Fits 32 v then .ok v else .error overflow
  i64 v := if Fits 64 v then .ok v else .error overflow
  i128 v := if Fits 128 v then .ok v else .error overflow

/-- Values that fit are left alone. -/
structure Faithful (ar : Arith ε) : Prop where
  i32 : ∀ {v : Int}, Fits 32 v → ar.i32 v = .ok v
  i64 : ∀ {v : Int}, Fits 64 v → ar.i64 v = .ok v
  i128 : ∀ {v : Int}, Fits 128 v → ar.i128 v = .ok v

theorem machine_faithful : (machine : Arith ε).Faithful where
  i32 h := congrArg _ (Int.bmod_eq_of_le h.1 h.2)
  i64 h := congrArg _ (Int.bmod_eq_of_le h.1 h.2)
  i128 h := congrArg _ (Int.bmod_eq_of_le h.1 h.2)

theorem exact_faithful : (exact : Arith ε).Faithful := ⟨fun _ => rfl, fun _ => rfl, fun _ => rfl⟩

theorem checked_faithful (overflow : ε) : (checked overflow).Faithful :=
  ⟨fun h => if_pos h, fun h => if_pos h, fun h => if_pos h⟩

theorem checked_i128_of_not_fits {overflow : ε} {v : Int} (h : ¬ Fits 128 v) :
    (checked overflow).i128 v = .error overflow := if_neg h

end Arith

/-! ## Loops -/

variable {α β : Type}

theorem ok_bind (a : α) (f : α → Except ε β) : (Except.ok a >>= f) = f a := rfl

variable {x : Except ε α}

theorem bind_of_ok {a : α} (h : x = .ok a) (f : α → Except ε β) : (x >>= f) = f a := by
  rw [h, ok_bind]

theorem bind_of_error {e : ε} (h : x = .error e) (f : α → Except ε β) : (x >>= f) = .error e := by
  rw [h]
  rfl

variable {f : α → Except ε β}

theorem ok_of_bind {b : β} (h : (x >>= f) = .ok b) : ∃ a, x = .ok a ∧ f a = .ok b := by
  cases x with
  | error err => cases h
  | ok a => exact ⟨a, rfl, h⟩

variable {σ : Type} {n : Nat}

/-- **Loop rule.**  `g i` is the state after `i` iterations. -/
theorem foldlM_range {f : σ → Nat → Except ε σ} (g : Nat → σ)
    (h : ∀ i < n, f (g i) i = .ok (g (i + 1))) :
    (List.range n).foldlM f (g 0) = .ok (g n) := by
  induction n with
  | zero => rfl
  | succ n ih =>
    rw [range_succ, foldlM_append, ih fun i hi => h i (Nat.lt_succ_of_lt hi)]
    rw [ok_bind, foldlM_cons, h n (Nat.lt_succ_self n)]
    rfl

/-- A loop whose `i`-th iteration stops. -/
theorem foldlM_range_error {n i : Nat} (hi : i < n) {f : σ → Nat → Except ε σ}
    (g : Nat → σ) (h : ∀ j < i, f (g j) j = .ok (g (j + 1))) {e : ε}
    (hstop : f (g i) i = .error e) : (List.range n).foldlM f (g 0) = .error e := by
  obtain ⟨rest, rfl⟩ := Nat.exists_eq_add_of_lt hi
  rw [Nat.add_right_comm, range_add, range_succ, foldlM_append,
    foldlM_append, foldlM_range g h, ok_bind, foldlM_cons, hstop]
  rfl

variable {l : List α}

theorem mapM_eq_ok {g : α → β} (h : ∀ a ∈ l, f a = .ok (g a)) : l.mapM f = .ok (l.map g) := by
  induction l with
  | nil => rfl
  | cons a l ih =>
    rw [mapM_cons, h a mem_cons_self, ih fun b hb => h b (mem_cons_of_mem _ hb)]
    rfl

theorem exists_of_mapM {r : List β} (h : l.mapM f = .ok r) {i : Nat} {b : β}
    (hb : r[i]? = some b) : ∃ a, l[i]? = some a ∧ f a = .ok b := by
  induction l generalizing r i with
  | nil =>
    obtain rfl := Except.ok.inj h
    cases hb
  | cons a l ih =>
    rw [mapM_cons] at h
    obtain ⟨c, ha, h⟩ := ok_of_bind h
    obtain ⟨cs, hl, h⟩ := ok_of_bind h
    obtain rfl := Except.ok.inj h
    cases i with
    | zero =>
      obtain rfl := Option.some.inj hb
      exact ⟨a, rfl, ha⟩
    | succ i => exact ih hl hb

theorem mapM_length {r : List β} (h : l.mapM f = .ok r) : r.length = l.length := by
  induction l generalizing r with
  | nil =>
    obtain rfl := Except.ok.inj h
    rfl
  | cons a l ih =>
    rw [mapM_cons] at h
    obtain ⟨b, -, h⟩ := ok_of_bind h
    obtain ⟨bs, hl, h⟩ := ok_of_bind h
    obtain rfl := Except.ok.inj h
    rw [length_cons, length_cons, ih hl]

theorem forM_eq_ok {α : Type} {f : α → Except ε Unit} {l : List α} :
    l.forM f = .ok () ↔ ∀ a ∈ l, f a = .ok () := by
  induction l with
  | nil => exact ⟨fun _ a ha => absurd ha not_mem_nil, fun _ => rfl⟩
  | cons b l ih =>
    constructor
    · intro h
      obtain ⟨_, hb, h⟩ := ok_of_bind (f := fun _ => l.forM f) h
      intro a ha
      rcases mem_cons.mp ha with rfl | ha
      · exact hb
      · exact ih.mp h a ha
    · intro h
      show (f b >>= fun _ => l.forM f) = _
      rw [h b mem_cons_self]
      exact ih.mpr fun a ha => h a (mem_cons_of_mem _ ha)

/-! ### Two evaluations of one program -/

/-- The evaluation does not stop with `e`. -/
def Avoids {α : Type} (e : ε) (x : Except ε α) : Prop := x ≠ .error e

/-- The evaluations are one, which does not stop with `e` and whose result has `P`. -/
structure Agrees {α : Type} (e : ε) (P : α → Prop) (x y : Except ε α) : Prop where
  eq : x = y
  avoids : Avoids e y
  result : ∀ a, y = .ok a → P a

namespace Agrees

variable {α β σ : Type} {e : ε} {P : α → Prop} {Q : β → Prop} {l : List α} {x y : Except ε α}

theorem ok {a : α} (h : P a) : Agrees e P (.ok a) (.ok a) :=
  ⟨rfl, nofun, fun _ heq => Except.ok.inj heq ▸ h⟩

theorem error {e' : ε} (h : e' ≠ e) : Agrees e P (.error e') (.error e') :=
  ⟨rfl, fun heq => h (Except.error.inj heq), nofun⟩

theorem mono (h : Agrees e P x y) {P' : α → Prop} (hP : ∀ a, P a → P' a) : Agrees e P' x y :=
  ⟨h.eq, h.avoids, fun a ha => hP a (h.result a ha)⟩

variable {f g : α → Except ε β}

theorem bind (h : Agrees e P x y) (hfg : ∀ a, y = .ok a → P a → Agrees e Q (f a) (g a)) :
    Agrees e Q (x >>= f) (y >>= g) := by
  obtain ⟨rfl, havoids, hresult⟩ := h
  cases x with
  | error e' => exact error fun heq => havoids (congrArg _ heq)
  | ok a => exact hfg a rfl (hresult a rfl)

theorem mapM (h : ∀ a ∈ l, Agrees e Q (f a) (g a)) :
    Agrees e (fun r => ∀ b ∈ r, Q b) (l.mapM f) (l.mapM g) := by
  induction l with
  | nil => exact ok fun b hb => absurd hb not_mem_nil
  | cons a l ih =>
    rw [mapM_cons, mapM_cons]
    refine bind (h a mem_cons_self) fun b _ hb => ?_
    refine bind (ih fun c hc => h c (mem_cons_of_mem _ hc)) fun bs _ hbs => ?_
    exact ok (forall_mem_cons.mpr ⟨hb, hbs⟩)

/-- **Two loops.**  Steps that agree wherever the invariant of their iteration holds, and
    carry it to the next one. -/
theorem foldlM {f g : σ → α → Except ε σ} {I : Nat → σ → Prop} {s : σ} (hs : I 0 s)
    (h : ∀ i a, l[i]? = some a → ∀ s, I i s → Agrees e (I (i + 1)) (f s a) (g s a)) :
    Agrees e (I l.length) (l.foldlM f s) (l.foldlM g s) := by
  induction l using reverseRecOn with
  | nil => exact ok hs
  | append_singleton l a ih =>
    rw [foldlM_append, foldlM_append, length_append]
    refine bind (ih fun i b hb => ?_) fun t _ ht => ?_
    · exact h i b ((getElem?_append_left (List.getElem?_eq_some_iff.mp hb).1).trans hb)
    · exact bind (h l.length a getElem?_concat_length t ht) fun u _ hu => ok hu

end Agrees

variable {narrow : Int → Except ε Int}

/-- **Accumulator rule.**  A sum does not overflow when the magnitudes of its terms do not. -/
theorem foldlM_add {α : Type}
    (hnarrow : ∀ {v : Int}, Fits w v → narrow v = .ok v) {term : α → Except ε Int}
    {f : α → Int} {l : List α} (hterm : ∀ a ∈ l, term a = .ok (f a)) {init : Int}
    (h : |init| + (l.map fun a => |f a|).sum < 2 ^ (w - 1)) :
    l.foldlM (fun acc a => do narrow (acc + (← term a))) init = .ok (init + (l.map f).sum) := by
  induction l generalizing init with
  | nil => exact congrArg Except.ok (add_zero init).symm
  | cons a l ih =>
    rw [map_cons, sum_cons] at h
    have habs : |init + f a| ≤ |init| + |f a| := abs_add_le init (f a)
    have hrest : 0 ≤ (l.map fun b => |f b|).sum := by
      apply sum_nonneg
      rintro _ hb
      obtain ⟨b, -, rfl⟩ := mem_map.mp hb
      exact abs_nonneg _
    have hfits : Fits w (init + f a) := fits_of_abs_lt (by omega)
    have hstep : (do narrow (init + (← term a))) = .ok (init + f a) := by
      rw [hterm a mem_cons_self]
      exact hnarrow hfits
    rw [foldlM_cons, hstep, ok_bind]
    rw [ih (fun b hb => hterm b (mem_cons_of_mem _ hb)) (by omega)]
    rw [map_cons, sum_cons, add_assoc]

theorem foldlM_sum (hnarrow : ∀ {v : Int}, Fits w v → narrow v = .ok v) {l : List Int}
    (h : (l.map fun v => |v|).sum < 2 ^ (w - 1)) :
    l.foldlM (fun acc v => narrow (acc + v)) 0 = .ok l.sum := by
  have hadd : l.foldlM (fun acc v => do narrow (acc + (← Except.ok v))) 0 =
      .ok (0 + (l.map fun v => v).sum) :=
    foldlM_add hnarrow (fun _ _ => rfl) (by rw [abs_zero, zero_add]; exact h)
  rw [map_id', zero_add] at hadd
  exact hadd

theorem abs_mul_le_of_le {a b A B : Int} (ha : |a| ≤ A) (hb : |b| ≤ B) : |a * b| ≤ A * B := by
  rw [abs_mul]
  exact mul_le_mul ha hb (abs_nonneg _) ((abs_nonneg a).trans ha)

/-- A sum over a range of terms of bounded magnitude. -/
theorem abs_sum_range_le {f : Nat → Int} {B : Int} (h : ∀ i < n, |f i| ≤ B) :
    |∑ i ∈ Finset.range n, f i| ≤ n * B := by
  calc |∑ i ∈ Finset.range n, f i| ≤ ∑ i ∈ Finset.range n, |f i| := Finset.abs_sum_le_sum_abs _ _
    _ ≤ ∑ i ∈ Finset.range n, B := Finset.sum_le_sum fun i hi => h i (Finset.mem_range.mp hi)
    _ = n * B := by rw [Finset.sum_const, Finset.card_range, nsmul_eq_mul]

/-- A sum over a range, block by block. -/
theorem sum_range_blocks (f : Nat → Int) (B n : Nat) : ∑ j ∈ Finset.range (B * n), f j =
      ∑ b ∈ Finset.range n, ∑ i ∈ Finset.range B, f (B * b + i) := by
  induction n with
  | zero => rfl
  | succ n ih => rw [Nat.mul_succ, Finset.sum_range_add, ih, Finset.sum_range_succ]

end MachineInt
