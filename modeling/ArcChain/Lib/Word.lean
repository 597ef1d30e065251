/-
Unsigned machine words as naturals: the checked and saturating operations
of a 64-bit unsigned type, and the fixed-width byte encodings of a word.

A word is a plain `Nat`; the width shows only in the operations that can
overflow (`checkedAdd`, `saturatingAdd`) and in the encodings, which keep
the low `8 * k` bits.  The encodings are injective below that bound
(`leBytes_inj`), and a run of equally long chunks is
determined by its concatenation (`flatMap_inj`), which is what the proofs
about hashed transcripts need.
-/
import Mathlib

namespace Word

open List

/-- The largest 64-bit unsigned value. -/
def u64Max : Nat := 2 ^ 64 - 1

/-- The sum, or nothing when it does not fit 64 bits. -/
def checkedAdd (a b : Nat) : Option Nat :=
  if a + b ≤ u64Max then some (a + b) else none

/-- The difference, or nothing when it would be negative. -/
def checkedSub (a b : Nat) : Option Nat :=
  if b ≤ a then some (a - b) else none

/-- The sum, clamped at the largest 64-bit value. -/
def saturatingAdd (a b : Nat) : Nat := min (a + b) u64Max

def saturatingMul (a b : Nat) : Nat := min (a * b) u64Max

variable {c b a k : Nat}

theorem checkedAdd_eq_some : checkedAdd a b = some c ↔ a + b = c ∧ c ≤ u64Max := by
  unfold checkedAdd
  split
  · rename_i h
    simp only [Option.some.injEq]
    constructor
    · rintro rfl
      exact ⟨rfl, h⟩
    · rintro ⟨hc, -⟩
      exact hc
  · rename_i h
    simp only [reduceCtorEq, false_iff, not_and]
    rintro rfl
    exact h

theorem checkedSub_eq_some : checkedSub a b = some c ↔ b ≤ a ∧ a - b = c := by
  unfold checkedSub
  split
  · rename_i h
    simp [h]
  · rename_i h
    simp [h]

theorem checkedAdd_eq_none : checkedAdd a b = none ↔ u64Max < a + b := by
  simp [checkedAdd]

theorem checkedSub_eq_none : checkedSub a b = none ↔ a < b := by
  simp [checkedSub]

theorem saturatingAdd_le_max (a b : Nat) : saturatingAdd a b ≤ u64Max := Nat.min_le_right _ _

/-! ## Byte encodings -/

/-- The `k` low bytes of `n`, least significant first (`to_le_bytes`). -/
def leBytes : Nat → Nat → List UInt8
  | 0, _ => []
  | k + 1, n => UInt8.ofNat (n % 256) :: leBytes k (n / 256)

/-- The `k` low bytes of `n`, most significant first (`to_be_bytes`). -/
def beBytes (k n : Nat) : List UInt8 := (leBytes k n).reverse

@[simp] theorem length_leBytes (k n : Nat) : (leBytes k n).length = k := by
  induction k generalizing n with
  | zero => rfl
  | succ k ih => simp [leBytes, ih]

@[simp] theorem length_beBytes (k n : Nat) : (beBytes k n).length = k := by
  simp [beBytes]

/-- The word written least significant byte first. -/
def leValue : List UInt8 → Nat
  | [] => 0
  | b :: bs => b.toNat + 256 * leValue bs

/-- The little-endian encoding keeps the word modulo its width. -/
theorem leValue_leBytes (k n : Nat) : leValue (leBytes k n) = n % 256 ^ k := by
  induction k generalizing n with
  | zero => simp [leBytes, leValue, Nat.mod_one]
  | succ k ih =>
    have hlow : (UInt8.ofNat (n % 256)).toNat = n % 256 := by simp
    rw [leBytes, leValue, ih, hlow, Nat.pow_succ, Nat.mul_comm (256 ^ k), Nat.mod_mul]

/-- Bytes are recovered from the word they write. -/
theorem leBytes_leValue (bytes : List UInt8) : leBytes bytes.length (leValue bytes) = bytes := by
  induction bytes with
  | nil => rfl
  | cons b bytes ih =>
    have hb : b.toNat < 256 := b.toNat_lt
    have hlow : (b.toNat + 256 * leValue bytes) % 256 = b.toNat := by omega
    have hhigh : (b.toNat + 256 * leValue bytes) / 256 = leValue bytes := by omega
    rw [length_cons, leBytes, leValue, hlow, hhigh, ih, UInt8.ofNat_toNat]

theorem leValue_lt (bytes : List UInt8) : leValue bytes < 256 ^ bytes.length := by
  induction bytes with
  | nil => exact Nat.one_pos
  | cons b bytes ih =>
    have hb : b.toNat < 256 := b.toNat_lt
    rw [leValue, length_cons]
    omega

/-- Words below the encoded width are determined by their encoding. -/
theorem leBytes_inj {m n : Nat} (hm : m < 256 ^ k) (hn : n < 256 ^ k)
    (h : leBytes k m = leBytes k n) : m = n := by
  have hvalue := congrArg leValue h
  rwa [leValue_leBytes, leValue_leBytes, Nat.mod_eq_of_lt hm, Nat.mod_eq_of_lt hn] at hvalue

/-- Concatenating equally long chunks is injective. -/
theorem flatMap_inj {α β : Type*} {f : α → List β} (hk : 0 < k)
    (hlen : ∀ a, (f a).length = k) (hf : Function.Injective f) {xs ys : List α}
    (h : xs.flatMap f = ys.flatMap f) : xs = ys := by
  induction xs generalizing ys with
  | nil =>
    cases ys with
    | nil => rfl
    | cons y ys =>
      have h' := congrArg List.length h
      simp only [flatMap_nil, length_nil, flatMap_cons, length_append, hlen] at h'
      omega
  | cons x xs ih =>
    cases ys with
    | nil =>
      have h' := congrArg List.length h
      simp only [flatMap_nil, length_nil, flatMap_cons, length_append, hlen] at h'
      omega
    | cons y ys =>
      obtain ⟨hxy, hrest⟩ := append_inj h (by rw [hlen, hlen])
      rw [hf hxy, ih hrest]

end Word
