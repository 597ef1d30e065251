/-
The Merkle tree over the transaction hashes of a block (`arc-crypto`'s
`merkle.rs`), and the root the streaming and pipelined executors compute
without it (`compute_merkle_root_only` of `arc-state`).

The tree is the one of `Lib.Merkle` over `hash_pair`, an empty block having
the root zero.
-/
import ArcChain.Crypto.Concrete
import ArcChain.Lib.Merkle

namespace ArcChain

open Merkle List

section Tree

variable [Crypto]

/-- The levels, from the padded leaves to the root. -/
structure MerkleTree where
  levels : List (List Hash256)

namespace MerkleTree

def fromLeaves (leaves : List Hash256) : MerkleTree :=
  if leaves = [] then ⟨[[.zero]]⟩ else ⟨Merkle.levels hashPair leaves⟩

def root (tree : MerkleTree) : Hash256 :=
  (tree.levels.getLast?.bind List.head?).getD .zero

theorem root_fromLeaves (leaves : List Hash256) :
    (fromLeaves leaves).root = Merkle.root hashPair .zero leaves := by
  rw [fromLeaves, Merkle.root]
  split <;> rfl

/-- The pairs hashed for the inner nodes over a list of leaves. -/
def hashedPairs (leaves : List Hash256) : List (Hash256 × Hash256) :=
  ((Merkle.tree leaves).map (Merkle.Tree.pairs hashPair)).getD []

/-- **What a transaction root identifies.**  If the pairs hashed for two lists do not collide,
    with each other or with a leaf, the roots agree exactly if the trees do, padding included.
    Then one list is the other followed by repetitions of its entries, and equally long lists
    are equal. -/
theorem root_eq_iff_tree {a b : List Hash256} (ha : a ≠ []) (hb : b ≠ [])
    (h : Merkle.Separated hashPair (fun p => p ∈ hashedPairs a ++ hashedPairs b)
      (fun x => x ∈ a ++ b)) :
    ((fromLeaves a).root = (fromLeaves b).root ↔ Merkle.tree a = Merkle.tree b) ∧
      ((fromLeaves a).root = (fromLeaves b).root →
        (Merkle.Repeats a b ∨ Merkle.Repeats b a) ∧ (a.length = b.length → a = b)) := by
  obtain ⟨s, hs, -⟩ := exists_tree ha
  obtain ⟨t, ht, -⟩ := exists_tree hb
  rw [root_fromLeaves, root_fromLeaves, root_eq_value hashPair .zero hs,
    root_eq_value hashPair .zero ht, hs, ht, Option.some.injEq]
  obtain ⟨extra, hsl, hextra⟩ := leaves_tree hs
  obtain ⟨extra', htl, hextra'⟩ := leaves_tree ht
  have heq : s.value hashPair = t.value hashPair → s = t := by
    refine h.eq_of_value_eq ?_ ?_ ?_ ?_
    · intro p hp
      exact mem_append_left _ (by rwa [hashedPairs, hs])
    · intro p hp
      exact mem_append_right _ (by rwa [hashedPairs, ht])
    · intro x hx
      rw [hsl] at hx
      exact mem_append_left _ ((mem_append.mp hx).elim id (hextra x))
    · intro x hx
      rw [htl] at hx
      exact mem_append_right _ ((mem_append.mp hx).elim id (hextra' x))
  refine ⟨⟨heq, fun hst => by rw [hst]⟩, fun hvalue => ?_⟩
  rw [heq hvalue, htl] at hsl
  refine ⟨?_, fun hlen => (append_inj hsl.symm hlen).1⟩
  -- both lists begin the leaves of the one tree
  rcases append_eq_append_iff.mp hsl with ⟨rest, rfl, rfl⟩ | ⟨rest, rfl, rfl⟩
  · exact .inr ⟨rest, rfl, fun x hx => hextra' x (mem_append_left _ hx)⟩
  · exact .inl ⟨rest, rfl, fun x hx => hextra x (mem_append_left _ hx)⟩

end MerkleTree

end Tree

namespace SampleMerkle

/-- Three leaves, and the same with the last one listed twice. -/
def three : List Hash256 := [⟨1⟩, ⟨2⟩, ⟨3⟩]

def four : List Hash256 := [⟨1⟩, ⟨2⟩, ⟨3⟩, ⟨3⟩]

theorem separated :
    letI := concreteCrypto
    Merkle.Separated hashPair
      (fun p => p ∈ MerkleTree.hashedPairs three ++ MerkleTree.hashedPairs four)
      (fun x => x ∈ three ++ four) := by
  let _ : Crypto := concreteCrypto
  have hinj : ∀ p ∈ MerkleTree.hashedPairs three ++ MerkleTree.hashedPairs four,
      ∀ q ∈ MerkleTree.hashedPairs three ++ MerkleTree.hashedPairs four,
      hashPair p.1 p.2 = hashPair q.1 q.2 → p = q := by decide +kernel
  exact ⟨fun p q hp hq => hinj p hp q hq, by decide +kernel⟩

/-- Different lists with one root. -/
theorem root_three_eq_root_four :
    letI := concreteCrypto
    Merkle.Separated hashPair
        (fun p => p ∈ MerkleTree.hashedPairs three ++ MerkleTree.hashedPairs four)
        (fun x => x ∈ three ++ four) ∧
      (MerkleTree.fromLeaves three).root = (MerkleTree.fromLeaves four).root ∧ three ≠ four :=
  ⟨separated, by decide +kernel, by decide⟩

theorem root_eq_iff_tree_three_four :
    letI := concreteCrypto
    Merkle.Repeats three four ∨ Merkle.Repeats four three := by
  let _ : Crypto := concreteCrypto
  exact ((MerkleTree.root_eq_iff_tree (by decide) (by decide) separated).2 (by decide +kernel)).1

end SampleMerkle

/-! ## The root without the tree -/

section RootOnly

variable [Crypto]

/-- One level of `compute_merkle_root_only`; the chunk of a single node panics. -/
def pairHashes : List Hash256 → Option (List Hash256)
  | left :: right :: rest => (pairHashes rest).map (hashPair left right :: ·)
  | [_] => none
  | [] => some []

/-- The `while` loop of `compute_merkle_root_only`, `none` also if the fuel runs out. -/
def rootLoop : Nat → List Hash256 → Option Hash256
  | 0, leaves => if 1 < leaves.length then none else leaves.head?
  | fuel + 1, leaves =>
    if 1 < leaves.length then
      (pairHashes leaves).bind fun next =>
        rootLoop fuel (if 1 < next.length then Merkle.pad next else next)
    else leaves.head?

/-- `compute_merkle_root_only`, `none` if it panics. -/
def computeMerkleRootOnly (leaves : List Hash256) : Option Hash256 :=
  match leaves with
  | [] => some .zero
  | [leaf] => some leaf
  | leaves => rootLoop leaves.length (Merkle.pad leaves)

theorem pairHashes_even {l : List Hash256} (h : l.length % 2 = 0) :
    pairHashes l = some (parents hashPair l) := by
  fun_induction parents hashPair l with
  | case1 left right rest ih =>
    rw [length_cons, length_cons] at h
    rw [pairHashes, ih (by omega), Option.map_some]
  | case2 a => cases h
  | case3 => rfl

/-- The loop ends in the root of the tree: a level it meets is single or of even length. -/
theorem rootLoop_eq {fuel : Nat} {l : List Hash256} (heven : l.length % 2 = 0 ∨ l.length = 1)
    (hfuel : l.length ≤ fuel + 1) :
    rootLoop fuel l = (climb hashPair fuel l).getLast?.bind List.head? := by
  induction fuel generalizing l with
  | zero =>
    rw [rootLoop, if_neg (by omega)]
    rfl
  | succ fuel ih =>
    rw [rootLoop, climb]
    split
    · next hlong =>
        have hless := (length_above hashPair hlong).2
        have hsome := Merkle.getLast?_climb hashPair (length_above hashPair hlong).1
          (show (above hashPair l).length ≤ fuel + 1 by omega)
        obtain ⟨top, htop⟩ := hsome
        rw [pairHashes_even (by omega), Option.bind_some, List.getLast?_cons, ← above, ih ?_ (by omega), htop]
        · rfl
        · rw [above]
          split
          · rw [length_pad]
            omega
          · omega
    · rfl

/-- **Two roots of a block.**  The root without the tree is the tree's root unless the block
    has a single transaction, whose hash it returns unhashed. -/
theorem computeMerkleRootOnly_eq_iff (leaves : List Hash256) :
    computeMerkleRootOnly leaves = some (MerkleTree.fromLeaves leaves).root ↔
      ∀ leaf, leaves = [leaf] → leaf = hashPair leaf leaf := by
  rw [MerkleTree.root_fromLeaves]
  match leaves with
  | [] => simp [computeMerkleRootOnly, Merkle.root]
  | [leaf] => simp [computeMerkleRootOnly, Merkle.root, levels, climb, pad, above, parents]
  | first :: second :: rest =>
    have hpad := length_pad (first :: second :: rest)
    have hloop : rootLoop _ _ = (levels hashPair (first :: second :: rest)).getLast?.bind _ :=
      rootLoop_eq (by omega) (by omega)
    obtain ⟨top, htop⟩ := Merkle.getLast?_levels hashPair (cons_ne_nil first (second :: rest))
    rw [computeMerkleRootOnly, hloop, Merkle.root, htop]
    all_goals simp

end RootOnly

/-- A block of one transaction. -/
theorem computeMerkleRootOnly_single :
    letI := concreteCrypto
    computeMerkleRootOnly [.zero] ≠ some (MerkleTree.fromLeaves [.zero]).root := by
  decide +kernel

end ArcChain
