/-
The simplified JMT state tree (`jmt_store.rs`): a Merkle tree over the
account hashes in address order, with a cached root, and its inclusion
proofs.

A level of odd length passes its last node up unhashed, but the prover
writes a zero sibling for that node, which the verifier hashes in.  So a
proof verifies where no level leaves the node of the leaf unpaired.
-/
import ArcChain.Crypto.Concrete
import ArcChain.Lib.FinMap

namespace ArcChain

open List

section Model

variable [Crypto]

structure JmtStateTree where
  leaves : FinMap Address Hash256
  root : Hash256
  dirty : Bool
  version : Nat

structure JmtProof where
  leafHash : Hash256
  siblings : List Hash256
  leafIndex : Nat

/-- An inner node. -/
def jmtPair (left right : Hash256) : Hash256 :=
  Crypto.blake3DeriveKey "arc-jmt-internal-v1" (left.toBytes ++ right.toBytes)

/-- The hash `verify` climbs to. -/
def JmtProof.climb (current : Hash256) (index : Nat) : List Hash256 → Hash256
  | [] => current
  | sibling :: rest =>
    climb (if index % 2 = 0 then jmtPair current sibling else jmtPair sibling current)
      (index / 2) rest

def JmtProof.verify (proof : JmtProof) (root : Hash256) : Bool :=
  decide (climb proof.leafHash proof.leafIndex proof.siblings = root)

namespace JmtStateTree

def new : JmtStateTree := ⟨∅, .zero, false, 0⟩

def updateLeaf (t : JmtStateTree) (address : Address) (accountHash : Hash256) : JmtStateTree :=
  { t with leaves := FinMap.set t.leaves address (some accountHash), dirty := true }

def batchUpdate (t : JmtStateTree) (changes : List (Address × Hash256)) : JmtStateTree :=
  { t with
    leaves := changes.foldl (fun leaves e => FinMap.set leaves e.1 (some e.2)) t.leaves
    dirty := t.dirty || !changes.isEmpty }

def removeLeaf (t : JmtStateTree) (address : Address) : JmtStateTree :=
  { t with leaves := FinMap.set t.leaves address none, dirty := true }

/-- The leaves sorted by address. -/
def sortedLeaves (t : JmtStateTree) : List (Address × Hash256) := FinMap.toSortedList t.leaves

def leafHashes (t : JmtStateTree) : List Hash256 :=
  t.sortedLeaves.map fun e =>
    Crypto.blake3DeriveKey "arc-jmt-leaf-v1" (e.1.toBytes ++ e.2.toBytes)

/-- The level above, chunk by chunk; a single node at the end is promoted. -/
def nextLevel (level : List Hash256) : List Hash256 :=
  (List.range ((level.length + 1) / 2)).map fun k =>
    if 2 * k + 1 < level.length then jmtPair (level.getD (2 * k) .zero) (level.getD (2 * k + 1) .zero)
    else level.getD (2 * k) .zero

/-- The loop of `merkle_root_from_hashes`, `none` if there is no node or the fuel runs out. -/
def climbLevels : Nat → List Hash256 → Option Hash256
  | 0, level => if 1 < level.length then none else level.head?
  | fuel + 1, level =>
    if 1 < level.length then climbLevels fuel (nextLevel level) else level.head?

def merkleRootFromHashes (hashes : List Hash256) : Hash256 :=
  (climbLevels hashes.length hashes).getD .zero

def recomputeRoot (t : JmtStateTree) : JmtStateTree :=
  { t with root := merkleRootFromHashes t.leafHashes, dirty := false, version := t.version + 1 }

def refreshed (t : JmtStateTree) : JmtStateTree := if t.dirty then t.recomputeRoot else t

def rootHash (t : JmtStateTree) : Hash256 × JmtStateTree := (t.refreshed.root, t.refreshed)

/-- Zero stands for a missing sibling. -/
def collectSiblings : Nat → List Hash256 → Nat → List Hash256
  | 0, _, _ => []
  | fuel + 1, level, index =>
    if 1 < level.length then
      level.getD (if index % 2 = 0 then index + 1 else index - 1) .zero ::
        collectSiblings fuel (nextLevel level) (index / 2)
    else []

def proof (t : JmtStateTree) (address : Address) : Option JmtProof × JmtStateTree :=
  if t.leaves.lookup address = none then (none, t)
  else
    ((t.sortedLeaves.findIdx? fun e => e.1 = address).map fun leafIndex =>
      { leafHash := t.leafHashes.getD leafIndex .zero
        siblings := collectSiblings t.leafHashes.length t.leafHashes leafIndex
        leafIndex }, t.refreshed)

/-! ## Reached trees -/

/-- The calls that change a tree. -/
inductive Call where
  | updateLeaf (address : Address) (accountHash : Hash256)
  | batchUpdate (changes : List (Address × Hash256))
  | removeLeaf (address : Address)
  | rootHash
  | proof (address : Address)

def call (t : JmtStateTree) : Call → JmtStateTree
  | .updateLeaf address accountHash => t.updateLeaf address accountHash
  | .batchUpdate changes => t.batchUpdate changes
  | .removeLeaf address => t.removeLeaf address
  | .rootHash => t.rootHash.2
  | .proof address => (t.proof address).2

/-- A root that is not marked dirty is the root of the leaves. -/
def Cached (t : JmtStateTree) : Prop := t.dirty = false → t.root = merkleRootFromHashes t.leafHashes

variable {t : JmtStateTree}

theorem Cached.root_refreshed (h : t.Cached) :
    t.refreshed.root = merkleRootFromHashes t.leafHashes := by
  unfold refreshed
  split
  · rfl
  · rename_i hclean
    exact h (Bool.not_eq_true _ ▸ hclean)

theorem Cached.refreshed (h : t.Cached) : t.refreshed.Cached := by
  unfold JmtStateTree.refreshed
  split
  · exact fun _ => rfl
  · exact h

theorem Cached.call (h : t.Cached) (c : Call) : (t.call c).Cached := by
  cases c with
  | updateLeaf | removeLeaf => exact fun hclean => absurd hclean Bool.noConfusion
  | batchUpdate changes =>
    cases changes with
    | nil => exact fun hclean => h (by simpa [JmtStateTree.call, batchUpdate] using hclean)
    | cons e rest => exact fun hclean => by simp [JmtStateTree.call, batchUpdate] at hclean
  | rootHash => exact h.refreshed
  | proof address =>
    rw [JmtStateTree.call, JmtStateTree.proof]
    split
    · exact h
    · exact h.refreshed

theorem Cached.calls (h : t.Cached) (calls : List Call) :
    (calls.foldl JmtStateTree.call t).Cached := by
  induction calls generalizing t with
  | nil => exact h
  | cons c rest ih => exact ih (h.call c)

/-! ## Proofs of paired leaves -/

/-- On a level of `n` nodes and on those above it the node over index `i` has a sibling. -/
def Paired (n i : Nat) : Prop :=
  if 1 < n then ¬ (n % 2 = 1 ∧ i + 1 = n) ∧ Paired ((n + 1) / 2) (i / 2) else True
termination_by n

theorem length_nextLevel (level : List Hash256) :
    (nextLevel level).length = (level.length + 1) / 2 := by
  simp [nextLevel]

section

variable {level : List Hash256} {i : Nat} (hi : i < level.length)
include hi

/-- The parent of a paired node. -/
theorem getD_nextLevel (hpaired : ¬ (level.length % 2 = 1 ∧ i + 1 = level.length)) :
    (nextLevel level).getD (i / 2) .zero =
      if i % 2 = 0 then jmtPair (level.getD i .zero) (level.getD (i + 1) .zero)
      else jmtPair (level.getD (i - 1) .zero) (level.getD i .zero) := by
  have hk : i / 2 < (nextLevel level).length := by
    rw [length_nextLevel]
    omega
  rw [getD_eq_getElem _ _ hk]
  simp only [nextLevel, getElem_map, getElem_range]
  rw [if_pos (by omega)]
  split
  · rw [show 2 * (i / 2) = i by omega]
  · rw [show 2 * (i / 2) = i - 1 by omega, show i - 1 + 1 = i by omega]

/-- From a paired node the collected siblings lead to the root. -/
theorem climb_collectSiblings {fuel : Nat} (hfuel : level.length ≤ fuel + 1) (hpaired : Paired level.length i) :
    climbLevels fuel level =
      some (JmtProof.climb (level.getD i .zero) i (collectSiblings fuel level i)) := by
  induction fuel generalizing level i with
  | zero =>
    obtain ⟨node, rfl⟩ := length_eq_one_iff.mp (show level.length = 1 by omega)
    obtain rfl := Nat.lt_one_iff.mp hi
    rfl
  | succ fuel ih =>
    rw [climbLevels, collectSiblings]
    split
    · rename_i hlong
      rw [Paired, if_pos hlong] at hpaired
      have hlen := length_nextLevel level
      rw [ih (i := i / 2) (by omega) (by omega) (hlen ▸ hpaired.2),
        getD_nextLevel hi hpaired.1, JmtProof.climb]
      by_cases heven : i % 2 = 0
      · simp only [heven, if_true]
      · simp only [heven, if_false]
    · obtain ⟨node, rfl⟩ := length_eq_one_iff.mp (show level.length = 1 by omega)
      obtain rfl := Nat.lt_one_iff.mp hi
      rfl

end

/-- **Proofs of a state tree.**  After every sequence of calls the proof of an address whose
    leaf is paired on all levels verifies against the root. -/
theorem proof_verifies (calls : List Call) {i : Nat} {address : Address} {accountHash : Hash256}
    (hi : (calls.foldl call new).sortedLeaves[i]? = some (address, accountHash))
    (hpaired : Paired (calls.foldl call new).sortedLeaves.length i) :
    ∃ proof, ((calls.foldl call new).proof address).1 = some proof ∧
      proof.verify (calls.foldl call new).rootHash.1 = true := by
  have hcached : (calls.foldl call new).Cached := Cached.calls (fun _ => rfl) calls
  generalize calls.foldl call new = t at *
  obtain ⟨hlt, hget⟩ := List.getElem?_eq_some_iff.mp hi
  have hlen : t.leafHashes.length = t.sortedLeaves.length := length_map ..
  have hfind : (t.sortedLeaves.findIdx? fun e => e.1 = address) = some i := by
    refine List.findIdx?_eq_some_iff_getElem.mpr ⟨hlt, by simp [hget], fun j hj => ?_⟩
    have hless := pairwise_iff_getElem.mp (FinMap.toSortedList_pairwise t.leaves) j i
      (hj.trans hlt) hlt hj
    have hkey : t.sortedLeaves[i].1 = address := congrArg Prod.fst hget
    exact fun h => ne_of_lt hless ((of_decide_eq_true h).trans hkey.symm)
  have hmem : t.leaves.lookup address ≠ none := by
    rw [FinMap.lookup_decEq _ _ address t.leaves, FinMap.mem_toSortedList.mp (mem_of_getElem? hi)]
    exact Option.some_ne_none _
  rw [JmtStateTree.proof, if_neg hmem, hfind]
  refine ⟨_, rfl, decide_eq_true ?_⟩
  rw [rootHash, hcached.root_refreshed, merkleRootFromHashes,
    climb_collectSiblings (hlen ▸ hlt) (Nat.le_succ _) (hlen ▸ hpaired)]
  rfl

end JmtStateTree

end Model

namespace SampleJmt

open JmtStateTree

def three : List Call := [.batchUpdate [(⟨1⟩, ⟨7⟩), (⟨2⟩, ⟨8⟩), (⟨3⟩, ⟨9⟩)]]

/-- The last of three leaves is unpaired. -/
theorem proof_third_fails :
    letI := concreteCrypto
    ((three.foldl call new).proof ⟨3⟩).1.map
      (JmtProof.verify · (three.foldl call new).rootHash.1) = some false := by
  decide +kernel

theorem proof_second_verifies :
    letI := concreteCrypto
    ∃ proof, ((three.foldl call new).proof ⟨2⟩).1 = some proof ∧
      proof.verify (three.foldl call new).rootHash.1 = true := by
  let _ : Crypto := concreteCrypto
  have hlen : (three.foldl call new).sortedLeaves.length = 3 := by decide +kernel
  have hsecond : (three.foldl call new).sortedLeaves[1]? = some (⟨2⟩, ⟨8⟩) := by decide +kernel
  exact proof_verifies three hsecond (by simp [hlen, Paired])

end SampleJmt

end ArcChain
