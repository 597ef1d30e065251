/-
DAG blocks, their content hashes and the canonical transaction ordering
(`arc-consensus/src/lib.rs`, `ConsensusDomain` and `DagBlock`).

A block's hash covers the concatenation of its parents and its
transactions with no separator between the two lists; it is the ordering
commitment that fixes where one ends and the other begins
(`CollisionFree.eq_of_hash_eq`).  `CollisionFree` says that BLAKE3 has no collision
among the byte strings hashed for a given collection of blocks, which is
all that the consensus proofs ask of it.
-/
import ArcChain.Crypto.Concrete

namespace ArcChain

open Word List Hash256

/-- The recovery domain that proposals and votes are bound to. -/
structure ConsensusDomain where
  domainHash : Hash256
  recoveryEpoch : Nat
  validatorSetId : Nat
deriving DecidableEq, Repr

structure DagBlock where
  author : Address
  round : Nat
  parents : List Hash256
  transactions : List Hash256
  timestamp : Nat
  hash : Hash256
  signature : List UInt8
  orderingCommitment : Hash256
deriving DecidableEq, Repr

namespace DagBlock

/-- What both hash functions feed to the hasher after their own header. -/
def contentBytes (b : DagBlock) : List UInt8 :=
  b.author.toBytes ++ leBytes 8 b.round ++ b.parents.flatMap Hash256.toBytes ++
    b.transactions.flatMap Hash256.toBytes ++ leBytes 8 b.timestamp ++
    b.orderingCommitment.toBytes

def domainHeader (domain : ConsensusDomain) : List UInt8 :=
  domain.domainHash.toBytes ++ beBytes 8 domain.recoveryEpoch ++ beBytes 8 domain.validatorSetId

def orderingBytes (transactions : List Hash256) : List UInt8 :=
  transactions.flatMap Hash256.toBytes

section Hashing

variable [Crypto]

def computeHash (b : DagBlock) : Hash256 :=
  Crypto.blake3DeriveKey "ARC-dag-block-v1" b.contentBytes

def computeHashInDomain (b : DagBlock) (domain : ConsensusDomain) : Hash256 :=
  Crypto.blake3DeriveKey "ARC-dag-block-v3" (domainHeader domain ++ b.contentBytes)

def computeOrderingCommitment (transactions : List Hash256) : Hash256 :=
  Crypto.blake3DeriveKey "ARC-ordering-commitment-v1" (orderingBytes transactions)

/-- The hash that the engine computes and checks: in its domain, if it has one. -/
def hashFor (domain : Option ConsensusDomain) (b : DagBlock) : Hash256 :=
  match domain with
  | some domain => b.computeHashInDomain domain
  | none => b.computeHash

/-- `verify_hash`, or `verify_hash_in_domain` when a domain is installed. -/
def verifyHash (b : DagBlock) (domain : Option ConsensusDomain) : Bool :=
  b.hash = b.hashFor domain

/-- `windows(2).all(|w| w[0] <= w[1])`. -/
def isSorted : List Hash256 → Bool
  | x :: y :: rest => decide (x ≤ y) && isSorted (y :: rest)
  | _ => true

/-- Canonical order, and the commitment to it. -/
def verifyOrdering (b : DagBlock) : Bool :=
  isSorted b.transactions &&
    decide (b.orderingCommitment = computeOrderingCommitment b.transactions)

end Hashing

/-- `sort_by_key(|hash| hash.0)`. -/
def sortHashes (hashes : List Hash256) : List Hash256 :=
  hashes.insertionSort (· ≤ ·)

variable {hashes : List Hash256}

theorem mem_sortHashes {h : Hash256} : h ∈ sortHashes hashes ↔ h ∈ hashes := mem_insertionSort _

theorem isSorted_of_pairwise (h : hashes.Pairwise (· ≤ ·)) : isSorted hashes = true := by
  induction hashes with
  | nil => rfl
  | cons x rest ih =>
    cases rest with
    | nil => rfl
    | cons y rest =>
      rw [pairwise_cons] at h
      simp [isSorted, h.1 y mem_cons_self, ih h.2]

theorem isSorted_sortHashes (hashes : List Hash256) : isSorted (sortHashes hashes) = true :=
  isSorted_of_pairwise (pairwise_insertionSort _ _)

/-! ## What a hash determines -/

variable {b c : DagBlock}

/-- Equal bytes, with equal ordering commitments forced by the fixed-width tail. -/
theorem contentBytes_commitment (h : b.contentBytes = c.contentBytes) :
    b.orderingCommitment = c.orderingCommitment := by
  exact toBytes_injective (append_inj' h (by simp)).2

/-- The integers of the block are 64-bit. -/
def Fits (b : DagBlock) : Prop := b.round < 2 ^ 64 ∧ b.timestamp < 2 ^ 64

/-- Equal bytes force the fixed-width fields to agree, and the concatenation of the two
    lists. -/
theorem contentBytes_inj (hb : b.Fits) (hc : c.Fits) (h : b.contentBytes = c.contentBytes) :
    b.author = c.author ∧ b.round = c.round ∧
      b.parents ++ b.transactions = c.parents ++ c.transactions ∧ b.timestamp = c.timestamp := by
  -- peel the fixed-width tail from the right
  obtain ⟨h, -⟩ := append_inj' h (by simp)
  obtain ⟨h, hts⟩ := append_inj' h (by simp)
  -- what remains starts with the fixed-width author and round
  rw [append_assoc, append_assoc, append_assoc, append_assoc,
    ← flatMap_append, ← flatMap_append] at h
  obtain ⟨hauthor, h⟩ := append_inj h (by simp)
  obtain ⟨hr, hlinks⟩ := append_inj h (by simp)
  exact ⟨toBytes_injective hauthor, leBytes_inj hb.1 hc.1 hr,
    flatMap_inj (by decide : 0 < 32) length_toBytes toBytes_injective hlinks,
    leBytes_inj hb.2 hc.2 hts⟩

/-- The two blocks agree in everything their hash covers. -/
structure SameContents (b c : DagBlock) : Prop where
  author : b.author = c.author
  round : b.round = c.round
  parents : b.parents = c.parents
  transactions : b.transactions = c.transactions
  timestamp : b.timestamp = c.timestamp
  orderingCommitment : b.orderingCommitment = c.orderingCommitment

/-- Once the transactions agree, the concatenation of the two lists says where the parents end. -/
theorem sameContents_of_bytes (hb : b.Fits) (hc : c.Fits)
    (h : b.contentBytes = c.contentBytes) (htx : b.transactions = c.transactions) :
    SameContents b c := by
  obtain ⟨hauthor, hround, hlinks, htime⟩ := contentBytes_inj hb hc h
  rw [htx] at hlinks
  exact ⟨hauthor, hround, append_cancel_right hlinks, htx, htime, contentBytes_commitment h⟩

/-- The header of a domain determines it. -/
theorem domainHeader_inj {d d' : ConsensusDomain}
    (hd : d.recoveryEpoch < 2 ^ 64 ∧ d.validatorSetId < 2 ^ 64)
    (hd' : d'.recoveryEpoch < 2 ^ 64 ∧ d'.validatorSetId < 2 ^ 64)
    (h : domainHeader d = domainHeader d') : d = d' := by
  obtain ⟨h, hset⟩ := append_inj h (by simp)
  obtain ⟨hhash, hepoch⟩ := append_inj h (by simp)
  cases d
  cases d'
  simp only [ConsensusDomain.mk.injEq]
  exact ⟨toBytes_injective hhash, leBytes_inj hd.1 hd'.1 (reverse_injective hepoch),
    leBytes_inj hd.2 hd'.2 (reverse_injective hset)⟩

variable [Crypto]

/-- BLAKE3 has no collision among the strings hashed for the blocks of `S`, whose
    integers are 64-bit. -/
structure CollisionFree (domain : Option ConsensusDomain) (S : Set DagBlock) : Prop where
  fits : ∀ b ∈ S, b.Fits
  content : ∀ b ∈ S, ∀ c ∈ S, b.hashFor domain = c.hashFor domain →
    b.contentBytes = c.contentBytes
  ordering : ∀ b ∈ S, ∀ c ∈ S,
    computeOrderingCommitment b.transactions = computeOrderingCommitment c.transactions →
      orderingBytes b.transactions = orderingBytes c.transactions

variable {domain : Option ConsensusDomain}

theorem CollisionFree.mono {S S' : Set DagBlock}
    (h : CollisionFree domain S') (hsub : S ⊆ S') : CollisionFree domain S where
  fits b hb := h.fits b (hsub hb)
  content b hb c hc := h.content b (hsub hb) c (hsub hc)
  ordering b hb c hc := h.ordering b (hsub hb) c (hsub hc)

/-- A block that passes both content checks of the engine. -/
structure WellFormed (domain : Option ConsensusDomain) (b : DagBlock) : Prop where
  hash : b.verifyHash domain = true
  ordering : b.verifyOrdering = true

/-- The ordering commitments of two blocks in canonical order determine their transactions. -/
theorem transactions_eq_of_commitment (hb : b.verifyOrdering = true)
    (hc : c.verifyOrdering = true) (hcommit : b.orderingCommitment = c.orderingCommitment)
    (hordering :
      computeOrderingCommitment b.transactions = computeOrderingCommitment c.transactions →
        orderingBytes b.transactions = orderingBytes c.transactions) :
    b.transactions = c.transactions := by
  simp only [verifyOrdering, Bool.and_eq_true, decide_eq_true_eq] at hb hc
  exact flatMap_inj (by decide : 0 < 32) length_toBytes toBytes_injective
    (hordering (by rw [← hb.2, ← hc.2, hcommit]))

/-- **A hash determines the block up to its signature.** -/
theorem CollisionFree.eq_of_hash_eq {S : Set DagBlock}
    (h : CollisionFree domain S) (hb : b ∈ S) (hc : c ∈ S)
    (hbw : b.WellFormed domain) (hcw : c.WellFormed domain) (heq : b.hash = c.hash) :
    b = { c with signature := b.signature } := by
  have hbh : b.hash = b.hashFor domain := by simpa [verifyHash] using hbw.hash
  have hch : c.hash = c.hashFor domain := by simpa [verifyHash] using hcw.hash
  have hbytes : b.contentBytes = c.contentBytes := h.content b hb c hc (by rw [← hbh, ← hch, heq])
  have hcommit := contentBytes_commitment hbytes
  have htx : b.transactions = c.transactions :=
    transactions_eq_of_commitment hbw.ordering hcw.ordering hcommit (h.ordering b hb c hc)
  have hsame := sameContents_of_bytes (h.fits b hb) (h.fits c hc) hbytes htx
  obtain ⟨hauthor, hround, hparents, -, htime, -⟩ := hsame
  cases b
  subst heq hcommit htx hauthor hround hparents htime
  rfl

/-! ## Two blocks, whatever their domains -/

/-- In each derive-key context BLAKE3 is injective on the strings hashed there for the two blocks,
    `b` in the domain `d` and `c` in the domain `d'`. -/
structure ContextsInjective (b c : DagBlock) (d d' : ConsensusDomain) : Prop where
  block : b.computeHash = c.computeHash → b.contentBytes = c.contentBytes
  domain : b.computeHashInDomain d = c.computeHashInDomain d' →
    domainHeader d ++ b.contentBytes = domainHeader d' ++ c.contentBytes
  ordering :
    computeOrderingCommitment b.transactions = computeOrderingCommitment c.transactions →
      orderingBytes b.transactions = orderingBytes c.transactions

/-- **A block's identity binds its contents.**  Two blocks in canonical order with the same hash
    agree in every field the hash covers, and with the same hash in any two domains they also
    agree in the domain. -/
theorem hash_binds_contents {b c : DagBlock} {d d' : ConsensusDomain} (hb : b.Fits) (hc : c.Fits)
    (hd : d.recoveryEpoch < 2 ^ 64 ∧ d.validatorSetId < 2 ^ 64)
    (hd' : d'.recoveryEpoch < 2 ^ 64 ∧ d'.validatorSetId < 2 ^ 64)
    (hbo : b.verifyOrdering = true) (hco : c.verifyOrdering = true)
    (hinj : ContextsInjective b c d d') :
    (b.computeHash = c.computeHash → SameContents b c) ∧
      (b.computeHashInDomain d = c.computeHashInDomain d' → d = d' ∧ SameContents b c) := by
  have hcontents : b.contentBytes = c.contentBytes → SameContents b c := fun hbytes =>
    sameContents_of_bytes hb hc hbytes
      (transactions_eq_of_commitment hbo hco (contentBytes_commitment hbytes) hinj.ordering)
  refine ⟨fun heq => hcontents (hinj.block heq), fun heq => ?_⟩
  obtain ⟨hheader, hbytes⟩ := append_inj (hinj.domain heq) (by simp [domainHeader])
  exact ⟨domainHeader_inj hd hd' hheader, hcontents hbytes⟩

end DagBlock

namespace SampleBlock

/-- A block with one parent and one transaction. -/
def block : DagBlock :=
  letI := concreteCrypto
  { author := ⟨1⟩, round := 3, parents := [⟨7⟩], transactions := [⟨9⟩], timestamp := 5,
    hash := .zero, signature := [], orderingCommitment := DagBlock.computeOrderingCommitment [⟨9⟩] }

/-- The block, signed anew. -/
def signed : DagBlock := { block with signature := [1] }

def domain : ConsensusDomain := ⟨⟨2⟩, 1, 1⟩

end SampleBlock

/-- The signature is not part of the identity: a block signed anew has the same contents. -/
theorem hash_binds_contents_signed_anew :
    letI := concreteCrypto
    SampleBlock.block.verifyOrdering = true ∧
      SampleBlock.signed.verifyOrdering = true ∧
      DagBlock.SameContents SampleBlock.block SampleBlock.signed := by
  let _ : Crypto := concreteCrypto
  have hordering : SampleBlock.block.verifyOrdering = true := by decide +kernel
  have hsigned : SampleBlock.signed.verifyOrdering = true := by decide +kernel
  have hdomain : SampleBlock.domain.recoveryEpoch < 2 ^ 64 ∧
      SampleBlock.domain.validatorSetId < 2 ^ 64 := by decide
  have hinj : DagBlock.ContextsInjective SampleBlock.block SampleBlock.signed SampleBlock.domain
      SampleBlock.domain := ⟨fun _ => rfl, fun _ => rfl, fun _ => rfl⟩
  refine ⟨hordering, hsigned, (DagBlock.hash_binds_contents ?_ ?_ hdomain hdomain hordering hsigned
    hinj).1 rfl⟩
  · exact ⟨by decide, by decide⟩
  · exact ⟨by decide, by decide⟩

end ArcChain
