/-
Verification of light-client bundles (`arc-state/src/light_client.rs`).

A bundle carries a header, a finality certificate for it and a state
proof, which names an address, an account record and a Merkle path.  The
verifier ties the record to the header's state root and the certificate
to the header; it never compares the address the proof names with the
address in the record.  So an accepted bundle proves the record, and it
proves it of the named address exactly if the two addresses agree
(`accepted_bundle_reports_stored_account_iff`).
-/
import ArcChain.Native.AccountTree
import ArcChain.Native.Concrete
import ArcChain.Consensus.ValidatorSet
import ArcChain.Crypto.MerkleTree

namespace ArcChain

open Word List

/-! ## Proofs and certificates -/

structure MerkleProof where
  leaf : Hash256
  index : Nat
  /-- The siblings from the leaf to the root, with the flag of a left sibling. -/
  siblings : List (Hash256 × Bool)
  root : Hash256

structure StateProof where
  accountAddress : Hash256
  account : Account
  merkleProof : MerkleProof
  blockHeight : Nat
  stateRoot : Hash256
  timestamp : Nat

structure HeaderProof where
  header : BlockHeader
  validatorSignature : Option Bytes
  parentHash : Hash256

structure TxInclusionProof where
  txHash : Hash256
  blockHeight : Nat
  merkleProof : MerkleProof
  blockTxRoot : Hash256

structure ValidatorAttestation where
  validatorAddress : Address
  stake : Nat
  signatureBytes : Bytes

structure TrustedValidator where
  validatorAddress : Address
  stake : Nat

structure FinalityProof where
  blockHash : Hash256
  round : Nat
  blockHeight : Nat
  stateRoot : Hash256
  quorumSignatures : List ValidatorAttestation
  totalStake : Nat
  signingStake : Nat

structure LightClientBundle where
  finalityProof : FinalityProof
  stateProof : StateProof
  headerProof : HeaderProof

/-- The stake of distinct members, `none` at a repeated address or an overflow.  The loop
    of `checked_attestation_stake` and the one over the trusted set. -/
def distinctStakeFrom (seen : List Address) (total : Nat) : List (Address × Nat) → Option Nat
  | [] => some total
  | (address, stake) :: rest =>
    if address ∈ seen then none
    else
      match checkedAdd total stake with
      | none => none
      | some total => distinctStakeFrom (address :: seen) total rest

def checkedAttestationStake (attestations : List ValidatorAttestation) : Option Nat :=
  distinctStakeFrom [] 0 (attestations.map fun a => (a.validatorAddress, a.stake))

def verifyFinalityStake (signingStake totalStake : Nat) : Bool :=
  decide (0 < totalStake ∧ signingStake ≤ totalStake ∧
    strictSupermajorityThreshold totalStake ≤ signingStake)

def FinalityProof.isStructurallyValid (proof : FinalityProof) : Bool :=
  if proof.quorumSignatures = [] then false
  else
    match checkedAttestationStake proof.quorumSignatures with
    | none => false
    | some computedStake =>
      if computedStake ≠ proof.signingStake then false
      else verifyFinalityStake proof.signingStake proof.totalStake

section Verify

variable [NativeExternals]

/-- `MerkleTree::verify_proof`. -/
def MerkleProof.verify (proof : MerkleProof) : Bool :=
  decide (Merkle.follow hashPair proof.leaf proof.siblings = proof.root)

def verifyStateProof (proof : StateProof) : Bool :=
  if proof.merkleProof.root ≠ proof.stateRoot then false
  else if proof.merkleProof.leaf ≠ hashBytes proof.account.serialize then false
  else proof.merkleProof.verify

def verifyTxInclusion (proof : TxInclusionProof) : Bool :=
  if proof.merkleProof.root ≠ proof.blockTxRoot then false
  else if proof.merkleProof.leaf ≠ proof.txHash then false
  else proof.merkleProof.verify

namespace FinalityProof

def signingHash (proof : FinalityProof) : Hash256 :=
  Crypto.blake3DeriveKey "ARC-light-client-finality-v1"
    (proof.blockHash.toBytes ++ leBytes 8 proof.round ++ leBytes 8 proof.blockHeight ++
      proof.stateRoot.toBytes ++ leBytes 8 proof.totalStake)

/-- One attestation: a trusted member with this stake, and its signature. -/
def attestationVerifies (trusted : List TrustedValidator) (signingHash : Hash256)
    (attestation : ValidatorAttestation) : Bool :=
  match trusted.find? fun v => v.validatorAddress = attestation.validatorAddress with
  | none => false
  | some validator =>
    if validator.stake ≠ attestation.stake then false
    else if 8 * 1024 < attestation.signatureBytes.length then false
    else
      match Crypto.deserializeSignature attestation.signatureBytes with
      | none => false
      | some signature => Crypto.verify signature signingHash attestation.validatorAddress

def verifyAgainstTrustedSet (proof : FinalityProof) (trusted : List TrustedValidator) : Bool :=
  if !proof.isStructurallyValid || trusted.isEmpty then false
  else
    match distinctStakeFrom [] 0 (trusted.map fun v => (v.validatorAddress, v.stake)) with
    | none => false
    | some trustedTotal =>
      if trustedTotal ≠ proof.totalStake then false
      else proof.quorumSignatures.all (attestationVerifies trusted proof.signingHash)

end FinalityProof

def LightClientBundle.verifyComplete (bundle : LightClientBundle)
    (trusted : List TrustedValidator) : Bool :=
  let finality := bundle.finalityProof
  let state := bundle.stateProof
  let proof := bundle.headerProof
  if !finality.verifyAgainstTrustedSet trusted then false
  else if !verifyStateProof state then false
  else if finality.stateRoot ≠ state.stateRoot then false
  else if proof.header.stateRoot ≠ finality.stateRoot then false
  else if finality.blockHash ≠ Block.computeHash proof.header ∨
      proof.parentHash ≠ proof.header.parentHash ∨
      finality.blockHeight ≠ state.blockHeight ∨
      finality.blockHeight ≠ proof.header.height ∨
      state.timestamp ≠ proof.header.timestamp then false
  else true

/-! ## What acceptance means -/

theorem verifyStateProof_iff {proof : StateProof} : verifyStateProof proof = true ↔
      proof.merkleProof.root = proof.stateRoot ∧
        proof.merkleProof.leaf = hashBytes proof.account.serialize ∧
        Merkle.follow hashPair proof.merkleProof.leaf proof.merkleProof.siblings =
          proof.merkleProof.root := by
  unfold verifyStateProof MerkleProof.verify
  split
  · next hroot => simp [hroot]
  split
  · next hleaf => simp [hleaf]
  · next hleaf => simp_all

variable {trusted : List TrustedValidator} {bundle : LightClientBundle}

/-- An accepted bundle's path leads from its record to the header's state root. -/
theorem LightClientBundle.path_of_verifyComplete (h : bundle.verifyComplete trusted = true) :
    Merkle.follow hashPair (hashBytes bundle.stateProof.account.serialize)
      bundle.stateProof.merkleProof.siblings = bundle.headerProof.header.stateRoot := by
  unfold verifyComplete at h
  dsimp only at h
  split at h
  · cases h
  split at h
  · cases h
  rename_i hstate
  split at h
  · cases h
  rename_i hfinality
  split at h
  · cases h
  rename_i hheader
  rw [Bool.not_eq_true, Bool.not_eq_false'] at hstate
  rw [not_not] at hfinality hheader
  obtain ⟨hroot, hleaf, hpath⟩ := verifyStateProof_iff.mp hstate
  rw [hheader, hfinality, ← hroot, ← hpath, hleaf]

/-- The strings the verifier hashes for the state proof. -/
def StateProof.strings (proof : StateProof) : List Bytes :=
  proof.account.serialize ::
    (Merkle.followPairs hashPair (hashBytes proof.account.serialize)
      proof.merkleProof.siblings).map pairBytes

/-- The reported record is an account of the committed state, filed under its own
    address. -/
theorem LightClientBundle.record_stored {accounts : FinMap Address Account}
    (haccept : bundle.verifyComplete trusted = true)
    (hroot : bundle.headerProof.header.stateRoot = NativeDb.accountRoot accounts)
    (hfiled : FiledAccounts accounts) (hfits : bundle.stateProof.account.Fits)
    (hhash : HashApart { s | s ∈ bundle.stateProof.strings ∨
      s ∈ NativeDb.accountStrings (accountsInOrder accounts) }) :
    accounts.lookup bundle.stateProof.account.address = some bundle.stateProof.account := by
  have hpath := path_of_verifyComplete haccept
  have hlist : NativeDb.accountRoot accounts =
      NativeDb.accountListRoot (accountsInOrder accounts) := by
    rw [NativeDb.accountListRoot, accountsInOrder, map_map]
    rfl
  rw [hroot, hlist] at hpath
  have hmem : bundle.stateProof.account ∈ accountsInOrder accounts := by
    refine NativeDb.mem_accounts_of_path hhash (fun s hs => Or.inr hs) ?_ ?_ hfits ?_ hpath
    · intro account haccount
      obtain ⟨a, hlookup⟩ := mem_accountsInOrder.mp haccount
      exact hfiled.fits a account hlookup
    · exact Or.inl mem_cons_self
    · exact fun pair hpair => Or.inl (mem_cons_of_mem _ (mem_map_of_mem hpair))
  obtain ⟨a, hlookup⟩ := mem_accountsInOrder.mp hmem
  rw [hfiled.filed a _ hlookup]
  exact hlookup

/-- **Accepted bundles.**  For every accepted bundle and every state with the root its
    header commits, the reported account is the one stored under the named address
    exactly if the named address is the account's own. -/
theorem accepted_bundle_reports_stored_account_iff (bundle : LightClientBundle)
    (trusted : List TrustedValidator) (accounts : FinMap Address Account)
    (haccept : bundle.verifyComplete trusted = true)
    (hroot : bundle.headerProof.header.stateRoot = NativeDb.accountRoot accounts)
    (hfiled : FiledAccounts accounts) (hfits : bundle.stateProof.account.Fits)
    (hhash : HashApart { s | s ∈ bundle.stateProof.strings ∨
      s ∈ NativeDb.accountStrings (accountsInOrder accounts) }) :
    accounts.lookup bundle.stateProof.accountAddress = some bundle.stateProof.account ↔
      bundle.stateProof.accountAddress = bundle.stateProof.account.address := by
  have hstored := LightClientBundle.record_stored haccept hroot hfiled hfits hhash
  constructor
  · intro hlookup
    exact (hfiled.filed _ _ hlookup).symm
  · intro haddress
    rw [haddress]
    exact hstored

end Verify

/-! ## A forged bundle -/

namespace Sample

/-- A state with two accounts. -/
def twoAccounts : FinMap Address Account :=
  FinMap.ofList [(address 1, account 1 100 0), (address 2, account 2 5 0)]

/-- A header that commits the two accounts. -/
def committedHeader : BlockHeader :=
  letI := concreteNative
  { height := 9
    timestamp := 4
    parentHash := address 8
    txRoot := .zero
    stateRoot := NativeDb.accountRoot twoAccounts
    proofHash := .zero
    txCount := 0
    producer := address 7
    protocolVersion := .genesis
    stateDiff := none }

/-- The certificate of the only trusted validator. -/
def committedFinality : FinalityProof :=
  letI := concreteNative
  let unsigned : FinalityProof :=
    { blockHash := Block.computeHash committedHeader
      round := 3
      blockHeight := 9
      stateRoot := committedHeader.stateRoot
      quorumSignatures := []
      totalStake := 10
      signingStake := 10 }
  { unsigned with
    quorumSignatures :=
      [{ validatorAddress := address 7
         stake := 10
         signatureBytes := Concrete.encode (Concrete.signature (address 7) unsigned.signingHash) }] }

/-- A bundle with the second account's record and path, under a name. -/
def bundleNaming (name : Address) : LightClientBundle :=
  letI := concreteNative
  { finalityProof := committedFinality
    stateProof :=
      { accountAddress := name
        account := account 2 5 0
        merkleProof :=
          { leaf := NativeDb.accountLeaf (account 2 5 0)
            index := 1
            siblings := [(NativeDb.accountLeaf (account 1 100 0), true)]
            root := committedHeader.stateRoot }
        blockHeight := 9
        stateRoot := committedHeader.stateRoot
        timestamp := 4 }
    headerProof :=
      { header := committedHeader, validatorSignature := none, parentHash := address 8 } }

def trustedSet : List TrustedValidator := [{ validatorAddress := address 7, stake := 10 }]

/-- The record of the second account is accepted as the state of the first one, which
    holds another balance. -/
theorem forged_bundle_accepted :
    letI := concreteNative
    (bundleNaming (address 1)).verifyComplete trustedSet = true ∧
      (bundleNaming (address 1)).headerProof.header.stateRoot = NativeDb.accountRoot twoAccounts ∧
      (bundleNaming (address 1)).stateProof.accountAddress = address 1 ∧
      (bundleNaming (address 1)).stateProof.account.balance = 5 ∧
      twoAccounts.lookup (address 1) = some (account 1 100 0) := by
  decide +kernel

theorem twoAccounts_filed : FiledAccounts twoAccounts := by
  have hcases : ∀ a acct, twoAccounts.lookup a = some acct →
      (a, acct) = (address 1, account 1 100 0) ∨ (a, acct) = (address 2, account 2 5 0) := by
    intro a acct hlookup
    have hmem := FinMap.mem_toSortedList.mpr ((FinMap.lookup_decEq _ _ a twoAccounts).trans hlookup)
    have hlist : FinMap.toSortedList twoAccounts =
        [(address 1, account 1 100 0), (address 2, account 2 5 0)] := by decide +kernel
    rw [hlist] at hmem
    simpa using hmem
  constructor
  · intro a acct hlookup
    rcases hcases a acct hlookup with h | h
    · obtain ⟨rfl, rfl⟩ := Prod.mk.inj h
      rfl
    · obtain ⟨rfl, rfl⟩ := Prod.mk.inj h
      rfl
  · intro a acct hlookup
    rcases hcases a acct hlookup with h | h
    · obtain ⟨rfl, rfl⟩ := Prod.mk.inj h
      exact ⟨by decide, by decide, by decide⟩
    · obtain ⟨rfl, rfl⟩ := Prod.mk.inj h
      exact ⟨by decide, by decide, by decide⟩

/-- An honest bundle: the state proof names the account it carries. -/
theorem honest_bundle_reports_stored_account :
    letI := concreteNative
    twoAccounts.lookup (bundleNaming (address 2)).stateProof.accountAddress =
      some (bundleNaming (address 2)).stateProof.account := by
  let _ : NativeExternals := concreteNative
  have hapart : HashApart { s | s ∈ (bundleNaming (address 2)).stateProof.strings ∨
      s ∈ NativeDb.accountStrings (accountsInOrder twoAccounts) } := by
    refine (hashApart_of_forall (l := (bundleNaming (address 2)).stateProof.strings ++
      NativeDb.accountStrings (accountsInOrder twoAccounts)) ?_).mono ?_
    · decide +kernel
    · intro s hs
      exact mem_append.mpr hs
  refine (accepted_bundle_reports_stored_account_iff (bundleNaming (address 2)) trustedSet
    twoAccounts ?_ ?_ twoAccounts_filed ?_ hapart).mpr ?_
  · decide +kernel
  · decide +kernel
  · exact ⟨by decide, by decide, by decide⟩
  · decide +kernel

end Sample

/-! ## Transaction inclusion -/

section Inclusion

open Merkle

variable [NativeExternals]

/-- An accepted proof's path leads from the proved hash to the declared root. -/
theorem follow_of_verifyTxInclusion {proof : TxInclusionProof}
    (h : verifyTxInclusion proof = true) :
    follow hashPair proof.txHash proof.merkleProof.siblings = proof.blockTxRoot := by
  unfold verifyTxInclusion at h
  split at h
  · cases h
  rename_i hroot
  split at h
  · cases h
  rename_i hleaf
  rw [← not_not.mp hleaf, of_decide_eq_true h, not_not.mp hroot]

/-- **What an inclusion proof proves.**  The index is not looked at, so that for every list of
    transactions a proof is accepted that declares a wrong one.  Where no hashed pairs collide
    and no pair is hashed to a transaction, the proved hash is one of the transactions exactly if
    it is no inner node of their tree. -/
theorem tx_inclusion_sound_iff (hashes : List Hash256) (hne : hashes ≠ []) :
    (∃ proof : TxInclusionProof, proof.blockTxRoot = (MerkleTree.fromLeaves hashes).root ∧
      verifyTxInclusion proof = true ∧ hashes[proof.merkleProof.index]? ≠ some proof.txHash) ∧
    ∀ proof : TxInclusionProof, proof.blockTxRoot = (MerkleTree.fromLeaves hashes).root →
      verifyTxInclusion proof = true →
      Merkle.Separated hashPair (fun p => p ∈ MerkleTree.hashedPairs hashes ++
        Merkle.followPairs hashPair proof.txHash proof.merkleProof.siblings) (· ∈ hashes) →
      (proof.txHash ∈ hashes ↔ ∀ p ∈ MerkleTree.hashedPairs hashes,
        proof.txHash ≠ hashPair p.1 p.2) := by
  obtain ⟨t, ht, -⟩ := exists_tree hne
  refine ⟨?_, fun proof hroot haccept h => ?_⟩
  · -- the root proves itself, at an index past the end
    let root := (MerkleTree.fromLeaves hashes).root
    refine ⟨⟨root, 0, ⟨root, hashes.length, [], root⟩, root⟩, rfl, ?_, ?_⟩
    · simp [verifyTxInclusion, MerkleProof.verify, Merkle.follow]
    · simp
  · have hpairs : MerkleTree.hashedPairs hashes = t.pairs hashPair := by
      rw [MerkleTree.hashedPairs, ht]
      rfl
    rw [hpairs] at h ⊢
    have hleaves : ∀ a ∈ t.leaves, a ∈ hashes := by
      obtain ⟨extra, heq, hextra⟩ := leaves_tree ht
      rw [heq]
      exact fun a ha => (mem_append.mp ha).elim id (hextra a)
    constructor
    · rintro hmem p hp heq
      exact h.apart p (mem_append_left _ hp) (heq ▸ hmem)
    · intro hinner
      have hfollow := follow_of_verifyTxInclusion haccept
      rw [hroot, MerkleTree.root_fromLeaves, root_eq_value hashPair .zero ht] at hfollow
      rcases h.follow_start (fun p hp => mem_append_right _ hp)
        (fun p hp => mem_append_left _ hp) hleaves hfollow with hmem | ⟨p, hp, heq⟩
      · exact hleaves _ hmem
      · exact absurd heq (hinner p hp)

end Inclusion

namespace SampleMerkle

/-- The node over the first two of three transactions, with its path. -/
def innerProof : TxInclusionProof :=
  letI := concreteNative
  let inner := hashPair ⟨1⟩ ⟨2⟩
  let root := (MerkleTree.fromLeaves three).root
  ⟨inner, 1, ⟨inner, 0, [(hashPair ⟨3⟩ ⟨3⟩, false)], root⟩, root⟩

theorem inner_node_accepted :
    letI := concreteNative
    innerProof.blockTxRoot = (MerkleTree.fromLeaves three).root ∧
      verifyTxInclusion innerProof = true ∧ innerProof.txHash ∉ three := by
  decide +kernel

/-- The only transaction of a block. -/
theorem tx_inclusion_sound_iff_single :
    letI := concreteNative
    (⟨1⟩ : Hash256) ∈ [(⟨1⟩ : Hash256)] ↔
      ∀ p ∈ MerkleTree.hashedPairs [⟨1⟩], ⟨1⟩ ≠ hashPair p.1 p.2 := by
  let _ : NativeExternals := concreteNative
  let root := hashPair ⟨1⟩ ⟨1⟩
  have hone : ∀ p ∈ MerkleTree.hashedPairs [⟨1⟩] ++
      Merkle.followPairs hashPair ⟨1⟩ [(⟨1⟩, false)], p = (⟨1⟩, ⟨1⟩) := by decide +kernel
  exact (tx_inclusion_sound_iff [⟨1⟩] (by decide)).2
    ⟨⟨1⟩, 0, ⟨⟨1⟩, 0, [(⟨1⟩, false)], root⟩, root⟩ (by decide +kernel) (by decide +kernel)
    ⟨fun p q hp hq _ => (hone p hp).trans (hone q hq).symm,
      fun p hp => by rw [hone p hp]; decide +kernel⟩

end SampleMerkle

end ArcChain
