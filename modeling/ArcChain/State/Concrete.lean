/-
An executable instance of the third-party parts of execution, and small
ledgers and transactions to evaluate it on.  The byte forms keep only what
tells the used values apart, and the WASM engine knows no function.
-/
import ArcChain.Crypto.Concrete
import ArcChain.State.Db

namespace ArcChain

namespace Concrete

/-- A list of votes in chunks of 64 bytes; the fuel is the number of bytes. -/
def decodeVotes : Nat → Bytes → Option (List (Address × Hash256))
  | _, [] => some []
  | 0, _ => none
  | fuel + 1, bytes =>
    if bytes.length < 64 then none
    else (decodeVotes fuel (bytes.drop 64)).map fun votes =>
      (Hash256.ofBytes (bytes.take 32), Hash256.ofBytes ((bytes.drop 32).take 32)) :: votes

end Concrete

/-- The executable instance. -/
def concreteExternals : Externals where
  toCrypto := concreteCrypto
  serializeTxBody body := [UInt8.ofNat body.txType.code]
  serializeTransaction tx := .ok [UInt8.ofNat tx.txType.code]
  serializeHeader header := header.parentHash.toBytes ++ header.stateRoot.toBytes
  serializeVotes votes := .ok (votes.flatMap fun v => v.1.toBytes ++ v.2.toBytes)
  deserializeVotes bytes := Concrete.decodeVotes bytes.length bytes
  verifyRecursiveProof _ := true
  runWasm input := .functionMissing input.function
  mapOrder entries := entries
  mapOrder_perm entries := List.Perm.refl entries

namespace Sample

/-- A legacy chain at a height, without a GPU cache. -/
def context (height : Nat) : Context where
  height := height
  gpuCache := ∅
  communityRewardsV1ActivationHeight := none
  recoveryContext := none
  nativeInferenceContext := false
  nativeMigration := false

theorem context_legacy (height : Nat) : (context height).Legacy := ⟨rfl, rfl⟩

/-- A ledger with these accounts and nothing else. -/
def ledger (accounts : List Account) : Ledger where
  accounts := FinMap.ofList (accounts.map fun account => (account.address, account))
  storage := ∅
  contracts := ∅
  validators := ∅
  stakingPool := 0
  tier1Pending := ∅
  pendingBondReleases := ∅

/-- A user address. -/
def address (n : Nat) : Address := ⟨BitVec.ofNat 256 n⟩

/-- A user account. -/
def account (n balance nonce : Nat) : Account :=
  { Account.new (address n) balance with nonce := nonce }

/-- A transaction with the block's gas limit, no fee and an already checked signature. -/
def tx (sender nonce : Nat) (body : TxBody) : Transaction where
  txType := body.txType
  sender := address sender
  nonce := nonce
  body := body
  fee := 0
  gasLimit := 0
  hash := .zero
  signature := .ed25519 [] []
  sigVerified := true

end Sample

end ArcChain
