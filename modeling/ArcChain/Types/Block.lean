/-
Blocks and receipts (`arc-types`), and the byte forms the chain hashes.

`bincode` writes a struct as the concatenation of its fields, integers in
little-endian order at their own width and 32-byte arrays raw; the forms
with a fixed layout are written out here.  Headers and transaction bodies
hold optional and variable-length parts; their `bincode` forms are the
fields of `Externals`, with the other third-party parts that transaction
execution calls.
-/
import ArcChain.Lib.FinMap
import ArcChain.Types.Transaction

namespace ArcChain

open Word

structure ProtocolVersion where
  major : Nat
  minor : Nat
  patch : Nat
deriving DecidableEq, Repr

def ProtocolVersion.genesis : ProtocolVersion := ⟨0, 1, 0⟩

structure AccountChange where
  address : Address
  account : Account
deriving DecidableEq, Repr

structure StateDiff where
  changes : List AccountChange
  newRoot : Hash256
deriving DecidableEq, Repr

structure BlockHeader where
  height : Nat
  timestamp : Nat
  parentHash : Hash256
  txRoot : Hash256
  stateRoot : Hash256
  proofHash : Hash256
  txCount : Nat
  producer : Hash256
  protocolVersion : ProtocolVersion
  stateDiff : Option StateDiff
deriving DecidableEq, Repr

structure Block where
  header : BlockHeader
  txHashes : List Hash256
  hash : Hash256
deriving DecidableEq, Repr

/-- `TxReceipt`; the event logs of a receipt are always empty on the modelled paths. -/
structure TxReceipt where
  txHash : Hash256
  blockHeight : Nat
  blockHash : Hash256
  index : Nat
  success : Bool
  gasUsed : Nat
  inclusionProof : Option Bytes
deriving DecidableEq, Repr

/-- The bytes of an account (`bincode::serialize(&account)`). -/
def Account.serialize (a : Account) : Bytes :=
  a.address.toBytes ++ leBytes 8 a.balance ++ leBytes 8 a.nonce ++ a.codeHash.toBytes ++
    a.storageRoot.toBytes ++ leBytes 8 a.stakedBalance

/-! ## Third-party parts of execution -/

/-- What a contract call gives the WASM engine. -/
structure WasmInput where
  bytecode : Bytes
  function : String
  storage : FinMap Hash256 Bytes
  gasLimit : Nat
  caller : Address
  selfAddress : Address
  callValue : Nat
  blockHeight : Nat

/-- How a call into the WASM engine ends: before the function runs, or after, with the gas
    the host functions counted and the storage writes they collected. -/
inductive WasmOutcome where
  | compileError (text : String)
  | instantiateError (text : String)
  | functionMissing (text : String)
  | called (outOfGas : Bool) (gasUsed : Nat) (result : Except String (List (Hash256 × Bytes)))

/-- The third-party parts of transaction execution, beyond the cryptography. -/
class Externals extends Crypto where
  /-- `bincode::serialize(&tx.body)`. -/
  serializeTxBody : TxBody → Bytes
  /-- `bincode::serialize(tx)`, with the text of its error. -/
  serializeTransaction : Transaction → Except String Bytes
  /-- `bincode::serialize(header)`. -/
  serializeHeader : BlockHeader → Bytes
  /-- `bincode` of the Tier 1 vote list. -/
  serializeVotes : List (Address × Hash256) → Except String Bytes
  deserializeVotes : Bytes → Option (List (Address × Hash256))
  /-- `verify_recursive_proof`; always true without the `stwo-prover` feature. -/
  verifyRecursiveProof : ShardProofBody → Bool
  /-- The WASM engine together with the host functions it is given. -/
  runWasm : WasmInput → WasmOutcome
  /-- The iteration order of a `HashMap` with these entries. -/
  mapOrder : List (Hash256 × Nat) → List (Hash256 × Nat)
  mapOrder_perm : ∀ entries, (mapOrder entries).Perm entries

variable [Externals]

def Transaction.computeHash (tx : Transaction) : Hash256 :=
  Crypto.blake3DeriveKey "ARC-chain-tx-v1"
    ([UInt8.ofNat tx.txType.code] ++ tx.sender.toBytes ++ leBytes 8 tx.nonce ++
      Externals.serializeTxBody tx.body ++ leBytes 8 tx.fee ++ leBytes 8 tx.gasLimit)

def Transaction.computeHashInDomain (tx : Transaction) (recoveryDomain : Hash256) : Hash256 :=
  Crypto.blake3DeriveKey "ARC-chain-tx-v3"
    (recoveryDomain.toBytes ++ [UInt8.ofNat tx.txType.code] ++ tx.sender.toBytes ++
      leBytes 8 tx.nonce ++ Externals.serializeTxBody tx.body ++ leBytes 8 tx.fee ++
      leBytes 8 tx.gasLimit)

/-- `verify_signature` and `verify_signature_in_domain`, as `is_ok()`. -/
def Transaction.verifySignature (tx : Transaction) (recoveryDomain : Option Hash256) : Bool :=
  let expected := match recoveryDomain with
    | some domain => tx.computeHashInDomain domain
    | none => tx.computeHash
  tx.txType = tx.body.txType && expected = tx.hash && Crypto.verify tx.signature tx.hash tx.sender

def Block.computeHash (header : BlockHeader) : Hash256 :=
  Crypto.blake3DeriveKey "ARC-chain-block-v1" (Externals.serializeHeader header)

def Block.new (header : BlockHeader) (txHashes : List Hash256) : Block where
  header := header
  txHashes := txHashes
  hash := Block.computeHash header

def Block.genesis : Block :=
  Block.new
    { height := 0, timestamp := 0, parentHash := .zero, txRoot := .zero, stateRoot := .zero,
      proofHash := .zero, txCount := 0, producer := .zero,
      protocolVersion := ProtocolVersion.genesis, stateDiff := none } []

end ArcChain
