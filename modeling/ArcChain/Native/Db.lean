/-
The state database as native inference sees it
(`inference_contract_state.rs`): admission contexts ("bindings"), request
metadata, transition records, and the part of `StateDB` that the planner
and the block publisher read and write.

Rows of metadata and bindings are stored as bytes.  Their `bincode` forms
are third-party (`NativeExternals`); decoding inverts encoding.
-/
import ArcChain.State.Rewards
import ArcChain.Types.InferenceContract

namespace ArcChain

open Word

/-! ## Bindings -/

inductive NativeSelectionRule where
  | countEveryCandidateV1 | skipUsedNoncesV2
deriving DecidableEq, Repr

structure AllowedExecution where
  modelHash : Hash256
  profileHash : Hash256
  generationHash : Hash256
  assignmentHash : Hash256
deriving DecidableEq, Repr

structure InferenceAdmissionContext where
  domain : InferenceDomain
  members : List ValidatorMember
  allowedExecutions : List AllowedExecution
  selectionRule : NativeSelectionRule
deriving DecidableEq, Repr

structure LegacyAdmissionContext where
  domain : InferenceDomain
  members : List ValidatorMember
  allowedExecutions : List AllowedExecution
deriving DecidableEq, Repr

structure NativeMigrationRecord where
  chainGenesis : Hash256
  recoveryEpoch : Nat
  validatorSetId : Nat
  activationHeight : Nat
  contextCommitment : Hash256
deriving DecidableEq, Repr

/-! ## Metadata and records -/

inductive InferenceTransitionStatus where
  | pending | finalized | refunded
deriving DecidableEq, Repr

structure InferenceMetadata where
  contextCommitment : Hash256
  request : InferenceRequest
  inputBlob : Bytes
  status : InferenceTransitionStatus
  output : Bytes
  outputHash : Option Hash256
  certificate : Option InferenceCertificate
  credits : List SettlementCredit
deriving DecidableEq, Repr

structure InferenceTransitionRecord where
  contextCommitment : Hash256
  requestId : Hash256
  escrow : Address
  admissionHeight : Nat
  members : List ValidatorMember
  metadata : InferenceMetadata
  accountUpdates : List (Address × Account)
  storageUpdates : List (Address × Hash256 × Bytes)
deriving DecidableEq, Repr

/-- `MAX_METADATA_BYTES` and the other bounds. -/
def maxMetadataBytes : Nat := 128 * 1024

def maxTransitionBytes : Nat := 256 * 1024

def maxStorageUpdates : Nat := 3

def maxAllowlistEntries : Nat := 64

def maxContextBytes : Nat := 32 * 1024

def maxNativePending : Nat := 1024

def maxRetainedBindings : Nat := 8

def maxNativeCandidatesPerBlock : Nat := 64

/-- The third-party parts of native inference: `bincode` forms with the texts of their
    errors, and the alternative tree backend. -/
class NativeExternals extends Externals where
  serializeMetadata : InferenceMetadata → Except String Bytes
  /-- `deserialize_limited_exact::<InferenceMetadata, MAX_METADATA_BYTES>`. -/
  deserializeMetadata : Bytes → Except String InferenceMetadata
  serializeRecord : InferenceTransitionRecord → Except String Bytes
  serializeContext : InferenceAdmissionContext → Except String Bytes
  deserializeContext : Bytes → Except String InferenceAdmissionContext
  serializeLegacyContext : LegacyAdmissionContext → Except String Bytes
  deserializeLegacyContext : Bytes → Except String LegacyAdmissionContext
  serializeMigration : NativeMigrationRecord → Except String Bytes
  deserializeMigration : Bytes → Except String NativeMigrationRecord
  /-- The root of a Jellyfish Merkle tree built over the accounts. -/
  jmtStateRoot : FinMap Address Account → Hash256
  /-- `tree.proof(index)` over the transaction hashes, serialized. -/
  inclusionProof : List Hash256 → Nat → Option Bytes
  deserialize_metadata : ∀ m bytes, serializeMetadata m = .ok bytes →
    bytes.length ≤ maxMetadataBytes → deserializeMetadata bytes = .ok m
  deserialize_context : ∀ c bytes, serializeContext c = .ok bytes →
    bytes.length ≤ maxContextBytes → deserializeContext bytes = .ok c
  deserialize_legacyContext : ∀ c bytes, serializeLegacyContext c = .ok bytes →
    bytes.length ≤ maxContextBytes → deserializeLegacyContext bytes = .ok c
  deserialize_migration : ∀ r bytes, serializeMigration r = .ok bytes →
    bytes.length ≤ maxContextBytes → deserializeMigration bytes = .ok r
  /-- The shorter layout ends before the rule of the longer one. -/
  deserialize_short : ∀ c bytes, serializeLegacyContext c = .ok bytes →
    ∃ e, deserializeContext bytes = .error e

/-! ## The database -/

/-- The log records of native inference. -/
inductive NativeWalOp where
  | setAccount (address : Address) (account : Account)
  | setStorage (address : Address) (key : Hash256) (value : Bytes)
  | deleteStorage (address : Address) (key : Hash256)
  | setValidatorState (validators : List (Address × Nat)) (stakingPool : Nat)
  | inferenceTransition (record : InferenceTransitionRecord)
  | setBlock (height : Nat) (block : Block)
  | setReceipt (hash : Hash256) (receipt : TxReceipt)
  | setFullTransaction (hash : Hash256) (tx : Transaction)
  | setRecoveryContext (context : RecoveryContext) (activationHeight : Option Nat)
  | checkpoint (root : Hash256)

/-- The fields of `StateDB` that native inference uses. -/
structure NativeDb where
  ledger : Ledger
  height : Nat
  blocks : FinMap Nat Block
  /-- The accounts `get_account_fast` finds, if the GPU cache is enabled. -/
  gpuCache : Option (FinMap Address Account)
  recoveryContext : Option RecoveryContext
  communityRewardsV1ActivationHeight : Option Nat
  /-- The text of the WAL's failure, if it has failed. -/
  walFailure : Option String
  /-- What is read from `genesis.network-hash`; `none` without a persistent directory. -/
  genesisBinding : Option (Except String Hash256)
  /-- The serialized identities, which native inference does not change. -/
  identities : Bytes
  useJmt : Bool
  nativeMigration : Option NativeMigrationRecord
  nativeContext : Option InferenceAdmissionContext
  supersededBindings : FinMap Hash256 InferenceAdmissionContext
  nativePending : FinMap Hash256 Nat
  wal : List NativeWalOp

/-- The result of a fallible function of the database. -/
abbrev Result (α : Type) := Except StateError α

/-- `return Err(error)` unless the condition holds. -/
def Result.require (condition : Prop) [Decidable condition] (e : StateError) : Result Unit :=
  if condition then .ok () else .error e

/-- `ok_or(error)`. -/
def Result.some? {α : Type} (e : StateError) : Option α → Result α
  | some a => .ok a
  | none => .error e

def contractError (e : InferenceContractError) : StateError :=
  .executionError s!"isolated inference contract: {e.text}"

/-- `map_err(contract_error)`. -/
def ofContract {α : Type} (r : Contract α) : Result α := r.mapError contractError

/-- `map_err(|error| ExecutionError(error.to_string()))`. -/
def ofBincode {α : Type} (r : Except String α) : Result α := r.mapError .executionError

/-! ### When a sequence of checks succeeds -/

@[simp] theorem Result.require_eq_ok {condition : Prop} [Decidable condition] {e : StateError}
    {u : Unit} : Result.require condition e = .ok u ↔ condition := by
  unfold Result.require
  split
  · next h => exact iff_of_true rfl h
  · next h => exact iff_of_false (fun h => nomatch h) h

@[simp] theorem Result.some?_eq_ok {α : Type} {e : StateError} {o : Option α} {a : α} :
    Result.some? e o = .ok a ↔ o = some a := by
  cases o with
  | none => exact ⟨fun h => (nomatch h), fun h => (nomatch h)⟩
  | some a' => exact ⟨fun h => by cases h; rfl, fun h => by cases h; rfl⟩

namespace NativeDb

variable (db : NativeDb)

def getAccount (a : Address) : Option Account :=
  ((db.gpuCache.bind fun cache => cache.lookup a)).or (db.ledger.accounts.lookup a)

def getStorage (a : Address) (key : Hash256) : Option Bytes :=
  (db.ledger.storage.lookup a).bind fun m => m.lookup key

def requireHealthyWal : Result Unit :=
  match db.walFailure with
  | none => .ok ()
  | some text => .error (.persistenceError text)

/-- None on a failed WAL. -/
def nativeInferenceContext : Option InferenceAdmissionContext :=
  if db.walFailure = none then db.nativeContext else none

def activeProtocolVersion : ProtocolVersion :=
  if db.nativeContext.isSome ∧ db.nativeMigration = none then ⟨4, 0, 0⟩
  else match db.recoveryContext with
    | some context => context.protocolVersion
    | none => .genesis

/-- The database as transaction admission sees it. -/
def context : Context where
  height := db.height
  gpuCache := db.gpuCache.getD ∅
  communityRewardsV1ActivationHeight := db.communityRewardsV1ActivationHeight
  recoveryContext := db.recoveryContext
  nativeInferenceContext := db.nativeContext.isSome
  nativeMigration := db.nativeMigration.isSome

def membersFromState : List ValidatorMember :=
  (activeValidators db.ledger.validators).map fun e => ⟨e.1, e.2⟩

end NativeDb

/-! ## Keys and addresses -/

section Keys

variable [Crypto]

def contextAccount : Address := hashBytes (asciiBytes "ARC-isolated-inference-context-account-v1")

def contextKey : Hash256 := hashBytes (asciiBytes "ARC-isolated-inference-context-key-v1")

def metadataKey : Hash256 := hashBytes (asciiBytes "ARC-isolated-inference-metadata-v1")

def activationKey : Hash256 := hashBytes (asciiBytes "ARC-native-inference-activation-v1")

def versionsKey : Hash256 := hashBytes (asciiBytes "ARC-native-inference-versions-v1")

def versionKey (commitment : Hash256) : Hash256 :=
  hashBytes (asciiBytes "ARC-native-inference-version-v1" ++ commitment.toBytes)

def migrationKey : Hash256 := hashBytes (asciiBytes "ARC-native-inference-migration-v1")

def escrowAddress (requestId : Hash256) : Address :=
  Crypto.blake3DeriveKey "ARC-isolated-inference-escrow-v1" requestId.toBytes

/-- The order in which a commitment lists executions. -/
def AllowedExecution.key (e : AllowedExecution) : List UInt8 :=
  e.modelHash.toBytes ++ e.profileHash.toBytes ++ e.generationHash.toBytes ++
    e.assignmentHash.toBytes

/-- `InferenceAdmissionContext::commitment`; `dedup` drops repeated neighbours. -/
def InferenceAdmissionContext.commitment (c : InferenceAdmissionContext) : Result Hash256 := do
  let _ ← ofContract (validateMembers c.members)
  Result.require (c.allowedExecutions ≠ [] ∧ c.allowedExecutions.length ≤ maxAllowlistEntries)
    (.executionError "isolated inference execution allowlist exceeds bound")
  let sorted := (c.allowedExecutions.insertionSort fun a b =>
    ¬ b.key < a.key).destutter (· ≠ ·)
  pure (Crypto.blake3DeriveKey "ARC-isolated-inference-context-v1"
    (c.domain.chainGenesis.toBytes ++ leBytes 8 c.domain.recoveryEpoch ++
      c.domain.validatorSetHash.toBytes ++ leBytes 4 c.members.length ++
      (c.members.flatMap fun m => m.address.toBytes ++ leBytes 8 m.stake) ++
      leBytes 4 sorted.length ++ sorted.flatMap AllowedExecution.key ++
      if c.selectionRule = .skipUsedNoncesV2 then asciiBytes "selection-rule-v2" else []))

def InferenceAdmissionContext.allows (c : InferenceAdmissionContext) (request : InferenceRequest) :
    Bool :=
  c.allowedExecutions.contains ⟨request.job.modelHash, request.job.profileHash,
    request.job.generationHash, request.job.assignmentHash⟩

/-- The bytes of a list of commitments (`bincode::serialize(&keep)`). -/
def serializeIndex (l : List Hash256) : Bytes := leBytes 8 l.length ++ l.flatMap Hash256.toBytes

/-- Read that many hashes from the bytes; none may remain. -/
def takeHashes : Nat → Bytes → Option (List Hash256)
  | 0, bytes => if bytes = [] then some [] else none
  | n + 1, bytes =>
    if bytes.length < 32 then none
    else (takeHashes n (bytes.drop 32)).map fun l => .ofBytes (bytes.take 32) :: l

/-- `deserialize_limited_exact::<Vec<Hash256>, 1024>`, as `ok()`. -/
def deserializeIndex (bytes : Bytes) : Option (List Hash256) :=
  if 1024 < bytes.length ∨ bytes.length < 8 then none
  else takeHashes (leValue (bytes.take 8)) (bytes.drop 8)

end Keys

section Encodings

variable [NativeExternals]

def encodeActivation (c : InferenceAdmissionContext) : Result Bytes :=
  match c.selectionRule with
  | .countEveryCandidateV1 =>
    ofBincode (NativeExternals.serializeLegacyContext ⟨c.domain, c.members, c.allowedExecutions⟩)
  | .skipUsedNoncesV2 => ofBincode (NativeExternals.serializeContext c)

def decodeActivation (bytes : Bytes) : Result InferenceAdmissionContext :=
  match NativeExternals.deserializeContext bytes with
  | .ok c =>
    if c.selectionRule = .countEveryCandidateV1 then
      .error (.executionError
        ("invalid native activation: a selection-rule v1 context is recorded only in the " ++
          "original layout"))
    else .ok c
  | .error _ => do
    let legacy ← (NativeExternals.deserializeLegacyContext bytes).mapError fun e =>
      .executionError s!"invalid native activation: {e}"
    pure ⟨legacy.domain, legacy.members, legacy.allowedExecutions, .countEveryCandidateV1⟩

end Encodings

/-! ## Activation checks -/

section Activation

variable [Crypto]

def NativeMigrationRecord.refusalAgainst (r : NativeMigrationRecord) (db : NativeDb) :
    Option String :=
  match db.recoveryContext with
  | none => some ("a migration record authorises activation on a recovery-bound chain, and this " ++
      "state carries no recovery context")
  | some recovery =>
    if recovery.genesisHash ≠ r.chainGenesis then
      some (s!"migration record names genesis {r.chainGenesis.display} but this chain's is " ++
        s!"{recovery.genesisHash.display}")
    else if recovery.recoveryEpoch ≠ r.recoveryEpoch ∨
        recovery.validatorSetId ≠ r.validatorSetId then
      some (s!"migration record was produced for recovery epoch {r.recoveryEpoch} / validator " ++
        s!"set {r.validatorSetId}, and this chain is at epoch {recovery.recoveryEpoch} / " ++
        s!"validator set {recovery.validatorSetId}")
    else none

def validateNativeInferenceBindingShape (db : NativeDb) (c : InferenceAdmissionContext) :
    Result Hash256 := do
  let binding ← Result.some? (.executionError "native inference requires a persistent WAL")
    db.genesisBinding
  Result.require (db.recoveryContext = none ∨ db.nativeMigration.isSome) (.executionError
    ("native inference is unavailable on recovery-bound state without an operator migration " ++
      "record"))
  let genesis ← binding.mapError .persistenceError
  Result.require (genesis = c.domain.chainGenesis) (.executionError
    "native inference domain is not bound to the persistent genesis")
  Result.require (db.membersFromState = c.members) (.executionError
    "native inference context does not match active validator registry")
  let setHash ← ofContract (validatorSetCommitment c.members)
  Result.require (setHash = c.domain.validatorSetHash) (.executionError
    "native inference validator-set hash is incorrect")
  c.commitment

def validateNativeInferenceActivation (db : NativeDb) (c : InferenceAdmissionContext) :
    Result Hash256 := do
  let commitment ← validateNativeInferenceBindingShape db c
  match db.getStorage contextAccount contextKey with
  | none => pure commitment
  | some pin => do
    Result.require (pin = commitment.toBytes) (.executionError
      "native inference pinned context mismatch on reopen")
    let account ← Result.some? (.executionError
      "native inference context pin account is missing") (db.getAccount contextAccount)
    Result.require (account.storageRoot = commitment) (.executionError
      "native inference context account root is not pinned")
    pure commitment

end Activation

end ArcChain
