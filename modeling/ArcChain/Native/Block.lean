/-
Native blocks (`inference_contract_state.rs`): the planning of one native
transaction, block admission, the choice of the transaction a committed
candidate list contributes, and the publication of a sealed block.

A block is planned on the state before it; the write-ahead log receives the
whole block, and only after the barrier is the record applied to the maps.
-/
import ArcChain.Native.Planner
import ArcChain.Native.StateRoot
import ArcChain.State.Admission

namespace ArcChain

open Word

variable [NativeExternals]

namespace NativeDb

variable (db : NativeDb)

/-! ## Planning -/

def bindingForRequest (requestId : Hash256) : Result (Option InferenceAdmissionContext) :=
  match db.getStorage (escrowAddress requestId) metadataKey with
  | none => .ok none
  | some bytes =>
    if maxMetadataBytes < bytes.length then .ok none
    else match NativeExternals.deserializeMetadata bytes with
      | .error _ => .ok none
      | .ok metadata =>
        if (db.nativeInferenceContext.bind fun c => c.commitment.toOption) =
            some metadata.contextCommitment then .ok none
        else match db.supersededBindings.lookup metadata.contextCommitment with
          | some context => .ok (some context)
          | none => .error (fail
              (s!"request {requestId.toHex} was admitted under inference binding " ++
                s!"{metadata.contextCommitment.toHex}, which this node no longer holds; it " ++
                "cannot be settled or refunded here"))

/-- The body part of `validate_native_inference_envelope_at`. -/
def validateNativeBody (tx : Transaction) (context : InferenceAdmissionContext)
    (executionHeight : Nat) : TxBody → Result Unit
  | .nativeInferenceRequest body => do
    Result.require (InferencePlanner.InputMatches body.inputBlob body.request)
      (fail "native request input does not match its signed hash")
    Result.require (body.request.job.requester = tx.sender ∧ body.request.job.nonce = tx.nonce)
      (fail "native request outer sender/nonce does not match signed job")
    Result.require (context.allows body.request = true)
      (fail "native request execution tuple is not in the pinned allowlist")
    let _ ← ofContract (body.request.validate context.domain context.members executionHeight)
    pure ()
  | .nativeInferenceFinalize body =>
    Result.require (body.certificate.output ≠ [] ∧
        body.certificate.output.length ≤ tier1OutputBlobMax ∧ body.certificate.votes ≠ [] ∧
        body.certificate.votes.length ≤ context.members.length)
      (fail "native certificate exceeds bounded output/member limits")
  | .nativeInferenceRefund _ => .ok ()
  | _ => .error (fail "not a native protocol-4 inference transaction")

/-- The check of the governing binding in `validate_native_inference_envelope_at`. -/
def checkGoverning (context : InferenceAdmissionContext) : Result Hash256 :=
  if db.nativeInferenceContext = some context then validateNativeInferenceActivation db context
  else do
    let commitment ← context.commitment
    Result.require (db.supersededBindings.lookup commitment ≠ none)
      (fail "native inference context is not activated")
    pure commitment

def validateNativeInferenceEnvelopeAt (tx : Transaction) (context : InferenceAdmissionContext)
    (executionHeight : Nat) : Result Unit := do
  db.requireHealthyWal
  let _ ← db.checkGoverning context
  Result.require (tx.fee = 0)
    (fail "native inference transactions require fee=0; price is signed in the job")
  Result.require (tx.gasLimit ≠ 0 ∧ tx.gasLimit ≤ GasCosts.blockGasLimit)
    (fail "native inference transaction gas_limit is outside the bounded range")
  Result.require (tx.signature.isNull = false)
    (fail "native inference transaction signature is required")
  Result.require (db.context.verifyTransactionSignature tx = true) (fail "native signature")
  Result.require (tx.txType = tx.body.txType) (fail "native transaction type/body mismatch")
  validateNativeBody tx context executionHeight tx.body

/-- The binding that governs a transaction, if it is not the current one. -/
def retainedFor : TxBody → Result (Option InferenceAdmissionContext)
  | .nativeInferenceFinalize body => db.bindingForRequest body.requestId
  | .nativeInferenceRefund body => db.bindingForRequest body.requestId
  | _ => .ok none

/-- The plan of a transaction's family. -/
def planFamily (planner : InferencePlanner) (height : Nat) : TxBody → Result InferencePlan
  | .nativeInferenceRequest body => do
    Result.require (db.nativePending.keys.card < maxNativePending)
      (fail "native pending index is full")
    planner.planAdmit body.request body.inputBlob height
  | .nativeInferenceFinalize body => planner.planFinish body.requestId body.certificate height
  | .nativeInferenceRefund body => planner.planRefund body.requestId height
  | _ => .error (fail "not a native inference transaction")

/-- The record of a plan. -/
def InferencePlan.record : InferencePlan → Result InferenceTransitionRecord
  | .transition record => .ok record
  | .alreadyTerminal => .error (fail "native inference request is already terminal")

/-- Give the caller its next nonce: in its own replacement, or in one more. -/
def withCallerNonce (updates : List (Address × Account)) (caller : Account) (sender : Address)
    (nextNonce : Nat) : List (Address × Account) :=
  match updates with
  | [] => [(sender, { caller with nonce := nextNonce })]
  | (a, account) :: rest =>
    if a = sender then (a, { account with nonce := nextNonce }) :: rest
    else (a, account) :: withCallerNonce rest caller sender nextNonce

/-- Whether the body is a request. -/
def isNativeRequest : TxBody → Bool
  | .nativeInferenceRequest _ => true
  | _ => false

def planNativeTransaction (tx : Transaction) (context : InferenceAdmissionContext) (height : Nat) :
    Result InferenceTransitionRecord := do
  db.requireHealthyWal
  Result.require (db.nativeInferenceContext = some context) (fail "native context is not activated")
  let currentCommitment ← context.commitment
  let retained ← db.retainedFor tx.body
  let governing := retained.getD context
  db.validateNativeInferenceEnvelopeAt tx governing height
  Result.require (tx.body.gasCost ≤ tx.gasLimit) (fail "native transaction has insufficient gas")
  let caller ← Result.some? (.accountNotFound tx.sender) (db.getAccount tx.sender)
  Result.require (caller.nonce = tx.nonce) (.invalidNonce caller.nonce tx.nonce)
  let nextNonce ← Result.some? (fail "native caller nonce overflow") (checkedAdd caller.nonce 1)
  let commitment ← governing.commitment
  let planner : InferencePlanner := ⟨db, governing, commitment, currentCommitment⟩
  let plan ← db.planFamily planner height tx.body
  let record ← InferencePlan.record plan
  Result.require (tx.sender ≠ record.escrow ∧ tx.sender ≠ contextAccount)
    (fail "native caller aliases reserved state account")
  let updates := if isNativeRequest tx.body then record.accountUpdates
    else withCallerNonce record.accountUpdates caller tx.sender nextNonce
  let record := { record with accountUpdates := InferencePlanner.sortUpdates updates }
  planner.validateRecord record
  pure record

/-! ## Admission and selection -/

def validateNativeInferenceBlockAdmissionAt (txs : List Transaction) (height : Nat) :
    Result Unit :=
  let containsNative := txs.any fun tx => tx.body.isNativeBody
  match db.nativeInferenceContext with
  | none => Result.require (containsNative = false)
      (fail "native inference protocol-4 context is not activated")
  | some context =>
    if db.nativeMigration.isSome ∧ containsNative = false then .ok ()
    else do
      Result.require (txs.length ≤ 1 ∧ ∀ tx ∈ txs, tx.body.isNativeBody = true)
        (fail "private protocol-4 blocks allow at most one native inference transaction")
      Result.require (checkedAdd db.height 1 = some height)
        (fail "native admission requires the next canonical block height")
      let _ ← validateNativeInferenceActivation db context
      match txs.head? with
      | none => pure ()
      | some tx => do
        let _ ← db.planNativeTransaction tx context height
        pure ()

def validateNativeInferenceBlockAdmission (txs : List Transaction) : Result Unit := do
  let height ← Result.some? (fail "native block height overflow") (checkedAdd db.height 1)
  db.validateNativeInferenceBlockAdmissionAt txs height

/-- Whether the block is admitted. -/
def Admits (txs : List Transaction) : Prop :=
  db.validateNativeInferenceBlockAdmission txs = .ok ()

instance (txs : List Transaction) : Decidable (db.Admits txs) :=
  inferInstanceAs (Decidable (_ = _))

/-- The sender has already used the nonce of the transaction. -/
def NonceUsed (tx : Transaction) : Prop :=
  ∃ account ∈ db.getAccount tx.sender, tx.nonce < account.nonce

instance (tx : Transaction) : Decidable (db.NonceUsed tx) :=
  inferInstanceAs (Decidable (∃ account ∈ _, _))

/-- The examination loop of `select_native_block_transactions`. -/
def examine (skipUsed : Bool) : Nat → List Transaction → List Transaction
  | _, [] => []
  | examined, tx :: rest =>
    if skipUsed = true ∧ db.NonceUsed tx then examine skipUsed examined rest
    else if examined = maxNativeCandidatesPerBlock then []
    else if db.Admits [tx] then [tx]
    else examine skipUsed (examined + 1) rest

/-- `sort_by_key(|tx| tx.hash.0)` of the native candidates. -/
def orderedCandidates (candidates : List Transaction) : List Transaction :=
  (candidates.filter fun tx => tx.body.isNativeBody).insertionSort fun a b => a.hash ≤ b.hash

def selectNativeBlockTransactions (candidates : List Transaction) : List Transaction :=
  match db.nativeInferenceContext with
  | none => candidates
  | some context =>
    if db.nativeMigration.isSome ∧ candidates.any (fun tx => tx.body.isNativeBody) = false then
      candidates
    else db.examine (context.selectionRule = .skipUsedNoncesV2) 0 (orderedCandidates candidates)

/-! ## Publication -/

/-- The GPU cache after `put_account` of each replacement, under the account's own address. -/
def putAccounts (cache : FinMap Address Account) (updates : List (Address × Account)) :
    FinMap Address Account :=
  updates.foldl (fun m e => FinMap.set m e.2.address (some e.2)) cache

/-- `apply_wal_op`, for the records of native inference; receipts and transaction bodies
    are not read by it. -/
def applyWalOp : NativeWalOp → NativeDb
  | .setAccount a account =>
    { db with ledger := { db.ledger with
        accounts := FinMap.set db.ledger.accounts a (some account) } }
  | .setStorage a key value =>
    { db with ledger := { db.ledger with
        storage := setStorageRow db.ledger.storage a key (some value) } }
  | .deleteStorage a key =>
    match db.ledger.storage.lookup a with
    | none => db
    | some rows => { db with ledger := { db.ledger with
        storage := FinMap.set db.ledger.storage a (some (FinMap.set rows key none)) } }
  | .setValidatorState validators stakingPool =>
    { db with ledger := { db.ledger with
        validators := FinMap.ofList validators, stakingPool := stakingPool } }
  | .inferenceTransition record =>
    { db with
      ledger := { db.ledger with
        accounts := setAccounts db.ledger.accounts record.accountUpdates
        storage := setStorageRows db.ledger.storage record.storageUpdates }
      gpuCache := db.gpuCache.map fun cache => putAccounts cache record.accountUpdates
      nativePending := FinMap.set db.nativePending record.requestId
        (if record.metadata.status = .pending then some record.admissionHeight else none) }
  | .setBlock height block =>
    { db with
      blocks := FinMap.set db.blocks height (some block)
      height := max db.height height }
  | .setRecoveryContext context activationHeight =>
    { db with
      recoveryContext := some context
      communityRewardsV1ActivationHeight := activationHeight }
  | .setReceipt _ _ | .setFullTransaction _ _ | .checkpoint _ => db

/-- `validate_v3_block_admission`, with the native planner of this state. -/
def validateV3BlockAdmission (txs : List Transaction) : Result Unit := do
  let height ← Result.some? (fail "prospective v3 block height overflow") (checkedAdd db.height 1)
  ((validateV3BlockAdmissionAt (fun txs height =>
    StoreProg.ofExcept (db.validateNativeInferenceBlockAdmissionAt txs height))
      db.context txs height).run db.ledger).result

/-- What a native block is before it is published. -/
structure SealedBlock where
  record : Option InferenceTransitionRecord
  block : Block
  receipts : List TxReceipt

/-- The receipt of the transaction at an index. -/
def receiptOf (height : Nat) (block : Block) (txHashes : List Hash256) (tx : Transaction)
    (index : Nat) : TxReceipt :=
  { txHash := tx.hash
    blockHeight := height
    blockHash := block.hash
    index := index
    success := true
    gasUsed := tx.body.gasCost
    inclusionProof := NativeExternals.inclusionProof txHashes index }

/-- `execute_native_inference_block_at` up to the first append. -/
def sealNativeBlock (txs : List Transaction) (producer : Address) (timestamp : Nat)
    (proofHash : Hash256) : Result SealedBlock := do
  db.requireHealthyWal
  if db.activeProtocolVersion.major = 3 then db.validateV3BlockAdmission txs
  else db.validateNativeInferenceBlockAdmission txs
  let context ← Result.some? (fail "native context is unavailable") db.nativeInferenceContext
  let height ← Result.some? (fail "native height overflow") (checkedAdd db.height 1)
  let record ← match txs.head? with
    | none => pure none
    | some tx => do
      let record ← db.planNativeTransaction tx context height
      pure (some record)
  let stateRoot := db.projectedNativeRoot (record.elim [] (·.accountUpdates))
    (record.elim [] (·.storageUpdates))
  let txHashes := txs.map (·.hash)
  let block := Block.new
    { height := height
      timestamp := timestamp
      parentHash := ((db.blocks.lookup (height - 1)).map (·.hash)).getD .zero
      txRoot := Merkle.root hashPair .zero txHashes
      stateRoot := stateRoot
      proofHash := proofHash
      txCount := txs.length
      producer := producer
      protocolVersion := db.activeProtocolVersion
      stateDiff := none } txHashes
  pure ⟨record, block, txs.zipIdx.map fun e => receiptOf height block txHashes e.1 e.2⟩

/-- The records of `persist_restart_artifacts`. -/
def restartArtifacts (txs : List Transaction) (receipts : List TxReceipt) : List NativeWalOp :=
  ((txs.zip receipts).flatMap fun e =>
    [.setReceipt e.1.hash e.2, .setFullTransaction e.1.hash e.1]) ++
  [.setValidatorState (FinMap.toSortedList db.ledger.validators) db.ledger.stakingPool] ++
  (db.recoveryContext.map fun context =>
    .setRecoveryContext context db.communityRewardsV1ActivationHeight).toList

/-- The appends of a sealed block. -/
def SealedBlock.ops (sealed : SealedBlock) (txs : List Transaction) : List NativeWalOp :=
  (sealed.record.map .inferenceTransition).toList ++
    [.setBlock sealed.block.header.height sealed.block] ++
    db.restartArtifacts txs sealed.receipts ++ [.checkpoint sealed.block.header.stateRoot]

/-- The publication of a sealed block. -/
def publish (sealed : SealedBlock) : NativeDb :=
  ((sealed.record.elim db fun record => db.applyWalOp (.inferenceTransition record))).applyWalOp
    (.setBlock sealed.block.header.height sealed.block)

/-- `execute_native_inference_block_at`.  `sync` is the text of the barrier's failure, if it
    fails; a failed barrier fails the log for good. -/
def executeNativeInferenceBlockAt (txs : List Transaction) (producer : Address) (timestamp : Nat)
    (proofHash : Hash256) (sync : Option String) : NativeDb × Result (Block × List TxReceipt) :=
  match db.sealNativeBlock txs producer timestamp proofHash with
  | .error e => (db, .error e)
  | .ok sealed =>
    let logged := { db with wal := db.wal ++ SealedBlock.ops db sealed txs }
    match sync with
    | some text => ({ logged with walFailure := some text }, .error (.persistenceError text))
    | none => (logged.publish sealed, .ok (sealed.block, sealed.receipts))

end NativeDb

end ArcChain
