/-
The life of a binding (`inference_contract_state.rs`): activation, update,
the retention of superseded bindings, and what a node restores from its
storage when it is opened again.

An update keeps the superseded bindings that pending requests name.  A
reopened node reads the current binding, the kept ones and every request
row back from storage and rebuilds the index of pending requests.
-/
import ArcChain.Native.Block

namespace ArcChain

open Word

variable [NativeExternals]

/-- Whether a binding write checkpoints and syncs the log itself. -/
inductive WalSeal where
  | standalone | inBlock
deriving DecidableEq, Repr

/-- `NativeInferenceReceiptSnapshot`, without its transaction links. -/
structure NativeInferenceReceiptSnapshot where
  requestId : Hash256
  admissionHeight : Nat
  metadata : InferenceMetadata

structure NativeInferencePendingSnapshot where
  requestId : Hash256
  request : InferenceRequest
  inputBlob : Bytes
  admissionHeight : Nat
  contextCommitment : Hash256
deriving DecidableEq, Repr

namespace NativeDb

variable (db : NativeDb)

/-! ## Reads -/

def readNativeMetadata (requestId : Hash256) : Result (Option NativeInferenceReceiptSnapshot) :=
  match db.getStorage (escrowAddress requestId) metadataKey with
  | none => .ok none
  | some bytes => do
    Result.require (bytes.length ≤ maxMetadataBytes)
      (fail "native inference metadata exceeds bound")
    let metadata ← (NativeExternals.deserializeMetadata bytes).mapError fun e =>
      fail s!"decode native metadata: {e}"
    let account ← Result.some? (fail "native inference escrow account is missing")
      (db.getAccount (escrowAddress requestId))
    Result.require (metadata.request.job.requestId = requestId ∧
        account.storageRoot = hashBytes bytes ∧
        InferencePlanner.InputMatches metadata.inputBlob metadata.request)
      (fail "native inference metadata commitment or input binding failed")
    pure (some ⟨requestId, account.nonce, metadata⟩)

/-- The binding a pending request names. -/
def bindingNamedBy (requestId : Hash256) : Option Hash256 :=
  (db.getStorage (escrowAddress requestId) metadataKey).bind fun bytes =>
    match NativeExternals.deserializeMetadata bytes with
    | .error _ => none
    | .ok metadata =>
      if metadata.status = .pending then some metadata.contextCommitment else none

def bindingsNamedByPendingWork : List Hash256 :=
  (FinMap.toSortedList db.nativePending).filterMap fun e => db.bindingNamedBy e.1

def retainedBindingIndex : Result (List Hash256) :=
  match db.getStorage contextAccount versionsKey with
  | none => .ok []
  | some bytes => Result.some? (fail "decode retained binding index") (deserializeIndex bytes)

/-- The check of one entry of the pending index in `native_inference_pending_requests`. -/
def pendingSnapshot (contextCommitment requestId : Hash256) :
    Result NativeInferencePendingSnapshot := do
  let receipt ← Result.some? (fail "native pending index references missing receipt")
    (← db.readNativeMetadata requestId)
  Result.require (receipt.metadata.contextCommitment = contextCommitment ∨
      db.supersededBindings.lookup receipt.metadata.contextCommitment ≠ none)
    (fail "native pending index references an unknown inference binding")
  Result.require (receipt.metadata.status = .pending)
    (fail "native pending index references terminal receipt")
  pure ⟨requestId, receipt.metadata.request, receipt.metadata.inputBlob, receipt.admissionHeight,
    contextCommitment⟩

def nativeInferencePendingRequests (contextCommitment : Hash256) :
    Result (List NativeInferencePendingSnapshot) := do
  db.requireHealthyWal
  (FinMap.toSortedList db.nativePending).mapM fun e => db.pendingSnapshot contextCommitment e.1

/-- `native_inference_pending_request`; it does not look at the binding of the receipt. -/
def nativeInferencePendingRequest (requestId contextCommitment : Hash256) :
    Result (Option NativeInferencePendingSnapshot) := do
  db.requireHealthyWal
  if db.nativePending.lookup requestId = none then pure none
  else do
    let receipt ← Result.some? (fail "native pending index references missing receipt")
      (← db.readNativeMetadata requestId)
    Result.require (receipt.metadata.status = .pending)
      (fail "native pending index references terminal receipt")
    pure (some ⟨requestId, receipt.metadata.request, receipt.metadata.inputBlob,
      receipt.admissionHeight, contextCommitment⟩)

/-! ## Writes -/

/-- Apply log records in order. -/
def applyWalOps (ops : List NativeWalOp) : NativeDb := ops.foldl applyWalOp db

def projectedRootAfter (ops : List NativeWalOp) : Hash256 :=
  (db.applyWalOps ops).computeStateRoot

/-- What a binding write changes. -/
structure BindingChange where
  ops : List NativeWalOp
  /-- The context and the retained bindings in memory. -/
  context : InferenceAdmissionContext
  superseded : FinMap Hash256 InferenceAdmissionContext

/-- Log, sync and publish a binding write. -/
def commitBinding (commitment : Hash256) (change : Option BindingChange) (walSeal : WalSeal)
    (sync : Option String) : NativeDb × Result Hash256 :=
  match change with
  | none => (db, .ok commitment)
  | some change =>
    let closing := if walSeal = .standalone then
      [NativeWalOp.checkpoint (db.projectedRootAfter change.ops)] else []
    let logged := { db with wal := db.wal ++ change.ops ++ closing }
    match walSeal, sync with
    | .standalone, some text =>
      ({ logged with walFailure := some text }, .error (.persistenceError text))
    | _, _ => ({ logged.applyWalOps change.ops with
        nativeContext := some change.context
        supersededBindings := change.superseded }, .ok commitment)

/-- The rows of the context account that every binding write sets. -/
def bindingOps (account : Account) (commitment : Hash256) (encoded : Bytes)
    (context : InferenceAdmissionContext) : List NativeWalOp :=
  [.setAccount contextAccount account,
    .setStorage contextAccount contextKey commitment.toBytes,
    .setStorage contextAccount activationKey encoded,
    .setValidatorState (context.members.map fun m => (m.address, m.stake)) db.ledger.stakingPool]

/-- Where a migration record lets activation happen. -/
def checkMigration (commitment : Hash256) : Result Unit :=
  match db.nativeMigration with
  | none => .ok ()
  | some record =>
    match record.refusalAgainst db with
    | some reason => .error (fail reason)
    | none => Result.require (record.contextCommitment = commitment)
        (fail ("migration record authorises a different inference binding than the one " ++
          "being activated"))

/-- The refusal of an activation at another height, or of a second one. -/
def activationRefusal : StateError :=
  match db.nativeMigration with
  | none => fail "native inference activation requires unused private genesis"
  | some record => fail
      (s!"native inference migration activates at height {record.activationHeight}, and this " ++
        s!"node is at {db.height}")

/-- The row that records what authorised a migrated chain. -/
def migrationOps : Result (List NativeWalOp) :=
  match db.nativeMigration with
  | none => .ok []
  | some record => do
    let encoded ← ofBincode (NativeExternals.serializeMigration record)
    Result.require (encoded.length ≤ maxContextBytes)
      (fail "native migration record exceeds bound")
    pure [.setStorage contextAccount migrationKey encoded]

/-- `activate_native_inference_locked` up to the first append. -/
def planActivation (context : InferenceAdmissionContext) :
    Result (Hash256 × Option BindingChange) := do
  db.requireHealthyWal
  let commitment ← validateNativeInferenceActivation db context
  Result.require (db.useJmt = false) (fail
    "private native inference activation requires the canonical default account-root backend")
  match db.nativeInferenceContext with
  | some existing => do
    Result.require (existing = context) (fail "native inference activation cannot change")
    pure (commitment, none)
  | none => do
    db.checkMigration commitment
    Result.require (db.height = (db.nativeMigration.elim 0 (·.activationHeight)) ∧
      db.getStorage contextAccount contextKey = none) db.activationRefusal
    let encoded ← encodeActivation context
    Result.require (encoded.length ≤ maxContextBytes) (fail "native context exceeds bound")
    Result.require (db.getAccount contextAccount = none)
      (fail "native context account is occupied")
    let account : Account := { Account.new contextAccount 0 with storageRoot := commitment }
    let migration ← db.migrationOps
    pure (commitment, some ⟨db.bindingOps account commitment encoded context ++ migration,
      context, db.supersededBindings⟩)

/-- `activate_native_inference_locked`. -/
def activateNativeInference (context : InferenceAdmissionContext) (walSeal : WalSeal)
    (sync : Option String) : NativeDb × Result Hash256 :=
  match db.planActivation context with
  | .error e => (db, .error e)
  | .ok (commitment, change) => db.commitBinding commitment change walSeal sync

/-- The superseded bindings an update keeps and drops, and whether the current one is kept. -/
structure Retention where
  keep : List Hash256
  discard : List Hash256
  retirePrevious : Bool

/-- The retention part of `update_native_inference_binding_locked`. -/
def retention (previousCommitment : Hash256) : Result Retention := do
  let named := db.bindingsNamedByPendingWork
  let index ← db.retainedBindingIndex
  let keep := index.filter fun held => decide (held ∈ named)
  let discard := index.filter fun held => decide (held ∉ named)
  let retirePrevious := decide (previousCommitment ∈ named)
  let keep := if retirePrevious = true ∧ previousCommitment ∉ keep
    then keep ++ [previousCommitment] else keep
  let keep := keep.insertionSort fun a b => a ≤ b
  Result.require (keep.length ≤ maxRetainedBindings) (fail
    (s!"{keep.length} superseded bindings would still be named by pending work, over the limit " ++
      s!"of {maxRetainedBindings}; let that work settle or expire before updating again"))
  pure ⟨keep, discard, retirePrevious⟩

/-- The bindings in memory that an update keeps. -/
def retain (superseded : FinMap Hash256 InferenceAdmissionContext) (keep : List Hash256) :
    FinMap Hash256 InferenceAdmissionContext :=
  FinMap.ofList ((FinMap.toSortedList superseded).filter fun e => decide (e.1 ∈ keep))

/-- `update_native_inference_binding_locked` up to the first append. -/
def planUpdate (context : InferenceAdmissionContext) :
    Result (Hash256 × Option BindingChange) := do
  db.requireHealthyWal
  let previous ← Result.some?
    (fail "there is no active inference binding to update; activate one first")
    db.nativeInferenceContext
  let previousCommitment ← previous.commitment
  if previous = context then pure (previousCommitment, none)
  else do
    Result.require (db.useJmt = false) (fail
      ("a native inference binding update requires the canonical default account-root " ++
        "backend"))
    let commitment ← validateNativeInferenceBindingShape db context
    Result.require (context.domain.chainGenesis = previous.domain.chainGenesis)
      (fail "a binding update cannot move the chain the binding is bound to")
    Result.require (context.selectionRule = previous.selectionRule) (fail
      ("the commit-time selection rule is fixed for the chain's life; a binding update " ++
        "cannot change it"))
    let r ← db.retention previousCommitment
    let encoded ← encodeActivation context
    Result.require (encoded.length ≤ maxContextBytes) (fail "native context exceeds bound")
    let account ← Result.some? (fail "native inference context account is missing")
      (db.getAccount contextAccount)
    let retired ← if r.retirePrevious = true then do
        let bytes ← encodeActivation previous
        pure [NativeWalOp.setStorage contextAccount (versionKey previousCommitment) bytes]
      else pure []
    let kept := retain db.supersededBindings r.keep
    pure (commitment, some
      ⟨db.bindingOps { account with storageRoot := commitment } commitment encoded context ++
          [.setStorage contextAccount versionsKey (serializeIndex r.keep)] ++ retired ++
          r.discard.map fun gone => .deleteStorage contextAccount (versionKey gone),
        context,
        if r.retirePrevious = true then FinMap.set kept previousCommitment (some previous)
        else kept⟩)

/-- `update_native_inference_binding_locked`. -/
def updateNativeInferenceBinding (context : InferenceAdmissionContext) (walSeal : WalSeal)
    (sync : Option String) : NativeDb × Result Hash256 :=
  match db.planUpdate context with
  | .error e => (db, .error e)
  | .ok (commitment, change) => db.commitBinding commitment change walSeal sync

/-! ## Reopening -/

/-- The rows that hold request metadata. -/
def metadataRows : List (Address × Bytes) :=
  (FinMap.toSortedList db.ledger.storage).filterMap fun e =>
    (e.2.lookup metadataKey).map fun bytes => (e.1, bytes)

/-- One row of `rebuild_native_inference_pending`. -/
def rebuildRow (commitment : Hash256) (pending : FinMap Hash256 Nat) (row : Address × Bytes) :
    Result (FinMap Hash256 Nat) := do
  let metadata ← (NativeExternals.deserializeMetadata row.2).mapError fun e =>
    fail s!"invalid native pending metadata: {e}"
  Result.require (metadata.contextCommitment = commitment ∨
      db.supersededBindings.lookup metadata.contextCommitment ≠ none)
    (fail "native metadata context mismatch")
  let requestId := metadata.request.job.requestId
  let receipt ← Result.some? (fail "native metadata escrow mismatch")
    (← db.readNativeMetadata requestId)
  Result.require (escrowAddress requestId = row.1) (fail "native metadata at wrong address")
  if metadata.status = .pending then do
    Result.require (pending.keys.card < maxNativePending)
      (fail "native pending index exceeds bound")
    pure (FinMap.set pending requestId (some receipt.admissionHeight))
  else pure pending

def rebuildNativeInferencePending (commitment : Hash256) : Result NativeDb := do
  let pending ← db.metadataRows.foldlM (db.rebuildRow commitment) ∅
  pure { db with nativePending := pending }

/-- The migration part of `restore_native_inference_context`. -/
def restoreMigration : Result NativeDb :=
  match db.getStorage contextAccount migrationKey with
  | none => .ok db
  | some encoded => do
    let record ← (NativeExternals.deserializeMigration encoded).mapError fun e =>
      fail s!"invalid native migration record: {e}"
    match record.refusalAgainst db with
    | some reason => throw (fail
        s!"recorded native migration does not authorise this chain: {reason}")
    | none => pure { db with nativeMigration := some record }

/-- One retained binding, read back and checked. -/
def restoreBinding (context : InferenceAdmissionContext) (held : Hash256) :
    Result InferenceAdmissionContext := do
  let bytes ← Result.some? (fail s!"retained inference binding {held.toHex} is indexed but missing")
    (db.getStorage contextAccount (versionKey held))
  let superseded ← decodeActivation bytes
  let commitment ← superseded.commitment
  Result.require (commitment = held) (fail
    s!"retained inference binding {held.toHex} does not match its own commitment")
  let setHash ← ofContract (validatorSetCommitment superseded.members)
  Result.require (setHash = superseded.domain.validatorSetHash) (fail
    s!"retained inference binding {held.toHex} has an incorrect validator-set hash")
  Result.require (superseded.domain.chainGenesis = context.domain.chainGenesis) (fail
    s!"retained inference binding {held.toHex} belongs to another chain")
  pure superseded

/-- The retained bindings, read back. -/
def restoreBindings (context : InferenceAdmissionContext) (index : List Hash256) :
    Result (FinMap Hash256 InferenceAdmissionContext) :=
  index.foldlM (fun retained held => do
    let superseded ← db.restoreBinding context held
    pure (FinMap.set retained held (some superseded))) ∅

/-- `restore_native_inference_context`; the transaction index it rebuilds last is not read
    by native inference. -/
def restoreNativeInferenceContext : Result NativeDb := do
  let db ← db.restoreMigration
  match db.getStorage contextAccount activationKey with
  | none => do
    Result.require (((FinMap.toSortedList db.blocks).any fun e =>
        e.2.header.protocolVersion.major == 4) = false)
      (fail "protocol-4 history has no rooted activation context")
    pure db
  | some encoded => do
    let context ← decodeActivation encoded
    let commitment ← validateNativeInferenceActivation db context
    let index ← db.retainedBindingIndex
    let retained ← db.restoreBindings context index
    let db := { db with supersededBindings := retained, nativeContext := some context }
    db.rebuildNativeInferencePending commitment

/-- The database a node has after replaying its log, before native inference is restored. -/
def closed : NativeDb :=
  { db with
    gpuCache := none
    walFailure := none
    nativeMigration := none
    nativeContext := none
    supersededBindings := ∅
    nativePending := ∅ }

/-- The node is stopped and opened again. -/
def reopen : Result NativeDb := db.closed.restoreNativeInferenceContext

end NativeDb

end ArcChain
