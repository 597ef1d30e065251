/-
The planner of native transitions (`InferencePlanner`): admission of a
request into an escrow, its finalization by a vote certificate, its refund
after expiry.  A plan is a record of account and storage replacements,
made from detached copies; nothing is written here.
-/
import ArcChain.Native.Db
import ArcChain.State.BlockStm

namespace ArcChain

open Word

variable [NativeExternals]

structure InferencePlanner where
  db : NativeDb
  /-- The binding that governs the transaction. -/
  context : InferenceAdmissionContext
  contextCommitment : Hash256
  /-- The binding the context account is pinned to. -/
  currentCommitment : Hash256

/-- `InferencePlan`; what `AlreadyTerminal` reports is not read by the block path. -/
inductive InferencePlan where
  | transition (record : InferenceTransitionRecord)
  | alreadyTerminal

/-- The execution error with this text. -/
def fail (text : String) : StateError := .executionError text

namespace InferencePlanner

variable (p : InferencePlanner)

def ensureBindingUsable : Result Unit :=
  Result.require (p.db.recoveryContext = none ∨
      ∃ r ∈ p.db.nativeMigration, r.refusalAgainst p.db = none)
    (fail "isolated inference adapter became recovery-bound")

def ensureContextCurrent : Result Unit := do
  Result.require (p.db.membersFromState = p.context.members)
    (fail "active validator set changed after isolated context pin")
  p.ensureBindingUsable

def trustedTime : Result Nat :=
  match p.db.getAccount contextAccount with
  | none => .ok 0
  | some account => do
    Result.require (account.storageRoot = p.currentCommitment)
      (fail "persisted inference clock is not bound to the context account")
    pure account.nonce

/-- The status part of `validate_record`. -/
def checkStatus (m : InferenceMetadata) : Result Unit :=
  match m.status with
  | .pending =>
    Result.require (m.output = [] ∧ m.outputHash = none ∧ m.certificate = none ∧ m.credits = [])
      (fail "pending transition contains terminal settlement data")
  | .finalized =>
    Result.require (m.output ≠ [] ∧ m.outputHash = some (hashBytes m.output) ∧
        ∃ certificate ∈ m.certificate, certificate.output = m.output)
      (fail "finalized transition has invalid receipt data")
  | .refunded =>
    Result.require (m.output = [] ∧ m.outputHash = none ∧ m.certificate = none)
      (fail "refund transition has invalid receipt data")

/-- The input blob is bounded and has the signed hash. -/
def InputMatches (blob : Bytes) (request : InferenceRequest) : Prop :=
  blob.length ≤ tier1InputBlobMax ∧ hashBytes blob = request.job.inputHash

instance (blob : Bytes) (request : InferenceRequest) : Decidable (InputMatches blob request) :=
  inferInstanceAs (Decidable (_ ∧ _))

def validateRecord (record : InferenceTransitionRecord) : Result Unit := do
  Result.require (record.contextCommitment = p.contextCommitment ∧
      record.metadata.contextCommitment = p.contextCommitment ∧
      record.requestId = record.metadata.request.job.requestId ∧
      record.metadata.request.job.domain = p.context.domain ∧
      record.members = p.context.members ∧ record.accountUpdates.length ≤ 40 ∧
      record.storageUpdates.length ≤ maxStorageUpdates ∧
      record.escrow = escrowAddress record.requestId)
    (fail "isolated inference transition metadata mismatch or exceeds bound")
  let encodedRecord ← ofBincode (NativeExternals.serializeRecord record)
  Result.require (encodedRecord.length ≤ maxTransitionBytes)
    (fail "isolated inference transition exceeds WAL bound")
  let encoded ← ofBincode (NativeExternals.serializeMetadata record.metadata)
  Result.require (encoded.length ≤ maxMetadataBytes ∧
      record.metadata.output.length ≤ tier1OutputBlobMax)
    (fail "isolated inference transition metadata/output exceeds bound")
  checkStatus record.metadata
  Result.require (InputMatches record.metadata.inputBlob record.metadata.request)
    (fail "inference input blob is oversized or does not match its signed hash")
  Result.require ((record.escrow, metadataKey, encoded) ∈ record.storageUpdates)
    (fail "inference transition does not persist its exact escrow receipt")
  Result.require ((record.accountUpdates.map Prod.fst).Nodup ∧
      ∀ e ∈ record.accountUpdates, e.2.address = e.1)
    (fail "isolated inference transition has duplicate account replacement")
  Result.require ((record.storageUpdates.map fun e => (e.1, e.2.1)).Nodup ∧
      ∀ e ∈ record.storageUpdates, e.2.2.length ≤ maxMetadataBytes)
    (fail "isolated inference transition has duplicate or oversized storage")
  let escrow ← Result.some? (fail "escrow replacement is missing")
    (record.accountUpdates.lookup record.escrow)
  Result.require (escrow.storageRoot = hashBytes encoded)
    (fail "escrow storage root does not commit transition metadata")

/-- `sort_by_key(|(address, _)| address.0)`. -/
def sortUpdates (updates : List (Address × Account)) : List (Address × Account) :=
  updates.insertionSort fun a b => a.1 ≤ b.1

/-- The context account of an admission and what pins it, if it is not pinned yet. -/
def admissionPin (now : Nat) : Result (Account × List (Address × Hash256 × Bytes)) := do
  let pin := (p.db.getAccount contextAccount).getD (Account.new contextAccount 0)
  Result.require (pin.balance = 0 ∧ pin.codeHash = .zero)
    (fail "context pin account is unexpectedly occupied")
  match p.db.getStorage contextAccount contextKey with
  | none => do
    Result.require (pin.storageRoot = .zero)
      (fail "context pin account has an unrecognized storage root")
    pure ({ pin with storageRoot := p.currentCommitment, nonce := now },
      [(contextAccount, contextKey, p.currentCommitment.toBytes)])
  | some _ => do
    Result.require (pin.storageRoot = p.currentCommitment)
      (fail "context pin account root does not match pinned context")
    pure ({ pin with nonce := now }, [])

def planAdmit (request : InferenceRequest) (inputBlob : Bytes) (now : Nat) :
    Result InferencePlan := do
  p.db.requireHealthyWal
  p.ensureContextCurrent
  Result.require (p.db.height ≤ now) (fail "inference admission time is behind the state height")
  let trusted ← p.trustedTime
  Result.require (trusted ≤ now) (fail "inference admission time moved backwards")
  Result.require (InputMatches inputBlob request)
    (fail "inference input blob is oversized or does not match its signed hash")
  Result.require (p.context.allows request = true)
    (fail "model/profile/generation/assignment is not in the pinned allowlist")
  let pending ← ofContract (request.validate p.context.domain p.context.members now)
  let job := pending.request.job
  let sender ← Result.some? (.accountNotFound job.requester) (p.db.getAccount job.requester)
  Result.require (sender.nonce = job.nonce) (.invalidNonce sender.nonce job.nonce)
  Result.require (job.reservedMaxPayment ≤ sender.balance)
    (.insufficientBalance sender.balance job.reservedMaxPayment)
  let nonce ← Result.some? (fail "request nonce overflow") (checkedAdd sender.nonce 1)
  let escrow := escrowAddress pending.requestId
  Result.require (p.db.getStorage escrow metadataKey = none ∧
      ∀ account ∈ p.db.getAccount escrow, account.balance = 0 ∧ account.codeHash = .zero)
    (fail "request id already has an escrow or terminal record")
  let metadata : InferenceMetadata := ⟨p.contextCommitment, request, inputBlob, .pending, [], none,
    none, []⟩
  let encoded ← ofBincode (NativeExternals.serializeMetadata metadata)
  let escrowAccount : Account := { Account.new escrow job.reservedMaxPayment with
    nonce := now, storageRoot := hashBytes encoded }
  let (pin, pinRows) ← p.admissionPin now
  let record : InferenceTransitionRecord :=
    { contextCommitment := p.contextCommitment
      requestId := pending.requestId
      escrow := escrow
      admissionHeight := now
      members := p.context.members
      metadata := metadata
      accountUpdates := sortUpdates
        [(job.requester, { sender with
            balance := sender.balance - job.reservedMaxPayment, nonce := nonce }),
          (escrow, escrowAccount), (contextAccount, pin)]
      storageUpdates := (escrow, metadataKey, encoded) :: pinRows }
  p.validateRecord record
  pure (.transition record)

/-- The metadata of a request and its admission height. -/
def loadMetadata (requestId : Hash256) : Result (InferenceMetadata × Nat) := do
  let escrow := escrowAddress requestId
  let bytes ← Result.some? (fail "pending inference record not found")
    (p.db.getStorage escrow metadataKey)
  Result.require (bytes.length ≤ maxMetadataBytes) (fail "pending metadata exceeds bound")
  let metadata ← (NativeExternals.deserializeMetadata bytes).mapError fun e =>
    fail s!"decode pending metadata: {e}"
  Result.require (metadata.request.job.requestId = requestId)
    (fail "pending metadata request mismatch")
  Result.require (metadata.contextCommitment = p.contextCommitment)
    (fail "pending metadata context commitment mismatch")
  Result.require (InputMatches metadata.inputBlob metadata.request)
    (fail "persisted inference input blob does not match its signed hash")
  let account ← Result.some? (fail "pending escrow account missing") (p.db.getAccount escrow)
  Result.require (account.storageRoot = hashBytes bytes) (fail "pending escrow commitment mismatch")
  pure (metadata, account.nonce)

def reconstructPending (metadata : InferenceMetadata) (admissionHeight : Nat) :
    Result PendingInference := do
  Result.require (metadata.request.job.domain = p.context.domain ∧
      p.context.allows metadata.request = true)
    (fail "persisted request no longer matches pinned context")
  ofContract (metadata.request.validate p.context.domain p.context.members admissionHeight)

/-- The credit loop of `plan_terminal`. -/
def creditAccounts (escrow : Address) :
    FinMap Address Account → List SettlementCredit → Result (FinMap Address Account)
  | accounts, [] => .ok accounts
  | accounts, credit :: rest => do
    Result.require (credit.payee ≠ escrow) (fail "invalid terminal credit")
    if credit.amount = 0 then creditAccounts escrow accounts rest
    else
      let account := (accounts.lookup credit.payee).getD
        ((p.db.getAccount credit.payee).getD (Account.new credit.payee 0))
      let balance ← Result.some? (fail "credit balance overflow")
        (checkedAdd account.balance credit.amount)
      creditAccounts escrow
        (FinMap.set accounts credit.payee (some (account.withBalance balance))) rest

/-- The context account of a terminal transition. -/
def terminalClock (now : Nat) : Result Account := do
  let clock ← Result.some? (fail "context clock account is missing") (p.db.getAccount contextAccount)
  Result.require (clock.balance = 0 ∧ clock.codeHash = .zero ∧
      clock.storageRoot = p.currentCommitment ∧
      p.db.getStorage contextAccount contextKey ≠ none)
    (fail "context clock account is not pinned")
  pure { clock with nonce := now }

def planTerminal (metadata : InferenceMetadata) (requestId : Hash256) (admissionHeight : Nat)
    (now : Nat) : Result InferenceTransitionRecord := do
  let escrow := escrowAddress requestId
  let job := metadata.request.job
  let encoded ← ofBincode (NativeExternals.serializeMetadata metadata)
  Result.require (encoded.length ≤ maxMetadataBytes) (fail "terminal metadata exceeds bound")
  let escrowAccount ← Result.some? (fail "terminal escrow account missing")
    (p.db.getAccount escrow)
  Result.require (escrowAccount.balance = job.reservedMaxPayment) (fail "escrow reserve mismatch")
  let credited ← Result.some? (fail "credit sum overflow") (creditSum metadata.credits)
  if metadata.status = .finalized then
    let expected ← Result.some? (fail "settlement conservation overflow")
      ((checkedSub job.reservedMaxPayment job.executionPrice).bind fun refund =>
        checkedAdd refund job.executionPrice)
    Result.require (credited = expected) (fail "final settlement is not conserving reserve")
  else
    Result.require (credited = job.reservedMaxPayment) (fail "refund is not conserving reserve")
  let emptied : Account := { escrowAccount with balance := 0, storageRoot := hashBytes encoded }
  let accounts ← p.creditAccounts escrow (FinMap.set ∅ escrow (some emptied)) metadata.credits
  let clock ← p.terminalClock now
  let record : InferenceTransitionRecord :=
    { contextCommitment := p.contextCommitment
      requestId := requestId
      escrow := escrow
      admissionHeight := admissionHeight
      members := p.context.members
      metadata := metadata
      accountUpdates := (FinMap.toSortedList accounts).map (fun e => (e.2.address, e.2)) ++
        [(contextAccount, clock)]
      storageUpdates := [(escrow, metadataKey, encoded)] }
  p.validateRecord record
  pure record

/-- The clock test of the terminal plans. -/
def checkClock (admissionHeight now : Nat) : Result Unit := do
  Result.require (admissionHeight ≤ now)
    (fail "inference terminal transition moved backwards in trusted time")
  let trusted ← p.trustedTime
  Result.require (trusted ≤ now)
    (fail "inference terminal transition moved backwards in trusted time")

def planRefund (requestId : Hash256) (now : Nat) : Result InferencePlan := do
  p.db.requireHealthyWal
  p.ensureBindingUsable
  let (metadata, admissionHeight) ← p.loadMetadata requestId
  match metadata.status with
  | .refunded => pure .alreadyTerminal
  | .finalized => throw (fail
      "request already finalized; refund is not a matching terminal operation")
  | .pending => do
    p.checkClock admissionHeight now
    let pending ← p.reconstructPending metadata admissionHeight
    let credits ← ofContract
      (planRefundCredits pending p.context.domain p.context.members now)
    let terminal : InferenceMetadata := ⟨p.contextCommitment, metadata.request,
      metadata.inputBlob, .refunded, [], none, none, credits⟩
    let record ← p.planTerminal terminal requestId admissionHeight now
    pure (.transition record)

def planFinish (requestId : Hash256) (certificate : InferenceCertificate) (now : Nat) :
    Result InferencePlan := do
  p.db.requireHealthyWal
  p.ensureBindingUsable
  let (metadata, admissionHeight) ← p.loadMetadata requestId
  match metadata.status with
  | .finalized =>
    if metadata.certificate = some certificate then pure .alreadyTerminal
    else throw (fail "finalize certificate does not match stored terminal output")
  | .refunded => throw (fail
      "request already refunded; finalize is not a matching terminal operation")
  | .pending => do
    p.checkClock admissionHeight now
    let pending ← p.reconstructPending metadata admissionHeight
    let (credits, outputHash) ← ofContract
      (planFinalizeCredits pending certificate p.context.members p.context.domain now)
    let terminal : InferenceMetadata := ⟨p.contextCommitment, metadata.request,
      metadata.inputBlob, .finalized, certificate.output, some outputHash, some certificate,
      credits⟩
    let record ← p.planTerminal terminal requestId admissionHeight now
    pure (.transition record)

end InferencePlanner

end ArcChain
