/-
The transaction families of the recovery protocol (major version 3):
transfers with a fee, faucet claims and community inference rewards, with
the admission checks that run before them.

Faucet claims and rewards also run on a legacy chain, without the
admission checks and with the older marker addresses.  All three arms
build the accounts they will write from detached copies and write them
when nothing can fail any more.
-/
import ArcChain.Lib.StakeQuorum
import ArcChain.State.Contracts

namespace ArcChain

open Word StoreProg

/-! ## Reserved accounts and issuance budgets -/

section Addresses

variable [Crypto]

def isLegacyReservedSystemAccount (a : Address) : Bool :=
  [faucetPoolAddress, inferenceRewardTreasuryAddress, hashBytes [2], bridgeEscrowAddress,
    v3FeeTreasuryAddress].contains a

def isReservedSystemAccount (a : Address) : Bool :=
  isLegacyReservedSystemAccount a || a == v3FeeTreasuryAddress || isV3SystemAccount a

def communityRewardBudgetAddress (kind : V3SystemAccountKind) (derivationKey : String)
    (heightOrEpoch : Nat) (identity : Option Address) : Address :=
  v3SystemAccountAddress kind (Crypto.blake3DeriveKey derivationKey
    (leBytes 8 heightOrEpoch ++ (identity.map Hash256.toBytes).getD []))

def communityRewardBlockBudgetAddress (height : Nat) : Address :=
  communityRewardBudgetAddress .communityRewardBlockBudget
    "ARC-community-reward-block-budget-v3" height none

def communityRewardEpochBudgetAddress (epoch : Nat) : Address :=
  communityRewardBudgetAddress .communityRewardEpochBudget
    "ARC-community-reward-epoch-budget-v3" epoch none

def communityRewardWorkerBudgetAddress (epoch : Nat) (worker : Address) : Address :=
  communityRewardBudgetAddress .communityRewardWorkerBudget
    "ARC-community-reward-worker-epoch-budget-v3" epoch (some worker)

def communityRewardCoordinatorBudgetAddress (epoch : Nat) (coordinator : Address) : Address :=
  communityRewardBudgetAddress .communityRewardCoordinatorBudget
    "ARC-community-reward-coordinator-epoch-budget-v3" epoch (some coordinator)

def v3CommunityRewardEpochBlocks : Nat := 216000

/-- `V3_COMMUNITY_REWARD_MAX_PER_BLOCK` .. `_COORDINATOR_EPOCH`. -/
def v3CommunityRewardMaxPerBlock : Nat := 1

def v3CommunityRewardMaxPerEpoch : Nat := 40

def v3CommunityRewardMaxPerWorkerEpoch : Nat := 8

def v3CommunityRewardMaxPerCoordinatorEpoch : Nat := 16

def communityRewardIssuancePolicyHash : Hash256 :=
  Crypto.blake3DeriveKey "ARC-community-reward-issuance-policy-v3"
    ([inferenceAttestationReward, v3CommunityRewardEpochBlocks, v3CommunityRewardMaxPerBlock,
      v3CommunityRewardMaxPerEpoch, v3CommunityRewardMaxPerWorkerEpoch,
      v3CommunityRewardMaxPerCoordinatorEpoch].flatMap (leBytes 8))

/-- The exactly-once markers of a reward. -/
structure RewardMarkers where
  job : Address
  certificate : Address
  probe : Option Address

/-- The markers under legacy addresses. -/
def legacyRewardMarkers (body : CommunityInferenceRewardBody) : RewardMarkers where
  job := CommunityInferenceRewardBody.markerAddress body.chainDomain body.jobId
  certificate := CommunityInferenceRewardBody.certificateMarkerAddress body.chainDomain
    body.worker body.workerCertificate.attestationHash
  probe := CommunityInferenceRewardBody.recoveryProbeMarkerAddress body.chainDomain
    body.assignmentEpoch

/-- The markers under protocol-v3 addresses. -/
def v3RewardMarkers (body : CommunityInferenceRewardBody) : RewardMarkers where
  job := CommunityInferenceRewardBody.v3MarkerAddress body.chainDomain body.jobId
  certificate := CommunityInferenceRewardBody.v3CertificateMarkerAddress body.chainDomain
    body.worker body.workerCertificate.attestationHash
  probe := CommunityInferenceRewardBody.v3RecoveryProbeMarkerAddress body.chainDomain
    body.assignmentEpoch

/-- A marker address meets another account of the reward. -/
def RewardMarkers.collide (m : RewardMarkers) (body : CommunityInferenceRewardBody) : Bool :=
  m.job == m.certificate || m.job == body.worker || m.certificate == body.worker ||
    m.job == inferenceRewardTreasuryAddress || m.certificate == inferenceRewardTreasuryAddress ||
    m.probe.any fun probe =>
      probe == m.job || probe == m.certificate || probe == body.worker ||
        probe == body.coordinator || probe == inferenceRewardTreasuryAddress

end Addresses

/-! ## Validators -/

def activeValidators (validators : FinMap Address Nat) : List (Address × Nat) :=
  (FinMap.toSortedList validators).filter fun e => minValidatorStake ≤ e.2

def maxCommunityRewardApprovals : Nat := 64

def communityRewardValidatorSetSize : Nat := 6

def communityRewardApprovalsRequired : Nat := 5

def communityRewardMinWorkerStake : Nat := 0

/-- `Account` of an address, or the empty one. -/
def getAccountOrNew (c : Context) (a : Address) : Exec Account := do
  pure ((← getAccount c a).getD (Account.new a 0))

/-- `accounts.contains_key`. -/
def containsAccount (a : Address) : Exec Bool := do
  pure (← readAccount a).isSome

variable [Externals]

/-- The approval loop: every signer new, active and valid; the stake they add up to. -/
def approvedStake (active : List (Address × Nat)) (commitment : Hash256) :
    List Address → Nat → List CommunityRewardValidatorApproval → Except StateError Nat
  | _, stake, [] => .ok stake
  | seen, stake, a :: rest =>
    if a.validator ∈ seen then
      .error (.executionError
        s!"community inference reward: duplicate validator approval from {a.validator.toHex}")
    else match active.lookup a.validator with
      | none => .error (.executionError
          (s!"community inference reward: approval signer {a.validator.toHex} " ++
            "is not an active validator"))
      | some s =>
        if Crypto.verify a.asSignature commitment a.validator then
          approvedStake active commitment (a.validator :: seen) (stake + s) rest
        else .error (.executionError
          s!"community inference reward: invalid Ed25519 approval from {a.validator.toHex}")

/-- More than two thirds of the active
    identities and of the active stake; five of six in the recovery protocol. -/
def verifyCommunityRewardValidatorApprovals (c : Context)
    (body : CommunityInferenceRewardBody) : Exec Unit := do
  let approvals := body.validatorApprovals.length
  require (approvals ≤ maxCommunityRewardApprovals) (.executionError
    (s!"community inference reward: {approvals} validator approvals exceeds protocol " ++
      s!"maximum {maxCommunityRewardApprovals}"))
  let active := activeValidators (← readValidators)
  require (active ≠ []) (.executionError
    "community inference reward: active validator set is empty")
  require (active.length ≤ maxCommunityRewardApprovals) (.executionError
    (s!"community inference reward: active validator set size {active.length} exceeds " ++
      s!"reward-v1 maximum {maxCommunityRewardApprovals}"))
  require (c.recoveryContext = none ∨ active.length = communityRewardValidatorSetSize)
    (.executionError
      (s!"community inference reward: protocol-v3 committee has {active.length} active " ++
        s!"validators; exactly {communityRewardValidatorSetSize} required"))
  let required := if c.recoveryContext = none then StakeQuorum.supermajority active.length
    else communityRewardApprovalsRequired
  require (required ≤ approvals) (.executionError
    (s!"community inference reward: insufficient validator approval identities: have " ++
      s!"{approvals}, need {required} of {active.length} active validators"))
  let totalStake := (active.map Prod.snd).sum
  let stake ← ofExcept
    (approvedStake active body.validatorApprovalCommitment [] 0 body.validatorApprovals)
  require (totalStake * 2 / 3 + 1 ≤ stake) (.executionError
    (s!"community inference reward: insufficient approved stake: have {stake}, need " ++
      s!"{totalStake * 2 / 3 + 1} of {totalStake} active stake"))

/-! ## Protocol-v3 admission -/

/-- `v3_allows_transaction`. -/
def TxBody.v3Allows : TxBody → Bool
  | .transfer _ | .faucetClaim _ | .communityInferenceReward _ => true
  | _ => false

def v3MaxTransactionBytes : Nat := 64 * 1024

def v3MinTransferFee : Nat := 1

/-- The check of the envelope's family against the body's. -/
def requireTxType (tx : Transaction) : Exec Unit :=
  require (tx.txType = tx.body.txType) (.executionError
    (s!"transaction type/body mismatch: envelope {tx.txType.debug}, " ++
      s!"body {tx.body.txType.debug}"))

def validateV3TransactionEnvelope (c : Context) (tx : Transaction) : Exec Unit := do
  requireTxType tx
  let migratedNative := c.nativeMigration && c.nativeInferenceContext && tx.body.isNativeBody
  require (tx.body.v3Allows = true ∨ migratedNative = true) (.executionError
    s!"transaction type {tx.txType.debug} is unavailable in recovery protocol v3")
  let serialized ← ofExcept ((Externals.serializeTransaction tx).mapError fun e =>
    .executionError s!"transaction cannot be size-checked for v3 admission: {e}")
  require (serialized.length ≤ v3MaxTransactionBytes) (.executionError
    s!"transaction size {serialized.length} exceeds v3 maximum {v3MaxTransactionBytes}")
  require (tx.gasLimit = 0 ∨
      (tx.body.gasCost ≤ tx.gasLimit ∧ tx.gasLimit ≤ GasCosts.blockGasLimit)) (.executionError
    (s!"transaction gas limit {tx.gasLimit} is outside [{tx.body.gasCost}, " ++
      s!"{GasCosts.blockGasLimit}]"))
  require (c.verifyTransactionSignature tx = true) (.executionError
    "invalid transaction signature for recovery protocol v3")

/-- The accounts of a v3 transfer collide with each other or with a system account. -/
def v3TransferCollision (tx : Transaction) (body : TransferBody) : Bool :=
  tx.sender == body.recipient || isReservedSystemAccount tx.sender ||
    isReservedSystemAccount body.recipient || tx.sender == v3FeeTreasuryAddress ||
    body.recipient == v3FeeTreasuryAddress

def validateV3TransferAdmission (c : Context) (tx : Transaction) (body : TransferBody) :
    Exec Unit := do
  require (body.amount ≠ 0) (.executionError "v3 transfer amount must be positive")
  require (v3MinTransferFee ≤ tx.fee) (.executionError
    s!"v3 transfer fee {tx.fee} is below minimum {v3MinTransferFee}")
  require (body.amountCommitment = none) (.executionError
    "v3 transfer amount commitments are not active")
  require (v3TransferCollision tx body = false) (.executionError
    "v3 transfer sender/recipient/system account collision")
  let sender ← ofOption (.insufficientBalance 0 (saturatingAdd body.amount tx.fee))
    (← getAccount c tx.sender)
  requireNonce sender tx.nonce
  let _ ← orError "transfer nonce overflow" (checkedAdd sender.nonce 1)
  let totalDebit ← orError "transfer amount plus fee overflow" (checkedAdd body.amount tx.fee)
  requireBalance sender.balance totalDebit
  let receiver ← getAccountOrNew c body.recipient
  let _ ← orError "transfer recipient balance overflow" (checkedAdd receiver.balance body.amount)
  let treasury ← getAccountOrNew c v3FeeTreasuryAddress
  let _ ← orError "transfer fee treasury balance overflow" (checkedAdd treasury.balance tx.fee)

/-- An account in the shape of the faucet marker of some recipient, stored at that
    recipient's marker address. -/
def isFaucetMarkerAt (a : Address) (account : Account) : Bool :=
  account.balance == 0 && account.nonce == 1 && account.codeHash != .zero &&
    FaucetClaimBody.markerAddress account.codeHash == a

/-- The collision test of a faucet claim. -/
def faucetCollision (reserved : Address → Bool) (marker : Address) (body : FaucetClaimBody)
    (recipient : Option Account) : Bool :=
  reserved body.recipient || marker == faucetPoolAddress || marker == body.recipient ||
    recipient.any (isFaucetMarkerAt body.recipient)

/-- The bounds of a faucet claim. -/
def requireFaucetAmount (body : FaucetClaimBody) : Exec Unit :=
  require (body.amount ≠ 0 ∧ body.amount ≤ faucetClaimMax) (.executionError
    s!"faucet claim: amount {body.amount} outside [1, {faucetClaimMax}]")

/-- `is_validator(&tx.from)`, with the text of the family. -/
def requireValidator (family : String) (a : Address) : Exec Unit := do
  require (isValidator (← readValidators) a = true) (.executionError
    s!"{family}: signer {a.toHex} is not an active validator")

def validateV3FaucetAdmission (c : Context) (tx : Transaction) (body : FaucetClaimBody) :
    Exec Unit := do
  require (tx.fee = 0) (.executionError
    "faucet claim cannot charge an unaccounted transaction fee")
  let active := activeValidators (← readValidators)
  require (active.length = communityRewardValidatorSetSize) (.executionError
    (s!"faucet claim requires the exact {communityRewardValidatorSetSize}-validator " ++
      "recovery authority set"))
  requireValidator "faucet claim" tx.sender
  requireFaucetAmount body
  let marker := FaucetClaimBody.v3MarkerAddress body.recipient
  let recipient ← getAccount c body.recipient
  require (faucetCollision isReservedSystemAccount marker body recipient = false)
    (.executionError "faucet claim: system account address collision")
  require ((← containsAccount marker) = false) (.executionError
    s!"faucet claim: recipient {body.recipient.display} has already claimed")
  let legacyMarker ← getAccount c (FaucetClaimBody.markerAddress body.recipient)
  require (legacyMarker.any (fun account =>
      account.balance == 0 && account.stakedBalance == 0 && account.nonce == 1 &&
        account.codeHash == body.recipient && account.storageRoot != .zero) = false)
    (.executionError
      (s!"faucet claim: recipient {body.recipient.display} already claimed under legacy " ++
        "marker semantics"))
  let pool ← ofOption (.executionError
    "faucet claim: system faucet pool account is not prefunded") (← getAccount c faucetPoolAddress)
  requireBalance pool.balance body.amount
  let recipient ← getAccountOrNew c body.recipient
  let _ ← orError "faucet claim: recipient balance overflow"
    (checkedAdd recipient.balance body.amount)

/-- A counter is an account with no funds, tagged by
    its code hash and the policy; the next one is returned, not stored. -/
def nextCommunityRewardBudgetCounter (c : Context) (address : Address) (codeHash : Hash256)
    (limit : Nat) (label : String) : Exec Account := do
  let account ← getAccountOrNew c address
  if account.nonce ≠ 0 ∨ account.codeHash ≠ .zero then
    require (account.balance = 0 ∧ account.stakedBalance = 0 ∧ account.codeHash = codeHash ∧
        account.storageRoot = communityRewardIssuancePolicyHash) (.executionError
      s!"community inference reward: invalid {label} budget account")
  else
    require (account.balance = 0 ∧ account.stakedBalance = 0 ∧ account.storageRoot = .zero)
      (.executionError
        s!"community inference reward: {label} budget address collides with live state")
  let next ← orError s!"community inference reward: {label} budget counter overflow"
    (checkedAdd account.nonce 1)
  require (next ≤ limit) (.executionError
    s!"community inference reward: {label} issuance limit {limit} reached")
  pure { account with
    nonce := next
    codeHash := codeHash
    storageRoot := communityRewardIssuancePolicyHash }

/-- The four budget accounts of a reward at a height: block, epoch, worker, coordinator. -/
def budgetAddresses (body : CommunityInferenceRewardBody) (height : Nat) : List Address :=
  let epoch := height / v3CommunityRewardEpochBlocks
  [communityRewardBlockBudgetAddress height, communityRewardEpochBudgetAddress epoch,
    communityRewardWorkerBudgetAddress epoch body.worker,
    communityRewardCoordinatorBudgetAddress epoch body.coordinator]

/-- The budget addresses meet each other, leave the system namespace, or meet an account of
    the reward. -/
def budgetCollision (body : CommunityInferenceRewardBody) (addresses : List Address) : Bool :=
  !decide addresses.Nodup || addresses.any (fun a => !isV3SystemAccount a) ||
    addresses.any fun a =>
      a == inferenceRewardTreasuryAddress || a == body.worker || a == body.coordinator ||
        a == (v3RewardMarkers body).job || a == (v3RewardMarkers body).certificate ||
        (v3RewardMarkers body).probe == some a

def communityRewardBudgetCandidatesAt (c : Context) (body : CommunityInferenceRewardBody)
    (height : Nat) : Exec (List (Address × Account)) := do
  let epochIndex := height / v3CommunityRewardEpochBlocks
  require (budgetCollision body (budgetAddresses body height) = false) (.executionError
    "community inference reward: issuance budget address collision")
  let blockAddress := communityRewardBlockBudgetAddress height
  let block ← nextCommunityRewardBudgetCounter c blockAddress
    (hashBytes (asciiBytes "ARC-community-reward-block-budget-v3"))
    v3CommunityRewardMaxPerBlock "block"
  let epochAddress := communityRewardEpochBudgetAddress epochIndex
  let epoch ← nextCommunityRewardBudgetCounter c epochAddress
    (hashBytes (asciiBytes "ARC-community-reward-epoch-budget-v3"))
    v3CommunityRewardMaxPerEpoch "epoch"
  let workerAddress := communityRewardWorkerBudgetAddress epochIndex body.worker
  let worker ← nextCommunityRewardBudgetCounter c workerAddress body.worker
    v3CommunityRewardMaxPerWorkerEpoch "worker epoch"
  let coordinatorAddress := communityRewardCoordinatorBudgetAddress epochIndex body.coordinator
  let coordinator ← nextCommunityRewardBudgetCounter c coordinatorAddress body.coordinator
    v3CommunityRewardMaxPerCoordinatorEpoch "coordinator epoch"
  pure [(blockAddress, block), (epochAddress, epoch), (workerAddress, worker),
    (coordinatorAddress, coordinator)]

/-- The recovery binding of a reward matches the active context, or is empty without one. -/
def requireRecoveryBinding (c : Context) (body : CommunityInferenceRewardBody) : Exec Unit :=
  match c.recoveryContext with
  | some context =>
    require (body.recoveryEpoch = context.recoveryEpoch ∧
        body.validatorSetId = context.validatorSetId ∧
        body.transactionDomain = context.domainHash) (.executionError
      ("community inference reward: recovery epoch, validator-set ID, or transaction " ++
        "domain does not match active state"))
  | none =>
    require (body.recoveryEpoch = 0 ∧ body.validatorSetId = 0 ∧
        body.transactionDomain = .zero) (.executionError
      "community inference reward: recovery binding is non-zero on legacy/dev state")

/-- The checks of a reward's assignment and worker certificate at a height; execution and
    admission make them in the same order. -/
def checkRewardAssignment (c : Context) (tx : Transaction) (body : CommunityInferenceRewardBody)
    (height : Nat) : Exec Unit := do
  require (body.chainDomain = CommunityInferenceRewardBody.expectedChainDomain) (.executionError
    "community inference reward: wrong chain domain")
  require (body.jobId ≠ .zero) (.executionError
    "community inference reward: job_id cannot be zero")
  let validators ← readValidators
  require (body.coordinator = tx.sender ∧ isValidator validators body.coordinator = true)
    (.executionError
      "community inference reward: assignment coordinator must be the active outer signer")
  require (body.assignmentEpoch ≠ .zero) (.executionError
    "community inference reward: assignment_epoch cannot be zero")
  requireRecoveryBinding c body
  require (body.jobId = CommunityInferenceRewardBody.deriveJobId body.coordinator
      body.assignmentEpoch body.jobNonce body.modelId body.inputHash body.maxTokens)
    (.executionError
      "community inference reward: job_id does not match its exact assignment commitment")
  require (body.maxTokens ≠ 0) (.executionError
    "community inference reward: max_tokens must be positive")
  require (height ≤ body.expiresAtHeight) (.executionError
    (s!"community inference reward: job expired at height {body.expiresAtHeight} " ++
      s!"(current {height})"))
  require (c.verifyTransactionSignature body.reconstructWorkerAttestation = true) (.executionError
    "community inference reward: invalid worker certificate signature")
  let workerStake := (validators.lookup body.worker).getD 0
  require (communityRewardMinWorkerStake ≤ workerStake) (.executionError
    (s!"community inference reward: worker stake {workerStake} is below active policy " ++
      s!"minimum {communityRewardMinWorkerStake}"))

/-- The job, certificate and probe markers are not yet there. -/
def requireUnpaid (body : CommunityInferenceRewardBody) (markers : RewardMarkers) :
    Exec Unit := do
  require ((← containsAccount markers.job) = false) (.executionError
    s!"community inference reward: job {body.jobId.toHex} already paid")
  require ((← containsAccount markers.certificate) = false) (.executionError
    (s!"community inference reward: worker certificate " ++
      s!"{body.workerCertificate.attestationHash.toHex} already paid"))
  match markers.probe with
  | none => pure ()
  | some probe =>
    require ((← containsAccount probe) = false) (.executionError
      s!"community inference reward: recovery probe {body.assignmentEpoch.toHex} already paid")

/-- The exact shape of a marker the state machine wrote. -/
def isSpentMarker (account : Account) : Bool :=
  account.balance == 0 && account.stakedBalance == 0 && account.nonce == 1 &&
    account.codeHash != .zero

/-- A legacy marker address does not hold a spent marker. -/
def requireNotSpent (c : Context) (marker : Address) (what : String) : Exec Unit := do
  require ((← getAccount c marker).any isSpentMarker = false) (.executionError
    s!"community inference reward: {what} already paid under legacy marker semantics")

/-- No legacy marker of the reward is spent. -/
def requireNoLegacyMarker (c : Context) (body : CommunityInferenceRewardBody) : Exec Unit := do
  let markers := legacyRewardMarkers body
  requireNotSpent c markers.job s!"job {body.jobId.toHex}"
  requireNotSpent c markers.certificate
    s!"worker certificate {body.workerCertificate.attestationHash.toHex}"
  match markers.probe with
  | none => pure ()
  | some probe => requireNotSpent c probe s!"recovery probe {body.assignmentEpoch.toHex}"

/-- The worker after and the treasury before the reward, both detached. -/
def rewardAccounts (c : Context) (body : CommunityInferenceRewardBody) :
    Exec (Account × Account) := do
  let worker ← getAccountOrNew c body.worker
  let balance ← orError "community inference reward: worker balance overflow"
    (checkedAdd worker.balance inferenceAttestationReward)
  let treasury ← ofOption (.executionError "community inference reward: treasury is not funded")
    (← getAccount c inferenceRewardTreasuryAddress)
  requireBalance treasury.balance inferenceAttestationReward
  pure (worker.withBalance balance, treasury)

def validateCommunityRewardAdmission (c : Context) (tx : Transaction)
    (body : CommunityInferenceRewardBody) (executionHeight : Nat) : Exec Unit := do
  require (tx.fee = 0) (.executionError
    "community inference reward cannot charge an unaccounted transaction fee")
  require (c.communityRewardsV1ActivationHeight.any (· ≤ executionHeight) = true) (.executionError
    "community inference reward: protocol feature is not active at this height")
  requireValidator "community inference reward" tx.sender
  checkRewardAssignment c tx body executionHeight
  require (body.worker ≠ inferenceRewardTreasuryAddress ∧
      isReservedSystemAccount body.worker = false ∧
      isReservedSystemAccount body.coordinator = false) (.executionError
    "community inference reward: worker/coordinator cannot be a system account")
  require ((v3RewardMarkers body).collide body = false) (.executionError
    "community inference reward: marker address collision")
  requireUnpaid body (v3RewardMarkers body)
  requireNoLegacyMarker c body
  verifyCommunityRewardValidatorApprovals c body
  let _ ← rewardAccounts c body
  if c.protocolV3 then
    let _ ← communityRewardBudgetCandidatesAt c body executionHeight
    pure ()
  else pure ()

/-! ## Execution -/

/-- Store a list of accounts, then append their records in the same order. -/
def commitAccounts (accounts : List (Address × Account)) : Exec Unit := do
  forEach accounts fun e => insertAccount e.1 e.2
  forEach accounts fun e => logAccount e.1 e.2

/-- `TxBody::Transfer` in the recovery protocol: amount to the recipient, fee to the
    treasury. -/
def executeV3Transfer (c : Context) (tx : Transaction) (body : TransferBody) : Exec Unit := do
  validateV3TransferAdmission c tx body
  let totalDebit ← orError "transfer amount plus fee overflow" (checkedAdd body.amount tx.fee)
  let sender ← ofOption (.executionError "v3 transfer sender disappeared after preflight")
    (← getAccount c tx.sender)
  let receiver ← getAccountOrNew c body.recipient
  let treasury ← getAccountOrNew c v3FeeTreasuryAddress
  let senderBalance ← orError "transfer sender balance underflow"
    (checkedSub sender.balance totalDebit)
  let senderNonce ← orError "transfer nonce overflow" (checkedAdd sender.nonce 1)
  let receiverBalance ← orError "transfer recipient balance overflow"
    (checkedAdd receiver.balance body.amount)
  let treasuryBalance ← orError "transfer fee treasury balance overflow"
    (checkedAdd treasury.balance tx.fee)
  commitAccounts
    [(tx.sender, { sender with balance := senderBalance, nonce := senderNonce }),
      (body.recipient, receiver.withBalance receiverBalance),
      (v3FeeTreasuryAddress, treasury.withBalance treasuryBalance)]

/-- A marker: an account with nonce one that names an owner and a witness. -/
def markerAccount (address : Address) (codeHash storageRoot : Hash256) : Account where
  address := address
  balance := 0
  nonce := 1
  codeHash := codeHash
  storageRoot := storageRoot
  stakedBalance := 0

/-- The marker of a faucet claim under the active protocol. -/
def faucetMarker (c : Context) (recipient : Address) : Address :=
  if c.protocolV3 then FaucetClaimBody.v3MarkerAddress recipient
  else FaucetClaimBody.markerAddress recipient

/-- The part of `TxBody::FaucetClaim` after admission. -/
def payFaucetClaim (c : Context) (tx : Transaction) (body : FaucetClaimBody) : Exec Unit := do
  requireValidator "faucet claim" tx.sender
  requireFaucetAmount body
  let marker := faucetMarker c body.recipient
  let reserved := if c.protocolV3 then isReservedSystemAccount else isLegacyReservedSystemAccount
  let existing ← getAccount c body.recipient
  require (faucetCollision reserved marker body existing = false)
    (.executionError "faucet claim: system account address collision")
  require ((← containsAccount marker) = false) (.executionError
    s!"faucet claim: recipient {body.recipient.display} has already claimed")
  let pool ← ofOption (.executionError
    "faucet claim: system faucet pool account is not prefunded") (← getAccount c faucetPoolAddress)
  requireBalance pool.balance body.amount
  let recipient ← getAccountOrNew c body.recipient
  let balance ← orError "faucet claim: recipient balance overflow"
    (checkedAdd recipient.balance body.amount)
  commitAccounts
    [(faucetPoolAddress, pool.withBalance (pool.balance - body.amount)),
      (body.recipient, recipient.withBalance balance),
      (marker, markerAccount marker body.recipient (hashBytes (beBytes 8 body.amount)))]

/-- `TxBody::FaucetClaim`: the claim is authorized by the validator's signature; its nonce is
    not checked. -/
def executeFaucetClaim (c : Context) (tx : Transaction) (body : FaucetClaimBody) : Exec Unit := do
  if c.protocolV3 then validateV3FaucetAdmission c tx body else pure ()
  payFaucetClaim c tx body

/-- The marker accounts of a paid reward. -/
def RewardMarkers.accounts (m : RewardMarkers) (body : CommunityInferenceRewardBody) :
    List (Address × Account) :=
  [(m.job, markerAccount m.job body.worker body.outputHash),
    (m.certificate, markerAccount m.certificate body.worker body.jobId)] ++
  m.probe.toList.map fun probe => (probe, markerAccount probe body.coordinator body.jobId)

/-- The markers of a reward under the active protocol. -/
def rewardMarkers (c : Context) (body : CommunityInferenceRewardBody) : RewardMarkers :=
  if c.protocolV3 then v3RewardMarkers body else legacyRewardMarkers body

/-- The budget counters a reward advances, none on a legacy chain. -/
def rewardBudgets (c : Context) (body : CommunityInferenceRewardBody) :
    Exec (List (Address × Account)) :=
  if c.protocolV3 then communityRewardBudgetCandidatesAt c body c.height else pure []

/-- The part of `TxBody::CommunityInferenceReward` after admission. -/
def payCommunityInferenceReward (c : Context) (tx : Transaction)
    (body : CommunityInferenceRewardBody) : Exec Unit := do
  require (c.communityRewardsV1Active = true) (.executionError
    "community inference reward: protocol feature is not active at this height")
  requireValidator "community inference reward" tx.sender
  require (c.verifyTransactionSignature tx = true) (.executionError
    "community inference reward: invalid validator signature")
  checkRewardAssignment c tx body c.height
  require (body.worker ≠ inferenceRewardTreasuryAddress) (.executionError
    "community inference reward: treasury cannot be the worker")
  let markers := rewardMarkers c body
  requireUnpaid body markers
  verifyCommunityRewardValidatorApprovals c body
  let (worker, treasury) ← rewardAccounts c body
  let treasuryBalance ← orError "community inference reward: treasury balance underflow"
    (checkedSub treasury.balance inferenceAttestationReward)
  require (markers.collide body = false) (.executionError
    "community inference reward: marker address collision")
  let budgets ← rewardBudgets c body
  commitAccounts
    ([(inferenceRewardTreasuryAddress, treasury.withBalance treasuryBalance),
      (body.worker, worker)] ++ markers.accounts body ++ budgets)

def executeCommunityInferenceReward (c : Context) (tx : Transaction)
    (body : CommunityInferenceRewardBody) : Exec Unit := do
  if c.protocolV3 then validateCommunityRewardAdmission c tx body c.height else pure ()
  payCommunityInferenceReward c tx body

end ArcChain
