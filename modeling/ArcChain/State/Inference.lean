/-
`execute_tx`, the inference market arms: optimistic attestations and their
challenges, provider registration, payment escrows, the model registry,
shard claims, capacity advertisements and planner proposals.

The records of this market are accounts at derived addresses whose fields
are reused: `nonce` for a height, `storage_root` for a commitment to the
metadata, `code_hash` for a refund target.
-/
import ArcChain.State.Payments

namespace ArcChain

open Word StoreProg

variable [Externals]

/-! ## Attestations and challenges -/

def attestEscrowMagic : Bytes := asciiBytes "ARCATB2" ++ [1]

/-- The `storage_root` of an attestation escrow: the magic and a status byte. -/
def attestStorageRoot (status : UInt8) : Hash256 :=
  .ofBytes (attestEscrowMagic ++ [status] ++ List.replicate 23 0)

def attestStatusOpen : UInt8 := 0

def attestStatusChallenged : UInt8 := 1

/-- The escrow of an attestation, derived from the attestation's transaction hash. -/
def attestEscrowAddress (attestationHash : Hash256) : Address :=
  taggedHash "arc-inference" attestationHash.toBytes

/-- The escrow that locks an attestation's bond until its release height. -/
def attestEscrow (tx : Transaction) (bond releaseHeight : Nat) : Account where
  address := attestEscrowAddress tx.hash
  balance := bond
  nonce := releaseHeight
  codeHash := tx.sender
  storageRoot := attestStorageRoot attestStatusOpen
  stakedBalance := 0

/-- `TxBody::InferenceAttestation`: a bond of zero locks nothing and creates no escrow. -/
def executeInferenceAttestation (c : Context) (tx : Transaction)
    (body : InferenceAttestationBody) : Exec Unit := do
  let sender := (← getAccount c tx.sender).getD (Account.new tx.sender 0)
  requireNonce sender tx.nonce
  let nextNonce ← orError "inference attestation nonce overflow" (checkedAdd sender.nonce 1)
  requireBalance sender.balance body.bond
  if 0 < body.bond then
    let existing ← readAccount (attestEscrowAddress tx.hash)
    require (existing = none) (.executionError "inference attestation escrow already exists")
    let releaseHeight ← orError "inference attestation release height overflow"
      (checkedAdd c.height body.challengePeriod)
    let balance ← orError "inference attestation balance underflow"
      (checkedSub sender.balance body.bond)
    storeAccount tx.sender { sender with balance := balance, nonce := nextNonce }
    storeAccount (attestEscrowAddress tx.hash) (attestEscrow tx body.bond releaseHeight)
    queueBondRelease releaseHeight (attestEscrowAddress tx.hash)
  else
    let balance ← orError "inference attestation balance underflow"
      (checkedSub sender.balance body.bond)
    storeAccount tx.sender { sender with balance := balance, nonce := nextNonce }

/-- The escrow's `storage_root` once it is challenged: the status byte flips if the magic is
    there. -/
def challengedRoot (root : Hash256) : Hash256 :=
  if root.toBytes.take 8 = attestEscrowMagic then
    .ofBytes (root.toBytes.take 8 ++ [attestStatusChallenged] ++ root.toBytes.drop 9)
  else root

/-- `TxBody::InferenceChallenge`: the escrow is read before the sender is debited. -/
def executeInferenceChallenge (tx : Transaction) (body : InferenceChallengeBody) :
    Exec Unit := do
  let sender ← openSender tx
  requireBalance sender.balance body.challengerBond
  let escrow ← getOrCreateAccount (attestEscrowAddress body.attestationHash)
  require (escrow.balance ≠ 0) (.executionError
    "inference challenge: attestation escrow not found or already resolved")
  storeAccount tx.sender (sender.spend body.challengerBond)
  storeAccount (attestEscrowAddress body.attestationHash)
    { escrow with
      balance := wrappingAdd escrow.balance body.challengerBond
      storageRoot := challengedRoot escrow.storageRoot }

/-! ## Providers -/

/-- The minimum stake of each provider tier. -/
def tierMinStake (tier : Nat) : Nat := [0, 1000, 5000, 10000, 25000].getD tier 0

def executeInferenceRegister (tx : Transaction) (body : InferenceRegisterBody) : Exec Unit := do
  let sender ← openSender tx
  require (body.tier ≠ 0 ∧ body.tier ≤ 4) (.executionError
    s!"inference register: invalid tier {body.tier}, must be 1-4")
  requireBalance sender.balance body.stakeBond
  require (tierMinStake body.tier ≤ body.stakeBond) (.executionError
    (s!"inference register: stake {body.stakeBond} below minimum {tierMinStake body.tier} " ++
      s!"for tier {body.tier}"))
  storeAccount tx.sender
    { sender.spend body.stakeBond with
      stakedBalance := wrappingAdd sender.stakedBalance body.stakeBond }

/-! ## Payment escrows -/

def executeInferenceEscrowOpen (c : Context) (tx : Transaction)
    (body : InferenceEscrowOpenBody) : Exec Unit := do
  let sender ← openSender tx
  requireBalance sender.balance body.maxFee
  let escrow := InferenceEscrowOpenBody.escrowAddress body.requestId
  let existing ← getOrCreateAccount escrow
  require (existing.balance = 0) (.executionError
    (s!"inference escrow open: request_id already has open " ++
      s!"escrow (balance={existing.balance})"))
  storeAccount tx.sender (sender.spend body.maxFee)
  storeAccount escrow
    { existing with
      balance := body.maxFee
      nonce := c.height
      storageRoot := InferenceEscrowOpenBody.metadataCommitment tx.sender body.modelId
        body.maxTokens body.timeoutBlocks }

/-- `total * percent / 100`, the product wrapping. -/
def percentShare (total percent : Nat) : Nat := total * percent % 2 ^ 64 / 100

/-- The payout of an escrow: 40% to the proposer, 25% to the replicas, 15% to the observers,
    the rest to the treasury. -/
def payRelease (body : InferenceEscrowReleaseBody) (total : Nat) : Exec Unit := do
  let proposerShare := percentShare total 40
  let observerShare := percentShare total 15
  let perReplica := percentShare total 25 / body.replicas.length
  let replicasPaid := perReplica * body.replicas.length
  let treasuryShare := total - proposerShare - replicasPaid - observerShare
  creditAccount wrappingAdd body.proposer proposerShare
  forEach body.replicas fun replica => creditAccount wrappingAdd replica perReplica
  creditAccount wrappingAdd body.observerPool observerShare
  creditAccount wrappingAdd body.treasury treasuryShare

def executeInferenceEscrowRelease (tx : Transaction) (body : InferenceEscrowReleaseBody) :
    Exec Unit := do
  let sender ← openSender tx
  require (body.replicas ≠ []) (.executionError
    "inference escrow release: must name at least one replica")
  let escrowAddress := InferenceEscrowOpenBody.escrowAddress body.requestId
  let escrow ← getOrCreateAccount escrowAddress
  require (escrow.balance ≠ 0) (.executionError
    "inference escrow release: no open escrow for this request_id")
  require (escrow.storageRoot = InferenceEscrowOpenBody.metadataCommitment body.payer
      body.modelId body.maxTokens body.timeoutBlocks) (.executionError
    "inference escrow release: metadata commitment mismatch")
  storeAccount tx.sender sender.bumped
  payRelease body escrow.balance
  storeAccount escrowAddress { escrow with balance := 0, storageRoot := .zero }

def executeInferenceEscrowRefund (c : Context) (tx : Transaction)
    (body : InferenceEscrowRefundBody) : Exec Unit := do
  let sender ← openSender tx
  let escrowAddress := InferenceEscrowOpenBody.escrowAddress body.requestId
  let escrow ← getOrCreateAccount escrowAddress
  require (escrow.balance ≠ 0) (.executionError
    "inference escrow refund: no open escrow for this request_id")
  require (escrow.storageRoot = InferenceEscrowOpenBody.metadataCommitment tx.sender
      body.modelId body.maxTokens body.timeoutBlocks) (.executionError
    "inference escrow refund: caller is not the original payer (metadata mismatch)")
  require (wrappingAdd escrow.nonce body.timeoutBlocks ≤ c.height) (.executionError
    (s!"inference escrow refund: timeout not elapsed (now={c.height}, " ++
      s!"opened_at={escrow.nonce}, timeout={body.timeoutBlocks})"))
  storeAccount tx.sender (sender.withBalance (wrappingAdd sender.balance escrow.balance)).bumped
  storeAccount escrowAddress { escrow with balance := 0, storageRoot := .zero }

/-! ## Models, claims and capacity -/

/-- `registration_fee.max(MIN_MODEL_REGISTRATION_FEE)`. -/
def ModelRegistrationBody.fee (body : ModelRegistrationBody) : Nat :=
  max body.registrationFee minModelRegistrationFee

/-- `TxBody::ModelRegistration`: the registry entry is read before the fee moves. -/
def executeModelRegistration (c : Context) (tx : Transaction) (body : ModelRegistrationBody) :
    Exec Unit := do
  let sender ← openSender tx
  require (body.quantization.utf8ByteSize ≤ 32) (.executionError
    "model registration: quantization tag > 32 bytes")
  requireBalance sender.balance body.fee
  let registry := ModelRegistrationBody.registryAccount body.modelId
  let existing ← getOrCreateAccount registry
  require (existing.storageRoot = .zero) (.executionError
    "model registration: model_id already registered")
  storeAccount tx.sender (sender.spend body.fee)
  creditAccount wrappingAdd v3FeeTreasuryAddress body.fee
  storeAccount registry
    { existing with
      nonce := c.height
      storageRoot := ModelRegistrationBody.metadataCommitment body.nLayers body.dModel
        body.quantization body.chunkTreeRoot body.royaltyRecipient
      balance := 0 }

/-- The commitment a model request stores. -/
def ModelRequestBody.commitment (body : ModelRequestBody) (requester : Address) : Hash256 :=
  hashBytes (body.modelId.toBytes ++ leBytes 4 body.targetKReplication ++
    leBytes 4 body.maxWaitSecs ++ requester.toBytes)

/-- `TxBody::ModelRequest`: the bond is recorded in the request's balance, no funds move. -/
def executeModelRequest (c : Context) (tx : Transaction) (body : ModelRequestBody) :
    Exec Unit := do
  let sender ← openSender tx
  storeAccount tx.sender sender.bumped
  let request ← getOrCreateAccount (ModelRequestBody.requestAccount body.requestId)
  storeAccount (ModelRequestBody.requestAccount body.requestId)
    { request with
      balance := body.bondPerLayerEpoch
      nonce := c.height
      storageRoot := body.commitment tx.sender }

/-- The bytes of layer ranges. -/
def rangeBytes (ranges : List (Nat × Nat)) : Bytes :=
  ranges.flatMap fun r => leBytes 4 r.1 ++ leBytes 4 r.2

/-- `TxBody::ShardCoverageClaim`: the claim is looked at after the sender is debited. -/
def executeShardCoverageClaim (c : Context) (tx : Transaction) (body : ShardCoverageClaimBody) :
    Exec Unit := do
  let sender ← openSender tx
  require (body.bond ≠ 0) (.executionError "shard coverage claim: bond must be > 0")
  require (body.ranges ≠ []) (.executionError
    "shard coverage claim: must claim at least one range")
  requireBalance sender.balance body.bond
  storeAccount tx.sender (sender.spend body.bond)
  let claimAddress := ShardCoverageClaimBody.claimAccount body.modelId body.nodePubkey
  let claim ← getOrCreateAccount claimAddress
  require (claim.balance = 0) (.executionError
    ("shard coverage claim: prior claim still active - " ++
      "release or wait for epoch end before re-claiming"))
  storeAccount claimAddress
    { claim with
      balance := body.bond
      nonce := c.height
      storageRoot := hashBytes
        (rangeBytes body.ranges ++ leBytes 8 body.epochBlocks ++ tx.sender.toBytes) }

def executeCapacityAdvertisement (c : Context) (tx : Transaction)
    (body : CapacityAdvertisementBody) : Exec Unit := do
  let sender ← openSender tx
  require (body.region.utf8ByteSize ≤ 8) (.executionError
    "capacity advertisement: region tag > 8 bytes")
  storeAccount tx.sender sender.bumped
  let capacityAddress := CapacityAdvertisementBody.capacityAccount body.nodePubkey
  let capacity ← getOrCreateAccount capacityAddress
  storeAccount capacityAddress
    { capacity with
      nonce := c.height
      storageRoot := hashBytes (leBytes 8 body.ramBytes ++ leBytes 8 body.vramBytes ++
        leBytes 4 body.bandwidthMbps ++ leBytes 4 body.uptimeHintMins ++ leBytes 8 body.stake ++
        leBytes 4 body.region.utf8ByteSize ++ asciiBytes body.region) }

/-- The account of a planner proposal, derived from its input snapshot. -/
def proposalAddress (inputSnapshotHash : Hash256) : Address :=
  taggedHash "arc-planner-proposal" inputSnapshotHash.toBytes

def executeShardAssignmentProposal (c : Context) (tx : Transaction)
    (body : ShardAssignmentProposalBody) : Exec Unit := do
  let sender ← openSender tx
  require (body.assignments ≠ []) (.executionError
    "shard assignment proposal: must include at least one entry")
  storeAccount tx.sender sender.bumped
  let proposal ← getOrCreateAccount (proposalAddress body.inputSnapshotHash)
  storeAccount (proposalAddress body.inputSnapshotHash)
    { proposal with
      nonce := c.height
      storageRoot := hashBytes (leBytes 8 body.epochBlocks ++ body.inputSnapshotHash.toBytes ++
        body.assignments.flatMap fun a =>
          a.nodePubkey.toBytes ++ a.modelId.toBytes ++ rangeBytes a.ranges) }

end ArcChain
