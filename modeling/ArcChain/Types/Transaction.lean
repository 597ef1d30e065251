/-
Accounts and transactions (`arc-types`): the forty transaction families
with their bodies, the gas schedule, and the accounts whose addresses the
families derive from their bodies.

Byte arrays of length 32 (request ids, public keys) are `Hash256` values.
A body keeps every field the source serializes.  The native inference
families are executed by their own block publisher, never by the
transaction executor; their contract is in `Types.InferenceContract`.
-/
import ArcChain.Crypto.Hash

namespace ArcChain

open Word

/-- A byte string. -/
abbrev Bytes := List UInt8

/-- The bytes of a literal (`b"..."`). -/
def asciiBytes (text : String) : Bytes := text.toUTF8.toList

structure Account where
  address : Address
  balance : Nat
  nonce : Nat
  codeHash : Hash256
  storageRoot : Hash256
  stakedBalance : Nat
deriving DecidableEq, Repr

namespace Account

def new (address : Address) (balance : Nat) : Account where
  address := address
  balance := balance
  nonce := 0
  codeHash := .zero
  storageRoot := .zero
  stakedBalance := 0

def newContract (address : Address) (codeHash : Hash256) : Account where
  address := address
  balance := 0
  nonce := 0
  codeHash := codeHash
  storageRoot := .zero
  stakedBalance := 0

/-- The value an account holds: liquid and staked. -/
def funds (a : Account) : Nat := a.balance + a.stakedBalance

/-- The account with another balance (`account.balance = n`). -/
def withBalance (a : Account) (n : Nat) : Account := { a with balance := n }

/-- The account with its nonce consumed (`account.nonce += 1`, a 64-bit counter that may
    wrap). -/
def bumped (a : Account) : Account := { a with nonce := (a.nonce + 1) % 2 ^ 64 }

/-- The account debited by an amount it covers, with its nonce consumed. -/
def spend (a : Account) (n : Nat) : Account := (a.withBalance (a.balance - n)).bumped

section Fields

variable (a : Account) (n : Nat)

@[simp] theorem balance_withBalance : (a.withBalance n).balance = n := (rfl)
@[simp] theorem stakedBalance_withBalance :
    (a.withBalance n).stakedBalance = a.stakedBalance := (rfl)

@[simp] theorem balance_bumped : a.bumped.balance = a.balance := (rfl)
@[simp] theorem stakedBalance_bumped : a.bumped.stakedBalance = a.stakedBalance := (rfl)

@[simp] theorem balance_spend : (a.spend n).balance = a.balance - n := (rfl)
@[simp] theorem nonce_spend : (a.spend n).nonce = a.bumped.nonce := (rfl)
@[simp] theorem codeHash_spend : (a.spend n).codeHash = a.codeHash := (rfl)
@[simp] theorem storageRoot_spend : (a.spend n).storageRoot = a.storageRoot := (rfl)
@[simp] theorem stakedBalance_spend : (a.spend n).stakedBalance = a.stakedBalance := (rfl)

theorem withBalance_withBalance (m : Nat) : (a.withBalance m).withBalance n = a.withBalance n := rfl

/-- A consumed nonce is another nonce. -/
theorem nonce_bumped_ne : a.bumped.nonce ≠ a.nonce := by
  have hdef : a.bumped.nonce = (a.nonce + 1) % 2 ^ 64 := (rfl)
  omega

end Fields

end Account

/-! ## Transaction families -/

inductive TxType where
  | transfer | settle | swap | escrow | stake | wasmCall | multiSig | deployContract
  | registerAgent | joinValidator | leaveValidator | claimRewards | updateStake | governance
  | bridgeLock | bridgeMint | batchSettle | channelOpen | channelClose | channelDispute
  | shardProof | inferenceAttestation | inferenceChallenge | inferenceRegister
  | inferenceEscrowOpen | inferenceEscrowRelease | inferenceEscrowRefund | modelRegistration
  | modelRequest | shardCoverageClaim | capacityAdvertisement | shardAssignmentProposal
  | faucetClaim | inferenceRequest | inferenceVote | inferenceFinalize
  | communityInferenceReward | nativeInferenceRequest | nativeInferenceFinalize
  | nativeInferenceRefund
deriving DecidableEq, Repr

namespace TxType

/-- The discriminant (`#[repr(u8)]`, counted from 1). -/
def code (t : TxType) : Nat := t.ctorIdx + 1

/-- The `Debug` form used in error texts. -/
def debug : TxType → String
  | transfer => "Transfer"
  | settle => "Settle"
  | swap => "Swap"
  | escrow => "Escrow"
  | stake => "Stake"
  | wasmCall => "WasmCall"
  | multiSig => "MultiSig"
  | deployContract => "DeployContract"
  | registerAgent => "RegisterAgent"
  | joinValidator => "JoinValidator"
  | leaveValidator => "LeaveValidator"
  | claimRewards => "ClaimRewards"
  | updateStake => "UpdateStake"
  | governance => "Governance"
  | bridgeLock => "BridgeLock"
  | bridgeMint => "BridgeMint"
  | batchSettle => "BatchSettle"
  | channelOpen => "ChannelOpen"
  | channelClose => "ChannelClose"
  | channelDispute => "ChannelDispute"
  | shardProof => "ShardProof"
  | inferenceAttestation => "InferenceAttestation"
  | inferenceChallenge => "InferenceChallenge"
  | inferenceRegister => "InferenceRegister"
  | inferenceEscrowOpen => "InferenceEscrowOpen"
  | inferenceEscrowRelease => "InferenceEscrowRelease"
  | inferenceEscrowRefund => "InferenceEscrowRefund"
  | modelRegistration => "ModelRegistration"
  | modelRequest => "ModelRequest"
  | shardCoverageClaim => "ShardCoverageClaim"
  | capacityAdvertisement => "CapacityAdvertisement"
  | shardAssignmentProposal => "ShardAssignmentProposal"
  | faucetClaim => "FaucetClaim"
  | inferenceRequest => "InferenceRequest"
  | inferenceVote => "InferenceVote"
  | inferenceFinalize => "InferenceFinalize"
  | communityInferenceReward => "CommunityInferenceReward"
  | nativeInferenceRequest => "NativeInferenceRequest"
  | nativeInferenceFinalize => "NativeInferenceFinalize"
  | nativeInferenceRefund => "NativeInferenceRefund"

end TxType

/-- `TransferBody`; `recipient` is the field `to`. -/
structure TransferBody where
  recipient : Address
  amount : Nat
  amountCommitment : Option Hash256
deriving DecidableEq, Repr

structure SettleBody where
  agentId : Address
  serviceHash : Hash256
  amount : Nat
  usageUnits : Nat
  amountCommitment : Option Hash256
deriving DecidableEq, Repr

structure SwapBody where
  counterparty : Address
  offerAmount : Nat
  receiveAmount : Nat
  offerAsset : Hash256
  receiveAsset : Hash256
deriving DecidableEq, Repr

structure EscrowBody where
  beneficiary : Address
  amount : Nat
  conditionsHash : Hash256
  isCreate : Bool
deriving DecidableEq, Repr

structure StakeBody where
  amount : Nat
  isStake : Bool
  validator : Address
deriving DecidableEq, Repr

structure WasmCallBody where
  contract : Address
  function : String
  calldata : Bytes
  value : Nat
  gasLimit : Nat
deriving DecidableEq, Repr

structure DeployBody where
  bytecode : Bytes
  constructorArgs : Bytes
  stateRentDeposit : Nat
deriving DecidableEq, Repr

structure RegisterBody where
  agentName : String
  capabilities : Bytes
  endpoint : String
  protocol : Hash256
  metadata : Bytes
deriving DecidableEq, Repr

structure JoinValidatorBody where
  pubkey : Hash256
  initialStake : Nat
deriving DecidableEq, Repr

structure UpdateStakeBody where
  newStake : Nat
deriving DecidableEq, Repr

/-- `GovernanceAction` has the one variant `Execute`. -/
structure GovernanceBody where
  proposalId : Nat
deriving DecidableEq, Repr

structure BridgeLockBody where
  destinationChain : Nat
  destinationAddress : Hash256
  amount : Nat
deriving DecidableEq, Repr

structure BridgeMintBody where
  sourceChain : Nat
  sourceTxHash : Hash256
  recipient : Address
  amount : Nat
  merkleProof : Bytes
deriving DecidableEq, Repr

structure SettleEntry where
  agentId : Address
  serviceHash : Hash256
  amount : Nat
deriving DecidableEq, Repr

structure BatchSettleBody where
  entries : List SettleEntry
deriving DecidableEq, Repr

structure ChannelOpenBody where
  channelId : Hash256
  counterparty : Address
  deposit : Nat
  timeoutBlocks : Nat
deriving DecidableEq, Repr

structure ChannelCloseBody where
  channelId : Hash256
  openerBalance : Nat
  counterpartyBalance : Nat
  counterpartySig : Bytes
  stateNonce : Nat
deriving DecidableEq, Repr

structure ChannelDisputeBody where
  channelId : Hash256
  openerBalance : Nat
  counterpartyBalance : Nat
  otherPartySig : Bytes
  stateNonce : Nat
  challengePeriod : Nat
deriving DecidableEq, Repr

structure ShardProofBody where
  shardId : Nat
  blockHeight : Nat
  blockHash : Hash256
  prevStateRoot : Hash256
  postStateRoot : Hash256
  txCount : Nat
  proofData : Bytes
deriving DecidableEq, Repr

structure InferenceAttestationBody where
  modelId : Hash256
  inputHash : Hash256
  outputHash : Hash256
  challengePeriod : Nat
  bond : Nat
  beneficiary : Option Address
deriving DecidableEq, Repr

structure WorkerInferenceCertificate where
  attestationHash : Hash256
  nonce : Nat
  challengePeriod : Nat
  signature : Signature
deriving DecidableEq, Repr

/-- `CommunityRewardValidatorApproval`; the two signature halves are joined. -/
structure CommunityRewardValidatorApproval where
  validator : Address
  publicKey : Bytes
  signature : Bytes
deriving DecidableEq, Repr

def CommunityRewardValidatorApproval.asSignature (a : CommunityRewardValidatorApproval) :
    Signature :=
  .ed25519 a.publicKey a.signature

structure CommunityInferenceRewardBody where
  chainDomain : Hash256
  jobId : Hash256
  coordinator : Address
  assignmentEpoch : Hash256
  jobNonce : Nat
  recoveryEpoch : Nat
  validatorSetId : Nat
  transactionDomain : Hash256
  worker : Address
  modelId : Hash256
  inputHash : Hash256
  outputHash : Hash256
  maxTokens : Nat
  expiresAtHeight : Nat
  workerCertificate : WorkerInferenceCertificate
  validatorApprovals : List CommunityRewardValidatorApproval
deriving DecidableEq, Repr

structure InferenceChallengeBody where
  attestationHash : Hash256
  challengerOutputHash : Hash256
  challengerBond : Nat
deriving DecidableEq, Repr

structure InferenceRegisterBody where
  tier : Nat
  stakeBond : Nat
deriving DecidableEq, Repr

structure InferenceEscrowOpenBody where
  requestId : Hash256
  modelId : Hash256
  maxFee : Nat
  maxTokens : Nat
  timeoutBlocks : Nat
deriving DecidableEq, Repr

structure InferenceEscrowReleaseBody where
  requestId : Hash256
  payer : Address
  modelId : Hash256
  maxTokens : Nat
  timeoutBlocks : Nat
  outputHash : Hash256
  proposer : Address
  replicas : List Address
  observerPool : Address
  treasury : Address
deriving DecidableEq, Repr

structure InferenceEscrowRefundBody where
  requestId : Hash256
  modelId : Hash256
  maxTokens : Nat
  timeoutBlocks : Nat
deriving DecidableEq, Repr

structure ModelRegistrationBody where
  modelId : Hash256
  metadataHash : Hash256
  chunkTreeRoot : Hash256
  nLayers : Nat
  dModel : Nat
  quantization : String
  registrationFee : Nat
  royaltyRecipient : Address
deriving DecidableEq, Repr

structure ModelRequestBody where
  requestId : Hash256
  modelId : Hash256
  targetKReplication : Nat
  bondPerLayerEpoch : Nat
  maxWaitSecs : Nat
deriving DecidableEq, Repr

structure ShardCoverageClaimBody where
  modelId : Hash256
  nodePubkey : Hash256
  ranges : List (Nat × Nat)
  bond : Nat
  epochBlocks : Nat
deriving DecidableEq, Repr

structure CapacityAdvertisementBody where
  nodePubkey : Hash256
  ramBytes : Nat
  vramBytes : Nat
  bandwidthMbps : Nat
  uptimeHintMins : Nat
  stake : Nat
  region : String
deriving DecidableEq, Repr

structure AssignmentEntry where
  nodePubkey : Hash256
  modelId : Hash256
  ranges : List (Nat × Nat)
deriving DecidableEq, Repr

structure ShardAssignmentProposalBody where
  epochBlocks : Nat
  assignments : List AssignmentEntry
  inputSnapshotHash : Hash256
deriving DecidableEq, Repr

structure FaucetClaimBody where
  recipient : Address
  amount : Nat
deriving DecidableEq, Repr

structure InferenceRequestBody where
  requestId : Hash256
  modelId : Hash256
  inputHash : Hash256
  inputBlob : Bytes
  maxTokens : Nat
  tier : Nat
  maxReward : Nat
  deadlineBlocks : Nat
  committeeSize : Nat
deriving DecidableEq, Repr

structure InferenceVoteBody where
  requestId : Hash256
  outputHash : Hash256
  outputBlob : Option Bytes
  vrfProof : Bytes
  committeeSeed : Hash256
deriving DecidableEq, Repr

structure InferenceFinalizeBody where
  requestId : Hash256
deriving DecidableEq, Repr

structure InferenceDomain where
  chainGenesis : Hash256
  recoveryEpoch : Nat
  validatorSetHash : Hash256
deriving DecidableEq, Repr

structure InferenceJob where
  version : Nat
  domain : InferenceDomain
  requester : Address
  nonce : Nat
  modelHash : Hash256
  profileHash : Hash256
  inputHash : Hash256
  generationHash : Hash256
  assignmentHash : Hash256
  maxTokens : Nat
  maxOutputBytes : Nat
  executionPrice : Nat
  reservedMaxPayment : Nat
  expiresAt : Nat
deriving DecidableEq, Repr

structure InferenceRequest where
  job : InferenceJob
  requesterSignature : Signature
deriving DecidableEq, Repr

structure InferenceVote where
  validator : Address
  outputHash : Hash256
  signature : Signature
deriving DecidableEq, Repr

structure InferenceCertificate where
  output : Bytes
  votes : List InferenceVote
deriving DecidableEq, Repr

structure NativeInferenceRequestBody where
  request : InferenceRequest
  inputBlob : Bytes
deriving DecidableEq, Repr

structure NativeInferenceFinalizeBody where
  requestId : Hash256
  certificate : InferenceCertificate
deriving DecidableEq, Repr

structure NativeInferenceRefundBody where
  requestId : Hash256
deriving DecidableEq, Repr

inductive TxBody where
  | transfer (body : TransferBody)
  | settle (body : SettleBody)
  | swap (body : SwapBody)
  | escrow (body : EscrowBody)
  | stake (body : StakeBody)
  | wasmCall (body : WasmCallBody)
  | multiSig (innerTx : TxBody) (signers : List Address) (threshold : Nat)
  | deployContract (body : DeployBody)
  | registerAgent (body : RegisterBody)
  | joinValidator (body : JoinValidatorBody)
  | leaveValidator
  | claimRewards
  | updateStake (body : UpdateStakeBody)
  | governance (body : GovernanceBody)
  | bridgeLock (body : BridgeLockBody)
  | bridgeMint (body : BridgeMintBody)
  | batchSettle (body : BatchSettleBody)
  | channelOpen (body : ChannelOpenBody)
  | channelClose (body : ChannelCloseBody)
  | channelDispute (body : ChannelDisputeBody)
  | shardProof (body : ShardProofBody)
  | inferenceAttestation (body : InferenceAttestationBody)
  | inferenceChallenge (body : InferenceChallengeBody)
  | inferenceRegister (body : InferenceRegisterBody)
  | inferenceEscrowOpen (body : InferenceEscrowOpenBody)
  | inferenceEscrowRelease (body : InferenceEscrowReleaseBody)
  | inferenceEscrowRefund (body : InferenceEscrowRefundBody)
  | modelRegistration (body : ModelRegistrationBody)
  | modelRequest (body : ModelRequestBody)
  | shardCoverageClaim (body : ShardCoverageClaimBody)
  | capacityAdvertisement (body : CapacityAdvertisementBody)
  | shardAssignmentProposal (body : ShardAssignmentProposalBody)
  | faucetClaim (body : FaucetClaimBody)
  | inferenceRequest (body : InferenceRequestBody)
  | inferenceVote (body : InferenceVoteBody)
  | inferenceFinalize (body : InferenceFinalizeBody)
  | communityInferenceReward (body : CommunityInferenceRewardBody)
  | nativeInferenceRequest (body : NativeInferenceRequestBody)
  | nativeInferenceFinalize (body : NativeInferenceFinalizeBody)
  | nativeInferenceRefund (body : NativeInferenceRefundBody)
deriving DecidableEq, Repr

namespace TxBody

def txType : TxBody → TxType
  | transfer _ => .transfer
  | settle _ => .settle
  | swap _ => .swap
  | escrow _ => .escrow
  | stake _ => .stake
  | wasmCall _ => .wasmCall
  | multiSig _ _ _ => .multiSig
  | deployContract _ => .deployContract
  | registerAgent _ => .registerAgent
  | joinValidator _ => .joinValidator
  | leaveValidator => .leaveValidator
  | claimRewards => .claimRewards
  | updateStake _ => .updateStake
  | governance _ => .governance
  | bridgeLock _ => .bridgeLock
  | bridgeMint _ => .bridgeMint
  | batchSettle _ => .batchSettle
  | channelOpen _ => .channelOpen
  | channelClose _ => .channelClose
  | channelDispute _ => .channelDispute
  | shardProof _ => .shardProof
  | inferenceAttestation _ => .inferenceAttestation
  | inferenceChallenge _ => .inferenceChallenge
  | inferenceRegister _ => .inferenceRegister
  | inferenceEscrowOpen _ => .inferenceEscrowOpen
  | inferenceEscrowRelease _ => .inferenceEscrowRelease
  | inferenceEscrowRefund _ => .inferenceEscrowRefund
  | modelRegistration _ => .modelRegistration
  | modelRequest _ => .modelRequest
  | shardCoverageClaim _ => .shardCoverageClaim
  | capacityAdvertisement _ => .capacityAdvertisement
  | shardAssignmentProposal _ => .shardAssignmentProposal
  | faucetClaim _ => .faucetClaim
  | inferenceRequest _ => .inferenceRequest
  | inferenceVote _ => .inferenceVote
  | inferenceFinalize _ => .inferenceFinalize
  | communityInferenceReward _ => .communityInferenceReward
  | nativeInferenceRequest _ => .nativeInferenceRequest
  | nativeInferenceFinalize _ => .nativeInferenceFinalize
  | nativeInferenceRefund _ => .nativeInferenceRefund

def isNativeBody : TxBody → Bool
  | nativeInferenceRequest _ | nativeInferenceFinalize _ | nativeInferenceRefund _ => true
  | _ => false

end TxBody

/-- `Transaction`; `sender` is the field `from`. -/
structure Transaction where
  txType : TxType
  sender : Address
  nonce : Nat
  body : TxBody
  fee : Nat
  gasLimit : Nat
  hash : Hash256
  signature : Signature
  sigVerified : Bool
deriving DecidableEq, Repr

/-! ## Gas -/

namespace GasCosts

def blockGasLimit : Nat := 30000000

def sstore : Nat := 5000

def batchSettleMaxEntries : Nat := 10000

end GasCosts

/-- `StateDB::gas_cost_for_tx`. -/
def TxBody.gasCost : TxBody → Nat
  | transfer _ => 21000
  | settle _ => 25000
  | swap _ => 30000
  | escrow _ => 35000
  | stake _ => 25000
  | wasmCall _ => 21000
  | multiSig _ _ _ => 35000
  | deployContract _ => 53000
  | registerAgent _ => 30000
  | joinValidator _ => 30000
  | leaveValidator => 25000
  | claimRewards => 25000
  | updateStake _ => 25000
  | governance _ => 50000
  | bridgeLock _ => 50000
  | bridgeMint _ => 50000
  | batchSettle body => 30000 + body.entries.length * 500
  | channelOpen _ => 40000
  | channelClose _ => 35000
  | channelDispute _ => 50000
  | shardProof _ => 60000
  | inferenceAttestation _ => 50000
  | communityInferenceReward _ => 50000
  | inferenceChallenge _ => 100000
  | inferenceRegister _ => 50000
  | inferenceEscrowOpen _ => 50000
  | inferenceEscrowRelease _ => 80000
  | inferenceEscrowRefund _ => 40000
  | modelRegistration _ => 60000
  | modelRequest _ => 50000
  | shardCoverageClaim _ => 60000
  | capacityAdvertisement _ => 40000
  | shardAssignmentProposal _ => 80000
  | faucetClaim _ => 25000
  | inferenceRequest _ => 80000
  | inferenceVote _ => 30000
  | inferenceFinalize _ => 60000
  | nativeInferenceRequest _ => 90000
  | nativeInferenceFinalize _ => 90000
  | nativeInferenceRefund _ => 45000

/-! ## Derived accounts -/

inductive V3SystemAccountKind where
  | communityRewardJob | communityRewardCertificate | recoveryRewardProbe
  | communityRewardBlockBudget | communityRewardEpochBudget | communityRewardWorkerBudget
  | communityRewardCoordinatorBudget | faucetClaimMarker
deriving DecidableEq, Repr

/-- The discriminant of the kind, counted from 1. -/
def V3SystemAccountKind.code (kind : V3SystemAccountKind) : UInt8 :=
  UInt8.ofNat (kind.ctorIdx + 1)

/-- `V3_SYSTEM_ACCOUNT_PREFIX`: fifteen bytes. -/
def v3SystemAccountTag : Bytes := asciiBytes "ARC-V3-REWARD:" ++ [0]

/-- The tag, the kind and half of the digest. -/
def v3SystemAccountAddress (kind : V3SystemAccountKind) (digest : Hash256) : Address :=
  .ofBytes (v3SystemAccountTag ++ [kind.code] ++ digest.toBytes.take 16)

def isV3SystemAccount (address : Address) : Bool :=
  address.toBytes.take 15 == v3SystemAccountTag &&
    match address.toBytes.drop 15 with
    | kind :: _ => 1 ≤ kind && kind ≤ 8
    | [] => false

section Addresses

variable [Crypto]

/-- The hash of a domain literal followed by further bytes. -/
def taggedHash (tag : String) (bytes : Bytes) : Hash256 := hashBytes (asciiBytes tag ++ bytes)

def faucetPoolAddress : Address := hashBytes [0]

def inferenceRewardTreasuryAddress : Address := hashBytes [1]

def v3FeeTreasuryAddress : Address := hashBytes (asciiBytes "arc-treasury")

namespace FaucetClaimBody

def markerAddress (recipient : Address) : Address :=
  Crypto.blake3DeriveKey "ARC-faucet-recipient-marker-v1" recipient.toBytes

def v3MarkerAddress (recipient : Address) : Address :=
  v3SystemAccountAddress .faucetClaimMarker (markerAddress recipient)

end FaucetClaimBody

def faucetClaimMax : Nat := 1000000000

namespace InferenceEscrowOpenBody

def escrowAddress (requestId : Hash256) : Address :=
  taggedHash "arc-inference-escrow" requestId.toBytes

def metadataCommitment (payer : Address) (modelId : Hash256) (maxTokens timeoutBlocks : Nat) :
    Hash256 :=
  hashBytes (payer.toBytes ++ modelId.toBytes ++ leBytes 4 maxTokens ++ leBytes 8 timeoutBlocks)

end InferenceEscrowOpenBody

namespace ModelRegistrationBody

def registryAccount (modelId : Hash256) : Address :=
  taggedHash "arc-model-registry" modelId.toBytes

def metadataCommitment (nLayers dModel : Nat) (quantization : String)
    (chunkTreeRoot : Hash256) (royaltyRecipient : Address) : Hash256 :=
  hashBytes (leBytes 4 nLayers ++ leBytes 4 dModel ++ leBytes 4 quantization.utf8ByteSize ++
    asciiBytes quantization ++ chunkTreeRoot.toBytes ++ royaltyRecipient.toBytes)

end ModelRegistrationBody

def minModelRegistrationFee : Nat := 1000

def ModelRequestBody.requestAccount (requestId : Hash256) : Address :=
  taggedHash "arc-model-request" requestId.toBytes

def ShardCoverageClaimBody.claimAccount (modelId nodePubkey : Hash256) : Address :=
  taggedHash "arc-shard-claim" (modelId.toBytes ++ nodePubkey.toBytes)

def CapacityAdvertisementBody.capacityAccount (nodePubkey : Hash256) : Address :=
  taggedHash "arc-node-capacity" nodePubkey.toBytes

namespace CommunityInferenceRewardBody

def expectedChainDomain : Hash256 :=
  hashBytes (asciiBytes "arc-chain:0x415243:community-inference-reward:v1")

def deriveJobId (coordinator : Address) (assignmentEpoch : Hash256) (jobNonce : Nat)
    (modelId inputHash : Hash256) (maxTokens : Nat) : Hash256 :=
  Crypto.blake3DeriveKey "ARC-community-job-v4"
    (coordinator.toBytes ++ assignmentEpoch.toBytes ++ leBytes 8 jobNonce ++ modelId.toBytes ++
      inputHash.toBytes ++ leBytes 4 maxTokens)

def markerAddress (chainDomain jobId : Hash256) : Address :=
  taggedHash "arc-community-reward-v1" (chainDomain.toBytes ++ jobId.toBytes)

def v3MarkerAddress (chainDomain jobId : Hash256) : Address :=
  v3SystemAccountAddress .communityRewardJob (markerAddress chainDomain jobId)

def certificateMarkerAddress (chainDomain : Hash256) (worker : Address)
    (attestationHash : Hash256) : Address :=
  taggedHash "arc-community-certificate-v1"
    (chainDomain.toBytes ++ worker.toBytes ++ attestationHash.toBytes)

def v3CertificateMarkerAddress (chainDomain : Hash256) (worker : Address)
    (attestationHash : Hash256) : Address :=
  v3SystemAccountAddress .communityRewardCertificate
    (certificateMarkerAddress chainDomain worker attestationHash)

/-- `is_recovery_probe_assignment`, with `RECOVERY_REWARD_PROBE_PREFIX`. -/
def isRecoveryProbeAssignment (assignmentEpoch : Hash256) : Bool :=
  assignmentEpoch.toBytes.take 16 == asciiBytes "ARC-RCV-PROBE1" ++ [0, 0]

def recoveryProbeMarkerAddress (chainDomain assignmentEpoch : Hash256) : Option Address :=
  if isRecoveryProbeAssignment assignmentEpoch then
    some (taggedHash "arc-recovery-reward-probe-marker-v1"
      (chainDomain.toBytes ++ assignmentEpoch.toBytes))
  else none

def v3RecoveryProbeMarkerAddress (chainDomain assignmentEpoch : Hash256) : Option Address :=
  (recoveryProbeMarkerAddress chainDomain assignmentEpoch).map
    (v3SystemAccountAddress .recoveryRewardProbe)

end CommunityInferenceRewardBody

def inferenceAttestationReward : Nat := 2500000000

def CommunityInferenceRewardBody.validatorApprovalCommitment
    (body : CommunityInferenceRewardBody) : Hash256 :=
  let certificateSignature := Crypto.serializeSignature body.workerCertificate.signature
  Crypto.blake3DeriveKey "ARC-community-inference-reward-validator-approval-v1"
    (body.chainDomain.toBytes ++ body.jobId.toBytes ++ body.coordinator.toBytes ++
      body.assignmentEpoch.toBytes ++ leBytes 8 body.jobNonce ++ beBytes 8 body.recoveryEpoch ++
      beBytes 8 body.validatorSetId ++ body.transactionDomain.toBytes ++ body.worker.toBytes ++
      body.modelId.toBytes ++ body.inputHash.toBytes ++ body.outputHash.toBytes ++
      leBytes 4 body.maxTokens ++ leBytes 8 body.expiresAtHeight ++
      body.workerCertificate.attestationHash.toBytes ++ leBytes 8 body.workerCertificate.nonce ++
      leBytes 8 body.workerCertificate.challengePeriod ++
      leBytes 8 certificateSignature.length ++ certificateSignature ++
      leBytes 8 inferenceAttestationReward)

def CommunityInferenceRewardBody.reconstructWorkerAttestation
    (body : CommunityInferenceRewardBody) : Transaction where
  txType := .inferenceAttestation
  sender := body.worker
  nonce := body.workerCertificate.nonce
  body := .inferenceAttestation
    { modelId := body.modelId, inputHash := body.inputHash, outputHash := body.outputHash,
      challengePeriod := body.workerCertificate.challengePeriod, bond := 0, beneficiary := none }
  fee := 0
  gasLimit := 0
  hash := body.workerCertificate.attestationHash
  signature := body.workerCertificate.signature
  sigVerified := false

end Addresses

end ArcChain
