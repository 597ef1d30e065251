/-
`execute_tx`: the checks every transaction passes, and the dispatch to the
arm of its family.
-/
import ArcChain.State.Channels
import ArcChain.State.Inference
import ArcChain.State.Rewards
import ArcChain.State.Staking
import ArcChain.State.Tier1

namespace ArcChain

open Word StoreProg

variable [Externals]

/-- The gas meter a transaction starts with; a limit of zero is the block's. -/
def Transaction.gasMeter (tx : Transaction) : GasMeter where
  limit := if 0 < tx.gasLimit then tx.gasLimit else GasCosts.blockGasLimit
  consumed := 0

/-- The arm of a family that charges no further gas. -/
def flatGas (gas : GasMeter) (arm : Exec Unit) : Exec GasMeter := do
  arm
  pure gas

/-- The arms of `execute_tx`: the gas meter afterwards. -/
def executeBody (c : Context) (tx : Transaction) (gas : GasMeter) : TxBody → Exec GasMeter
  | .transfer body =>
    flatGas gas (if c.protocolV3 then executeV3Transfer c tx body else executeTransfer c tx body)
  | .settle body => flatGas gas (executeSettle tx body)
  | .swap body => flatGas gas (executeSwap tx body)
  | .escrow body => flatGas gas (executeEscrow tx body)
  | .stake body => flatGas gas (executeStake c tx body)
  | .wasmCall body => executeWasmCall c tx body gas
  | .multiSig _ _ _ => flatGas gas (executeMultiSig tx)
  | .deployContract body => executeDeployContract c tx body gas
  | .registerAgent _ => flatGas gas (executeRegisterAgent tx)
  | .joinValidator body => flatGas gas (executeJoinValidator c tx body)
  | .leaveValidator => flatGas gas (executeLeaveValidator tx)
  | .claimRewards => flatGas gas (executeClaimRewards tx)
  | .updateStake body => flatGas gas (executeUpdateStake c tx body)
  | .governance _ => flatGas gas (executeGovernance tx)
  | .bridgeLock body => flatGas gas (executeBridgeLock tx body)
  | .bridgeMint body => flatGas gas (executeBridgeMint tx body)
  | .batchSettle body => flatGas gas (executeBatchSettle tx body)
  | .channelOpen body => flatGas gas (executeChannelOpen tx body)
  | .channelClose body => flatGas gas (executeChannelClose c tx body)
  | .channelDispute body => flatGas gas (executeChannelDispute c tx body)
  | .shardProof body => flatGas gas (executeShardProof tx body)
  | .inferenceAttestation body => flatGas gas (executeInferenceAttestation c tx body)
  | .communityInferenceReward body => flatGas gas (executeCommunityInferenceReward c tx body)
  | .inferenceChallenge body => flatGas gas (executeInferenceChallenge tx body)
  | .inferenceRegister body => flatGas gas (executeInferenceRegister tx body)
  | .inferenceEscrowOpen body => flatGas gas (executeInferenceEscrowOpen c tx body)
  | .inferenceEscrowRelease body => flatGas gas (executeInferenceEscrowRelease tx body)
  | .inferenceEscrowRefund body => flatGas gas (executeInferenceEscrowRefund c tx body)
  | .modelRegistration body => flatGas gas (executeModelRegistration c tx body)
  | .modelRequest body => flatGas gas (executeModelRequest c tx body)
  | .shardCoverageClaim body => flatGas gas (executeShardCoverageClaim c tx body)
  | .capacityAdvertisement body => flatGas gas (executeCapacityAdvertisement c tx body)
  | .shardAssignmentProposal body => flatGas gas (executeShardAssignmentProposal c tx body)
  | .faucetClaim body => flatGas gas (executeFaucetClaim c tx body)
  | .inferenceRequest body => flatGas gas (executeInferenceRequest c tx body)
  | .inferenceVote body => flatGas gas (executeInferenceVote tx body)
  | .inferenceFinalize body => flatGas gas (executeInferenceFinalize c tx body)
  | .nativeInferenceRequest _ | .nativeInferenceFinalize _ | .nativeInferenceRefund _ =>
    throw (.executionError "native inference requires the canonical block publisher")

/-- The gas consumed. -/
def executeTx (c : Context) (tx : Transaction) : Exec Nat := do
  requireTxType tx
  if c.protocolV3 then validateV3TransactionEnvelope c tx else pure ()
  let gas ← chargeGas tx.gasMeter tx.body.gasCost
  let gas ← executeBody c tx gas tx.body
  pure gas.consumed

end ArcChain
