/-
`execute_tx`, the state-channel arms and `ShardProof`.

A channel lives in one escrow account: `code_hash` is the opener,
`storage_root` the counterparty, `balance` the locked funds, and in a
dispute `nonce` is the disputed state and `staked_balance` the height at
which the challenge period ends.  A shard proof is recorded in the balance
field of an account of its own.
-/
import ArcChain.State.Payments

namespace ArcChain

open Word StoreProg

variable [Externals]

/-- The escrow account of a channel. -/
def channelEscrowAddress (channelId : Hash256) : Address :=
  taggedHash "arc-channel" channelId.toBytes

/-- `TxBody::ChannelOpen`: the escrow balance is set to the deposit. -/
def executeChannelOpen (tx : Transaction) (body : ChannelOpenBody) : Exec Unit := do
  let sender ← openSender tx
  requireBalance sender.balance body.deposit
  storeAccount tx.sender (sender.spend body.deposit)
  let escrow ← getOrCreateAccount (channelEscrowAddress body.channelId)
  storeAccount (channelEscrowAddress body.channelId)
    { escrow with
      balance := body.deposit
      codeHash := tx.sender
      storageRoot := body.counterparty }

def executeChannelClose (c : Context) (tx : Transaction) (body : ChannelCloseBody) :
    Exec Unit := do
  let sender ← openSender tx
  let escrow ← getOrCreateAccount (channelEscrowAddress body.channelId)
  require (tx.sender = escrow.codeHash ∨ tx.sender = escrow.storageRoot)
    (.executionError "channel close: sender is neither opener nor counterparty")
  require (escrow.stakedBalance = 0 ∨ escrow.stakedBalance ≤ c.height) (.executionError
    ("channel close: active dispute in progress, wait for challenge period to expire"))
  let claimed := saturatingAdd body.openerBalance body.counterpartyBalance
  require (claimed ≤ escrow.balance) (.executionError
    s!"channel close exceeds locked funds: claimed={claimed}, locked={escrow.balance}")
  let escrowMut ← getOrCreateAccount (channelEscrowAddress body.channelId)
  storeAccount (channelEscrowAddress body.channelId) (escrowMut.withBalance 0)
  storeAccount tx.sender
    (sender.withBalance (wrappingAdd sender.balance body.openerBalance)).bumped
  if 0 < body.counterpartyBalance ∧ escrow.storageRoot ≠ .zero then
    creditAccount wrappingAdd escrow.storageRoot body.counterpartyBalance
  else pure ()

/-- `TxBody::ChannelDispute`: the nonce is consumed before the channel is looked at. -/
def executeChannelDispute (c : Context) (tx : Transaction) (body : ChannelDisputeBody) :
    Exec Unit := do
  let sender ← openSender tx
  storeAccount tx.sender sender.bumped
  let escrow ← getOrCreateAccount (channelEscrowAddress body.channelId)
  require (escrow.balance ≠ 0)
    (.executionError "channel dispute: no funds locked in channel")
  require (tx.sender = escrow.codeHash ∨ tx.sender = escrow.storageRoot)
    (.executionError "channel dispute: sender is neither opener nor counterparty")
  require (body.challengePeriod ≠ 0 ∧ body.challengePeriod ≤ 100000)
    (.executionError "channel dispute: challenge_period must be 1..=100000")
  require (escrow.stakedBalance = 0 ∨ c.height < escrow.stakedBalance) (.executionError
    "channel dispute: challenge period has expired, state is finalized")
  require (escrow.stakedBalance = 0 ∨ escrow.nonce < body.stateNonce) (.executionError
    (s!"channel dispute: state_nonce {body.stateNonce} must exceed previously disputed " ++
      s!"nonce {escrow.nonce}"))
  let claimed := saturatingAdd body.openerBalance body.counterpartyBalance
  require (claimed ≤ escrow.balance) (.executionError
    s!"channel dispute: claimed balances ({claimed}) exceed locked funds ({escrow.balance})")
  storeAccount (channelEscrowAddress body.channelId)
    { escrow with
      nonce := body.stateNonce
      stakedBalance := wrappingAdd c.height body.challengePeriod }

/-- The account that records the proof of a shard's block. -/
def shardProofAddress (body : ShardProofBody) : Address :=
  taggedHash "arc-shard-proof" (leBytes 2 body.shardId ++ leBytes 8 body.blockHeight)

/-- The fingerprint of a proof: the first eight bytes of its hash. -/
def proofFingerprint (body : ShardProofBody) : Nat :=
  leValue ((hashBytes body.proofData).toBytes.take 8)

def executeShardProof (tx : Transaction) (body : ShardProofBody) : Exec Unit := do
  let sender ← openSender tx
  storeAccount tx.sender sender.bumped
  require (body.proofData ≠ []) (.executionError "shard proof: empty proof data")
  require (¬ (body.prevStateRoot = body.postStateRoot ∧ 0 < body.txCount)) (.executionError
    "shard proof: state root unchanged despite transactions")
  require (Externals.verifyRecursiveProof body = true)
    (.executionError "shard proof: STARK proof verification failed")
  let proofRecord ← getOrCreateAccount (shardProofAddress body)
  storeAccount (shardProofAddress body)
    { proofRecord with balance := proofFingerprint body, nonce := body.blockHeight }

end ArcChain
