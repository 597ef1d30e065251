/-
`execute_tx`, the Tier 1 on-chain inference arms: a request locks its
reward in an escrow, committee members vote on the output, and anyone
finalizes once all have voted or the deadline has passed.

The escrow's `code_hash` holds the status byte, the deadline and the
committee size; its `nonce` is the anchor height of the committee seed.
The requester, the prompt and the votes are in the escrow's storage.
-/
import ArcChain.State.Payments

namespace ArcChain

open Word StoreProg

/-- `TIER1_STATUS_OPEN` .. `TIER1_STATUS_REFUNDED`. -/
def tier1StatusOpen : UInt8 := 0

def tier1StatusVoting : UInt8 := 1

def tier1StatusFinalized : UInt8 := 2

def tier1StatusRefunded : UInt8 := 3

/-- The status byte of an escrow. -/
def tier1Status (escrow : Account) : UInt8 := escrow.codeHash.toBytes.headD 0

/-- The deadline, in blocks after the anchor. -/
def tier1Deadline (escrow : Account) : Nat := leValue ((escrow.codeHash.toBytes.drop 1).take 8)

/-- The committee size. -/
def tier1CommitteeSize (escrow : Account) : Nat :=
  ((escrow.codeHash.toBytes.drop 9).headD 0).toNat

/-- `code_hash.0[0] = status`. -/
def withTier1Status (escrow : Account) (status : UInt8) : Account :=
  { escrow with codeHash := .ofBytes (status :: escrow.codeHash.toBytes.drop 1) }

/-- Whether a request still takes votes. -/
def Tier1Actionable (status : UInt8) : Prop :=
  status = tier1StatusOpen ∨ status = tier1StatusVoting

instance (status : UInt8) : Decidable (Tier1Actionable status) :=
  inferInstanceAs (Decidable (_ ∨ _))

variable [Externals]

/-- The escrow of a request. -/
def tier1EscrowAddress (requestId : Hash256) : Address :=
  taggedHash "arc-infreq" requestId.toBytes

/-- A storage key of the escrow. -/
def tier1Key (name : String) : Hash256 := hashBytes (asciiBytes name)

/-! ## Requests -/

/-- The chain-enforced bounds of a request, in the order they are checked. -/
def checkTier1Request (body : InferenceRequestBody) : Exec Unit := do
  require (body.inputBlob.length ≤ 32 * 1024) (.executionError
    s!"tier1 request: input_blob {body.inputBlob.length} > max {32 * 1024}")
  require (body.maxTokens ≠ 0 ∧ body.maxTokens ≤ 2048) (.executionError
    s!"tier1 request: max_tokens {body.maxTokens} outside [1, 2048]")
  require (5 ≤ body.deadlineBlocks ∧ body.deadlineBlocks ≤ 1000) (.executionError
    s!"tier1 request: deadline_blocks {body.deadlineBlocks} outside [5, 1000]")
  require (body.committeeSize ≠ 0 ∧ body.committeeSize ≤ 32) (.executionError
    s!"tier1 request: committee_size {body.committeeSize} outside [1, 32]")
  require (body.tier = 1) (.executionError
    s!"tier1 request: only tier=1 supported in this phase, got {body.tier}")
  require (hashBytes body.inputBlob = body.inputHash) (.executionError
    "tier1 request: input_hash does not match blob")

/-- The escrow's `code_hash` for a new request. -/
def tier1OpenCode (body : InferenceRequestBody) : Hash256 :=
  .ofBytes ([tier1StatusOpen] ++ leBytes 8 body.deadlineBlocks ++
    [UInt8.ofNat body.committeeSize] ++ List.replicate 22 0)

/-- The commitment to a request's metadata. -/
def tier1RequestCommitment (body : InferenceRequestBody) (height : Nat) : Hash256 :=
  hashBytes (body.modelId.toBytes ++ body.inputHash.toBytes ++ leBytes 1 body.tier ++
    leBytes 4 body.maxTokens ++ leBytes 1 body.committeeSize ++ leBytes 8 body.deadlineBlocks ++
    leBytes 8 body.maxReward ++ leBytes 8 height)

/-- `bincode::serialize(&Vec::new()).unwrap_or_default()`. -/
def emptyVotes : Bytes :=
  match Externals.serializeVotes [] with
  | .ok bytes => bytes
  | .error _ => []

/-- `TxBody::InferenceRequest`: the sender is debited before the escrow is looked at. -/
def executeInferenceRequest (c : Context) (tx : Transaction) (body : InferenceRequestBody) :
    Exec Unit := do
  checkTier1Request body
  let sender ← openSender tx
  requireBalance sender.balance body.maxReward
  storeAccount tx.sender (sender.spend body.maxReward)
  let escrow ← getOrCreateAccount (tier1EscrowAddress body.requestId)
  require (escrow.balance = 0 ∧ escrow.codeHash = .zero) (.executionError
    "tier1 request: request_id collides with existing escrow")
  storeAccount (tier1EscrowAddress body.requestId)
    { escrow with
      balance := body.maxReward
      nonce := c.height
      codeHash := tier1OpenCode body
      storageRoot := tier1RequestCommitment body c.height }
  setStorage (tier1EscrowAddress body.requestId) (tier1Key "tier1.requester") tx.sender.toBytes
  setStorage (tier1EscrowAddress body.requestId) (tier1Key "tier1.input_blob") body.inputBlob
  setStorage (tier1EscrowAddress body.requestId) (tier1Key "tier1.votes") emptyVotes
  setStorage (tier1EscrowAddress body.requestId) (tier1Key "tier1.request_id")
    body.requestId.toBytes
  setTier1Pending body.requestId (some c.height)

/-! ## Votes -/

/-- The committee of a request: the registry scored against the seed, the lowest scores
    first. -/
def tier1Committee (validators : FinMap Address Nat) (requestId : Hash256)
    (anchorHeight committeeSize : Nat) : List Address :=
  let seed := taggedHash "tier1-seed" (requestId.toBytes ++ leBytes 8 anchorHeight)
  let scored := (FinMap.toSortedList validators).map fun e =>
    (e.1, hashBytes (seed.toBytes ++ e.1.toBytes))
  ((scored.insertionSort fun x y => x.2 ≤ y.2).take committeeSize).map Prod.fst

/-- The votes stored for a request. -/
def storedVotes (bytes : Option Bytes) : List (Address × Hash256) :=
  (Externals.deserializeVotes (bytes.getD [])).getD []

/-- The check of an attached output. -/
def checkOutputBlob (body : InferenceVoteBody) : Exec Unit :=
  match body.outputBlob with
  | none => pure ()
  | some blob => do
    require (blob.length ≤ 16 * 1024) (.executionError
      s!"tier1 vote: output_blob {blob.length} > max {16 * 1024}")
    require (hashBytes blob = body.outputHash) (.executionError
      "tier1 vote: output_hash does not match attached blob")

/-- The first attached output is kept. -/
def storeOutputBlob (escrowAddress : Address) (body : InferenceVoteBody) : Exec Unit :=
  match body.outputBlob with
  | none => pure ()
  | some blob => do
    let existing ← getStorage escrowAddress (tier1Key "tier1.output_blob")
    if existing = none then setStorage escrowAddress (tier1Key "tier1.output_blob") blob
    else pure ()

def executeInferenceVote (tx : Transaction) (body : InferenceVoteBody) : Exec Unit := do
  checkOutputBlob body
  let sender ← openSender tx
  let escrow ← getOrCreateAccount (tier1EscrowAddress body.requestId)
  require (escrow.balance ≠ 0) (.executionError
    "tier1 vote: request not found or already settled")
  let status := tier1Status escrow
  require (Tier1Actionable status) (.executionError
    s!"tier1 vote: request status {status.toNat} disallows voting")
  let validators ← readValidators
  let members := tier1Committee validators body.requestId escrow.nonce (tier1CommitteeSize escrow)
  require (tx.sender ∈ members) (.executionError
    s!"tier1 vote: signer {tx.sender.toHex} not in committee")
  let votes := storedVotes
    (← getStorage (tier1EscrowAddress body.requestId) (tier1Key "tier1.votes"))
  require (tx.sender ∉ votes.map Prod.fst) (.executionError
    "tier1 vote: duplicate vote from this validator")
  let encoded ← ofExcept ((Externals.serializeVotes (votes ++ [(tx.sender, body.outputHash)])).mapError
    fun e => .executionError s!"tier1 vote: serialize votes: {e}")
  setStorage (tier1EscrowAddress body.requestId) (tier1Key "tier1.votes") encoded
  storeOutputBlob (tier1EscrowAddress body.requestId) body
  storeAccount tx.sender sender.bumped
  if status = tier1StatusOpen then
    storeAccount (tier1EscrowAddress body.requestId) (withTier1Status escrow tier1StatusVoting)
  else pure ()

/-! ## Finalization -/

/-- The votes counted per output (`tally`), in the order of first appearance. -/
def tallyVotes (votes : List (Address × Hash256)) : List (Hash256 × Nat) :=
  votes.foldl (fun tally v => addCredit tally v.2 1) []

/-- `iter().max_by_key(..)`: the last entry with the largest count. -/
def maxByCount : List (Hash256 × Nat) → Option (Hash256 × Nat)
  | [] => none
  | e :: rest =>
    match maxByCount rest with
    | none => some e
    | some best => if e.2 ≤ best.2 then some best else some e

/-- `reward * bps / 10_000`, the product wrapping. -/
def bpsShare (reward bps : Nat) : Nat := reward * bps % 2 ^ 64 / 10000

/-- The payout of an agreed request: 70% to the agreeing voters, 20% back to the requester,
    the rest to the faucet pool. -/
def payAgreed (escrowAddress requester : Address) (votes : List (Address × Hash256))
    (output : Hash256) (maxReward : Nat) : Exec Unit := do
  let votersPool := bpsShare maxReward 7000
  let refund := bpsShare maxReward 2000
  let treasury := bpsShare maxReward 1000
  let remainder := maxReward - (votersPool + refund + treasury)
  let agreeing := (votes.filter fun v => v.2 = output).map Prod.fst
  let perVoter := if agreeing = [] then 0 else votersPool / agreeing.length
  let voterRem := votersPool - perVoter * agreeing.length
  forEach agreeing fun v => creditAccount saturatingAdd v perVoter
  creditAccount saturatingAdd requester refund
  creditAccount saturatingAdd faucetPoolAddress (treasury + remainder + voterRem)
  setStorage escrowAddress (tier1Key "tier1.final_output_hash") output.toBytes

/-- The refund of a request without agreement, less the anti-spam fee. -/
def refundDisagreed (requester : Address) (maxReward : Nat) : Exec Unit := do
  let fee := min 1 maxReward
  creditAccount saturatingAdd requester (maxReward - fee)
  if 0 < fee then creditAccount saturatingAdd faucetPoolAddress fee else pure ()

/-- The settlement of a request whose reward is in the escrow: the status it ends in. -/
def settleRequest (escrowAddress requester : Address) (votes : List (Address × Hash256))
    (committeeSize maxReward : Nat) : Exec UInt8 := do
  let majority := (maxByCount (Externals.mapOrder (tallyVotes votes))).getD (.zero, 0)
  if max (committeeSize / 2 + 1) 1 ≤ majority.2 then
    payAgreed escrowAddress requester votes majority.1 maxReward
    pure tier1StatusFinalized
  else
    refundDisagreed requester maxReward
    pure tier1StatusRefunded

/-- `TxBody::InferenceFinalize`: the nonce is consumed before the request is looked at. -/
def executeInferenceFinalize (c : Context) (tx : Transaction) (body : InferenceFinalizeBody) :
    Exec Unit := do
  let sender ← openSender tx
  storeAccount tx.sender sender.bumped
  let escrow ← getOrCreateAccount (tier1EscrowAddress body.requestId)
  require (escrow.balance ≠ 0) (.executionError
    "tier1 finalize: request not found or already settled")
  let status := tier1Status escrow
  require (Tier1Actionable status) (.executionError
    s!"tier1 finalize: request status {status.toNat} already terminal")
  let committeeSize := tier1CommitteeSize escrow
  let deadline := saturatingAdd escrow.nonce (tier1Deadline escrow)
  let votes := storedVotes
    (← getStorage (tier1EscrowAddress body.requestId) (tier1Key "tier1.votes"))
  require (deadline ≤ c.height ∨ committeeSize ≤ votes.length) (.executionError
    (s!"tier1 finalize: not yet eligible (votes {votes.length}/{committeeSize}, " ++
      s!"height {c.height} < deadline {deadline})"))
  let requesterBytes :=
    (← getStorage (tier1EscrowAddress body.requestId) (tier1Key "tier1.requester")).getD []
  require (requesterBytes.length = 32) (.executionError
    "tier1 finalize: requester not recorded in escrow storage")
  let newStatus ← settleRequest (tier1EscrowAddress body.requestId) (.ofBytes requesterBytes) votes
    committeeSize escrow.balance
  storeAccount (tier1EscrowAddress body.requestId) ((withTier1Status escrow newStatus).withBalance 0)
  setTier1Pending body.requestId none

end ArcChain
