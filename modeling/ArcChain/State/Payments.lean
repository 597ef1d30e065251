/-
`execute_tx`, the arms that move balances between accounts named by the
transaction: transfers, settlements, swaps, escrows, the bridge, and the
families that only consume a nonce or a fee.

Each arm is the source's sequence of reads, checks, writes and log
records.  An arm that fails after a write keeps the write.
-/
import ArcChain.State.Db

namespace ArcChain

open Word StoreProg

/-- The opening of most arms: the sender's account, created if missing, with its nonce
    checked. -/
def openSender (tx : Transaction) : Exec Account := do
  let sender ← getOrCreateAccount tx.sender
  requireNonce sender tx.nonce
  pure sender

/-- Credit an account, created if missing, with the given addition. -/
def creditAccount (add : Nat → Nat → Nat) (a : Address) (amount : Nat) : Exec Unit := do
  let account ← getOrCreateAccount a
  storeAccount a (account.withBalance (add account.balance amount))

/-- `TxBody::Transfer` on a chain without protocol-v3 admission: built from detached
    snapshots, written when nothing can fail any more. -/
def executeTransfer (c : Context) (tx : Transaction) (body : TransferBody) : Exec Unit := do
  let sender ← ofOption (.insufficientBalance 0 body.amount) (← getAccount c tx.sender)
  requireNonce sender tx.nonce
  let nextNonce ← orError "transfer nonce overflow" (checkedAdd sender.nonce 1)
  requireBalance sender.balance body.amount
  if body.recipient = tx.sender then
    storeAccount tx.sender { sender with nonce := nextNonce }
  else
    let receiver := (← getAccount c body.recipient).getD (Account.new body.recipient 0)
    let senderBalance ← orError "transfer sender balance underflow"
      (checkedSub sender.balance body.amount)
    let receiverBalance ← orError "transfer recipient balance overflow"
      (checkedAdd receiver.balance body.amount)
    let sender := { sender with balance := senderBalance, nonce := nextNonce }
    let receiver := receiver.withBalance receiverBalance
    insertAccount tx.sender sender
    insertAccount body.recipient receiver
    logAccount tx.sender sender
    logAccount body.recipient receiver

def executeSettle (tx : Transaction) (body : SettleBody) : Exec Unit := do
  let sender ← openSender tx
  requireBalance sender.balance body.amount
  storeAccount tx.sender (sender.spend body.amount)
  creditAccount saturatingAdd body.agentId body.amount

/-- `TxBody::Swap`: both sides are read before either is written, and nothing is logged. -/
def executeSwap (tx : Transaction) (body : SwapBody) : Exec Unit := do
  let sender ← openSender tx
  requireBalance sender.balance body.offerAmount
  let counterparty ← getOrCreateAccount body.counterparty
  requireBalance counterparty.balance body.receiveAmount
  insertAccount tx.sender (sender.withBalance
    (saturatingAdd (sender.balance - body.offerAmount) body.receiveAmount)).bumped
  insertAccount body.counterparty (counterparty.withBalance
    (saturatingAdd (counterparty.balance - body.receiveAmount) body.offerAmount))

/-- `TxBody::Escrow`: creation debits the sender, release credits the beneficiary.  Nothing
    is logged. -/
def executeEscrow (tx : Transaction) (body : EscrowBody) : Exec Unit := do
  let sender ← openSender tx
  if body.isCreate then
    requireBalance sender.balance body.amount
    insertAccount tx.sender (sender.spend body.amount)
  else
    let beneficiary ← getOrCreateAccount body.beneficiary
    insertAccount body.beneficiary
      (beneficiary.withBalance (saturatingAdd beneficiary.balance body.amount))
    insertAccount tx.sender sender.bumped

/-- `TxBody::MultiSig`: consumes a nonce, not logged. -/
def executeMultiSig (tx : Transaction) : Exec Unit := do
  let sender ← openSender tx
  insertAccount tx.sender sender.bumped

/-- `TxBody::RegisterAgent`: pays the fee, not logged. -/
def executeRegisterAgent (tx : Transaction) : Exec Unit := do
  let sender ← openSender tx
  requireBalance sender.balance tx.fee
  insertAccount tx.sender (sender.spend tx.fee)

/-- `TxBody::ClaimRewards` and `TxBody::Governance`: consume a nonce. -/
def executeNonceOnly (tx : Transaction) : Exec Unit := do
  let sender ← openSender tx
  storeAccount tx.sender sender.bumped

def executeClaimRewards (tx : Transaction) : Exec Unit := executeNonceOnly tx

def executeGovernance (tx : Transaction) : Exec Unit := executeNonceOnly tx

section

variable [Crypto]

/-- The bridge escrow, `hash_bytes(b"ARC-bridge-escrow")`. -/
def bridgeEscrowAddress : Address := hashBytes (asciiBytes "ARC-bridge-escrow")

/-- `TxBody::BridgeLock`: the escrow balance is set to the amount, not raised by it. -/
def executeBridgeLock (tx : Transaction) (body : BridgeLockBody) : Exec Unit := do
  let sender ← openSender tx
  requireBalance sender.balance body.amount
  storeAccount tx.sender (sender.spend body.amount)
  let escrow ← getOrCreateAccount bridgeEscrowAddress
  storeAccount bridgeEscrowAddress (escrow.withBalance body.amount)

end

/-- `TxBody::BridgeMint`: the recipient's balance is set to the amount. -/
def executeBridgeMint (tx : Transaction) (body : BridgeMintBody) : Exec Unit := do
  let sender ← openSender tx
  require (body.merkleProof ≠ [])
    (.executionError "bridge mint requires a non-empty merkle proof")
  storeAccount tx.sender sender.bumped
  let recipient ← getOrCreateAccount body.recipient
  storeAccount body.recipient (recipient.withBalance body.amount)

/-! ## Batch settlement -/

/-- `entries.iter().map(|e| e.amount).sum()`, a wrapping 64-bit sum. -/
def grossAmount (entries : List SettleEntry) : Nat := (entries.map SettleEntry.amount).sum % 2 ^ 64

/-- `*net_credits.entry(agent).or_insert(0) += amount`. -/
def addCredit (credits : List (Address × Nat)) (agent : Address) (amount : Nat) :
    List (Address × Nat) :=
  match credits with
  | [] => [(agent, amount % 2 ^ 64)]
  | (a, n) :: rest =>
    if a = agent then (a, wrappingAdd n amount) :: rest else (a, n) :: addCredit rest agent amount

/-- The credits summed per recipient, in the order of first appearance. -/
def netCredits (entries : List SettleEntry) : List (Address × Nat) :=
  entries.foldl (fun credits e => addCredit credits e.agentId e.amount) []

def executeBatchSettle [Externals] (tx : Transaction) (body : BatchSettleBody) : Exec Unit := do
  let count := body.entries.length
  require (count ≤ GasCosts.batchSettleMaxEntries) (.executionError
    s!"BatchSettle exceeds max entries: {count} > {GasCosts.batchSettleMaxEntries}")
  require (body.entries ≠ []) (.executionError "BatchSettle with zero entries")
  let sender ← openSender tx
  requireBalance sender.balance (grossAmount body.entries)
  storeAccount tx.sender (sender.spend (grossAmount body.entries))
  forEach (Externals.mapOrder (netCredits body.entries)) fun credit =>
    creditAccount saturatingAdd credit.1 credit.2

end ArcChain
