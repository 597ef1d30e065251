/-
Block execution on the ordinary path: the signature check and execution of
each transaction, the release of matured attestation bonds at the end of
the block, and runs of blocks.

The release queue is an in-memory index over the escrow accounts
(`pending_bond_releases`).  It lists the escrows by release height, then
by address; a sweep takes a bounded number of due ones from its front.
-/
import ArcChain.Lib.Run
import ArcChain.State.Concrete
import ArcChain.State.Footprint

namespace ArcChain

open Word StoreProg

variable [Externals]

/-! ## Transactions of a block -/

def Transaction.isUnsigned (tx : Transaction) : Bool :=
  match tx.signature with
  | .ed25519 publicKey signature =>
    publicKey == List.replicate 32 0 && signature.all fun b => b == 0
  | _ => false

/-- The body of the transaction loop.  Batch verification of signatures finds what
    verification one by one finds. -/
def executeSigned (c : Context) (tx : Transaction) : Exec Nat :=
  if tx.sigVerified then executeTx c tx
  else if tx.isUnsigned then throw (.executionError "unsigned transaction")
  else if c.verifyTransactionSignature tx then executeTx c tx
  else throw (.executionError "invalid signature")

/-- The transaction loop: the ledger afterwards, the results and the log records. -/
def executeTransactions (c : Context) :
    List Transaction → Ledger → Ledger × List (Except StateError Nat) × List StateRecord
  | [], s => (s, [], [])
  | tx :: rest, s =>
    let outcome := (executeSigned c tx).run s
    let later := executeTransactions c rest outcome.store
    (later.1, outcome.result :: later.2.1, outcome.entries ++ later.2.2)

section Rules

variable {c : Context} {s : Ledger} {tx : Transaction}

variable {I : Ledger → Prop} {J : Bool → Ledger → Prop}

/-- What an arm establishes of its success and its final store holds after `execute_tx`. -/
theorem executeTx_outcome (hs : J false s)
    (hbody : ∀ gas, wp (executeBody c tx gas tx.body) s fun r t _ => J r.isOk t) :
    J ((executeTx c tx).run s).result.isOk ((executeTx c tx).run s).store := by
  have hread : (validateV3TransactionEnvelope c tx).ReadOnly := within_validateV3TransactionEnvelope
  have hrest : wp (do
      let gas ← chargeGas tx.gasMeter tx.body.gasCost
      let gas ← executeBody c tx gas tx.body
      pure gas.consumed) s fun r t _ => J r.isOk t := by
    rw [wp_chargeGas_bind]
    refine ⟨fun _ => ?_, fun _ _ => hs⟩
    rw [wp_bind]
    refine wp_mono (hbody _) fun r t _ ht => ?_
    cases r with
    | ok | error => exact ht
  show wp (executeTx c tx) s fun r t _ => J r.isOk t
  simp only [executeTx, requireTxType, wp_require_bind, wp_ite, hread.wp_bind]
  exact ⟨fun _ => ⟨fun _ => ⟨fun _ _ => hrest, fun _ _ => hs⟩, fun _ => hrest⟩, fun _ => hs⟩

theorem executeSigned_outcome (hs : J false s)
    (hbody : ∀ gas, wp (executeBody c tx gas tx.body) s fun r t _ => J r.isOk t) :
    J ((executeSigned c tx).run s).result.isOk ((executeSigned c tx).run s).store := by
  have htx := executeTx_outcome hs hbody
  unfold executeSigned
  split
  · exact htx
  split
  · exact hs
  · split
    · exact htx
    · exact hs

theorem executeSigned_store (hs : I s)
    (hbody : ∀ gas, wp (executeBody c tx gas tx.body) s fun _ t _ => I t) :
    I ((executeSigned c tx).run s).store :=
  executeSigned_outcome (J := fun _ => I) hs hbody

variable {arm : Exec Unit}

omit [Externals] in
/-- The outcome of a family that charges no further gas. -/
theorem wp_flatGas_outcome {gas : GasMeter}
    (h : wp arm s fun r t _ => J r.isOk t) : wp (flatGas gas arm) s fun r t _ => J r.isOk t := by
  unfold flatGas
  rw [wp_bind]
  refine wp_mono h fun r t _ ht => ?_
  cases r with
  | ok | error => exact ht

omit [Externals] in
theorem wp_flatGas_store {gas : GasMeter} (h : wp arm s fun _ t _ => I t) :
    wp (flatGas gas arm) s fun _ t _ => I t :=
  wp_flatGas_outcome (J := fun _ => I) h

/-- The store after a verified transaction of a family that charges no further gas, on a chain
    without protocol-v3 admission. -/
theorem wp_executeSigned_legacy (c : Context) (tx : Transaction)
    (hv3 : c.protocolV3 = false) (hverified : tx.sigVerified = true)
    (htype : tx.txType = tx.body.txType) (hgas : (tx.gasMeter.charge tx.body.gasCost).2 = none)
    (hbody : ∀ gas, executeBody c tx gas tx.body = flatGas gas arm)
    (harm : wp arm s fun _ t _ => I t) : I ((executeSigned c tx).run s).store := by
  rw [executeSigned, if_pos hverified]
  show wp (executeTx c tx) s fun _ t _ => I t
  simp only [executeTx, requireTxType, hv3, htype, wp_require_bind, wp_chargeGas_bind, hgas,
    if_false, forall_const, not_true_eq_false, false_imp_iff, and_true,
    reduceCtorEq, implies_true, hbody, wp_flatGas_consumed]
  exact harm

theorem within_executeSigned_of {R W : Cell → Prop} {G : StateRecord → Prop}
    (htx : (executeTx c tx).Within R W G) : (executeSigned c tx).Within R W G := by
  unfold executeSigned
  split
  · exact htx
  split
  · trivial
  · split
    · exact htx
    · trivial

theorem within_executeSigned (c : Context) (tx : Transaction) :
    (executeSigned c tx).Within (tx.Reads c) (tx.Writes c) fun _ => True :=
  within_executeSigned_of (within_executeTx c tx)

end Rules

/-! ## Matured bonds -/

def maxBondReleasesPerBlock : Nat := 256

/-- The queue in its order: by release height, then by escrow address. -/
def bondQueue (s : Ledger) : List (Nat × Address) :=
  (FinMap.toSortedList (show FinMap (Nat ×ₗ Address) Unit from s.pendingBondReleases)).map
    fun e => ofLex e.1

/-- The queued releases whose height has been reached. -/
def dueReleases (s : Ledger) (height : Nat) : List (Nat × Address) :=
  (bondQueue s).filter fun e => e.1 ≤ height

/-- The releases a sweep takes from the queue. -/
def pickedReleases (s : Ledger) (height : Nat) : List (Nat × Address) :=
  (dueReleases s height).take maxBondReleasesPerBlock

/-- The queue without the picked releases. -/
def dropReleases (s : Ledger) (picked : List (Nat × Address)) : Ledger :=
  { s with
    pendingBondReleases := picked.foldl (fun q e => FinMap.set q e none) s.pendingBondReleases }

/-- Whether the storage root carries the magic of attestation escrows. -/
def Account.isAttestEscrow (x : Account) : Bool := x.storageRoot.toBytes.take 8 == attestEscrowMagic

/-- The status byte of an attestation escrow. -/
def Account.attestStatus (x : Account) : UInt8 := (x.storageRoot.toBytes.drop 8).headD 0

/-- Phase 2 of the sweep, for one escrow: whether it is refunded. -/
def refundEscrow (height : Nat) (escrow : Address) : Exec Bool := do
  match ← readAccount escrow with
  | none => pure false
  | some e =>
    if e.balance = 0 then pure false
    else if e.isAttestEscrow = false then pure false
    else if e.attestStatus ≠ attestStatusOpen then pure false
    else if height < e.nonce then
      queueBondRelease e.nonce escrow
      pure false
    else
      creditAccount saturatingAdd e.codeHash e.balance
      let emptied ← getOrCreateAccount escrow
      storeAccount escrow { emptied with balance := 0, storageRoot := .zero }
      pure true

/-- Phase 2 of the sweep: the escrows that are refunded. -/
def refundEscrows (height : Nat) : List Address → Exec (List Address)
  | [] => pure []
  | escrow :: rest => do
    let refunded ← refundEscrow height escrow
    let later ← refundEscrows height rest
    pure (if refunded then escrow :: later else later)

def sweepMaturedBondReleases (height : Nat) (s : Ledger) :
    Outcome Ledger StateRecord StateError (List Address) :=
  let picked := pickedReleases s height
  (refundEscrows height (picked.map Prod.snd)).run (dropReleases s picked)

omit [Externals] in
/-- What the sweep keeps: a relation that allows changes of the queue and of accounts whose nonce
    and code hash stay. -/
theorem sweep_keeps {R : Ledger → Ledger → Prop} (hrefl : ∀ s, R s s)
    (htrans : ∀ s t u, R s t → R t u → R s u)
    (hqueue : ∀ s q, R s { s with pendingBondReleases := q })
    (hput : ∀ (s : Ledger) a x, x.nonce = (s.accountOr a).nonce →
      x.codeHash = (s.accountOr a).codeHash → R s (s.putAccount a x))
    (height : Nat) (s : Ledger) : R s (sweepMaturedBondReleases height s).store := by
  have hcredit : ∀ (s : Ledger) a n, R s (s.putAccount a ((s.accountOr a).withBalance n)) :=
    fun s a n => hput s a _ rfl rfl
  have hensure : ∀ (s : Ledger) a, R s (s.ensure a) := fun s a => hput s a _ rfl rfl
  have hone : ∀ (s : Ledger) a, wp (refundEscrow height a) s fun o t _ =>
      (∃ b, o = .ok b) ∧ R s t := by
    intro s a
    rw [refundEscrow, wp_readAccount_bind]
    cases s.accounts.lookup a with
    | none => exact ⟨⟨_, rfl⟩, hrefl s⟩
    | some e =>
      simp only [wp_ite, wp_creditAccount_bind, wp_getOrCreateAccount_bind]
      refine ⟨fun _ => ⟨⟨_, rfl⟩, hrefl s⟩, fun _ => ⟨fun _ => ⟨⟨_, rfl⟩, hrefl s⟩,
        fun _ => ⟨fun _ => ⟨⟨_, rfl⟩, hrefl s⟩, fun _ => ⟨fun _ => ?_, fun _ => ?_⟩⟩⟩⟩
      · exact ⟨⟨_, rfl⟩, hqueue s _⟩
      · refine ⟨⟨_, rfl⟩, ?_⟩
        refine htrans _ _ _ (htrans _ _ _ (hcredit s _ _) (hensure _ a)) (hput _ a _ ?_ ?_)
        · rw [Ledger.accountOr_ensure]
        · rw [Ledger.accountOr_ensure]
  have hall : ∀ (L : List Address) (s : Ledger), wp (refundEscrows height L) s fun o t _ =>
      (∃ l, o = .ok l) ∧ R s t := by
    intro L
    induction L with
    | nil => exact fun s => ⟨⟨_, rfl⟩, hrefl s⟩
    | cons a L ih =>
      intro s
      rw [refundEscrows, wp_bind]
      refine wp_mono (hone s a) ?_
      rintro o t _ ⟨⟨b, rfl⟩, ht⟩
      dsimp only
      rw [wp_bind]
      refine wp_mono (ih t) ?_
      rintro o u _ ⟨⟨l, rfl⟩, hu⟩
      exact ⟨⟨_, rfl⟩, htrans _ _ _ ht hu⟩
  exact htrans _ _ _ (hqueue s _) (hall _ (dropReleases s (pickedReleases s height))).2

/-- The queue of the open escrows. -/
def rebuildPendingBondReleases (s : Ledger) : Ledger :=
  { s with
    pendingBondReleases := FinMap.ofList (((FinMap.toSortedList s.accounts).filter fun e =>
      e.2.balance ≠ 0 ∧ e.2.isAttestEscrow = true ∧ e.2.attestStatus = attestStatusOpen).map
        fun e => ((e.2.nonce, e.1), ())) }

/-! ## Blocks -/

/-- What a block leaves. -/
structure BlockOutcome where
  ledger : Ledger
  results : List (Except StateError Nat)
  refunded : List Address
  records : List StateRecord

/-- The context of the next block. -/
def Context.next (c : Context) : Context := { c with height := c.height + 1 }

/-- The ordinary path of `execute_block_verified_at_with_proof`, without the checks of v3 and
    native blocks: the height is raised first, and the sweep runs at the new height. -/
def executeBlock (c : Context) (txs : List Transaction) (s : Ledger) : BlockOutcome :=
  let executed := executeTransactions c.next txs s
  let swept := sweepMaturedBondReleases c.next.height executed.1
  { ledger := swept.store
    results := executed.2.1
    refunded := match swept.result with
      | .ok refunded => refunded
      | .error _ => []
    records := executed.2.2 ++ swept.entries }

/-! ## Operations -/

/-- The operations a block is made of. -/
inductive ChainOp where
  | raiseHeight
  | transaction (tx : Transaction)
  | sweep

/-- One operation on the chain. -/
def chainStep (p : Context × Ledger) : ChainOp → Option (Context × Ledger)
  | .raiseHeight => some (p.1.next, p.2)
  | .transaction tx => some (p.1, ((executeSigned p.1 tx).run p.2).store)
  | .sweep => some (p.1, (sweepMaturedBondReleases p.1.height p.2).store)

/-- The operations of a block. -/
def blockOps (txs : List Transaction) : List ChainOp :=
  .raiseHeight :: (txs.map .transaction ++ [.sweep])

/-- A block is the run of its operations. -/
theorem run_blockOps (c : Context) (txs : List Transaction) (s : Ledger) :
    Run chainStep (fun _ _ => True) (c, s) (blockOps txs)
      (c.next, (executeBlock c txs s).ledger) := by
  have htxs : ∀ txs s, Run chainStep (fun _ _ => True) (c.next, s)
      (txs.map ChainOp.transaction) (c.next, (executeTransactions c.next txs s).1) := by
    intro txs
    induction txs with
    | nil => exact fun s => .nil _
    | cons tx rest ih => exact fun s => .cons trivial rfl (ih _)
  exact .cons trivial rfl ((htxs txs s).append (.single trivial rfl))

/-! ## Histories -/

/-- Blocks one after another: the outcome of each. -/
def executeBlocks (c : Context) : List (List Transaction) → Ledger → List BlockOutcome
  | [], _ => []
  | txs :: rest, s =>
    executeBlock c txs s :: executeBlocks c.next rest (executeBlock c txs s).ledger

/-- The chain after some blocks. -/
def chainAfter (c : Context) : List (List Transaction) → Ledger → Context × Ledger
  | [], s => (c, s)
  | txs :: rest, s => chainAfter c.next rest (executeBlock c txs s).ledger

end ArcChain
