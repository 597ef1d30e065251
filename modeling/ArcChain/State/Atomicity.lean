/-
What a failed transaction leaves behind.

Nothing rolls a failed arm back, so a failure leaves the ledger as it was
only if every earlier step of the arm changed nothing.  `TxBody.checks`
lists, for each family, the checks of its arm in order, each with the
condition under which a failure there leaves no trace: the accounts that
`get_or_create_account` opened before it exist already, and nothing has
been written.  `failed_tx_unchanged_iff` is the result: the list is exact.
-/
import ArcChain.State.Concrete
import ArcChain.State.Detached

namespace ArcChain

open Word StoreProg Ledger Account Sample

/-! ## Checks and their traces -/

/-- A failed outcome leaves the ledger as it was. -/
def Unchanged {α : Type} (s : Ledger) : Except StateError α → Ledger → List StateRecord → Prop
  | .ok _, _, _ => True
  | .error _, t, _ => t = s

variable {l : List StateRecord} {s t : Ledger} {α : Type}

@[simp] theorem unchanged_ok {a : α} : Unchanged s (.ok a) t l ↔ True := Iff.rfl

@[simp] theorem unchanged_error {e : StateError}
    : Unchanged s (.error e : Except StateError α) t l ↔ t = s := Iff.rfl

/-- The log does not count. -/
@[simp] theorem unchanged_cons {r : Except StateError α} {x : StateRecord} :
    Unchanged s r t (x :: l) ↔ Unchanged s r t l := by
  cases r <;> exact Iff.rfl

/-- A failing check never fails but where its condition holds: checks in order, each with the
    condition that a failure there needs to leave no trace. -/
def FailsClean : List (Prop × Prop) → Prop
  | [] => True
  | (check, clean) :: rest => (check → FailsClean rest) ∧ (¬ check → clean)

@[simp] theorem failsClean_nil : FailsClean [] ↔ True := Iff.rfl

variable {rest : List (Prop × Prop)}

@[simp] theorem failsClean_cons {check clean : Prop} :
    FailsClean ((check, clean) :: rest) ↔ (check → FailsClean rest) ∧ (¬ check → clean) := Iff.rfl

/-- Checks with the same condition may be listed as one. -/
@[simp high] theorem failsClean_and {p q clean : Prop} :
    FailsClean ((p ∧ q, clean) :: rest) ↔ FailsClean ((p, clean) :: (q, clean) :: rest) := by
  constructor
  · rintro ⟨hrest, hclean⟩
    exact ⟨fun hp => ⟨fun hq => hrest ⟨hp, hq⟩, fun hq => hclean fun h => hq h.2⟩,
      fun hp => hclean fun h => hp h.1⟩
  · rintro ⟨hp, hclean⟩
    refine ⟨fun h => (hp h.1).1 h.2, fun h => ?_⟩
    by_cases h' : p
    · exact (hp h').2 fun hq => h ⟨h', hq⟩
    · exact hclean h'

section NoFail

variable {α β : Type} {s t : Ledger}

variable {p : Exec α}

/-- A program that cannot fail has nothing to leave behind. -/
theorem unchanged_of_noFail (h : p.NoFail) : wp p t (Unchanged s) ↔ True :=
  iff_true_intro (h.wp fun _ _ _ => trivial)

theorem unchanged_noFail_bind {f : α → Exec β} (hp : p.NoFail)
    (hf : ∀ a, (f a).NoFail) : wp (p >>= f) t (Unchanged s) ↔ True :=
  unchanged_of_noFail (hp.bind hf)

/-- What a returned value is mapped to does not matter. -/
theorem unchanged_bind_pure {f : α → β} :
    wp (p >>= fun a => pure (f a)) t (Unchanged s) ↔ wp p t (Unchanged s) := by
  rw [wp_bind, wp, wp]
  cases (p.run t).result with
  | ok | error => exact Iff.rfl

end NoFail

namespace Ledger

variable {s t : Ledger} {a b : Address} {n : Nat}

/-- A consumed nonce is a trace. -/
theorem ne_of_nonce (h : (t.accountOr a).nonce ≠ (s.accountOr a).nonce) : t ≠ s := by
  rintro rfl
  exact h rfl

@[simp] theorem ensure_putAccount_bumped_ne :
    (s.putAccount a (s.accountOr a).bumped).ensure b = s ↔ False :=
  iff_false_intro (ne_of_nonce (a := a) (by simpa using nonce_bumped_ne _))

@[simp] theorem putAccount_bumped_ne : s.putAccount a (s.accountOr a).bumped = s ↔ False :=
  iff_false_intro (ne_of_nonce (a := a) (by simpa using nonce_bumped_ne _))

@[simp] theorem ensure_putAccount_spend_ne :
    (s.putAccount a ((s.accountOr a).spend n)).ensure b = s ↔ False :=
  iff_false_intro (ne_of_nonce (a := a) (by simpa using nonce_bumped_ne _))

end Ledger

/-! ## The checks of each family -/

section Results

variable [Externals] (c : Context) (s : Ledger) (tx : Transaction)

/-- The nonce check of most arms. -/
def NonceOk : Prop := (s.accountOr tx.sender).nonce = tx.nonce

/-- The sender's balance covers an amount. -/
def Covers (amount : Nat) : Prop := amount ≤ (s.accountOr tx.sender).balance

/-- The stake the registry records for the sender. -/
def trackedStake : Nat := (s.validators.lookup tx.sender).getD 0

/-- What an arm that has stored the sender as `stored` then finds at an address. -/
def accountAfter (stored : Account) (a : Address) : Account :=
  if a = tx.sender then stored else s.accountOr a

/-- The checks of `Stake` after the nonce. -/
def StakeOk (body : StakeBody) : Prop :=
  (s.accountOr tx.sender).nonce + 1 ≤ u64Max ∧
    trackedStake s tx ≤ (s.accountOr tx.sender).stakedBalance ∧
    if body.isStake then
      Covers s tx body.amount ∧ (s.accountOr tx.sender).stakedBalance + body.amount ≤ u64Max ∧
        trackedStake s tx + body.amount ≤ u64Max ∧ s.stakingPool + body.amount ≤ u64Max
    else
      body.amount ≤ trackedStake s tx ∧
        (s.accountOr tx.sender).balance + body.amount ≤ u64Max ∧ body.amount ≤ s.stakingPool

/-- The checks of `JoinValidator` after the nonce. -/
def JoinOk (body : JoinValidatorBody) : Prop :=
  (s.accountOr tx.sender).nonce + 1 ≤ u64Max ∧ Covers s tx body.initialStake ∧
    minValidatorStake ≤ body.initialStake ∧ trackedStake s tx = 0 ∧
    (s.accountOr tx.sender).stakedBalance + body.initialStake ≤ u64Max ∧
    s.stakingPool + body.initialStake ≤ u64Max

/-- The checks of `LeaveValidator` after the nonce. -/
def LeaveOk : Prop :=
  (s.accountOr tx.sender).nonce + 1 ≤ u64Max ∧
    (trackedStake s tx = 0 ∨
      (trackedStake s tx ≤ (s.accountOr tx.sender).stakedBalance ∧
        (s.accountOr tx.sender).balance + trackedStake s tx ≤ u64Max ∧
        trackedStake s tx ≤ s.stakingPool))

/-- The checks of `UpdateStake` after the nonce. -/
def UpdateStakeOk (body : UpdateStakeBody) : Prop :=
  (s.accountOr tx.sender).nonce + 1 ≤ u64Max ∧
    trackedStake s tx ≤ (s.accountOr tx.sender).stakedBalance ∧
    (trackedStake s tx < body.newStake →
      Covers s tx (body.newStake - trackedStake s tx) ∧
        (s.accountOr tx.sender).stakedBalance + (body.newStake - trackedStake s tx) ≤ u64Max ∧
        s.stakingPool + (body.newStake - trackedStake s tx) ≤ u64Max) ∧
    (body.newStake < trackedStake s tx →
      (s.accountOr tx.sender).balance + (trackedStake s tx - body.newStake) ≤ u64Max ∧
        trackedStake s tx - body.newStake ≤ s.stakingPool)

/-- The checks of `ChannelClose` on the escrow. -/
def CloseOk (body : ChannelCloseBody) (escrow : Account) : Prop :=
  (tx.sender = escrow.codeHash ∨ tx.sender = escrow.storageRoot) ∧
    (escrow.stakedBalance = 0 ∨ escrow.stakedBalance ≤ c.height) ∧
    saturatingAdd body.openerBalance body.counterpartyBalance ≤ escrow.balance

/-- The checks of `ChannelDispute` on the escrow. -/
def DisputeOk (body : ChannelDisputeBody) (escrow : Account) : Prop :=
  escrow.balance ≠ 0 ∧ (tx.sender = escrow.codeHash ∨ tx.sender = escrow.storageRoot) ∧
    (body.challengePeriod ≠ 0 ∧ body.challengePeriod ≤ 100000) ∧
    (escrow.stakedBalance = 0 ∨ c.height < escrow.stakedBalance) ∧
    (escrow.stakedBalance = 0 ∨ escrow.nonce < body.stateNonce) ∧
    saturatingAdd body.openerBalance body.counterpartyBalance ≤ escrow.balance

/-- The checks of `ShardProof` after the nonce. -/
def ShardProofOk (body : ShardProofBody) : Prop :=
  body.proofData ≠ [] ∧ ¬ (body.prevStateRoot = body.postStateRoot ∧ 0 < body.txCount) ∧
    Externals.verifyRecursiveProof body = true

/-- The chain-enforced bounds of an `InferenceRequest`. -/
def RequestBoundsOk (body : InferenceRequestBody) : Prop :=
  body.inputBlob.length ≤ 32 * 1024 ∧ (body.maxTokens ≠ 0 ∧ body.maxTokens ≤ 2048) ∧
    (5 ≤ body.deadlineBlocks ∧ body.deadlineBlocks ≤ 1000) ∧
    (body.committeeSize ≠ 0 ∧ body.committeeSize ≤ 32) ∧ body.tier = 1 ∧
    hashBytes body.inputBlob = body.inputHash

/-- The output attached to an `InferenceVote` is small enough and has the voted hash. -/
def OutputBlobOk (body : InferenceVoteBody) : Prop :=
  ∀ blob, body.outputBlob = some blob →
    blob.length ≤ 16 * 1024 ∧ hashBytes blob = body.outputHash

/-- The votes an escrow's storage holds. -/
def votesAt (escrow : Address) : List (Address × Hash256) :=
  storedVotes ((s.storage.lookup escrow).bind fun m => m.lookup (tier1Key "tier1.votes"))

/-- The checks of an `InferenceVote` on the escrow and the registry. -/
def VoteOk (body : InferenceVoteBody) (escrow : Account) : Prop :=
  escrow.balance ≠ 0 ∧ Tier1Actionable (tier1Status escrow) ∧
    tx.sender ∈ tier1Committee s.validators body.requestId escrow.nonce
      (tier1CommitteeSize escrow) ∧
    tx.sender ∉ (votesAt s (tier1EscrowAddress body.requestId)).map Prod.fst ∧
    ∀ e, Externals.serializeVotes
      (votesAt s (tier1EscrowAddress body.requestId) ++ [(tx.sender, body.outputHash)]) ≠ .error e

/-- The checks of an `InferenceFinalize` on the escrow. -/
def FinalizeOk (body : InferenceFinalizeBody) (escrow : Account) : Prop :=
  escrow.balance ≠ 0 ∧ Tier1Actionable (tier1Status escrow) ∧
    (saturatingAdd escrow.nonce (tier1Deadline escrow) ≤ c.height ∨
      tier1CommitteeSize escrow ≤ (votesAt s (tier1EscrowAddress body.requestId)).length) ∧
    ((((s.storage.lookup (tier1EscrowAddress body.requestId)).bind
      fun m => m.lookup (tier1Key "tier1.requester")).getD []).length = 32)

/-- The caller of a contract, read through the GPU cache. -/
def wasmCaller : Account := c.accountOrNew s tx.sender

/-- The checks of `WasmCall` before the engine runs. -/
def WasmCallOk (body : WasmCallBody) : Prop :=
  (∃ code, s.contracts.lookup body.contract = some code ∧ isWasm code = true) ∧
    (wasmCaller c s tx).nonce = tx.nonce ∧
    (0 < body.value → body.value ≤ (wasmCaller c s tx).balance)

/-- How the engine ends the call. -/
def wasmOutcome (body : WasmCallBody) : WasmOutcome :=
  Externals.runWasm (body.input c tx ((s.contracts.lookup body.contract).getD [])
    (s.storage.lookup body.contract))

/-- The function ran and stayed within its gas. -/
def WasmOutcome.InGas (limit : Nat) : WasmOutcome → Prop
  | .called outOfGas gasUsed _ => outOfGas = false ∧ gasUsed ≤ limit
  | _ => False

/-- The function returned normally. -/
def WasmOutcome.Returned : WasmOutcome → Prop
  | .called _ _ (.ok _) => True
  | _ => False

/-- The contract already held exactly the value of the call. -/
def CallValueInPlace (body : WasmCallBody) : Prop :=
  body.value = 0 ∨
    s.accounts.lookup body.contract = some ((s.accountOr body.contract).withBalance body.value)

/-- The caller already held exactly the value and the contract nothing: what the source writes
    to undo a failed call. -/
def RevertInPlace (body : WasmCallBody) : Prop :=
  body.value = 0 ∨
    if body.contract = tx.sender then
      s.accounts.lookup tx.sender = some ((wasmCaller c s tx).withBalance 0)
    else
      s.accounts.lookup tx.sender = some ((wasmCaller c s tx).withBalance body.value) ∧
        s.accounts.lookup body.contract = some ((s.accountOr body.contract).withBalance 0)

/-- The checks of `DeployContract` before the contract is stored. -/
def DeployOk (body : DeployBody) (gas : GasMeter) : Prop :=
  Covers s tx (wrappingAdd tx.fee body.stateRentDeposit) ∧ isWasm body.bytecode = true ∧
    (gas.charge (body.bytecode.length * 16)).2 = none

/-- The engine accepted the module, and a constructor stayed within its gas. -/
def WasmOutcome.ConstructorRan : WasmOutcome → Prop
  | .functionMissing _ => True
  | .called outOfGas _ _ => outOfGas = false
  | _ => False

/-- No constructor failed. -/
def WasmOutcome.ConstructorReturned : WasmOutcome → Prop
  | .called _ _ (.error _) => False
  | _ => True

/-- There is no constructor to run, or it ran within its gas. -/
def ConstructorRan (body : DeployBody) : Prop :=
  body.constructorArgs = [] ∨ (Externals.runWasm (body.input c tx)).ConstructorRan

/-- There is no constructor to run, or it did not fail. -/
def ConstructorReturned (body : DeployBody) : Prop :=
  body.constructorArgs = [] ∨ (Externals.runWasm (body.input c tx)).ConstructorReturned

/-- The contract was deployed before, with the same code. -/
def DeployedBefore (body : DeployBody) : Prop :=
  s.contracts.lookup (computeContractAddress tx.sender tx.nonce) = some body.bytecode ∧
    s.accounts.lookup (computeContractAddress tx.sender tx.nonce) =
      some (Account.newContract (computeContractAddress tx.sender tx.nonce)
        (hashBytes body.bytecode))

/-- Nothing was at the contract's address. -/
def Undeployed : Prop :=
  s.contracts.lookup (computeContractAddress tx.sender tx.nonce) = none ∧
    s.accounts.lookup (computeContractAddress tx.sender tx.nonce) = none

/-- The checks of each family on a legacy chain, in the order of its arm, with what a failure
    needs to leave no trace.  The families without an entry check everything before their first
    write. -/
def TxBody.checks (gas : GasMeter) : TxBody → List (Prop × Prop)
  | .settle body => [(NonceOk s tx ∧ Covers s tx body.amount, s.Present tx.sender)]
  | .swap body =>
    [(NonceOk s tx ∧ Covers s tx body.offerAmount, s.Present tx.sender),
      (body.receiveAmount ≤ (s.accountOr body.counterparty).balance,
        s.Present tx.sender ∧ s.Present body.counterparty)]
  | .escrow body =>
    [(NonceOk s tx ∧ (body.isCreate = true → Covers s tx body.amount), s.Present tx.sender)]
  | .stake body => [(NonceOk s tx ∧ StakeOk s tx body, s.Present tx.sender)]
  | .multiSig _ _ _ | .claimRewards | .governance _ | .modelRequest _ =>
    [(NonceOk s tx, s.Present tx.sender)]
  | .registerAgent _ => [(NonceOk s tx ∧ Covers s tx tx.fee, s.Present tx.sender)]
  | .joinValidator body => [(NonceOk s tx ∧ JoinOk s tx body, s.Present tx.sender)]
  | .leaveValidator => [(NonceOk s tx ∧ LeaveOk s tx, s.Present tx.sender)]
  | .updateStake body => [(NonceOk s tx ∧ UpdateStakeOk s tx body, s.Present tx.sender)]
  | .bridgeLock body => [(NonceOk s tx ∧ Covers s tx body.amount, s.Present tx.sender)]
  | .bridgeMint body => [(NonceOk s tx ∧ body.merkleProof ≠ [], s.Present tx.sender)]
  | .batchSettle body =>
    [(body.entries.length ≤ GasCosts.batchSettleMaxEntries ∧ body.entries ≠ [], True),
      (NonceOk s tx ∧ Covers s tx (grossAmount body.entries), s.Present tx.sender)]
  | .channelOpen body => [(NonceOk s tx ∧ Covers s tx body.deposit, s.Present tx.sender)]
  | .channelClose body =>
    [(NonceOk s tx, s.Present tx.sender),
      (CloseOk c tx body (s.accountOr (channelEscrowAddress body.channelId)),
        s.Present tx.sender ∧ s.Present (channelEscrowAddress body.channelId))]
  | .channelDispute body =>
    [(NonceOk s tx, s.Present tx.sender),
      (DisputeOk c tx body (accountAfter s tx (s.accountOr tx.sender).bumped
        (channelEscrowAddress body.channelId)), False)]
  | .shardProof body => [(NonceOk s tx, s.Present tx.sender), (ShardProofOk body, False)]
  | .inferenceChallenge body =>
    [(NonceOk s tx ∧ Covers s tx body.challengerBond, s.Present tx.sender),
      ((s.accountOr (attestEscrowAddress body.attestationHash)).balance ≠ 0,
        s.Present tx.sender ∧ s.Present (attestEscrowAddress body.attestationHash))]
  | .inferenceRegister body =>
    [(NonceOk s tx ∧ (body.tier ≠ 0 ∧ body.tier ≤ 4) ∧ Covers s tx body.stakeBond ∧
        tierMinStake body.tier ≤ body.stakeBond, s.Present tx.sender)]
  | .inferenceEscrowOpen body =>
    [(NonceOk s tx ∧ Covers s tx body.maxFee, s.Present tx.sender),
      ((s.accountOr (InferenceEscrowOpenBody.escrowAddress body.requestId)).balance = 0,
        s.Present tx.sender ∧
          s.Present (InferenceEscrowOpenBody.escrowAddress body.requestId))]
  | .inferenceEscrowRelease body =>
    let escrow := InferenceEscrowOpenBody.escrowAddress body.requestId
    [(NonceOk s tx ∧ body.replicas ≠ [], s.Present tx.sender),
      ((s.accountOr escrow).balance ≠ 0 ∧ (s.accountOr escrow).storageRoot =
          InferenceEscrowOpenBody.metadataCommitment body.payer body.modelId body.maxTokens
            body.timeoutBlocks,
        s.Present tx.sender ∧ s.Present escrow)]
  | .inferenceEscrowRefund body =>
    let escrow := InferenceEscrowOpenBody.escrowAddress body.requestId
    [(NonceOk s tx, s.Present tx.sender),
      ((s.accountOr escrow).balance ≠ 0 ∧ (s.accountOr escrow).storageRoot =
          InferenceEscrowOpenBody.metadataCommitment tx.sender body.modelId body.maxTokens
            body.timeoutBlocks ∧
        wrappingAdd (s.accountOr escrow).nonce body.timeoutBlocks ≤ c.height,
        s.Present tx.sender ∧ s.Present escrow)]
  | .modelRegistration body =>
    let registry := ModelRegistrationBody.registryAccount body.modelId
    [(NonceOk s tx ∧ body.quantization.utf8ByteSize ≤ 32 ∧
        Covers s tx body.fee, s.Present tx.sender),
      ((s.accountOr registry).storageRoot = .zero,
        s.Present tx.sender ∧ s.Present registry)]
  | .shardCoverageClaim body =>
    [(NonceOk s tx ∧ body.bond ≠ 0 ∧ body.ranges ≠ [] ∧ Covers s tx body.bond,
        s.Present tx.sender),
      ((accountAfter s tx ((s.accountOr tx.sender).spend body.bond)
        (ShardCoverageClaimBody.claimAccount body.modelId body.nodePubkey)).balance = 0, False)]
  | .capacityAdvertisement body =>
    [(NonceOk s tx ∧ body.region.utf8ByteSize ≤ 8, s.Present tx.sender)]
  | .shardAssignmentProposal body =>
    [(NonceOk s tx ∧ body.assignments ≠ [], s.Present tx.sender)]
  | .inferenceRequest body =>
    let escrow := accountAfter s tx ((s.accountOr tx.sender).spend body.maxReward)
      (tier1EscrowAddress body.requestId)
    [(RequestBoundsOk body, True),
      (NonceOk s tx ∧ Covers s tx body.maxReward, s.Present tx.sender),
      (escrow.balance = 0 ∧ escrow.codeHash = .zero, False)]
  | .inferenceVote body =>
    [(OutputBlobOk body, True),
      (NonceOk s tx, s.Present tx.sender),
      (VoteOk s tx body (s.accountOr (tier1EscrowAddress body.requestId)),
        s.Present tx.sender ∧ s.Present (tier1EscrowAddress body.requestId))]
  | .inferenceFinalize body =>
    [(NonceOk s tx, s.Present tx.sender),
      (FinalizeOk c s body (accountAfter s tx (s.accountOr tx.sender).bumped
        (tier1EscrowAddress body.requestId)), False)]
  | .wasmCall body =>
    [(WasmCallOk c s tx body, True),
      ((wasmOutcome c s tx body).InGas body.wasmGasLimit, CallValueInPlace s body),
      ((wasmOutcome c s tx body).Returned, RevertInPlace c s tx body)]
  | .deployContract body =>
    [(NonceOk s tx ∧ DeployOk s tx body gas, s.Present tx.sender),
      (ConstructorRan c tx body, DeployedBefore s tx body ∧ s.Present tx.sender),
      (ConstructorReturned c tx body, Undeployed s tx ∧
        (computeContractAddress tx.sender tx.nonce ≠ tx.sender → s.Present tx.sender))]
  | .transfer _ | .inferenceAttestation _ | .communityInferenceReward _ | .faucetClaim _
  | .nativeInferenceRequest _ | .nativeInferenceFinalize _ | .nativeInferenceRefund _ => []

/-! ## The arms -/

section Arms

variable {c s tx} {gas : GasMeter}

/-- The arm leaves no trace when it fails, exactly under the checks listed for its family. -/
def Clean (c : Context) (s : Ledger) (tx : Transaction) (gas : GasMeter) (body : TxBody)
    {α : Type} (arm : Exec α) : Prop :=
  wp arm s (Unchanged s) ↔ FailsClean (TxBody.checks c s tx gas body)

theorem clean_transfer (body : TransferBody) :
    Clean c s tx gas (.transfer body) (executeTransfer c tx body) := by
  change _ ↔ FailsClean []
  simp [executeTransfer]

theorem clean_batchSettle (body : BatchSettleBody) :
    Clean c s tx gas (.batchSettle body) (executeBatchSettle tx body) := by
  change _ ↔ FailsClean (_ :: _)
  have hloop : (forEach (Externals.mapOrder (netCredits body.entries)) fun credit =>
      creditAccount saturatingAdd credit.1 credit.2).NoFail :=
    NoFail.forEach fun _ => noFail_creditAccount _ _ _
  simp [executeBatchSettle, NonceOk, Covers, unchanged_of_noFail hloop]

theorem clean_stake (h : c.Legacy) (body : StakeBody) :
    Clean c s tx gas (.stake body) (executeStake c tx body) := by
  change _ ↔ FailsClean (_ :: _)
  simp only [StakeOk, trackedStake]
  cases hstake : body.isStake with
  | true =>
    simp [executeStake, refuseRegistryChangeUnderNativeBinding, h.2, stakeFunds,
      requireTrackedStake, NonceOk, Covers, checkedAdd_eq_some, checkedAdd_eq_none,
      checkedSub_eq_some, checkedSub_eq_none]
    grind
  | false =>
    simp [executeStake, refuseRegistryChangeUnderNativeBinding, h.2, unstakeFunds,
      requireTrackedStake, NonceOk, checkedAdd_eq_some, checkedAdd_eq_none,
      checkedSub_eq_some, checkedSub_eq_none]
    grind

theorem clean_joinValidator (h : c.Legacy) (body : JoinValidatorBody) :
    Clean c s tx gas (.joinValidator body) (executeJoinValidator c tx body) := by
  change _ ↔ FailsClean (_ :: _)
  simp [executeJoinValidator, refuseRegistryChangeUnderNativeBinding, h.2,
    NonceOk, Covers, JoinOk, trackedStake, checkedAdd_eq_some, checkedAdd_eq_none,
    checkedSub_eq_some, checkedSub_eq_none]
  grind

theorem clean_leaveValidator : Clean c s tx gas .leaveValidator (executeLeaveValidator tx) := by
  change _ ↔ FailsClean (_ :: _)
  simp [executeLeaveValidator, returnStake, requireTrackedStake, NonceOk,
    LeaveOk, trackedStake, checkedAdd_eq_some, checkedAdd_eq_none, checkedSub_eq_some,
    checkedSub_eq_none]
  grind

theorem clean_updateStake (h : c.Legacy) (body : UpdateStakeBody) :
    Clean c s tx gas (.updateStake body) (executeUpdateStake c tx body) := by
  change _ ↔ FailsClean (_ :: _)
  simp [executeUpdateStake, refuseRegistryChangeUnderNativeBinding, h.2,
    adjustStake, requireTrackedStake, NonceOk, Covers, UpdateStakeOk, trackedStake,
    checkedAdd_eq_some, checkedAdd_eq_none, checkedSub_eq_some, checkedSub_eq_none]
  grind

theorem clean_inferenceAttestation (body : InferenceAttestationBody) :
    Clean c s tx gas (.inferenceAttestation body) (executeInferenceAttestation c tx body) := by
  change _ ↔ FailsClean []
  simp [executeInferenceAttestation]

theorem clean_inferenceEscrowRelease (body : InferenceEscrowReleaseBody) :
    Clean c s tx gas (.inferenceEscrowRelease body) (executeInferenceEscrowRelease tx body) := by
  change _ ↔ FailsClean (_ :: _)
  simp [executeInferenceEscrowRelease, NonceOk, unchanged_noFail_bind (noFail_payRelease _ _)]

variable {α : Type} {f : Unit → Exec α}

theorem unchanged_checkOutputBlob_bind {body : InferenceVoteBody} :
    wp (checkOutputBlob body >>= f) s (Unchanged s) ↔
      (OutputBlobOk body → wp (f ()) s (Unchanged s)) := by
  unfold checkOutputBlob OutputBlobOk
  cases body.outputBlob with
  | none => simp
  | some blob => simp

theorem clean_inferenceVote (body : InferenceVoteBody) :
    Clean c s tx gas (.inferenceVote body) (executeInferenceVote tx body) := by
  change _ ↔ FailsClean (_ :: _)
  simp [executeInferenceVote, VoteOk, votesAt, NonceOk,
    unchanged_checkOutputBlob_bind, unchanged_noFail_bind (noFail_storeOutputBlob _ _),
    mapError_eq_error]

theorem clean_inferenceFinalize (body : InferenceFinalizeBody) :
    Clean c s tx gas (.inferenceFinalize body) (executeInferenceFinalize c tx body) := by
  change _ ↔ FailsClean (_ :: _)
  simp [executeInferenceFinalize, FinalizeOk, votesAt, NonceOk,
    unchanged_noFail_bind (noFail_settleRequest _ _ _ _ _), accountAfter,
    accountOr_putAccount]

omit [Externals] in
/-- An arm that commits detached accounts leaves no trace when it fails. -/
theorem unchanged_of_commits {P : List (Address × Account) → Prop} {arm : Exec Unit}
    (h : wp arm s (Commits s P)) : wp arm s (Unchanged s) := by
  refine wp_mono h ?_
  intro r t l hc
  cases r with
  | ok u => trivial
  | error e => exact hc.1

theorem clean_faucetClaim (body : FaucetClaimBody) :
    Clean c s tx gas (.faucetClaim body) (executeFaucetClaim c tx body) :=
  iff_of_true (unchanged_of_commits (commits_faucetClaim body)) trivial

theorem clean_communityInferenceReward (body : CommunityInferenceRewardBody) :
    Clean c s tx gas (.communityInferenceReward body) (executeCommunityInferenceReward c tx body) :=
  iff_of_true (unchanged_of_commits (commits_communityInferenceReward body)) trivial

/-! ### Contracts -/

/-- The accounts after the writes that undo a failed call. -/
def revertedCall (t : Ledger) (tx : Transaction) (body : WasmCallBody) (sender : Account) :
    Ledger :=
  let u := t.putAccount tx.sender (sender.withBalance body.value)
  match u.accounts.lookup body.contract with
  | some x => u.putAccount body.contract (x.withBalance (x.balance - body.value))
  | none => u

variable {body : WasmCallBody} {t : Ledger}

omit [Externals] in
theorem unchanged_revertCallValue_bind {x : Account} {e : StateError} :
    wp (revertCallValue tx body x >>= fun _ => (throw e : Exec α)) t (Unchanged s) ↔
      (if 0 < body.value then revertedCall t tx body x else t) = s := by
  unfold revertCallValue revertedCall
  by_cases hvalue : 0 < body.value
  · simp only [hvalue, if_true, wp_bind_assoc, wp_insertAccount_bind, wp_readAccount_bind]
    cases (t.putAccount tx.sender (x.withBalance body.value)).accounts.lookup body.contract with
    | none => simp
    | some y => simp
  · simp [hvalue]

omit [Externals] in
theorem unchanged_finishWasmCall {sender : Account} (outcome : WasmOutcome) :
    wp (finishWasmCall tx body sender gas outcome) t (Unchanged s) ↔
      FailsClean [(outcome.InGas body.wasmGasLimit, t = s),
        (outcome.Returned, (if 0 < body.value then revertedCall t tx body sender else t) = s)] := by
  cases outcome with
  | compileError | instantiateError | functionMissing => simp [finishWasmCall, WasmOutcome.InGas]
  | called outOfGas used result =>
    cases result with
    | ok writes =>
      have hloop : (forEach writes fun w => setStorage body.contract w.1 w.2).NoFail :=
        NoFail.forEach fun _ => noFail_setStorage _ _ _
      cases outOfGas <;>
        simp [finishWasmCall, WasmOutcome.InGas, WasmOutcome.Returned, unchanged_noFail_bind hloop]
    | error e =>
      cases outOfGas <;>
        simp [finishWasmCall, WasmOutcome.InGas, WasmOutcome.Returned,
          unchanged_revertCallValue_bind]

omit [Externals] in
/-- The writes of a failed call change nothing exactly if they were in place before. -/
theorem revertedCall_eq_self {sender : Account} :
    revertedCall (s.putAccount body.contract ((s.accountOr body.contract).withBalance body.value))
        tx body sender = s ↔
      if body.contract = tx.sender then
        s.accounts.lookup tx.sender = some (sender.withBalance 0)
      else
        s.accounts.lookup tx.sender = some (sender.withBalance body.value) ∧
          s.accounts.lookup body.contract = some ((s.accountOr body.contract).withBalance 0) := by
  unfold revertedCall
  by_cases hself : body.contract = tx.sender
  · simp [hself, lookup_putAccount, withBalance_withBalance, putAccount_eq_self]
  -- the contract still holds the value that was sent, and gives it back
  have hne : tx.sender ≠ body.contract := fun h => hself h.symm
  simp only [lookup_putAccount, hself, if_true, if_false,
    withBalance_withBalance, balance_withBalance, Nat.sub_self]
  rw [putAccount_comm hself, putAccount_putAccount, putAccount_putAccount_eq_self hne]

theorem clean_wasmCall (body : WasmCallBody) :
    Clean c s tx gas (.wasmCall body) (executeWasmCall c tx body gas) := by
  change _ ↔ FailsClean (_ :: _)
  cases hcode : s.contracts.lookup body.contract with
  | none => simp [WasmCallOk, executeWasmCall, hcode]
  | some code =>
    by_cases hvalue : 0 < body.value
    · have hne : body.value ≠ 0 := Nat.pos_iff_ne_zero.mp hvalue
      simp [WasmCallOk, executeWasmCall, sendCallValue, wasmCaller,
        wasmOutcome, CallValueInPlace, RevertInPlace, hcode, hvalue, hne,
        unchanged_finishWasmCall, revertedCall_eq_self, putAccount_eq_self,
        withBalance_withBalance]
    · have hzero : body.value = 0 := Nat.eq_zero_of_not_pos hvalue
      simp [executeWasmCall, sendCallValue, CallValueInPlace, RevertInPlace, hzero,
        unchanged_finishWasmCall]

omit [Externals] in
theorem unchanged_finishConstructor_bind {contract : Address}
    (hf : ∀ u, (f u).NoFail) (outcome : WasmOutcome) :
    wp (finishConstructor contract outcome >>= f) t (Unchanged s) ↔
      FailsClean [(outcome.ConstructorRan, t = s), (outcome.ConstructorReturned,
          (t.putContract contract none).dropAccount contract = s)] := by
  cases outcome with
  | compileError | instantiateError => simp [finishConstructor, WasmOutcome.ConstructorRan]
  | functionMissing e =>
    simp [finishConstructor, WasmOutcome.ConstructorRan, WasmOutcome.ConstructorReturned,
      unchanged_of_noFail (hf ())]
  | called outOfGas used result =>
    cases result with
    | ok writes =>
      have hloop : (forEach writes fun w => setStorage contract w.1 w.2).NoFail :=
        NoFail.forEach fun _ => noFail_setStorage _ _ _
      simp [finishConstructor, WasmOutcome.ConstructorRan, WasmOutcome.ConstructorReturned,
        unchanged_noFail_bind hloop hf]
    | error e =>
      simp [finishConstructor, WasmOutcome.ConstructorRan, WasmOutcome.ConstructorReturned]

theorem clean_deployContract (body : DeployBody) :
    Clean c s tx gas (.deployContract body) (executeDeployContract c tx body gas) := by
  change _ ↔ FailsClean (_ :: _)
  have hdropped : ((s.ensure tx.sender).dropAccount
      (computeContractAddress tx.sender tx.nonce)).contracts = s.contracts := rfl
  have hgas : ∀ P : Prop, (∀ e, (gas.charge (body.bytecode.length * 16)).2 = some e → P) ↔
      ((gas.charge (body.bytecode.length * 16)).2 ≠ none → P) := by
    cases (gas.charge (body.bytecode.length * 16)).2 <;> simp
  by_cases hargs : body.constructorArgs = []
  · simp [executeDeployContract, hargs, NonceOk, DeployOk, Covers, hgas,
      ConstructorRan, ConstructorReturned]
  simp [executeDeployContract, hargs, NonceOk, DeployOk, Covers, hgas,
    ConstructorRan, ConstructorReturned, unchanged_finishConstructor_bind, DeployedBefore,
    Undeployed, putContract_eq_iff, hdropped, ensure_putAccount_eq_self,
    ensure_dropAccount_eq_self, and_assoc]

/-- **The arms.**  On a legacy chain every arm leaves no trace when it fails, exactly under the
    checks listed for its family. -/
theorem clean_executeBody (h : c.Legacy) (body : TxBody) :
    Clean c s tx gas body (executeBody c tx gas body) := by
  have hflat : ∀ {body : TxBody} {arm : Exec Unit}, Clean c s tx gas body arm →
      Clean c s tx gas body (flatGas gas arm) :=
    fun harm => unchanged_bind_pure.trans harm
  cases body with
  | settle | swap | escrow | multiSig | registerAgent | claimRewards | governance | bridgeLock
  | bridgeMint | channelOpen | channelClose | shardProof | inferenceChallenge | inferenceRegister
  | inferenceEscrowOpen | inferenceEscrowRefund | modelRegistration | modelRequest
  | capacityAdvertisement | shardAssignmentProposal =>
    -- the checks are listed in the order of the arm
    refine hflat ?_
    change _ ↔ FailsClean (_ :: _)
    simp [executeSettle, executeSwap, executeEscrow, executeMultiSig, executeRegisterAgent,
      executeClaimRewards, executeNonceOnly, executeGovernance, executeBridgeLock,
      executeBridgeMint, executeChannelOpen, CloseOk, executeChannelClose, ShardProofOk,
      executeShardProof, executeInferenceChallenge, executeInferenceRegister,
      executeInferenceEscrowOpen, executeInferenceEscrowRefund, executeModelRegistration,
      executeModelRequest, executeCapacityAdvertisement, executeShardAssignmentProposal, NonceOk,
      Covers]
  | channelDispute | shardCoverageClaim | inferenceRequest =>
    -- the last check reads an account after the sender has been stored
    refine hflat ?_
    change _ ↔ FailsClean (_ :: _)
    simp [DisputeOk, executeChannelDispute, executeShardCoverageClaim, RequestBoundsOk,
      executeInferenceRequest, checkTier1Request, NonceOk, Covers, accountAfter,
      accountOr_putAccount]
  | transfer body =>
    refine hflat ?_
    rw [h.protocolV3]
    exact clean_transfer body
  | stake body => exact hflat (clean_stake h body)
  | wasmCall body => exact clean_wasmCall body
  | deployContract body => exact clean_deployContract body
  | joinValidator body => exact hflat (clean_joinValidator h body)
  | leaveValidator => exact hflat clean_leaveValidator
  | updateStake body => exact hflat (clean_updateStake h body)
  | batchSettle body => exact hflat (clean_batchSettle body)
  | inferenceAttestation body => exact hflat (clean_inferenceAttestation body)
  | communityInferenceReward body => exact hflat (clean_communityInferenceReward body)
  | inferenceEscrowRelease body => exact hflat (clean_inferenceEscrowRelease body)
  | faucetClaim body => exact hflat (clean_faucetClaim body)
  | inferenceVote body => exact hflat (clean_inferenceVote body)
  | inferenceFinalize body => exact hflat (clean_inferenceFinalize body)
  | nativeInferenceRequest | nativeInferenceFinalize | nativeInferenceRefund =>
    exact iff_of_true rfl trivial

/-- The checks of a whole transaction: those of its arm count once the envelope names the body's
    family and the intrinsic gas is covered. -/
def Transaction.FailsClean (c : Context) (s : Ledger) (tx : Transaction) : Prop :=
  tx.txType = tx.body.txType → (tx.gasMeter.charge tx.body.gasCost).2 = none →
    ArcChain.FailsClean (TxBody.checks c s tx (tx.gasMeter.charge tx.body.gasCost).1 tx.body)

theorem unchanged_executeTx_iff (h : c.Legacy) :
    wp (executeTx c tx) s (Unchanged s) ↔ tx.FailsClean c s := by
  have hbody : ∀ gas, wp (executeBody c tx gas tx.body) s (Unchanged s) ↔
      ArcChain.FailsClean (TxBody.checks c s tx gas tx.body) := fun _ => clean_executeBody h tx.body
  simp [executeTx, requireTxType, h.protocolV3, unchanged_bind_pure, hbody, Transaction.FailsClean]

end Arms

/-! ## Failed transactions -/

/-- **A failed transaction leaves the ledger as it was exactly if its checks fail clean.** -/
theorem failed_tx_unchanged_iff (h : c.Legacy) :
    (∀ e, ((executeTx c tx).run s).result = .error e → ((executeTx c tx).run s).store = s) ↔
      tx.FailsClean c s := by
  rw [← unchanged_executeTx_iff h, wp]
  cases ((executeTx c tx).run s).result with
  | ok gas => simp
  | error e => simp

end Results

namespace Sample

/-- A second claim of the same node while the first is active. -/
def secondClaim : Transaction :=
  tx 1 7 (.shardCoverageClaim
    { modelId := address 10, nodePubkey := address 11, ranges := [(0, 4)], bond := 40,
      epochBlocks := 5 })

/-- The claimant, and the account of the first claim with its bond. -/
def claimedLedger : Ledger :=
  letI := concreteCrypto
  ledger [account 1 100 7,
    Account.new (ShardCoverageClaimBody.claimAccount (address 10) (address 11)) 25]

/-- A transfer by a sender without an account. -/
def strangersTransfer : Transaction :=
  tx 2 0 (.transfer { recipient := address 1, amount := 5, amountCommitment := none })

end Sample

/-- A refused shard coverage claim costs the claimant the bond: the sender is debited before the
    prior claim is looked up. -/
theorem refused_claim_keeps_debit :
    letI := concreteExternals
    (Sample.context 3).Legacy ∧
      ((executeTx (Sample.context 3) Sample.secondClaim).run Sample.claimedLedger).result =
        .error (.executionError ("shard coverage claim: prior claim still active - " ++
          "release or wait for epoch end before re-claiming")) ∧
      ((executeTx (Sample.context 3) Sample.secondClaim).run
        Sample.claimedLedger).store.accounts.lookup (Sample.address 1) =
          some (Sample.account 1 60 8) ∧
      ((executeTx (Sample.context 3) Sample.secondClaim).run Sample.claimedLedger).store ≠
        Sample.claimedLedger := by
  exact ⟨context_legacy 3, by decide +kernel, by decide +kernel, by decide +kernel⟩

/-- A refused transfer leaves no trace. -/
theorem refused_transfer_unchanged :
    letI := concreteExternals
    (Sample.context 3).Legacy ∧ Sample.strangersTransfer.FailsClean (Sample.context 3)
        Sample.claimedLedger ∧
      ((executeTx (Sample.context 3) Sample.strangersTransfer).run Sample.claimedLedger).result =
        .error (.insufficientBalance 0 5) ∧
      ((executeTx (Sample.context 3) Sample.strangersTransfer).run Sample.claimedLedger).store =
        Sample.claimedLedger := by
  let _ : Externals := concreteExternals
  have hclean : strangersTransfer.FailsClean (context 3) claimedLedger := fun _ _ => trivial
  have hresult : ((executeTx (context 3) strangersTransfer).run
      claimedLedger).result = .error (.insufficientBalance 0 5) := by decide +kernel
  exact ⟨context_legacy 3, hclean, hresult,
    (failed_tx_unchanged_iff _ _ _ (context_legacy 3)).mpr hclean _ hresult⟩

end ArcChain
