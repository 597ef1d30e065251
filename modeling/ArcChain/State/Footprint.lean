/-
Which cells of the ledger a transaction can read and write.

The table is read off the arms of `execute_tx`: the accounts a family may
create or change, its other cells, and the cells it only reads.  Two
families also pay accounts that they find in the state (the counterparty of
a channel, the voters and the requester of an inference request); those may
be any account.  `within_executeTx` says that a transaction stays within
its footprint, whatever the state.
-/
import ArcChain.State.Detached

namespace ArcChain

open Word StoreProg TxBody List

variable [Externals]

/-! ## The table -/

/-- The accounts a body may create or change besides the sender's. -/
def TxBody.writtenAccounts (c : Context) (tx : Transaction) : TxBody → List Address
  | .transfer body =>
    if c.protocolV3 then [body.recipient, v3FeeTreasuryAddress] else [body.recipient]
  | .settle body => [body.agentId]
  | .swap body => [body.counterparty]
  | .escrow body => [body.beneficiary]
  | .wasmCall body => [body.contract]
  | .deployContract _ => [computeContractAddress tx.sender tx.nonce]
  | .bridgeLock _ => [bridgeEscrowAddress]
  | .bridgeMint body => [body.recipient]
  | .batchSettle body => body.entries.map SettleEntry.agentId
  | .channelOpen body => [channelEscrowAddress body.channelId]
  | .channelClose body => [channelEscrowAddress body.channelId]
  | .channelDispute body => [channelEscrowAddress body.channelId]
  | .shardProof body => [shardProofAddress body]
  | .inferenceAttestation _ => [attestEscrowAddress tx.hash]
  | .communityInferenceReward body =>
    [inferenceRewardTreasuryAddress, body.worker] ++ (rewardMarkers c body).addresses ++
      if c.protocolV3 then budgetAddresses body c.height else []
  | .inferenceChallenge body => [attestEscrowAddress body.attestationHash]
  | .inferenceEscrowOpen body => [InferenceEscrowOpenBody.escrowAddress body.requestId]
  | .inferenceEscrowRelease body =>
    [InferenceEscrowOpenBody.escrowAddress body.requestId, body.proposer] ++ body.replicas ++
      [body.observerPool, body.treasury]
  | .inferenceEscrowRefund body => [InferenceEscrowOpenBody.escrowAddress body.requestId]
  | .modelRegistration body =>
    [ModelRegistrationBody.registryAccount body.modelId, v3FeeTreasuryAddress]
  | .modelRequest body => [ModelRequestBody.requestAccount body.requestId]
  | .shardCoverageClaim body =>
    [ShardCoverageClaimBody.claimAccount body.modelId body.nodePubkey]
  | .capacityAdvertisement body => [CapacityAdvertisementBody.capacityAccount body.nodePubkey]
  | .shardAssignmentProposal body => [proposalAddress body.inputSnapshotHash]
  | .faucetClaim body => [faucetPoolAddress, body.recipient, faucetMarker c body.recipient]
  | .inferenceRequest body => [tier1EscrowAddress body.requestId]
  | .inferenceVote body => [tier1EscrowAddress body.requestId]
  | .inferenceFinalize body => [tier1EscrowAddress body.requestId, faucetPoolAddress]
  | _ => []

/-- Whether the body also pays accounts named by the state. -/
def TxBody.paysStored : TxBody → Bool
  | .channelClose _ | .inferenceFinalize _ => true
  | _ => false

/-- The cells other than accounts that a body may change. -/
def TxBody.writtenCells (c : Context) (tx : Transaction) : TxBody → List Cell
  | .stake _ | .joinValidator _ | .leaveValidator | .updateStake _ => [.validators, .stakingPool]
  | .wasmCall body => [.storage body.contract]
  | .deployContract _ =>
    [.contract (computeContractAddress tx.sender tx.nonce),
      .storage (computeContractAddress tx.sender tx.nonce)]
  | .inferenceAttestation body =>
    [.bondRelease (c.height + body.challengePeriod) (attestEscrowAddress tx.hash)]
  | .inferenceRequest body =>
    [.storage (tier1EscrowAddress body.requestId), .tier1Pending body.requestId]
  | .inferenceVote body => [.storage (tier1EscrowAddress body.requestId)]
  | .inferenceFinalize body =>
    [.storage (tier1EscrowAddress body.requestId), .tier1Pending body.requestId]
  | _ => []

/-- The cells a body reads and never changes. -/
def TxBody.readCells (c : Context) : TxBody → List Cell
  | .wasmCall body => [.contract body.contract]
  | .inferenceVote _ => [.validators]
  | .faucetClaim body =>
    if c.protocolV3 then
      [.validators, .account (FaucetClaimBody.markerAddress body.recipient)]
    else [.validators]
  | .communityInferenceReward body =>
    if c.protocolV3 then
      .validators :: (legacyRewardMarkers body).addresses.map .account
    else [.validators]
  | _ => []

/-- Whether a cell is an account. -/
def Cell.isAccount : Cell → Bool
  | .account _ => true
  | _ => false

namespace Transaction

/-- The cells a transaction may change. -/
def Writes (c : Context) (tx : Transaction) (k : Cell) : Prop :=
  k ∈ (tx.sender :: tx.body.writtenAccounts c tx).map Cell.account ∨
    k ∈ tx.body.writtenCells c tx ∨ (tx.body.paysStored = true ∧ k.isAccount = true)

/-- The cells a transaction may read or change. -/
def Reads (c : Context) (tx : Transaction) (k : Cell) : Prop :=
  tx.Writes c k ∨ k ∈ tx.body.readCells c

instance (c : Context) (tx : Transaction) (k : Cell) : Decidable (tx.Writes c k) :=
  inferInstanceAs (Decidable (_ ∨ _ ∨ _))

instance (c : Context) (tx : Transaction) (k : Cell) : Decidable (tx.Reads c k) :=
  inferInstanceAs (Decidable (_ ∨ _))

/-- Neither transaction changes a cell that the other reads or changes. -/
def Independent (c : Context) (x y : Transaction) : Prop :=
  StoreProg.Independent (x.Reads c) (x.Writes c) (y.Reads c) (y.Writes c)

end Transaction

/-! ## The arms -/

section Arms

variable {R W : Cell → Prop} {c : Context} {tx : Transaction}

omit [Externals] in
theorem mem_addCredit {credits : List (Address × Nat)} {agent : Address} {amount : Nat}
    {e : Address × Nat} (h : e ∈ addCredit credits agent amount) :
    e.1 = agent ∨ e.1 ∈ credits.map Prod.fst := by
  induction credits with
  | nil => simp_all [addCredit]
  | cons e' credits ih =>
    unfold addCredit at h
    split at h <;> grind

omit [Externals] in
/-- A batch credits the agents of its entries only. -/
theorem mem_netCredits {entries : List SettleEntry} {e : Address × Nat}
    (h : e ∈ netCredits entries) : e.1 ∈ entries.map SettleEntry.agentId := by
  have hfold : ∀ credits, e ∈ entries.foldl
      (fun credits x => addCredit credits x.agentId x.amount) credits →
      e.1 ∈ credits.map Prod.fst ∨ e.1 ∈ entries.map SettleEntry.agentId := by
    clear h
    induction entries with
    | nil => exact fun credits h => .inl (mem_map_of_mem h)
    | cons x entries ih =>
      intro credits h
      rcases ih _ h with h' | h'
      · obtain ⟨e', he', heq⟩ := mem_map.mp h'
        rcases mem_addCredit he' with h'' | h'' <;> rw [heq] at h'' <;> simp [h'']
      · simp [h']
  simpa using hfold [] h

variable (hRW : ∀ k, W k → R k)
include hRW

theorem within_batchSettle (body : BatchSettleBody) (hs : W (.account tx.sender))
    (h : ∀ a ∈ body.entries.map SettleEntry.agentId, W (.account a)) :
    Within R W (fun _ => True) (executeBatchSettle tx body) := by
  have hloop : Within R W (fun _ => True)
      (forEach (Externals.mapOrder (netCredits body.entries)) fun credit =>
        creditAccount saturatingAdd credit.1 credit.2) := by
    apply Within.forEach
    intro e he
    have hW := h _ (mem_netCredits ((Externals.mapOrder_perm _).mem_iff.mp he))
    simp [hRW _ hW, hW]
  simp [executeBatchSettle, hRW, hs, hloop]

omit [Externals] in
theorem within_sendCallValue {α : Type} (body : WasmCallBody) {sender : Account}
    {f : Account → Exec α} (hcontract : W (.account body.contract))
    (hf : ∀ x, Within R W (fun _ => True) (f x)) :
    Within R W (fun _ => True) (sendCallValue body sender >>= f) := by
  simp [sendCallValue, hRW, hcontract, hf]

omit [Externals] in
theorem within_finishWasmCall (body : WasmCallBody) {sender : Account} {gas : GasMeter}
    (outcome : WasmOutcome) (hs : W (.account tx.sender)) (hcontract : W (.account body.contract))
    (hstorage : W (.storage body.contract)) :
    Within R W (fun _ => True) (finishWasmCall tx body sender gas outcome) := by
  cases outcome with
  | compileError | instantiateError | functionMissing => trivial
  | called outOfGas gasUsed result =>
    cases result with
    | ok writes =>
      have hloop : Within R W (fun _ => True)
          (forEach writes fun w => setStorage body.contract w.1 w.2) :=
        .forEach fun w _ => by simp [hRW, hstorage]
      simp [finishWasmCall]
      exact fun _ _ => .bind hloop fun _ => by simp [hs]
    | error e =>
      have hrevert : Within R W (fun _ => True) (revertCallValue tx body sender) := by
        unfold revertCallValue
        rw [within_ite]
        refine ⟨fun _ => ⟨hs, hRW _ hcontract, fun o => ?_⟩, fun _ => trivial⟩
        cases o with
        | none => trivial
        | some x => exact within_insertAccount.mpr hcontract
      simp [finishWasmCall]
      exact fun _ _ => Within.bind hrevert fun _ => trivial

theorem within_wasmCall (body : WasmCallBody) (gas : GasMeter) (hs : W (.account tx.sender))
    (hcontract : W (.account body.contract)) (hstorage : W (.storage body.contract))
    (hcode : R (.contract body.contract)) :
    Within R W (fun _ => True) (executeWasmCall c tx body gas) := by
  have hrest : ∀ (bytecode : Bytes) (sender : Account), Within R W (fun _ => True) (do
      let sender ← sendCallValue body sender
      let storage ← readStorage body.contract
      finishWasmCall tx body sender gas (Externals.runWasm (body.input c tx bytecode storage))) := by
    intro bytecode sender
    refine within_sendCallValue hRW body hcontract fun x => ?_
    exact ⟨hRW _ hstorage, fun o => within_finishWasmCall hRW body _ hs hcontract hstorage⟩
  simp [executeWasmCall, hRW, hs, hcode, hrest]

theorem within_deployContract (body : DeployBody) (gas : GasMeter) (hs : W (.account tx.sender))
    (haccount : W (.account (computeContractAddress tx.sender tx.nonce)))
    (hcode : W (.contract (computeContractAddress tx.sender tx.nonce)))
    (hstorage : W (.storage (computeContractAddress tx.sender tx.nonce))) :
    Within R W (fun _ => True) (executeDeployContract c tx body gas) := by
  have hconstructor : ∀ outcome, Within R W (fun _ => True)
      (finishConstructor (computeContractAddress tx.sender tx.nonce) outcome) := by
    intro outcome
    cases outcome with
    | compileError | instantiateError | functionMissing => trivial
    | called outOfGas gasUsed result =>
      cases result with
      | ok writes =>
        simp [finishConstructor]
        exact fun _ => .forEach fun w _ => by simp [hRW, hstorage]
      | error e => simp [finishConstructor, haccount, hcode]
  simp only [executeDeployContract, within_openSender_bind, within_requireBalance_bind,
    within_require_bind]
  refine ⟨hRW _ hs, hs, fun sender _ _ _ => ?_⟩
  refine .bind (within_chargeGas _ _) fun gas => ?_
  simp [haccount, hcode, hs]
  exact fun _ => .bind (hconstructor _) fun _ => by simp [hs]

theorem within_inferenceEscrowRelease (body : InferenceEscrowReleaseBody)
    (hs : W (.account tx.sender))
    (h : ∀ a ∈ (TxBody.inferenceEscrowRelease body).writtenAccounts c tx, W (.account a)) :
    Within R W (fun _ => True) (executeInferenceEscrowRelease tx body) := by
  have hescrow : W (.account (InferenceEscrowOpenBody.escrowAddress body.requestId)) :=
    h _ (by simp [writtenAccounts])
  have hreplicas : ∀ r ∈ body.replicas, W (.account r) :=
    fun r hr => h r (by simp [writtenAccounts, hr])
  have hproposer : W (.account body.proposer) := h _ (by simp [writtenAccounts])
  have hobservers : W (.account body.observerPool) := h _ (by simp [writtenAccounts])
  have htreasury : W (.account body.treasury) := h _ (by simp [writtenAccounts])
  have hpay : ∀ total, Within R W (fun _ => True) (payRelease body total) := by
    intro total
    have hloop : Within R W (fun _ => True) (forEach body.replicas fun replica =>
        creditAccount wrappingAdd replica (percentShare total 25 / body.replicas.length)) :=
      Within.forEach fun r hr => by simp [hRW _ (hreplicas r hr), hreplicas r hr]
    simp [payRelease, hRW, hproposer]
    exact Within.bind hloop fun _ => by simp [hRW, hobservers, htreasury]
  simp [executeInferenceEscrowRelease, hRW, hs, hescrow]
  exact fun x _ _ y _ _ => Within.bind (hpay _) fun _ => by simp [hescrow]

theorem within_inferenceVote (body : InferenceVoteBody) (hs : W (.account tx.sender))
    (hescrow : W (.account (tier1EscrowAddress body.requestId)))
    (hstorage : W (.storage (tier1EscrowAddress body.requestId))) (hvalidators : R .validators) :
    Within R W (fun _ => True) (executeInferenceVote tx body) := by
  have hstore : ∀ escrow, W (.storage escrow) →
      Within R W (fun _ => True) (storeOutputBlob escrow body) := by
    intro escrow h
    unfold storeOutputBlob
    cases body.outputBlob with
    | none => trivial
    | some blob => simp [hRW _ h, h]
  have hcheck : Within R W (fun _ => True) (checkOutputBlob body) := by
    unfold checkOutputBlob
    cases body.outputBlob with
    | none => trivial
    | some blob => simp
  refine .bind hcheck fun _ => ?_
  simp [hRW, hs, hescrow, hstorage, hvalidators]
  exact fun x _ y _ _ _ _ _ _ _ _ => .bind (hstore _ hstorage) fun _ => by
    simp [hs, hescrow]

theorem within_inferenceFinalize (body : InferenceFinalizeBody) (haccounts : ∀ a, W (.account a))
    (hstorage : W (.storage (tier1EscrowAddress body.requestId)))
    (hpending : W (.tier1Pending body.requestId)) :
    Within R W (fun _ => True) (executeInferenceFinalize c tx body) := by
  have hpay : ∀ requester votes output reward, Within R W (fun _ => True)
      (payAgreed (tier1EscrowAddress body.requestId) requester votes output reward) := by
    intro requester votes output reward
    refine .bind (.forEach fun v _ => ?_) fun _ => ?_
    · simp [hRW, haccounts]
    · simp [hRW, haccounts, hstorage]
  have hsettle : ∀ requester votes size reward, Within R W (fun _ => True)
      (settleRequest (tier1EscrowAddress body.requestId) requester votes size reward) := by
    intro requester votes size reward
    simp only [settleRequest, within_ite]
    refine ⟨fun _ => .bind (hpay _ _ _ _) fun _ => trivial, fun _ => ?_⟩
    simp [refundDisagreed, hRW, haccounts]
  simp [executeInferenceFinalize, hRW, haccounts, hstorage]
  intros
  exact .bind (hsettle _ _ _ _) fun _ => by simp [haccounts, hpending]

omit [Externals] hRW in
theorem within_commitAccounts {accounts : List (Address × Account)}
    (h : ∀ a ∈ accounts.map Prod.fst, W (.account a)) :
    Within R W (fun _ => True) (commitAccounts accounts) := by
  refine .bind (.forEach fun e he => ?_) fun _ => .forEach fun e _ => ?_
  · exact within_insertAccount.mpr (h _ (mem_map_of_mem he))
  · exact within_logAccount.mpr trivial

theorem within_v3Transfer (body : TransferBody) (hs : W (.account tx.sender))
    (hrecipient : W (.account body.recipient)) (htreasury : W (.account v3FeeTreasuryAddress)) :
    Within R W (fun _ => True) (executeV3Transfer c tx body) := by
  have hcommit : ∀ x y z, Within R W (fun _ => True) (commitAccounts
      [(tx.sender, x), (body.recipient, y), (v3FeeTreasuryAddress, z)]) := fun x y z =>
    within_commitAccounts (by simp [hs, hrecipient, htreasury])
  refine .bind (within_validateV3TransferAdmission body ?_) fun _ => ?_
  · simp [hRW, hs, hrecipient, htreasury]
  · simp [hRW, hs, hrecipient, htreasury, hcommit]

theorem within_faucetClaim (body : FaucetClaimBody)
    (h : ∀ a ∈ (TxBody.faucetClaim body).writtenAccounts c tx, W (.account a))
    (hreads : ∀ k ∈ (TxBody.faucetClaim body).readCells c, R k) :
    Within R W (fun _ => True) (executeFaucetClaim c tx body) := by
  simp [writtenAccounts] at h
  obtain ⟨hpool, hrecipient, hmarker⟩ := h
  have hvalidators : R .validators := by
    apply hreads
    simp only [readCells]
    split <;> simp
  have hcommit : ∀ x y z, Within R W (fun _ => True) (commitAccounts [(faucetPoolAddress, x),
      (body.recipient, y), (faucetMarker c body.recipient, z)]) := fun x y z =>
    within_commitAccounts (by simp [hpool, hrecipient, hmarker])
  have hpay : Within R W (fun _ => True) (payFaucetClaim c tx body) := by
    simp [payFaucetClaim, requireValidator, requireFaucetAmount, hRW, hvalidators, hpool,
      hrecipient, hmarker, hcommit]
  unfold executeFaucetClaim
  rw [within_ite]
  refine ⟨fun hv3 => .bind ?_ fun _ => hpay, fun _ => hpay⟩
  simp [readCells, hv3] at hreads
  simp only [faucetMarker, hv3, if_true] at hmarker
  apply within_validateV3FaucetAdmission body hvalidators
  simp [hRW, hpool, hrecipient, hmarker, hreads]

theorem within_communityInferenceReward (body : CommunityInferenceRewardBody)
    (h : ∀ a ∈ (TxBody.communityInferenceReward body).writtenAccounts c tx, W (.account a))
    (hreads : ∀ k ∈ (TxBody.communityInferenceReward body).readCells c, R k) :
    Within R W (fun _ => True) (executeCommunityInferenceReward c tx body) := by
  simp only [writtenAccounts, append_assoc, forall_mem_append,
    forall_mem_cons, not_mem_nil, false_implies, implies_true, and_true] at h
  obtain ⟨⟨htreasury, hworker⟩, hmarkers, hbudgets⟩ := h
  have hvalidators : R .validators := by
    apply hreads
    simp only [readCells]
    split <;> simp
  have hcounters : c.protocolV3 = true → ∀ a ∈ budgetAddresses body c.height, R (.account a) :=
    fun hv3 a ha => hRW _ (hbudgets a (by simpa [hv3] using ha))
  have hpay : Within R W (fun _ => True) (payCommunityInferenceReward c tx body) := by
    simp only [payCommunityInferenceReward, requireValidator, within_require_bind,
      within_bind_assoc, within_readValidators_bind]
    refine fun _ => ⟨hvalidators, fun _ _ _ => ?_⟩
    refine .bind (within_checkRewardAssignment body _ hvalidators) fun _ => ?_
    rw [within_require_bind]
    intro _
    refine .bind (within_requireUnpaid body _ fun a ha => hRW _ (hmarkers a ha)) fun _ => ?_
    refine .bind (within_verifyApprovals body hvalidators) fun _ => ?_
    refine .bind (within_rewardAccounts body (hRW _ hworker) (hRW _ htreasury)) fun _ => ?_
    simp only [within_orError_bind, within_require_bind]
    intro _ _ _
    refine within_rewardBudgets_bind body hcounters fun budgets haddresses => ?_
    apply within_commitAccounts
    simp only [map_append, haddresses, RewardMarkers.map_accounts, append_assoc, forall_mem_append]
    exact ⟨by simp [htreasury, hworker], hmarkers, hbudgets⟩
  unfold executeCommunityInferenceReward
  rw [within_ite]
  refine ⟨fun hv3 => .bind ?_ fun _ => hpay, fun _ => hpay⟩
  simp [readCells, hv3] at hreads
  simp only [rewardMarkers, hv3] at hmarkers
  exact within_validateCommunityRewardAdmission body _ hvalidators (hRW _ hworker)
    (hRW _ htreasury) (fun a ha => hRW _ (hmarkers a ha)) (by simpa using hreads.2) hcounters

omit [Externals] hRW in
theorem within_flatGas {G : StateRecord → Prop} {arm : Exec Unit} (gas : GasMeter)
    (h : Within R W G arm) : Within R W G (flatGas gas arm) :=
  .bind h fun _ => trivial

/-- An arm stays within any footprint that holds its sender and the cells of its body. -/
theorem within_executeBody (gas : GasMeter) (body : TxBody) (hs : W (.account tx.sender))
    (haccounts : ∀ a ∈ body.writtenAccounts c tx, W (.account a))
    (hstored : body.paysStored = true → ∀ a, W (.account a))
    (hcells : ∀ k ∈ body.writtenCells c tx, W k) (hreads : ∀ k ∈ body.readCells c, R k) :
    Within R W (fun _ => True) (executeBody c tx gas body) := by
  cases body with
  | transfer body =>
    refine within_flatGas gas (within_ite.mpr ⟨fun hv3 => ?_, fun hv3 => ?_⟩)
    · simp [writtenAccounts, hv3] at haccounts
      exact within_v3Transfer hRW body hs haccounts.1 haccounts.2
    · simp [writtenAccounts, hv3] at haccounts
      simp [executeTransfer, hRW, hs, haccounts]
  | settle | swap | escrow | bridgeLock | bridgeMint | channelOpen | channelDispute | shardProof
  | inferenceChallenge | inferenceEscrowOpen | inferenceEscrowRefund | modelRegistration
  | modelRequest | shardCoverageClaim | capacityAdvertisement | shardAssignmentProposal =>
    -- the sender and the accounts that the body names
    simp [writtenAccounts] at haccounts
    exact within_flatGas gas (by
      simp [executeSettle, executeSwap, executeEscrow, executeBridgeLock, executeBridgeMint,
        executeChannelOpen, executeChannelDispute, executeShardProof, executeInferenceChallenge,
        executeInferenceEscrowOpen, executeInferenceEscrowRefund, executeModelRegistration,
        executeModelRequest, executeShardCoverageClaim, executeCapacityAdvertisement,
        executeShardAssignmentProposal, hRW, hs, haccounts])
  | stake | joinValidator | leaveValidator | updateStake =>
    -- the sender and the registry
    simp [writtenCells] at hcells
    exact within_flatGas gas (by
      simp [executeStake, refuseRegistryChangeUnderNativeBinding, stakeFunds, unstakeFunds,
        requireTrackedStake, executeJoinValidator, executeLeaveValidator, returnStake,
        executeUpdateStake, adjustStake, hRW, hs, hcells])
  | multiSig | registerAgent | claimRewards | governance | inferenceRegister =>
    exact within_flatGas gas (by
      simp [executeMultiSig, executeRegisterAgent, executeClaimRewards, executeNonceOnly,
        executeGovernance, executeInferenceRegister, hRW, hs])
  | wasmCall body =>
    simp [writtenAccounts, writtenCells, readCells] at haccounts hcells hreads
    exact within_wasmCall hRW body gas hs haccounts hcells hreads
  | deployContract body =>
    simp [writtenAccounts, writtenCells] at haccounts hcells
    exact within_deployContract hRW body gas hs haccounts hcells.1 hcells.2
  | batchSettle body => exact within_flatGas gas (within_batchSettle hRW body hs haccounts)
  | channelClose body =>
    have hany := hstored rfl
    exact within_flatGas gas (by simp [executeChannelClose, hRW, hany])
  | inferenceAttestation body =>
    simp [writtenAccounts, writtenCells] at haccounts hcells
    exact within_flatGas gas (by
      simp [executeInferenceAttestation, checkedAdd_eq_some, hRW, hs, haccounts, hcells])
  | inferenceEscrowRelease body =>
    exact within_flatGas gas (within_inferenceEscrowRelease hRW body hs haccounts)
  | faucetClaim body => exact within_flatGas gas (within_faucetClaim hRW body haccounts hreads)
  | inferenceRequest body =>
    simp [writtenAccounts, writtenCells] at haccounts hcells
    exact within_flatGas gas (by
      simp [executeInferenceRequest, checkTier1Request, hRW, hs, haccounts, hcells])
  | inferenceVote body =>
    simp [writtenAccounts, writtenCells, readCells] at haccounts hcells hreads
    exact within_flatGas gas (within_inferenceVote hRW body hs haccounts hcells hreads)
  | inferenceFinalize body =>
    simp [writtenCells] at hcells
    exact within_flatGas gas (within_inferenceFinalize hRW body (hstored rfl) hcells.1 hcells.2)
  | communityInferenceReward body =>
    exact within_flatGas gas (within_communityInferenceReward hRW body haccounts hreads)
  | nativeInferenceRequest | nativeInferenceFinalize | nativeInferenceRefund => trivial

end Arms

/-- What a transaction touches beyond its family's arm is nothing. -/
theorem within_executeTx_of_body {R W : Cell → Prop} {G : StateRecord → Prop} {c : Context}
    {tx : Transaction} (hbody : ∀ gas, Within R W G (executeBody c tx gas tx.body)) :
    Within R W G (executeTx c tx) := by
  have hrest : Within R W G (do
      let gas ← chargeGas tx.gasMeter tx.body.gasCost
      let gas ← executeBody c tx gas tx.body
      pure gas.consumed) :=
    .bind (within_chargeGas _ _) fun gas => .bind (hbody gas) fun _ => trivial
  simp only [executeTx, requireTxType, within_require_bind]
  intro _
  rw [within_ite]
  exact ⟨fun _ => .bind within_validateV3TransactionEnvelope fun _ => hrest, fun _ => hrest⟩

/-- **Footprint.**  A transaction reads and changes no cell outside its footprint. -/
theorem within_executeTx (c : Context) (tx : Transaction) :
    Within (tx.Reads c) (tx.Writes c) (fun _ => True) (executeTx c tx) := by
  refine within_executeTx_of_body fun gas => ?_
  apply within_executeBody (fun k hk => .inl hk)
  · exact .inl mem_cons_self
  · exact fun a ha => .inl (mem_map_of_mem (mem_cons_of_mem _ ha))
  · exact fun hstored a => .inr (.inr ⟨hstored, rfl⟩)
  · exact fun k hk => .inr (.inl hk)
  · exact fun k hk => .inr hk

end ArcChain
