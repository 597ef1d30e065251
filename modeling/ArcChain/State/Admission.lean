/-
Admission of transactions and blocks in the recovery protocol (major
version 3).

Admission reads the state before the block and writes nothing.  What it
accepts, execution accepts from the same state (`executes_iff_admitted`):
execution repeats the checks of admission, and the arms check nothing else
that could fail.  The native inference families are admitted by a planner
of their own, a parameter here.
-/
import ArcChain.State.BlockStm
import ArcChain.State.Detached

namespace ArcChain

open Word StoreProg

variable [Externals]

/-! ## The checks -/

section Checks

variable (nativeAdmission : List Transaction → Nat → Exec Unit)

/-- The handler of a family in `validate_v3_transaction_admission_at`. -/
def validateV3Family (c : Context) (tx : Transaction) (executionHeight : Nat) :
    TxBody → Exec Unit
  | .transfer body => validateV3TransferAdmission c tx body
  | .faucetClaim body => validateV3FaucetAdmission c tx body
  | .communityInferenceReward body => validateCommunityRewardAdmission c tx body executionHeight
  | .nativeInferenceRequest _ | .nativeInferenceFinalize _ | .nativeInferenceRefund _ =>
    nativeAdmission [tx] executionHeight
  | _ => throw (.executionError "transaction family has no protocol-v3 admission handler")

def validateV3TransactionAdmissionAt (c : Context) (tx : Transaction) (executionHeight : Nat) :
    Exec Unit := do
  require (c.protocolV3 = true) (.executionError
    "protocol-v3 admission requested without an active recovery context")
  validateV3TransactionEnvelope c tx
  validateV3Family nativeAdmission c tx executionHeight tx.body

def v3MaxTransactionsPerBlock : Nat := 1024

def v3MaxTransactionsPerSenderPerBlock : Nat := 1

/-- What the loop of `validate_v3_block_admission_at` remembers of earlier transactions. -/
structure AdmittedSoFar where
  hashes : List Hash256
  senders : List Address
  accessed : List Address

/-- The loop's memory after one more transaction. -/
def AdmittedSoFar.add (seen : AdmittedSoFar) (tx : Transaction) : AdmittedSoFar where
  hashes := tx.hash :: seen.hashes
  senders := tx.sender :: seen.senders
  accessed := txAccessSet tx ++ seen.accessed

/-- The loop of `validate_v3_block_admission_at`. -/
def admitTransactions (c : Context) (executionHeight : Nat) :
    AdmittedSoFar → List Transaction → Exec Unit
  | _, [] => pure ()
  | seen, tx :: rest => do
    require (tx.hash ∉ seen.hashes) (.executionError
      "v3 block contains a duplicate transaction hash")
    require (seen.senders.count tx.sender + 1 ≤ v3MaxTransactionsPerSenderPerBlock)
      (.executionError s!"v3 block exceeds per-sender transaction limit for {tx.sender.toHex}")
    validateV3TransactionAdmissionAt nativeAdmission c tx executionHeight
    require (∀ a ∈ txAccessSet tx, a ∉ seen.accessed) (.executionError
      "v3 block contains overlapping transaction state access")
    admitTransactions c executionHeight (seen.add tx) rest

def validateV3BlockAdmissionAt (c : Context) (txs : List Transaction) (executionHeight : Nat) :
    Exec Unit :=
  if txs.any (fun tx => tx.body.isNativeBody) = true then do
    require (c.protocolV3 = true) (.executionError "native v3 block requires recovery protocol v3")
    match txs with
    | [tx] =>
      validateV3TransactionEnvelope c tx
      nativeAdmission txs executionHeight
    | _ => throw (.executionError
        ("native v3 blocks contain one native transition and cannot mix transaction families"))
  else do
    require (txs.length ≤ v3MaxTransactionsPerBlock) (.executionError
      (s!"v3 block contains {txs.length} transactions; maximum is " ++
        s!"{v3MaxTransactionsPerBlock}"))
    admitTransactions nativeAdmission c executionHeight ⟨[], [], []⟩ txs

end Checks

/-! ## Admission and execution -/

section Executes

variable {c : Context} {s : Ledger} {tx : Transaction}

omit [Externals] in
/-- The two paths of a check whose failure is excluded. -/
theorem check_and_iff {p q : Prop} : (p → q) ∧ p ↔ p ∧ q :=
  ⟨fun h => ⟨h.2, h.1 h.2⟩, fun h => ⟨fun _ => h.2, h.1⟩⟩

omit [Externals] in
/-- The two paths of a lookup whose failure is excluded. -/
theorem lookup_and_iff {α : Type} {o : Option α} {P : α → Prop} :
    (∀ a, o = some a → P a) ∧ ¬ o = none ↔ ∃ a, o = some a ∧ P a := by
  cases o <;> simp

/-- What admission accepts of a transfer, execution accepts. -/
theorem v3Transfer_ok {body : TransferBody}
    (h : ((validateV3TransferAdmission c tx body).run s).result = .ok ()) :
    ((executeV3Transfer c tx body).run s).result = .ok () := by
  have hread : (validateV3TransferAdmission c tx body).ReadOnly :=
    within_validateV3TransferAdmission body fun _ _ => trivial
  have hchecks : wp (validateV3TransferAdmission c tx body) s fun r _ _ => r = .ok () := h
  simp [validateV3TransferAdmission, check_and_iff, lookup_and_iff] at hchecks
  obtain ⟨_, _, _, _, sender, hsender, _, ⟨nonce, hnonce⟩, debit, hdebit, hcovers,
    ⟨receiver, hreceiver⟩, htreasury⟩ := hchecks
  show wp (executeV3Transfer c tx body) s fun r _ _ => r = .ok ()
  rw [executeV3Transfer, hread.wp_bind_ok h]
  simp [hsender, hnonce, hdebit, hreceiver, htreasury, checkedSub_eq_none, hcovers]

/-- What admission accepts of a faucet claim, the payment accepts. -/
theorem payFaucetClaim_ok {body : FaucetClaimBody} (hv3 : c.protocolV3 = true)
    (h : ((validateV3FaucetAdmission c tx body).run s).result = .ok ()) :
    ((payFaucetClaim c tx body).run s).result = .ok () := by
  have hchecks : wp (validateV3FaucetAdmission c tx body) s fun r _ _ => r = .ok () := h
  simp [validateV3FaucetAdmission, requireFaucetAmount, check_and_iff, lookup_and_iff] at hchecks
  obtain ⟨_, _, hvalidator, hpositive, hmax, hcollision, habsent, _, pool, hpool, hcovers,
    hrecipient⟩ := hchecks
  show wp (payFaucetClaim c tx body) s fun r _ _ => r = .ok ()
  simp [payFaucetClaim, requireFaucetAmount, faucetMarker, hv3, hvalidator, hpositive, hmax,
    hcollision, habsent, hpool, hcovers, hrecipient]

/-- What an admitted reward has passed. -/
structure RewardAdmitted (c : Context) (s : Ledger) (tx : Transaction)
    (body : CommunityInferenceRewardBody) (executionHeight : Nat) : Prop where
  active : c.communityRewardsV1ActivationHeight.any (· ≤ executionHeight) = true
  validator : isValidator s.validators tx.sender = true
  assigned : ((checkRewardAssignment c tx body executionHeight).run s).result = .ok ()
  worker : body.worker ≠ inferenceRewardTreasuryAddress ∧
    isReservedSystemAccount body.worker = false
  distinct : (v3RewardMarkers body).collide body = false
  unpaid : ((requireUnpaid body (v3RewardMarkers body)).run s).result = .ok ()
  approved : ((verifyCommunityRewardValidatorApprovals c body).run s).result = .ok ()
  funded : ∃ accounts, ((rewardAccounts c body).run s).result = .ok accounts
  budgets : c.protocolV3 = true → ∃ budgets,
    ((communityRewardBudgetCandidatesAt c body executionHeight).run s).result = .ok budgets

variable {body : CommunityInferenceRewardBody}

theorem rewardAdmitted {executionHeight : Nat}
    (h : ((validateCommunityRewardAdmission c tx body executionHeight).run s).result = .ok ()) :
    RewardAdmitted c s tx body executionHeight := by
  have hassignment : (checkRewardAssignment c tx body executionHeight).ReadOnly :=
    within_checkRewardAssignment body _ trivial
  have hunpaid : (requireUnpaid body (v3RewardMarkers body)).ReadOnly :=
    within_requireUnpaid body _ fun _ _ => trivial
  have hlegacy : (requireNoLegacyMarker c body).ReadOnly :=
    within_requireNoLegacyMarker body fun _ _ => trivial
  have happrovals : (verifyCommunityRewardValidatorApprovals c body).ReadOnly :=
    within_verifyApprovals body trivial
  have haccounts : (rewardAccounts c body).ReadOnly := within_rewardAccounts body trivial trivial
  have hbudgets : (communityRewardBudgetCandidatesAt c body executionHeight).ReadOnly :=
    within_communityRewardBudgetCandidatesAt body _ fun _ _ => trivial
  have hchecks : wp (validateCommunityRewardAdmission c tx body executionHeight) s
    fun r _ _ => r = .ok () := h
  simp only [validateCommunityRewardAdmission, wp_require_bind, wp_requireValidator_bind,
    hassignment.wp_bind_eq_ok, hunpaid.wp_bind_eq_ok, hlegacy.wp_bind_eq_ok,
    happrovals.wp_bind_eq_ok, haccounts.wp_bind_eq_ok, hbudgets.wp_bind_eq_ok, wp_ite,
    reduceCtorEq, imp_false, not_not, check_and_iff] at hchecks
  obtain ⟨_, hactive, hvalidator, _, hassigned, hworker, hdistinct, _, hunmarked, _, _, _,
    happroved, accounts, hfunded, hcounters, _⟩ := hchecks
  refine ⟨hactive, hvalidator, hassigned, ⟨hworker.1, hworker.2.1⟩, hdistinct, hunmarked,
    happroved, ⟨accounts, hfunded⟩, fun hv3 => ?_⟩
  obtain ⟨budgets, hok, _⟩ := hcounters hv3
  exact ⟨budgets, hok⟩

/-- What admission at the current height accepts of a reward, the payment accepts. -/
theorem payCommunityInferenceReward_ok
    (hv3 : c.protocolV3 = true) (hsignature : c.verifyTransactionSignature tx = true)
    (h : ((validateCommunityRewardAdmission c tx body c.height).run s).result = .ok ()) :
    ((payCommunityInferenceReward c tx body).run s).result = .ok () := by
  have hok := rewardAdmitted h
  have hassignment : (checkRewardAssignment c tx body c.height).ReadOnly :=
    within_checkRewardAssignment body _ trivial
  have hunpaid : (requireUnpaid body (v3RewardMarkers body)).ReadOnly :=
    within_requireUnpaid body _ fun _ _ => trivial
  have happrovals : (verifyCommunityRewardValidatorApprovals c body).ReadOnly :=
    within_verifyApprovals body trivial
  have haccounts : (rewardAccounts c body).ReadOnly := within_rewardAccounts body trivial trivial
  have hactive : c.communityRewardsV1Active = true := by
    have hactivation := hok.active
    unfold Context.communityRewardsV1Active
    cases hheight : c.communityRewardsV1ActivationHeight with
    | none => simp [hheight] at hactivation
    | some activation => simpa [hheight] using hactivation
  obtain ⟨accounts, hfunded⟩ := hok.funded
  have hcovers : inferenceAttestationReward ≤ accounts.2.balance := by
    have hwp : wp (rewardAccounts c body) s fun r _ _ =>
        r = .ok accounts → inferenceAttestationReward ≤ accounts.2.balance := by
      simp [rewardAccounts]
      grind
    exact hwp hfunded
  obtain ⟨budgets, hcounters⟩ := hok.budgets hv3
  have hbudgets : ((rewardBudgets c body).run s).result = .ok budgets := by
    rw [rewardBudgets, if_pos hv3, hcounters]
  have hbudgetRead : (rewardBudgets c body).ReadOnly := by
    rw [rewardBudgets, if_pos hv3]
    exact within_communityRewardBudgetCandidatesAt body _ fun _ _ => trivial
  have hmarkers : rewardMarkers c body = v3RewardMarkers body := if_pos hv3
  show wp (payCommunityInferenceReward c tx body) s fun r _ _ => r = .ok ()
  simp only [payCommunityInferenceReward, wp_require_bind, wp_requireValidator_bind, hmarkers,
    hassignment.wp_bind_ok hok.assigned, hunpaid.wp_bind_ok hok.unpaid,
    happrovals.wp_bind_ok hok.approved, haccounts.wp_bind_ok hfunded]
  simp [hactive, hok.validator, hsignature, hok.worker.1, hok.distinct, checkedSub_eq_none,
    hcovers, hbudgetRead.wp_bind_ok hbudgets]

/-- What an accepted envelope says. -/
structure EnvelopeOk (c : Context) (tx : Transaction) : Prop where
  txType : tx.txType = tx.body.txType
  allowed : tx.body.v3Allows = true
  gas : tx.gasLimit = 0 ∨ tx.body.gasCost ≤ tx.gasLimit ∧ tx.gasLimit ≤ GasCosts.blockGasLimit
  signature : c.verifyTransactionSignature tx = true

theorem envelopeOk (hnative : c.nativeInferenceContext = false ∨ tx.body.isNativeBody = false)
    (h : ((validateV3TransactionEnvelope c tx).run s).result = .ok ()) : EnvelopeOk c tx := by
  have hmigrated : (c.nativeMigration && c.nativeInferenceContext && tx.body.isNativeBody) = false := by
    rcases hnative with h | h <;> simp [h]
  have hchecks : wp (validateV3TransactionEnvelope c tx) s fun r _ _ => r = .ok () := h
  simp only [validateV3TransactionEnvelope, hmigrated] at hchecks
  simp [requireTxType, check_and_iff] at hchecks
  obtain ⟨htype, hallowed, hsized, hserialized⟩ := hchecks
  cases hbytes : Externals.serializeTransaction tx with
  | error e => exact absurd (by rw [hbytes]; rfl) (hserialized _)
  | ok bytes =>
    obtain ⟨_, hsignature, hgas⟩ := hsized bytes hbytes
    exact ⟨htype, hallowed, Decidable.or_iff_not_imp_left.mpr hgas,
      hsignature (Decidable.or_iff_not_imp_left.mpr hgas)⟩

/-- An accepted envelope pays for its family. -/
theorem EnvelopeOk.charge (h : EnvelopeOk c tx) :
    (tx.gasMeter.charge tx.body.gasCost).2 = none := by
  have hcost : tx.body.gasCost ≤ GasCosts.blockGasLimit := by
    have hallowed := h.allowed
    cases hbody : tx.body <;> simp_all [TxBody.v3Allows, TxBody.gasCost, GasCosts.blockGasLimit]
  have hlimit : tx.body.gasCost ≤ tx.gasMeter.limit := by
    unfold Transaction.gasMeter
    rcases h.gas with hzero | ⟨hle, _⟩
    · simpa [hzero] using hcost
    · split <;> omega
  have hword : tx.body.gasCost ≤ u64Max := Nat.le_trans hcost (by decide)
  simp [GasMeter.charge, checkedAdd, hword, show tx.gasMeter.consumed = 0 from rfl,
    Nat.not_lt.mpr hlimit]

omit [Externals] in
/-- A program that returns a function of another's result. -/
theorem map_ok_iff {α β : Type} {p : Exec α} {g : α → β} :
    (∃ b, ((p >>= fun a => pure (g a)).run s).result = .ok b) ↔ ∃ a, (p.run s).result = .ok a := by
  have hrun : ((p >>= fun a => pure (g a)).run s).result = (p.run s).result.map g := by
    show wp (p >>= fun a => pure (g a)) s fun r _ _ => r = (p.run s).result.map g
    rw [wp_bind, wp]
    cases (p.run s).result <;> rfl
  rw [hrun]
  cases (p.run s).result <;> simp [Except.map]

omit [Externals] in
theorem flatGas_ok_iff {gas : GasMeter} {arm : Exec Unit} :
    (∃ gas', ((flatGas gas arm).run s).result = .ok gas') ↔ (arm.run s).result = .ok () :=
  map_ok_iff.trans ⟨fun ⟨_, h⟩ => h, fun h => ⟨(), h⟩⟩

omit [Externals] in
/-- An arm that starts with a read-only admission check accepts what the check and then the rest
    accept. -/
theorem ok_iff_of_admission {admission rest : Exec Unit} (hread : admission.ReadOnly)
    (hrest : (admission.run s).result = .ok () → (rest.run s).result = .ok ()) :
    ((admission >>= fun _ => rest).run s).result = .ok () ↔ (admission.run s).result = .ok () := by
  refine Iff.trans hread.wp_bind_eq_ok ⟨fun ⟨_, hok, _⟩ => hok, fun hok => ⟨(), hok, hrest hok⟩⟩

variable {nativeAdmission : List Transaction → Nat → Exec Unit}

/-- The arm of an allowed family accepts exactly what its admission accepts. -/
theorem executeBody_ok_iff {gas : GasMeter}
    {body : TxBody} (hv3 : c.protocolV3 = true) (hallowed : body.v3Allows = true)
    (hsignature : c.verifyTransactionSignature tx = true) :
    (∃ gas', ((executeBody c tx gas body).run s).result = .ok gas') ↔
      ((validateV3Family nativeAdmission c tx c.height body).run s).result = .ok () := by
  cases body with
  | transfer body =>
    have hread : (validateV3TransferAdmission c tx body).ReadOnly :=
      within_validateV3TransferAdmission body fun _ _ => trivial
    refine flatGas_ok_iff.trans ?_
    rw [if_pos hv3]
    refine ⟨fun h => ?_, v3Transfer_ok⟩
    obtain ⟨_, hok, _⟩ := hread.wp_bind_eq_ok.mp h
    exact hok
  | faucetClaim body =>
    refine flatGas_ok_iff.trans ?_
    simp only [executeFaucetClaim, if_pos hv3]
    exact ok_iff_of_admission (within_validateV3FaucetAdmission body trivial fun _ _ => trivial)
      (payFaucetClaim_ok hv3)
  | communityInferenceReward body =>
    refine flatGas_ok_iff.trans ?_
    simp only [executeCommunityInferenceReward, if_pos hv3]
    exact ok_iff_of_admission (within_validateCommunityRewardAdmission body _ trivial trivial
      trivial (fun _ _ => trivial) (fun _ _ => trivial) (fun _ _ _ => trivial))
      (payCommunityInferenceReward_ok hv3 hsignature)
  | _ => cases hallowed

/-- **Admission.**  A transaction executes exactly if admission at the current height accepts
    it. -/
theorem executes_iff_admitted (hv3 : c.protocolV3 = true)
    (hnative : c.nativeInferenceContext = false ∨ tx.body.isNativeBody = false) :
    (∃ gas, ((executeTx c tx).run s).result = .ok gas) ↔
      ((validateV3TransactionAdmissionAt nativeAdmission c tx c.height).run s).result = .ok () := by
  have hread : (validateV3TransactionEnvelope c tx).ReadOnly := within_validateV3TransactionEnvelope
  show (∃ gas, wp (executeTx c tx) s fun r _ _ => r = .ok gas) ↔
    wp (validateV3TransactionAdmissionAt nativeAdmission c tx c.height) s fun r _ _ => r = .ok ()
  simp only [executeTx, requireTxType, validateV3TransactionAdmissionAt, hv3, wp_require_bind, hread.wp_bind_eq_ok, reduceCtorEq, imp_false, not_not, check_and_iff,
    true_and, exists_and_left]
  constructor
  · rintro ⟨_, gas, _, henvelope, hrest⟩
    have hok := envelopeOk hnative henvelope
    rw [wp_chargeGas_bind] at hrest
    have hbody := map_ok_iff.mp ⟨gas, hrest.1 hok.charge⟩
    exact ⟨_, henvelope, (executeBody_ok_iff hv3 hok.allowed hok.signature).mp hbody⟩
  · rintro ⟨_, henvelope, hfamily⟩
    have hok := envelopeOk hnative henvelope
    have hbody : ∃ gas', ((executeBody c tx (tx.gasMeter.charge tx.body.gasCost).1 tx.body).run
        s).result = .ok gas' := (executeBody_ok_iff hv3 hok.allowed hok.signature).mpr hfamily
    obtain ⟨gas, hgas⟩ := map_ok_iff.mpr hbody
    refine ⟨hok.txType, gas, _, henvelope, ?_⟩
    rw [wp_chargeGas_bind]
    exact ⟨fun _ => hgas, fun e he => by rw [hok.charge] at he; cases he⟩

end Executes

end ArcChain
