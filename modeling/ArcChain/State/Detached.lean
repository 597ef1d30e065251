/-
The arms that build their accounts from detached copies: protocol-v3
transfers, faucet claims and community inference rewards.

Such an arm reads and checks, then stores a list of accounts; nothing
fails after the first write (`Commits`).  The specifications say which
accounts are stored and what is known of them; the admission checks only
read.
-/
import ArcChain.State.Rules

namespace ArcChain

open Word StoreProg List Context RewardMarkers

/-! ## Commits -/

/-- The arm fails and leaves the ledger and the log as they were, or stores and logs the
    accounts of a list with the given property. -/
def Commits (s : Ledger) (P : List (Address × Account) → Prop) :
    Except StateError Unit → Ledger → List StateRecord → Prop
  | .error _, t, l => t = s ∧ l = []
  | .ok _, t, l => ∃ accounts, P accounts ∧ t = s.putAccounts accounts ∧
      l = accounts.map fun e => .setAccount e.1 e.2

section Commits

variable {α : Type} {s : Ledger} {P Q : List (Address × Account) → Prop}

@[simp] theorem commits_error {e : StateError} : Commits s P (.error e) s [] ↔ True :=
  iff_true_intro ⟨rfl, rfl⟩

@[simp high] theorem commits_commitAccounts {l : List (Address × Account)} :
    wp (commitAccounts l) s (Commits s P) ↔ P l := by
  rw [wp_commitAccounts]
  constructor
  · rintro ⟨accounts, hP, _, hlog⟩
    have hinj : Function.Injective fun e : Address × Account => StateRecord.setAccount e.1 e.2 := by
      rintro ⟨a, x⟩ ⟨b, y⟩ h
      injection h with ha hx
      exact Prod.ext ha hx
    rwa [map_injective_iff.mpr hinj hlog]
  · intro hP
    exact ⟨l, hP, rfl, rfl⟩

/-- A read-only program in front only adds failures. -/
theorem commits_readOnly_bind {p : Exec α} {f : α → Exec Unit} (hp : p.ReadOnly) :
    wp (p >>= f) s (Commits s P) ↔ ∀ a, (p.run s).result = .ok a → wp (f a) s (Commits s P) := by
  rw [hp.wp_bind]
  simp

end Commits

/-! ## Checks that only read

The footprints name what each check reads; with every cell readable they say that the check
is read-only. -/

section Checks

variable {R W : Cell → Prop} {G : StateRecord → Prop} {c : Context} {tx : Transaction}

/-- The addresses of a reward's markers. -/
def RewardMarkers.addresses (m : RewardMarkers) : List Address :=
  [m.job, m.certificate] ++ m.probe.toList

theorem RewardMarkers.map_accounts (m : RewardMarkers) (body : CommunityInferenceRewardBody) :
    (m.accounts body).map Prod.fst = m.addresses := by
  cases hprobe : m.probe <;> simp [accounts, addresses, hprobe]

theorem within_requireUnpaid (body : CommunityInferenceRewardBody) (markers : RewardMarkers)
    (hmarkers : ∀ a ∈ markers.addresses, R (.account a)) :
    Within R W G (requireUnpaid body markers) := by
  unfold requireUnpaid
  cases hprobe : markers.probe with
  | none | some => simp [addresses, hprobe] at hmarkers; simp [hmarkers]

variable [Externals]

section

variable (body : CommunityInferenceRewardBody)
include body

theorem within_checkRewardAssignment (height : Nat)
    (hvalidators : R .validators) : Within R W G (checkRewardAssignment c tx body height) := by
  unfold checkRewardAssignment requireRecoveryBinding
  cases c.recoveryContext <;> simp [hvalidators]

theorem within_verifyApprovals (hvalidators : R .validators) :
    Within R W G (verifyCommunityRewardValidatorApprovals c body) := by
  simp [verifyCommunityRewardValidatorApprovals, hvalidators]

theorem within_rewardAccounts
    (hworker : R (.account body.worker)) (htreasury : R (.account inferenceRewardTreasuryAddress)) :
    Within R W G (rewardAccounts c body) := by
  simp [rewardAccounts, hworker, htreasury]

theorem within_requireNoLegacyMarker
    (hmarkers : ∀ a ∈ (legacyRewardMarkers body).addresses, R (.account a)) :
    Within R W G (requireNoLegacyMarker c body) := by
  unfold requireNoLegacyMarker requireNotSpent
  cases hprobe : (legacyRewardMarkers body).probe with
  | none | some => simp [addresses] at hmarkers; simp [hprobe, hmarkers]

end

theorem within_nextCommunityRewardBudgetCounter {address : Address} (codeHash : Hash256)
    (limit : Nat) (label : String) (haddress : R (.account address)) :
    Within R W G (nextCommunityRewardBudgetCounter c address codeHash limit label) := by
  simp [nextCommunityRewardBudgetCounter, haddress]

theorem within_communityRewardBudgetCandidatesAt (body : CommunityInferenceRewardBody)
    (height : Nat) (hbudgets : ∀ a ∈ budgetAddresses body height, R (.account a)) :
    Within R W G (communityRewardBudgetCandidatesAt c body height) := by
  simp only [budgetAddresses, forall_mem_cons, not_mem_nil, false_implies, implies_true,
    and_true] at hbudgets
  obtain ⟨hblock, hepoch, hworker, hcoordinator⟩ := hbudgets
  unfold communityRewardBudgetCandidatesAt
  rw [within_require_bind]
  intro _
  refine .bind (within_nextCommunityRewardBudgetCounter _ _ _ hblock) fun _ => ?_
  refine .bind (within_nextCommunityRewardBudgetCounter _ _ _ hepoch) fun _ => ?_
  refine .bind (within_nextCommunityRewardBudgetCounter _ _ _ hworker) fun _ => ?_
  exact .bind (within_nextCommunityRewardBudgetCounter _ _ _ hcoordinator) fun _ => trivial

theorem within_validateV3TransactionEnvelope :
    Within R W G (validateV3TransactionEnvelope c tx) := by
  simp [validateV3TransactionEnvelope, requireTxType]

theorem within_validateV3TransferAdmission (body : TransferBody)
    (haccounts : ∀ a ∈ [tx.sender, body.recipient, v3FeeTreasuryAddress], R (.account a)) :
    Within R W G (validateV3TransferAdmission c tx body) := by
  simp [validateV3TransferAdmission, haccounts]

theorem within_validateV3FaucetAdmission (body : FaucetClaimBody) (hvalidators : R .validators)
    (haccounts : ∀ a ∈ [body.recipient, faucetPoolAddress,
      FaucetClaimBody.v3MarkerAddress body.recipient,
      FaucetClaimBody.markerAddress body.recipient], R (.account a)) :
    Within R W G (validateV3FaucetAdmission c tx body) := by
  simp [validateV3FaucetAdmission, requireValidator, requireFaucetAmount, hvalidators, haccounts]

theorem within_validateCommunityRewardAdmission (body : CommunityInferenceRewardBody)
    (height : Nat) (hvalidators : R .validators) (hworker : R (.account body.worker))
    (htreasury : R (.account inferenceRewardTreasuryAddress))
    (hmarkers : ∀ a ∈ (v3RewardMarkers body).addresses, R (.account a))
    (hlegacy : ∀ a ∈ (legacyRewardMarkers body).addresses, R (.account a))
    (hbudgets : c.protocolV3 = true → ∀ a ∈ budgetAddresses body height, R (.account a)) :
    Within R W G (validateCommunityRewardAdmission c tx body height) := by
  unfold validateCommunityRewardAdmission requireValidator
  simp only [within_require_bind, within_bind_assoc, within_readValidators_bind]
  intro _ _
  refine ⟨hvalidators, fun _ _ => ?_⟩
  refine .bind (within_checkRewardAssignment body height hvalidators) fun _ => ?_
  simp only [within_require_bind]
  intro _ _
  refine .bind (within_requireUnpaid body _ hmarkers) fun _ => ?_
  refine .bind (within_requireNoLegacyMarker body hlegacy) fun _ => ?_
  refine .bind (within_verifyApprovals body hvalidators) fun _ => ?_
  refine .bind (within_rewardAccounts body hworker htreasury) fun _ => ?_
  rw [within_ite]
  exact ⟨fun hv3 => .bind (within_communityRewardBudgetCandidatesAt body height (hbudgets hv3))
    fun _ => trivial, fun _ => trivial⟩

/-- What follows the budget counters receives them under their addresses. -/
theorem within_rewardBudgets_bind {α : Type} {f : List (Address × Account) → Exec α}
    (body : CommunityInferenceRewardBody)
    (hbudgets : c.protocolV3 = true → ∀ a ∈ budgetAddresses body c.height, R (.account a))
    (hf : ∀ budgets, budgets.map Prod.fst =
      (if c.protocolV3 = true then budgetAddresses body c.height else []) →
      Within R W G (f budgets)) :
    Within R W G (rewardBudgets c body >>= f) := by
  unfold rewardBudgets
  rw [within_ite_bind]
  refine ⟨fun hv3 => ?_, fun hv3 => hf [] (by simp [hv3])⟩
  simp only [if_pos hv3] at hf
  have haddresses := hbudgets hv3
  simp only [budgetAddresses, forall_mem_cons, not_mem_nil, false_implies, implies_true,
    and_true] at haddresses
  obtain ⟨hblock, hepoch, hworker, hcoordinator⟩ := haddresses
  simp only [communityRewardBudgetCandidatesAt, within_bind_assoc, within_require_bind]
  intro _
  refine .bind (within_nextCommunityRewardBudgetCounter _ _ _ hblock) fun _ => ?_
  rw [within_bind_assoc]
  refine .bind (within_nextCommunityRewardBudgetCounter _ _ _ hepoch) fun _ => ?_
  rw [within_bind_assoc]
  refine .bind (within_nextCommunityRewardBudgetCounter _ _ _ hworker) fun _ => ?_
  rw [within_bind_assoc]
  refine .bind (within_nextCommunityRewardBudgetCounter _ _ _ hcoordinator) fun _ => ?_
  exact hf _ rfl

end Checks

/-! ## What the arms store -/

section Specs

variable [Externals] {c : Context} {s : Ledger} {tx : Transaction}

variable {body : CommunityInferenceRewardBody} {accounts : List (Address × Account)}

/-- The accounts a protocol-v3 transfer stores. -/
structure TransferCommit (c : Context) (s : Ledger) (tx : Transaction) (body : TransferBody)
    (accounts : List (Address × Account)) : Prop where
  distinct : v3TransferCollision tx body = false
  present : c.accountOf s tx.sender ≠ none
  covers : body.amount + tx.fee ≤ (c.accountOrNew s tx.sender).balance
  stored : accounts =
    [(tx.sender, { c.accountOrNew s tx.sender with
        balance := (c.accountOrNew s tx.sender).balance - (body.amount + tx.fee)
        nonce := (c.accountOrNew s tx.sender).nonce + 1 }),
      (body.recipient, (c.accountOrNew s body.recipient).withBalance
        ((c.accountOrNew s body.recipient).balance + body.amount)),
      (v3FeeTreasuryAddress, (c.accountOrNew s v3FeeTreasuryAddress).withBalance
        ((c.accountOrNew s v3FeeTreasuryAddress).balance + tx.fee))]

theorem commits_v3Transfer (body : TransferBody) :
    wp (executeV3Transfer c tx body) s (Commits s (TransferCommit c s tx body)) := by
  simp only [executeV3Transfer]
  rw [commits_readOnly_bind (within_validateV3TransferAdmission body fun _ _ => trivial)]
  intro _ hadmitted
  have hdistinct : v3TransferCollision tx body = false := by
    have hwp : wp (validateV3TransferAdmission c tx body) s fun r _ _ =>
        r = .ok () → v3TransferCollision tx body = false := by
      simp [validateV3TransferAdmission]
      grind
    exact hwp hadmitted
  simp [checkedAdd_eq_some, checkedSub_eq_some]
  intro _ x hx hcovers _ _ _
  have hor := accountOrNew_of_some hx
  refine ⟨hdistinct, by simp [hx], by rwa [hor], ?_⟩
  rw [hor]

/-- The accounts a faucet claim stores. -/
structure FaucetCommit (c : Context) (s : Ledger) (body : FaucetClaimBody)
    (accounts : List (Address × Account)) : Prop where
  recipient_ne_pool : body.recipient ≠ faucetPoolAddress
  marker_ne_pool : faucetMarker c body.recipient ≠ faucetPoolAddress
  marker_ne_recipient : faucetMarker c body.recipient ≠ body.recipient
  marker_absent : s.accounts.lookup (faucetMarker c body.recipient) = none
  covers : body.amount ≤ (c.accountOrNew s faucetPoolAddress).balance
  stored : accounts =
    [(faucetPoolAddress, (c.accountOrNew s faucetPoolAddress).withBalance
        ((c.accountOrNew s faucetPoolAddress).balance - body.amount)),
      (body.recipient, (c.accountOrNew s body.recipient).withBalance
        ((c.accountOrNew s body.recipient).balance + body.amount)),
      (faucetMarker c body.recipient, markerAccount (faucetMarker c body.recipient) body.recipient
        (hashBytes (beBytes 8 body.amount)))]

theorem faucetCollision_eq_false {reserved : Address → Bool} {marker : Address}
    {body : FaucetClaimBody} {recipient : Option Account}
    (h : faucetCollision reserved marker body recipient = false) :
    reserved body.recipient = false ∧ marker ≠ faucetPoolAddress ∧ marker ≠ body.recipient := by
  simp [faucetCollision] at h
  exact ⟨h.1.1.1, h.1.1.2, h.1.2⟩

theorem legacyReserved_faucetPool : isLegacyReservedSystemAccount faucetPoolAddress = true := by
  simp [isLegacyReservedSystemAccount]

theorem reserved_of_legacyReserved {a : Address} (h : isLegacyReservedSystemAccount a = true) :
    isReservedSystemAccount a = true := by
  simp [isReservedSystemAccount, h]

omit [Externals] in
/-- An optional admission check in front of an arm. -/
theorem commits_admitted {admission arm : Exec Unit} {P : List (Address × Account) → Prop}
    (hadmission : admission.ReadOnly) (harm : wp arm s (Commits s P)) :
    wp (if c.protocolV3 = true then admission >>= fun _ => arm else arm) s (Commits s P) := by
  rw [wp_ite]
  refine ⟨fun _ => ?_, fun _ => harm⟩
  rw [commits_readOnly_bind hadmission]
  exact fun _ _ => harm

theorem commits_faucetClaim (body : FaucetClaimBody) :
    wp (executeFaucetClaim c tx body) s (Commits s (FaucetCommit c s body)) := by
  have hreserved : (if c.protocolV3 = true then isReservedSystemAccount
      else isLegacyReservedSystemAccount) faucetPoolAddress = true := by
    split
    · exact reserved_of_legacyReserved legacyReserved_faucetPool
    · exact legacyReserved_faucetPool
  refine commits_admitted (within_validateV3FaucetAdmission body trivial fun _ _ => trivial) ?_
  simp [payFaucetClaim, requireFaucetAmount, checkedAdd_eq_some]
  intro _ _ _ hcollision habsent pool hpool hcovers _
  obtain ⟨hrecipient, hmarker, hmarker'⟩ := faucetCollision_eq_false hcollision
  have hor := accountOrNew_of_some hpool
  refine ⟨?_, hmarker, hmarker', habsent, by rwa [hor], ?_⟩
  · rintro heq
    rw [heq, hreserved] at hrecipient
    cases hrecipient
  · rw [hor]

/-- A budget counter that is advanced counts one more reward, within its limit; it holds no funds,
    before and after. -/
theorem nextCommunityRewardBudgetCounter_ok {address : Address} {codeHash : Hash256} {limit : Nat}
    {label : String} {next : Account}
    (h : ((nextCommunityRewardBudgetCounter c address codeHash limit label).run s).result =
      .ok next) :
    ((c.accountOrNew s address).funds = 0 ∧ next.funds = 0) ∧
      next.nonce = (c.accountOrNew s address).nonce + 1 ∧ next.nonce ≤ limit := by
  have hwp : wp (nextCommunityRewardBudgetCounter c address codeHash limit label) s fun r _ _ =>
      r = .ok next → ((c.accountOrNew s address).funds = 0 ∧ next.funds = 0) ∧
        next.nonce = (c.accountOrNew s address).nonce + 1 ∧ next.nonce ≤ limit := by
    simp [nextCommunityRewardBudgetCounter, Account.funds, checkedAdd_eq_some]
    constructor <;> grind
  exact hwp h

/-- The limits of the four budget accounts, in the order of `budgetAddresses`. -/
def budgetLimits : List Nat :=
  [v3CommunityRewardMaxPerBlock, v3CommunityRewardMaxPerEpoch, v3CommunityRewardMaxPerWorkerEpoch,
    v3CommunityRewardMaxPerCoordinatorEpoch]

section

variable {height : Nat} {budgets : List (Address × Account)} (h :
  ((communityRewardBudgetCandidatesAt c body height).run s).result = .ok budgets)
include h

/-- The budget counters of a reward: their addresses, distinct and apart from the reward's other
    accounts, and each the advanced counter of its address. -/
theorem communityRewardBudgetCandidatesAt_counters

    :
    budgetCollision body (budgetAddresses body height) = false ∧
      budgets.map Prod.fst = budgetAddresses body height ∧
      List.Forall₂ (fun e limit => ∃ codeHash label,
        ((nextCommunityRewardBudgetCounter c e.1 codeHash limit label).run s).result = .ok e.2)
        budgets budgetLimits := by
  have hwp : wp (communityRewardBudgetCandidatesAt c body height) s fun r _ _ =>
      r = .ok budgets → budgetCollision body (budgetAddresses body height) = false ∧
      budgets.map Prod.fst = budgetAddresses body height ∧
      List.Forall₂ (fun e limit => ∃ codeHash label,
        ((nextCommunityRewardBudgetCounter c e.1 codeHash limit label).run s).result = .ok e.2)
        budgets budgetLimits := by
    have hread : ∀ address codeHash limit label,
        (nextCommunityRewardBudgetCounter c address codeHash limit label).ReadOnly :=
      fun _ _ _ _ => within_nextCommunityRewardBudgetCounter _ _ _ trivial
    simp only [communityRewardBudgetCandidatesAt, wp_require_bind]
    refine ⟨fun hdistinct => ?_, fun _ => by simp⟩
    rw [(hread _ _ _ _).wp_bind]
    refine ⟨fun block hblock => ?_, fun e _ => by simp⟩
    rw [(hread _ _ _ _).wp_bind]
    refine ⟨fun epoch hepoch => ?_, fun e _ => by simp⟩
    rw [(hread _ _ _ _).wp_bind]
    refine ⟨fun worker hworker => ?_, fun e _ => by simp⟩
    rw [(hread _ _ _ _).wp_bind]
    refine ⟨fun coordinator hcoordinator => ?_, fun e _ => by simp⟩
    rintro ⟨⟩
    exact ⟨hdistinct, rfl, .cons ⟨_, _, hblock⟩ (.cons ⟨_, _, hepoch⟩ (.cons ⟨_, _, hworker⟩
      (.cons ⟨_, _, hcoordinator⟩ .nil)))⟩
  exact hwp h

/-- The budget counters of a reward hold no funds, before and after. -/
theorem communityRewardBudgetCandidatesAt_ok :
    budgetCollision body (budgetAddresses body height) = false ∧
      budgets.map Prod.fst = budgetAddresses body height ∧
      ∀ e ∈ budgets, (c.accountOrNew s e.1).funds = 0 ∧ e.2.funds = 0 := by
  obtain ⟨hdistinct, haddresses, hcounters⟩ := communityRewardBudgetCandidatesAt_counters h
  refine ⟨hdistinct, haddresses, fun e he => ?_⟩
  obtain ⟨i, hi, rfl⟩ := getElem_of_mem he
  obtain ⟨_, _, hnext⟩ := hcounters.get hi (hcounters.length_eq ▸ hi)
  exact (nextCommunityRewardBudgetCounter_ok hnext).1

end

/-- The accounts a community inference reward stores. -/
structure RewardCommit (c : Context) (s : Ledger) (body : CommunityInferenceRewardBody)
    (accounts : List (Address × Account)) : Prop where
  worker_ne_treasury : body.worker ≠ inferenceRewardTreasuryAddress
  distinct : (rewardMarkers c body).collide body = false
  covers : inferenceAttestationReward ≤ (c.accountOrNew s inferenceRewardTreasuryAddress).balance
  unpaid : ((requireUnpaid body (rewardMarkers c body)).run s).result = .ok ()
  stored : ∃ budgets, ((rewardBudgets c body).run s).result = .ok budgets ∧
    accounts =
      [(inferenceRewardTreasuryAddress, (c.accountOrNew s inferenceRewardTreasuryAddress).withBalance
          ((c.accountOrNew s inferenceRewardTreasuryAddress).balance - inferenceAttestationReward)),
        (body.worker, (c.accountOrNew s body.worker).withBalance
          ((c.accountOrNew s body.worker).balance + inferenceAttestationReward))] ++
      (rewardMarkers c body).accounts body ++ budgets

theorem commits_communityInferenceReward (body : CommunityInferenceRewardBody) :
    wp (executeCommunityInferenceReward c tx body) s (Commits s (RewardCommit c s body)) := by
  have hadmission : (validateCommunityRewardAdmission c tx body c.height).ReadOnly :=
    within_validateCommunityRewardAdmission body _ trivial trivial trivial (fun _ _ => trivial)
      (fun _ _ => trivial) (fun _ _ _ => trivial)
  have hbudgets : (rewardBudgets c body).ReadOnly := by
    unfold ReadOnly rewardBudgets
    rw [within_ite]
    exact ⟨fun _ => within_communityRewardBudgetCandidatesAt body _ fun _ _ => trivial,
      fun _ => trivial⟩
  refine commits_admitted hadmission ?_
  simp only [payCommunityInferenceReward, wp_require_bind, wp_requireValidator_bind, commits_error,
    implies_true, and_true]
  intro _ _ _
  rw [commits_readOnly_bind (within_checkRewardAssignment body c.height trivial)]
  intro _ _
  simp only [wp_require_bind, commits_error, implies_true, and_true]
  intro hworker
  rw [commits_readOnly_bind (within_requireUnpaid body _ fun _ _ => trivial)]
  intro _ hunpaid
  rw [commits_readOnly_bind (within_verifyApprovals body trivial)]
  intro _ _
  simp only [rewardAccounts, wp_bind_assoc, wp_getAccountOrNew_bind, wp_orError_bind,
    wp_getAccount_bind, wp_ofOption_bind, wp_requireBalance_bind, wp_pure_bind, wp_require_bind,
    commits_error, implies_true, and_true, checkedAdd_eq_some, checkedSub_eq_some]
  rintro _ ⟨rfl, _⟩ treasury htreasury hcovers _ ⟨_, rfl⟩ hdistinct
  have hor := accountOrNew_of_some htreasury
  rw [commits_readOnly_bind hbudgets]
  intro budgets hbudget
  rw [commits_commitAccounts]
  refine ⟨hworker, hdistinct, by rwa [hor], hunpaid, budgets, hbudget, ?_⟩
  rw [hor]

/-! ## The stored addresses are distinct -/

theorem TransferCommit.nodup {body : TransferBody} (h : TransferCommit c s tx body accounts) :
    (accounts.map Prod.fst).Nodup := by
  have hdistinct := h.distinct
  simp [v3TransferCollision] at hdistinct
  rw [h.stored]
  simp [hdistinct]

theorem FaucetCommit.nodup {body : FaucetClaimBody} (h : FaucetCommit c s body accounts) :
    (accounts.map Prod.fst).Nodup := by
  have hpool := h.recipient_ne_pool.symm
  have hmarker := h.marker_ne_pool.symm
  have hrecipient := h.marker_ne_recipient.symm
  rw [h.stored]
  simp [hpool, hmarker, hrecipient]

omit [Externals] in
/-- The markers of a reward without a collision are distinct, and apart from its treasury and
    worker. -/
theorem RewardMarkers.nodup_of_collide [Crypto] {m : RewardMarkers}
    (hworker : body.worker ≠ inferenceRewardTreasuryAddress) (h : m.collide body = false) :
    ([inferenceRewardTreasuryAddress, body.worker] ++ (m.accounts body).map Prod.fst).Nodup := by
  cases hprobe : m.probe with
  | none | some =>
    simp [collide] at h
    simp [accounts, hprobe]
    grind

/-- The addresses of a reward's budget counters are distinct, reserved, and apart from the
    reward's other accounts. -/
theorem budgetCollision_eq_false {addresses : List Address}
    (h : budgetCollision body addresses = false) :
    addresses.Nodup ∧ (∀ a ∈ addresses, isV3SystemAccount a = true) ∧
      ∀ a ∈ addresses, a ≠ inferenceRewardTreasuryAddress ∧ a ≠ body.worker ∧
        a ∉ ((v3RewardMarkers body).accounts body).map Prod.fst := by
  simp only [budgetCollision, Bool.or_eq_false_iff, Bool.not_eq_false', decide_eq_true_eq,
    any_eq_false, Bool.not_eq_true, beq_eq_false_iff_ne] at h
  obtain ⟨⟨hnodup, hsystem⟩, hapart⟩ := h
  refine ⟨hnodup, by simpa using hsystem, fun a ha => ?_⟩
  obtain ⟨⟨⟨⟨⟨htreasury, hworker⟩, _⟩, hjob⟩, hcertificate⟩, hprobe⟩ := hapart a ha
  refine ⟨htreasury, hworker, ?_⟩
  simp [accounts, hjob, hcertificate, hprobe]

theorem RewardCommit.nodup (h : RewardCommit c s body accounts) :
    (accounts.map Prod.fst).Nodup := by
  obtain ⟨budgets, hbudgets, hstored⟩ := h.stored
  have hmarkers := nodup_of_collide h.worker_ne_treasury h.distinct
  rw [hstored, map_append, map_append]
  by_cases hv3 : c.protocolV3 = true
  · simp only [rewardBudgets, hv3] at hbudgets
    obtain ⟨hcollision, haddresses, _⟩ := communityRewardBudgetCandidatesAt_ok hbudgets
    obtain ⟨hnodup, _, hapart⟩ := budgetCollision_eq_false hcollision
    rw [haddresses, nodup_append]
    refine ⟨hmarkers, hnodup, ?_⟩
    simp only [rewardMarkers, hv3]
    rintro a ha b hb rfl
    obtain ⟨htreasury, hworker, hmarker⟩ := hapart a hb
    simp only [map_cons, map_nil, mem_append, mem_cons, not_mem_nil, or_false] at ha
    rcases ha with (rfl | rfl) | ha
    · exact htreasury rfl
    · exact hworker rfl
    · exact hmarker ha
  · simp only [rewardBudgets, hv3] at hbudgets
    obtain rfl : [] = budgets := Except.ok.inj hbudgets
    simpa using hmarkers

end Specs

end ArcChain
