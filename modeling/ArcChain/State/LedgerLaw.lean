/-
The ledger law of the recovery protocol: a transaction is refused without
a trace, or it is a transfer, a faucet claim or a reward that moves funds
between its own accounts.

An accepted transaction writes back copies that `get_account` returned.
The law holds as far as those copies hold the funds of the stored accounts
(`CopiesAgree`); a stale copy in the GPU cache breaks it.
-/
import ArcChain.State.Supply
import ArcChain.State.V3Block

namespace ArcChain

open Word StoreProg Ledger List RewardMarkers Sample

/-! ## Storing a list of accounts -/

namespace Ledger

variable {s : Ledger} {l : List (Address × Account)} {a : Address} {x : Account}

theorem lookup_putAccounts_of_not_mem (h : a ∉ l.map Prod.fst) :
    (s.putAccounts l).accounts.lookup a = s.accounts.lookup a := by
  induction l generalizing s with
  | nil => rfl
  | cons e l ih =>
    simp only [map_cons, mem_cons, not_or] at h
    show ((s.putAccount e.1 e.2).putAccounts l).accounts.lookup a = _
    rw [ih h.2, lookup_putAccount, if_neg h.1]

theorem lookup_putAccounts_of_mem (hnodup : (l.map Prod.fst).Nodup) (h : (a, x) ∈ l) :
    (s.putAccounts l).accounts.lookup a = some x := by
  induction l generalizing s with
  | nil => cases h
  | cons e l ih =>
    rw [map_cons, nodup_cons] at hnodup
    show ((s.putAccount e.1 e.2).putAccounts l).accounts.lookup a = _
    rcases mem_cons.mp h with rfl | h
    · rw [lookup_putAccounts_of_not_mem hnodup.1, lookup_putAccount, if_pos rfl]
    · exact ih hnodup.2 h

theorem accountOr_putAccounts_of_mem (hnodup : (l.map Prod.fst).Nodup) (h : (a, x) ∈ l) :
    (s.putAccounts l).accountOr a = x := by
  simp [accountOr, lookup_putAccounts_of_mem hnodup h]

theorem accountOr_putAccounts_of_not_mem (h : a ∉ l.map Prod.fst) :
    (s.putAccounts l).accountOr a = s.accountOr a := by
  simp [accountOr, lookup_putAccounts_of_not_mem h]

/-- Storing accounts changes nothing but the account map. -/
theorem putAccounts_eq : s.putAccounts l = { s with accounts := (s.putAccounts l).accounts } := by
  induction l generalizing s with
  | nil => rfl
  | cons e l ih => exact ih (s := s.putAccount e.1 e.2)

end Ledger

section Law

variable [Externals]

/-! ## The law -/

/-- The accounts an accepted transaction names: parties, treasury or pool, markers, budget
    counters. -/
def TxBody.v3Accounts (c : Context) (tx : Transaction) : TxBody → List Address
  | .transfer body => [tx.sender, body.recipient, v3FeeTreasuryAddress]
  | .faucetClaim body =>
    [faucetPoolAddress, body.recipient, FaucetClaimBody.v3MarkerAddress body.recipient]
  | .communityInferenceReward body =>
    [inferenceRewardTreasuryAddress, body.worker] ++ (v3RewardMarkers body).addresses ++
      budgetAddresses body c.height
  | _ => []

/-- The funds held at an address. -/
def Ledger.held (s : Ledger) (a : Address) : Nat := (s.accountOr a).funds

/-- What an accepted transaction does to the ledger. -/
structure LedgerLaw (c : Context) (s : Ledger) (tx : Transaction) (t : Ledger) : Prop where
  allowed : tx.body.v3Allows = true
  supply : t.supply = s.supply
  accountsOnly : t = { s with accounts := t.accounts }
  frame : ∀ a ∉ tx.body.v3Accounts c tx, t.accounts.lookup a = s.accounts.lookup a
  /-- Of the user accounts only the sender of a transfer loses funds. -/
  losses : ∀ a, isReservedSystemAccount a = false → t.held a < s.held a →
    ∃ body, tx.body = .transfer body ∧ a = tx.sender
  payment : ∀ body, tx.body = .transfer body →
    s.held tx.sender = t.held tx.sender + (body.amount + tx.fee)

/-- A refused transaction changes nothing, an accepted one obeys the law. -/
def ObeysLedgerLaw (c : Context) (s : Ledger) (tx : Transaction) : Prop :=
  match ((executeTx c tx).run s).result with
  | .error _ => ((executeTx c tx).run s).store = s
  | .ok _ => LedgerLaw c s tx ((executeTx c tx).run s).store

/-- The funds of the copy that `get_account` returns. -/
def Context.copied (c : Context) (s : Ledger) (a : Address) : Nat := (c.accountOrNew s a).funds

/-- The copies a transaction writes back hold in total the funds of the stored accounts, the
    sender's copy exactly, and the payee's copy is not short of more than the payment. -/
def TxBody.CopiesAgree (c : Context) (s : Ledger) (tx : Transaction) : TxBody → Prop
  | .transfer body =>
    c.copied s tx.sender = s.held tx.sender ∧
      s.held body.recipient ≤ c.copied s body.recipient + body.amount ∧
      c.copied s body.recipient + c.copied s v3FeeTreasuryAddress =
        s.held body.recipient + s.held v3FeeTreasuryAddress
  | .faucetClaim body =>
    s.held body.recipient ≤ c.copied s body.recipient + body.amount ∧
      c.copied s faucetPoolAddress + c.copied s body.recipient =
        s.held faucetPoolAddress + s.held body.recipient
  | .communityInferenceReward body =>
    s.held body.worker ≤ c.copied s body.worker + inferenceAttestationReward ∧
      c.copied s inferenceRewardTreasuryAddress + c.copied s body.worker =
        s.held inferenceRewardTreasuryAddress + s.held body.worker +
          ((budgetAddresses body c.height).map s.held).sum
  | _ => True

/-! ## What is stored -/

/-- The accounts an accepted transaction stores. -/
def TxBody.V3Stores (c : Context) (s : Ledger) (tx : Transaction) :
    TxBody → List (Address × Account) → Prop
  | .transfer body => TransferCommit c s tx body
  | .faucetClaim body => FaucetCommit c s body
  | .communityInferenceReward body => RewardCommit c s body
  | _ => fun _ => False

section

variable {c : Context} {s : Ledger} {tx : Transaction}

variable {l : List (Address × Account)} {body : CommunityInferenceRewardBody}

omit [Externals] in
/-- An arm behind flat gas. -/
theorem wp_flatGas_commits {P : List (Address × Account) → Prop} {arm : Exec Unit} {gas : GasMeter}
    (h : wp arm s (Commits s P)) :
    wp (flatGas gas arm) s fun r t _ =>
      match r with
      | .error _ => t = s
      | .ok _ => ∃ accounts, P accounts ∧ t = s.putAccounts accounts := by
  unfold flatGas
  rw [wp_bind]
  refine wp_mono h ?_
  intro r t l hc
  cases r with
  | error e => exact hc.1
  | ok u =>
    obtain ⟨accounts, hP, rfl, _⟩ := hc
    exact ⟨accounts, hP, rfl⟩

/-- A transaction is refused without a trace or stores its accounts. -/
theorem v3_executeTx_stores (hv3 : c.protocolV3 = true) : wp (executeTx c tx) s fun r t _ =>
      match r with
      | .error _ => t = s
      | .ok _ => ∃ accounts, tx.body.V3Stores c s tx accounts ∧ t = s.putAccounts accounts := by
  have hread : (validateV3TransactionEnvelope c tx).ReadOnly := within_validateV3TransactionEnvelope
  simp only [executeTx, requireTxType, hv3, wp_require_bind, hread.wp_bind,
    wp_chargeGas_bind, implies_true, and_true]
  intro _ _ henvelope _
  have hbody : wp (executeBody c tx (tx.gasMeter.charge tx.body.gasCost).1 tx.body) s fun r t _ =>
      match r with
      | .error _ => t = s
      | .ok _ => ∃ accounts, tx.body.V3Stores c s tx accounts ∧ t = s.putAccounts accounts := by
    by_cases hnative : tx.body.isNativeBody = true
    · -- the native families have a block path of their own
      cases hfamily : tx.body with
      | nativeInferenceRequest body => rfl
      | nativeInferenceFinalize body => rfl
      | nativeInferenceRefund body => rfl
      | _ => simp [hfamily, TxBody.isNativeBody] at hnative
    · have hallowed := (envelopeOk (.inr (by simpa using hnative)) henvelope).allowed
      cases hfamily : tx.body with
      | transfer body =>
        simp only [executeBody, hv3]
        exact wp_flatGas_commits (commits_v3Transfer body)
      | faucetClaim body => exact wp_flatGas_commits (commits_faucetClaim body)
      | communityInferenceReward body =>
        exact wp_flatGas_commits (commits_communityInferenceReward body)
      | _ => simp [hfamily, TxBody.v3Allows] at hallowed
  rw [wp_bind]
  refine wp_mono hbody ?_
  intro r t _ h
  cases r <;> exact h

/-! ## The law for what is stored -/

/-- The law, read off the stored accounts. -/
theorem ledgerLaw_putAccounts_iff (hallowed : tx.body.v3Allows = true)
    (hnodup : (l.map Prod.fst).Nodup) (hnamed : ∀ a ∈ l.map Prod.fst, a ∈ tx.body.v3Accounts c tx) :
    LedgerLaw c s tx (s.putAccounts l) ↔
      (l.map fun e => e.2.funds).sum = ((l.map Prod.fst).map s.held).sum ∧
      (∀ e ∈ l, isReservedSystemAccount e.1 = false → e.2.funds < s.held e.1 →
        ∃ body, tx.body = .transfer body ∧ e.1 = tx.sender) ∧
      ∀ body, tx.body = .transfer body →
        s.held tx.sender = (s.putAccounts l).held tx.sender + (body.amount + tx.fee) := by
  have hsupply : (s.putAccounts l).supply + ((l.map Prod.fst).map s.held).sum =
      s.supply + (l.map fun e => e.2.funds).sum := by
    rw [map_map]
    exact supply_putAccounts hnodup
  have hheld : ∀ e ∈ l, (s.putAccounts l).held e.1 = e.2.funds := fun e he => by
    rw [Ledger.held, accountOr_putAccounts_of_mem hnodup he]
  constructor
  · intro h
    have hsame := h.supply
    refine ⟨?_, fun e he hreserved hlost => ?_, h.payment⟩
    · omega
    · exact h.losses e.1 hreserved (by rwa [hheld e he])
  · rintro ⟨hsum, hlosses, hpayment⟩
    refine ⟨hallowed, ?_, putAccounts_eq, fun a ha => ?_, fun a hreserved hlost => ?_, hpayment⟩
    · omega
    · exact lookup_putAccounts_of_not_mem fun hmem => ha (hnamed a hmem)
    · by_cases hmem : a ∈ l.map Prod.fst
      · obtain ⟨e, he, rfl⟩ := mem_map.mp hmem
        rw [hheld e he] at hlost
        exact hlosses e he hreserved hlost
      · rw [Ledger.held, accountOr_putAccounts_of_not_mem hmem] at hlost
        exact absurd hlost (lt_irrefl _)

theorem ledgerLaw_transfer_iff {body : TransferBody} (hbody : tx.body = .transfer body)
    (h : TransferCommit c s tx body l) :
    LedgerLaw c s tx (s.putAccounts l) ↔ tx.body.CopiesAgree c s tx := by
  have hdistinct := h.distinct
  simp [v3TransferCollision] at hdistinct
  obtain ⟨⟨⟨⟨hne, hsender⟩, hrecipient⟩, hsenderTreasury⟩, hrecipientTreasury⟩ := hdistinct
  have hreserved : isReservedSystemAccount v3FeeTreasuryAddress = true := by
    simp [isReservedSystemAccount]
  have hnodup := h.nodup
  have hcovers := h.covers
  have hstored := h.stored
  rw [ledgerLaw_putAccounts_iff (by simp [hbody, TxBody.v3Allows]) hnodup
    (by simp [hbody, TxBody.v3Accounts, hstored])]
  have hpaid : (s.putAccounts l).held tx.sender =
      (c.accountOrNew s tx.sender).funds - (body.amount + tx.fee) := by
    rw [Ledger.held, accountOr_putAccounts_of_mem hnodup (by rw [hstored]; exact mem_cons_self)]
    simp only [Account.funds]
    omega
  rw [hpaid]
  simp only [hstored, hbody, TxBody.CopiesAgree, Context.copied]
  simp [hrecipient, hreserved, Ne.symm hne]
  simp only [Account.funds]
  omega

theorem ledgerLaw_faucet_iff {body : FaucetClaimBody} (hv3 : c.protocolV3 = true)
    (hbody : tx.body = .faucetClaim body)
    (hrecipient : isReservedSystemAccount body.recipient = false) (h : FaucetCommit c s body l) :
    LedgerLaw c s tx (s.putAccounts l) ↔ tx.body.CopiesAgree c s tx := by
  have hmarker : faucetMarker c body.recipient = FaucetClaimBody.v3MarkerAddress body.recipient :=
    if_pos hv3
  have hreserved : isReservedSystemAccount faucetPoolAddress = true :=
    reserved_of_legacyReserved legacyReserved_faucetPool
  have hnew : s.held (FaucetClaimBody.v3MarkerAddress body.recipient) = 0 := by
    have habsent := h.marker_absent
    rw [hmarker] at habsent
    simp [Ledger.held, Ledger.accountOr, habsent, Account.new, Account.funds]
  have hcovers := h.covers
  have hstored := h.stored
  rw [hmarker] at hstored
  rw [ledgerLaw_putAccounts_iff (by simp [hbody, TxBody.v3Allows]) h.nodup
    (by simp [hbody, TxBody.v3Accounts, hstored])]
  simp only [hstored, hbody, TxBody.CopiesAgree, Context.copied]
  simp [hrecipient, hreserved]
  simp only [Account.funds, markerAccount]
  omega

omit [Externals] in
/-- An unpaid reward finds none of its markers. -/
theorem absent_of_requireUnpaid {m : RewardMarkers}
    (h : ((requireUnpaid body m).run s).result = .ok ()) :
    ∀ a ∈ m.addresses, s.accounts.lookup a = none := by
  have hwp : wp (requireUnpaid body m) s fun r _ _ => r = .ok () := h
  cases hprobe : m.probe with
  | none | some => simp_all [requireUnpaid, RewardMarkers.addresses]

theorem ledgerLaw_reward_iff (hv3 : c.protocolV3 = true)
    (hbody : tx.body = .communityInferenceReward body)
    (hworker : isReservedSystemAccount body.worker = false) (h : RewardCommit c s body l) :
    LedgerLaw c s tx (s.putAccounts l) ↔ tx.body.CopiesAgree c s tx := by
  obtain ⟨budgets, hbudgets, hstored⟩ := h.stored
  have hcovers := h.covers
  have hunpaid := h.unpaid
  simp only [rewardMarkers, hv3] at hstored hunpaid
  simp only [rewardBudgets, hv3] at hbudgets
  obtain ⟨hcollision, haddresses, hzero⟩ := communityRewardBudgetCandidatesAt_ok hbudgets
  have hsystem := (budgetCollision_eq_false hcollision).2.1
  have hmarkers : ∀ a ∈ (v3RewardMarkers body).addresses, s.held a = 0 := by
    intro a ha
    simp [Ledger.held, Ledger.accountOr, absent_of_requireUnpaid hunpaid a ha, Account.new,
      Account.funds]
  have hreserved : isReservedSystemAccount inferenceRewardTreasuryAddress = true :=
    reserved_of_legacyReserved (by simp [isLegacyReservedSystemAccount])
  rw [ledgerLaw_putAccounts_iff (by simp [hbody, TxBody.v3Allows]) h.nodup
    (by simp [hbody, TxBody.v3Accounts, hstored, haddresses, map_accounts])]
  have hnew : (l.map fun e => e.2.funds).sum =
      c.copied s inferenceRewardTreasuryAddress + c.copied s body.worker := by
    have hcounters : (budgets.map fun e => e.2.funds).sum = 0 := by
      apply sum_eq_zero
      rintro _ hx
      obtain ⟨e, he, rfl⟩ := mem_map.mp hx
      exact (hzero e he).2
    rw [hstored, append_assoc, sum_funds_move hcovers, map_append, sum_append,
      funds_rewardMarkers, hcounters]
    rfl
  have hold : ((l.map Prod.fst).map s.held).sum =
      s.held inferenceRewardTreasuryAddress + s.held body.worker +
        ((budgetAddresses body c.height).map s.held).sum := by
    have hmarked : ((v3RewardMarkers body).addresses.map s.held).sum = 0 := by
      apply sum_eq_zero
      rintro _ hx
      obtain ⟨a, ha, rfl⟩ := mem_map.mp hx
      exact hmarkers a ha
    simp [hstored, haddresses, map_accounts, hmarked, add_assoc]
  have hlosses : (∀ e ∈ l, isReservedSystemAccount e.1 = false → e.2.funds < s.held e.1 →
      ∃ transfer, tx.body = .transfer transfer ∧ e.1 = tx.sender) ↔
      s.held body.worker ≤ c.copied s body.worker + inferenceAttestationReward := by
    have hpaid : ((c.accountOrNew s body.worker).withBalance
        ((c.accountOrNew s body.worker).balance + inferenceAttestationReward)).funds =
        c.copied s body.worker + inferenceAttestationReward := Nat.add_right_comm _ _ _
    constructor
    · intro hall
      by_contra hlost
      have hentry := hall (body.worker, (c.accountOrNew s body.worker).withBalance
        ((c.accountOrNew s body.worker).balance + inferenceAttestationReward))
        (by simp [hstored]) hworker (by rw [hpaid]; exact not_le.mp hlost)
      simp [hbody] at hentry
    · intro hle e he huser hlost
      rw [hstored] at he
      simp only [mem_append, mem_cons, not_mem_nil, or_false] at he
      -- a system account, the worker, an empty marker or a budget counter
      rcases he with ((rfl | rfl) | hmarker) | hbudget
      · rw [hreserved] at huser
        cases huser
      · rw [hpaid] at hlost
        exact absurd hle (not_le.mpr hlost)
      · have hmem : e.1 ∈ (v3RewardMarkers body).addresses := by
          rw [← map_accounts _ body]
          exact mem_map_of_mem hmarker
        rw [hmarkers _ hmem] at hlost
        exact absurd hlost (Nat.not_lt_zero _)
      · have hmem : e.1 ∈ budgetAddresses body c.height := by
          rw [← haddresses]
          exact mem_map_of_mem hbudget
        simp [isReservedSystemAccount, hsystem _ hmem] at huser
  rw [hnew, hold, hlosses]
  simp only [hbody, reduceCtorEq, false_implies, implies_true, and_true]
  exact and_comm

/-! ## Which transactions obey it -/

section

variable {nativeAdmission : List Transaction → Nat → Exec Unit} {H : Nat}
  (h : Admitted nativeAdmission c s H tx)
include h

theorem Admitted.recipient_of_faucet {body : FaucetClaimBody}
    (hbody : tx.body = .faucetClaim body) : isReservedSystemAccount body.recipient = false := by
  have hfamily := h.parts.2.2
  rw [hbody] at hfamily
  have hwp : wp (validateV3FaucetAdmission c tx body) s fun r _ _ => r = .ok () := hfamily
  simp [validateV3FaucetAdmission, requireFaucetAmount, check_and_iff] at hwp
  exact (faucetCollision_eq_false hwp.2.2.2.2.2.1).1

theorem Admitted.worker_of_reward (hbody : tx.body = .communityInferenceReward body) :
    isReservedSystemAccount body.worker = false := by
  have hfamily := h.parts.2.2
  rw [hbody] at hfamily
  exact (rewardAdmitted hfamily).worker.2

end

/-- **Ledger law.**  A transaction of the recovery protocol obeys the ledger law exactly if, in
    case it is admitted, the copies it writes back hold the funds of the stored accounts. -/
theorem ledger_law_iff (nativeAdmission : List Transaction → Nat → Exec Unit) {c : Context}
    {recovery : RecoveryContext} (hrecovery : c.recoveryContext = some recovery)
    (hmajor : recovery.protocolVersion.major = 3) (hcontext : c.nativeInferenceContext = false)
    (s : Ledger) (tx : Transaction) :
    ObeysLedgerLaw c s tx ↔
      (((validateV3TransactionAdmissionAt nativeAdmission c tx c.height).run s).result = .ok () →
        tx.body.CopiesAgree c s tx) := by
  have hv3 : c.protocolV3 = true := by
    simp [Context.protocolV3, Context.activeProtocolVersion, hcontext, hrecovery, hmajor]
  have hexecutes : (∃ gas, ((executeTx c tx).run s).result = .ok gas) ↔
      Admitted nativeAdmission c s c.height tx := executes_iff_admitted hv3 (.inl hcontext)
  have hstores : wp (executeTx c tx) s _ := v3_executeTx_stores hv3
  unfold ObeysLedgerLaw
  unfold wp at hstores
  cases hresult : ((executeTx c tx).run s).result with
  | error e =>
    rw [hresult] at hstores hexecutes
    refine iff_of_true hstores fun hadmitted => ?_
    obtain ⟨gas, hgas⟩ := hexecutes.mpr hadmitted
    cases hgas
  | ok gas =>
    rw [hresult] at hstores hexecutes
    obtain ⟨accounts, hstored, hledger⟩ := hstores
    have hadmitted : Admitted nativeAdmission c s c.height tx := hexecutes.mp ⟨gas, rfl⟩
    rw [hledger]
    refine Iff.trans ?_ ⟨fun h _ => h, fun h => h hadmitted⟩
    cases hbody : tx.body with
    | transfer body =>
      rw [hbody] at hstored
      rw [← hbody]
      exact ledgerLaw_transfer_iff hbody hstored
    | faucetClaim body =>
      rw [hbody] at hstored
      rw [← hbody]
      exact ledgerLaw_faucet_iff hv3 hbody (hadmitted.recipient_of_faucet hbody) hstored
    | communityInferenceReward body =>
      rw [hbody] at hstored
      rw [← hbody]
      exact ledgerLaw_reward_iff hv3 hbody (hadmitted.worker_of_reward hbody) hstored
    | _ =>
      rw [hbody] at hstored
      exact absurd hstored id

end

end Law

/-! ## A stale copy -/

namespace Sample

/-- User 21 pays 5 to user 22, with a fee of 1. -/
def v3Transfer : Transaction := signedTx 21 0 1 (.transfer ⟨address 22, 5, none⟩)

/-- The GPU cache still holds the 200 that user 21 had when it was filled. -/
def staleContext : Context :=
  { v3Context 8 with gpuCache := FinMap.ofList [(address 21, account 21 200 0)] }

end Sample

/-- The transfer spends from the stale copy, and the supply grows from 1100 to 1200. -/
theorem stale_copy_grows_supply :
    letI := concreteExternals
    Sample.staleContext.recoveryContext = some ⟨.zero, .zero, 1, 1, ⟨3, 0, 0⟩⟩ ∧
      Sample.staleContext.nativeInferenceContext = false ∧
      ((executeTx Sample.staleContext Sample.v3Transfer).run Sample.v3Ledger).result = .ok 21000 ∧
      Sample.v3Ledger.supply = 1100 ∧
      ((executeTx Sample.staleContext Sample.v3Transfer).run Sample.v3Ledger).store.supply = 1200 ∧
      ¬ ObeysLedgerLaw Sample.staleContext Sample.v3Ledger Sample.v3Transfer := by
  let _ : Externals := concreteExternals
  have hresult : ((executeTx staleContext v3Transfer).run
      v3Ledger).result = .ok 21000 := by decide +kernel
  have hbefore : v3Ledger.supply = 1100 := by decide +kernel
  have hafter : ((executeTx staleContext v3Transfer).run
      v3Ledger).store.supply = 1200 := by decide +kernel
  refine ⟨rfl, rfl, hresult, hbefore, hafter, fun hlaw => ?_⟩
  rw [ObeysLedgerLaw, hresult] at hlaw
  have hsupply := hlaw.supply
  rw [hafter] at hsupply
  cases hsupply

/-- Without a cache the transfer obeys the law. -/
theorem v3Transfer_obeys_law :
    letI := concreteExternals
    (Sample.v3Context 8).recoveryContext = some ⟨.zero, .zero, 1, 1, ⟨3, 0, 0⟩⟩ ∧
      (Sample.v3Context 8).nativeInferenceContext = false ∧
      ((executeTx (Sample.v3Context 8) Sample.v3Transfer).run Sample.v3Ledger).result =
        .ok 21000 ∧
      ObeysLedgerLaw (Sample.v3Context 8) Sample.v3Ledger Sample.v3Transfer := by
  let _ : Externals := concreteExternals
  refine ⟨rfl, rfl, by decide +kernel, ?_⟩
  apply (ledger_law_iff (fun _ _ => pure ()) rfl rfl rfl _ _).mpr
  exact fun _ => ⟨by decide +kernel, by decide +kernel, by decide +kernel⟩

end ArcChain
