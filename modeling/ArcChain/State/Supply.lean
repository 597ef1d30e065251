/-
The supply: the exact sum of balance and stake over all accounts, and what
a transaction can do to it.

A write exchanges the funds at its address (`Ledger.supply_putAccount`), so
the supply after an arm is the sum of what its writes add and remove, with
the addresses compared wherever two of them may be one.  Three families
keep a number in an account's balance or stake field (`TxBody.recorded`);
no other adds anything, outside the cases that `TxBody.Regular` leaves out.
-/
import ArcChain.State.Concrete
import ArcChain.State.Detached

namespace ArcChain

open Word StoreProg Ledger List Account

variable {t : Ledger}

/-! ## The supply of a ledger -/

namespace Account

variable {x : Account} {n : Nat}

@[simp] theorem funds_withBalance : (x.withBalance n).funds = n + x.stakedBalance := rfl
@[simp] theorem funds_bumped : x.bumped.funds = x.funds := rfl
@[simp] theorem funds_spend : (x.spend n).funds = x.balance - n + x.stakedBalance := rfl

/-- An amount moved from one account to another leaves their funds together as they were. -/
theorem funds_moved {y : Account} (h : n ≤ x.balance) :
    (x.withBalance (x.balance - n)).funds + (y.withBalance (y.balance + n)).funds =
      x.funds + y.funds := by
  rw [funds_withBalance, funds_withBalance, funds, funds]
  omega

end Account

namespace Ledger

/-- The exact sum of `balance + staked_balance` over all accounts. -/
def supply (s : Ledger) : Nat := FinMap.total Account.funds s.accounts

variable {s : Ledger} {a b : Address} {x : Account} {k N : Nat}

theorem weightAt_accounts : FinMap.weightAt funds s.accounts a = (s.accountOr a).funds := by
  unfold FinMap.weightAt accountOr
  cases s.accounts.lookup a with
  | none => rfl
  | some y => rfl

/-- **A write exchanges the funds at its address.** -/
theorem supply_putAccount :
    (s.putAccount a x).supply + (s.accountOr a).funds = s.supply + x.funds := by
  rw [← weightAt_accounts]
  exact FinMap.total_set funds s.accounts a (some x)

theorem supply_dropAccount : (s.dropAccount a).supply + (s.accountOr a).funds = s.supply := by
  rw [← weightAt_accounts]
  exact FinMap.total_set funds s.accounts a none

/-- An empty account adds nothing. -/
@[simp] theorem supply_ensure : (s.ensure a).supply = s.supply :=
  Nat.add_right_cancel (supply_putAccount (x := s.accountOr a))

/-- A write that keeps the stake of its account keeps every stake. -/
theorem stakedBalance_putAccount (h : x.stakedBalance = (s.accountOr a).stakedBalance) :
    ((s.putAccount a x).accountOr b).stakedBalance = (s.accountOr b).stakedBalance := by
  rw [accountOr_putAccount]
  split
  · subst b
    exact h
  · rfl

theorem balance_putAccount (h : x.balance = (s.accountOr a).balance) :
    ((s.putAccount a x).accountOr b).balance = (s.accountOr b).balance := by
  rw [accountOr_putAccount]
  split
  · subst b
    exact h
  · rfl

/-- Writes are moved to the other side of a bound, the last one first. -/
@[simp] theorem supply_putAccount_le :
    (s.putAccount a x).supply ≤ N ↔ s.supply + x.funds ≤ N + (s.accountOr a).funds := by
  have h := supply_putAccount (s := s) (a := a) (x := x)
  omega

@[simp] theorem supply_putAccount_add_le :
    (s.putAccount a x).supply + k ≤ N ↔ s.supply + (x.funds + k) ≤ N + (s.accountOr a).funds := by
  have h := supply_putAccount (s := s) (a := a) (x := x)
  omega

@[simp] theorem supply_dropAccount_le :
    (s.dropAccount a).supply ≤ N ↔ s.supply ≤ N + (s.accountOr a).funds := by
  have h := supply_dropAccount (s := s) (a := a)
  omega

section Moves

variable {y : Account} {n : Nat} {l : List (Address × Account)}

/-- The funds of a stored list that starts with a move of an amount. -/
theorem sum_funds_move (h : n ≤ x.balance) :
    (([(a, x.withBalance (x.balance - n)), (b, y.withBalance (y.balance + n))] ++ l).map
      fun e => e.2.funds).sum = x.funds + y.funds + (l.map fun e => e.2.funds).sum := by
  have hmoved := funds_moved (y := y) h
  simp only [cons_append, nil_append, map_cons, sum_cons]
  omega

/-- The funds at the addresses of such a list. -/
theorem sum_funds_at_move : (([(a, x), (b, y)] ++ l).map fun e => (s.accountOr e.1).funds).sum =
      (s.accountOr a).funds + (s.accountOr b).funds +
        (l.map fun e => (s.accountOr e.1).funds).sum := by
  simp only [cons_append, nil_append, map_cons, sum_cons]
  omega

end Moves

/-- **A commit to distinct addresses exchanges the funds there.** -/
theorem supply_putAccounts {l : List (Address × Account)} (h : (l.map Prod.fst).Nodup) :
    (s.putAccounts l).supply + (l.map fun e => (s.accountOr e.1).funds).sum =
      s.supply + (l.map fun e => e.2.funds).sum := by
  induction l generalizing s with
  | nil => rfl
  | cons e l ih =>
    rw [map_cons, nodup_cons] at h
    have hput := supply_putAccount (s := s) (a := e.1) (x := e.2)
    have hrest := ih (s := s.putAccount e.1 e.2) h.2
    -- the later addresses still hold what they held
    have hsame : (l.map fun e' => ((s.putAccount e.1 e.2).accountOr e'.1).funds) =
        l.map fun e' => (s.accountOr e'.1).funds := by
      apply map_congr_left
      intro e' he'
      have hne : e'.1 ≠ e.1 := fun heq => h.1 (heq ▸ mem_map_of_mem he')
      rw [accountOr_putAccount, if_neg hne]
    rw [hsame] at hrest
    simp only [map_cons, sum_cons]
    show ((s.putAccount e.1 e.2).putAccounts l).supply + _ = _
    omega

section Fields

variable {key : Hash256} {value : Bytes} {code : Option Bytes} {vs : FinMap Address Nat}
  {n : Nat} {o : Option Nat}

@[simp] theorem supply_putStorage : (s.putStorage a key value).supply = s.supply := rfl
@[simp] theorem supply_putContract : (s.putContract a code).supply = s.supply := rfl
@[simp] theorem supply_putValidators : (s.putValidators vs).supply = s.supply := rfl
@[simp] theorem supply_putStakingPool : (s.putStakingPool n).supply = s.supply := rfl
@[simp] theorem supply_putTier1Pending : (s.putTier1Pending key o).supply = s.supply := rfl
@[simp] theorem supply_putBondRelease : (s.putBondRelease n a).supply = s.supply := rfl

end Fields

end Ledger

theorem saturatingAdd_le (a b : Nat) : saturatingAdd a b ≤ a + b := min_le_left _ _

theorem wrappingAdd_le (a b : Nat) : wrappingAdd a b ≤ a + b := Nat.mod_le _ _

/-- A run that ends, however it ends, with the supply at most at a bound. -/
def SupplyAtMost {α : Type} (N : Nat) : Except StateError α → Ledger → List StateRecord → Prop :=
  fun _ t _ => t.supply ≤ N

@[simp] theorem supplyAtMost_iff {α : Type} {N : Nat} {r : Except StateError α}
    {l : List StateRecord} : SupplyAtMost N r t l ↔ t.supply ≤ N := Iff.rfl

/-! ## Payouts -/

section Payouts

variable {s : Ledger} {β : Type}

/-- A measure of the ledger that a credit raises by at most the credited amount. -/
def CreditBounded (add : Nat → Nat → Nat) (μ : Ledger → Nat) : Prop :=
  ∀ t a n, μ (t.putAccount a ((t.accountOr a).withBalance (add (t.accountOr a).balance n))) ≤ μ t + n

variable {add : Nat → Nat → Nat}

theorem creditBounded_supply (hadd : ∀ a b, add a b ≤ a + b) : CreditBounded add Ledger.supply := by
  intro t a n
  have h := hadd (t.accountOr a).balance n
  rw [supply_putAccount_le, funds_withBalance, funds]
  omega

/-- The supply outside one account. -/
theorem supply_dropAccount_credit (hadd : ∀ a b, add a b ≤ a + b)
    (e : Address) (t : Ledger) (a : Address) (n : Nat) :
    ((t.putAccount a ((t.accountOr a).withBalance (add (t.accountOr a).balance n))).dropAccount
      e).supply ≤ (t.dropAccount e).supply + n := by
  by_cases hae : a = e
  · subst hae
    rw [dropAccount_putAccount]
    exact Nat.le_add_right _ n
  · have hor : (t.dropAccount e).accountOr a = t.accountOr a := by
      simp [Ledger.accountOr, lookup_dropAccount, hae]
    have h := creditBounded_supply hadd (t.dropAccount e) a n
    rw [hor] at h
    rwa [dropAccount_putAccount_of_ne hae]

/-- **Loop of credits.**  A payout loop raises the measure by at most what it pays in all. -/
theorem wp_forEach_credit {μ : Ledger → Nat} (hμ : CreditBounded add μ)
    (recipient : β → Address) (amount : β → Nat) (l : List β) :
    wp (forEach l fun b => creditAccount add (recipient b) (amount b)) s
      fun r t _ => r = .ok () ∧ μ t ≤ μ s + (l.map amount).sum := by
  induction l generalizing s with
  | nil => exact ⟨rfl, le_refl _⟩
  | cons b l ih =>
    show wp (creditAccount add (recipient b) (amount b) >>= fun _ => forEach l _) s _
    rw [wp_creditAccount_bind]
    apply wp_mono ih
    rintro r t _ ⟨hok, hle⟩
    have hcredit := hμ s (recipient b) (amount b)
    refine ⟨hok, ?_⟩
    rw [map_cons, sum_cons]
    omega

end Payouts

section Arms

variable {c : Context} {s : Ledger} {tx : Transaction} {gas : GasMeter}

/-- The GPU cache holds no stale copy of the account. -/
def Context.Fresh (c : Context) (s : Ledger) (a : Address) : Prop :=
  c.accountOf s a = s.accounts.lookup a

theorem Context.Fresh.accountOrNew {a : Address} (h : c.Fresh s a) :
    c.accountOrNew s a = s.accountOr a := by
  rw [Context.accountOrNew, h, Ledger.accountOr]

variable {x : Account}

theorem Context.Fresh.accountOr {a : Address} (h : c.Fresh s a)
    (hx : c.accountOf s a = some x) : s.accountOr a = x := by
  rw [← h.accountOrNew, Context.accountOrNew_of_some hx]

/-! ## The arms -/

/-! ### Payments and staking -/

theorem supply_transfer (body : TransferBody) (hsender : c.Fresh s tx.sender)
    (hrecipient : c.Fresh s body.recipient) :
    wp (executeTransfer c tx body) s (SupplyAtMost s.supply) := by
  simp only [executeTransfer, wp_getAccount_bind, wp_ofOption_bind]
  refine ⟨fun x hx => ?_, fun _ => le_refl _⟩
  have hor := hsender.accountOr hx
  by_cases hself : body.recipient = tx.sender
  · simp [hself, hor, funds]
  · simp [hself, hor, hrecipient.accountOrNew, accountOr_putAccount, funds,
      checkedAdd_eq_some, checkedSub_eq_some]
    omega

theorem supply_settle (body : SettleBody) :
    wp (executeSettle tx body) s (SupplyAtMost s.supply) := by
  by_cases hself : body.agentId = tx.sender
  · simp [executeSettle, saturatingAdd, funds]
    omega
  · simp [executeSettle, saturatingAdd, funds]
    omega

theorem supply_swap (body : SwapBody)
    (h : body.counterparty = tx.sender → body.offerAmount ≤ body.receiveAmount) :
    wp (executeSwap tx body) s (SupplyAtMost s.supply) := by
  by_cases hself : body.counterparty = tx.sender
  · have hle := h hself
    simp [executeSwap, hself, saturatingAdd, funds]
    omega
  · simp [executeSwap, accountOr_putAccount, hself, saturatingAdd, funds]
    omega

theorem supply_escrow (body : EscrowBody)
    (h : body.isCreate = true ∨ body.amount = 0 ∨ body.beneficiary = tx.sender) :
    wp (executeEscrow tx body) s (SupplyAtMost s.supply) := by
  by_cases hself : tx.sender = body.beneficiary
  · simp [executeEscrow, hself, funds]
  simp [executeEscrow, accountOr_putAccount, saturatingAdd, funds]
  grind

theorem supply_stake (body : StakeBody) :
    wp (executeStake c tx body) s (SupplyAtMost s.supply) := by
  cases hstake : body.isStake with
  | true =>
    simp [executeStake, refuseRegistryChangeUnderNativeBinding, hstake, stakeFunds,
      requireTrackedStake, checkedAdd_eq_some, checkedSub_eq_some, funds]
    omega
  | false =>
    simp [executeStake, refuseRegistryChangeUnderNativeBinding, hstake, unstakeFunds,
      requireTrackedStake, checkedAdd_eq_some, checkedSub_eq_some, funds]
    omega

theorem sum_addCredit_le (credits : List (Address × Nat)) (agent : Address) (amount : Nat) :
    ((addCredit credits agent amount).map Prod.snd).sum ≤ (credits.map Prod.snd).sum + amount := by
  induction credits with
  | nil =>
    have hle := Nat.mod_le amount (2 ^ 64)
    simpa only [addCredit, map_cons, map_nil, sum_cons, sum_nil, zero_add, add_zero] using hle
  | cons e credits ih =>
    obtain ⟨a, n⟩ := e
    by_cases hagent : a = agent
    · have hle := wrappingAdd_le n amount
      simp [addCredit, hagent]
      omega
    · simp [addCredit, hagent]
      omega

/-- The summed credits are at most the entries' amounts. -/
theorem sum_netCredits_le (entries : List SettleEntry) :
    ((netCredits entries).map Prod.snd).sum ≤ (entries.map SettleEntry.amount).sum := by
  have hfold : ∀ credits : List (Address × Nat),
      ((entries.foldl (fun credits e => addCredit credits e.agentId e.amount) credits).map
        Prod.snd).sum ≤ (credits.map Prod.snd).sum + (entries.map SettleEntry.amount).sum := by
    induction entries with
    | nil => simp
    | cons e entries ih =>
      intro credits
      have hadd := sum_addCredit_le credits e.agentId e.amount
      have hrest := ih (addCredit credits e.agentId e.amount)
      simp only [foldl_cons, map_cons, sum_cons]
      omega
  simpa [netCredits] using hfold []

variable [Externals]

theorem supply_bridgeLock (body : BridgeLockBody) :
    wp (executeBridgeLock tx body) s (SupplyAtMost s.supply) := by
  by_cases hself : bridgeEscrowAddress = tx.sender
  · simp [executeBridgeLock, hself, funds]
  · simp [executeBridgeLock, funds]
    omega

theorem supply_batchSettle (body : BatchSettleBody)
    (h : (body.entries.map SettleEntry.amount).sum ≤ u64Max) :
    wp (executeBatchSettle tx body) s (SupplyAtMost s.supply) := by
  have hgross : grossAmount body.entries = (body.entries.map SettleEntry.amount).sum :=
    Nat.mod_eq_of_lt (Nat.lt_succ_of_le h)
  have hnet : ((Externals.mapOrder (netCredits body.entries)).map Prod.snd).sum ≤
      grossAmount body.entries := by
    rw [hgross, ((Externals.mapOrder_perm _).map Prod.snd).sum_eq]
    exact sum_netCredits_le body.entries
  simp [executeBatchSettle]
  intro _ _ _ hcover
  refine wp_mono (wp_forEach_credit (creditBounded_supply saturatingAdd_le) Prod.fst Prod.snd _) ?_
  have hput := supply_putAccount (s := s) (a := tx.sender)
    (x := (s.accountOr tx.sender).spend (grossAmount body.entries))
  simp [funds] at hput
  omega

/-! ### Channels -/

theorem supply_channelOpen (body : ChannelOpenBody) :
    wp (executeChannelOpen tx body) s (SupplyAtMost s.supply) := by
  by_cases hself : channelEscrowAddress body.channelId = tx.sender
  · simp [executeChannelOpen, hself, funds]
  · simp [executeChannelOpen, funds]
    omega

theorem supply_channelClose (body : ChannelCloseBody)
    (hne : tx.sender ≠ channelEscrowAddress body.channelId)
    (hsum : body.openerBalance + body.counterpartyBalance ≤ u64Max) :
    wp (executeChannelClose c tx body) s (SupplyAtMost s.supply) := by
  have hclaimed : saturatingAdd body.openerBalance body.counterpartyBalance =
      body.openerBalance + body.counterpartyBalance := min_eq_left hsum
  -- both parties' shares come out of the emptied escrow
  let stored := ((s.ensure tx.sender).putAccount (channelEscrowAddress body.channelId)
    ((s.accountOr (channelEscrowAddress body.channelId)).withBalance 0)).putAccount tx.sender
      ((s.accountOr tx.sender).withBalance
        (wrappingAdd (s.accountOr tx.sender).balance body.openerBalance)).bumped
  have hstored : body.openerBalance + body.counterpartyBalance ≤
      (s.accountOr (channelEscrowAddress body.channelId)).balance →
        stored.supply + body.counterpartyBalance ≤ s.supply := by
    have hopener := wrappingAdd_le (s.accountOr tx.sender).balance body.openerBalance
    simp [stored, accountOr_putAccount, hne, funds]
    omega
  simp [executeChannelClose, hclaimed, -supply_putAccount_le]
  intro _ _ _ hle
  exact ⟨fun _ _ => (creditBounded_supply wrappingAdd_le stored _ _).trans (hstored hle),
    fun _ => (Nat.le_add_right _ _).trans (hstored hle)⟩

/-! ### Inference -/

theorem supply_inferenceAttestation (body : InferenceAttestationBody) (h : c.Fresh s tx.sender) :
    wp (executeInferenceAttestation c tx body) s (SupplyAtMost s.supply) := by
  by_cases hself : attestEscrowAddress tx.hash = tx.sender
  · -- an escrow that does not exist yet holds nothing to bond
    have hempty : s.accounts.lookup tx.sender = none → (s.accountOr tx.sender).balance = 0 := by
      intro hnone
      rw [Ledger.accountOr, hnone]
      rfl
    simp [executeInferenceAttestation, h.accountOrNew, checkedSub_eq_some,
      funds]
    grind
  · simp [executeInferenceAttestation, h.accountOrNew, checkedSub_eq_some,
      attestEscrow, funds]
    omega

theorem supply_inferenceChallenge (body : InferenceChallengeBody)
    (h : tx.sender ≠ attestEscrowAddress body.attestationHash ∨ body.challengerBond = 0) :
    wp (executeInferenceChallenge tx body) s (SupplyAtMost s.supply) := by
  by_cases hself : attestEscrowAddress body.attestationHash = tx.sender
  · simp [executeInferenceChallenge, hself, wrappingAdd, funds]
    grind
  · simp [executeInferenceChallenge, accountOr_putAccount, hself, wrappingAdd, funds]
    omega

theorem supply_inferenceEscrowOpen (body : InferenceEscrowOpenBody) :
    wp (executeInferenceEscrowOpen c tx body) s (SupplyAtMost s.supply) := by
  by_cases hself : InferenceEscrowOpenBody.escrowAddress body.requestId = tx.sender
  · simp [executeInferenceEscrowOpen, hself, funds]
    omega
  · simp [executeInferenceEscrowOpen, accountOr_putAccount, hself, funds]
    omega

theorem supply_inferenceEscrowRefund (body : InferenceEscrowRefundBody) :
    wp (executeInferenceEscrowRefund c tx body) s (SupplyAtMost s.supply) := by
  by_cases hself : InferenceEscrowOpenBody.escrowAddress body.requestId = tx.sender
  · simp [executeInferenceEscrowRefund, hself, funds]
  · simp [executeInferenceEscrowRefund, accountOr_putAccount, hself, wrappingAdd, funds]
    omega

omit [Externals] in
theorem percentShare_le (total percent : Nat) : percentShare total percent ≤ total * percent / 100 :=
  Nat.div_le_div_right (Nat.mod_le _ _)

omit [Externals] in
/-- A payout raises the supply outside any one account by at most the paid total. -/
theorem supply_payRelease (body : InferenceEscrowReleaseBody) (total : Nat) (e : Address) :
    wp (payRelease body total) s fun r t _ =>
      r = .ok () ∧ (t.dropAccount e).supply ≤ (s.dropAccount e).supply + total := by
  have hμ := supply_dropAccount_credit wrappingAdd_le e
  simp only [payRelease, wp_creditAccount_bind]
  rw [wp_bind]
  refine wp_mono (wp_forEach_credit (μ := fun t => (t.dropAccount e).supply) hμ id
    (fun _ => percentShare total 25 / body.replicas.length) body.replicas) ?_
  rintro r t _ ⟨rfl, hloop⟩
  simp only [wp_creditAccount_bind, wp_creditAccount]
  refine ⟨trivial, (hμ _ _ _).trans ?_⟩
  have hproposer := hμ s body.proposer (percentShare total 40)
  have hobserver := hμ t body.observerPool (percentShare total 15)
  have hreplicas := Nat.div_mul_le_self (percentShare total 25) body.replicas.length
  have h40 := percentShare_le total 40
  have h25 := percentShare_le total 25
  have h15 := percentShare_le total 15
  simp only [map_const', sum_replicate_nat, mul_comm] at hloop hreplicas ⊢
  omega

omit [Externals] in
/-- Clearing an account that held a total, after a payout of at most that total. -/
theorem supply_cleared_le {e : Address}
    (hpaid : (t.dropAccount e).supply ≤ (s.dropAccount e).supply + (s.accountOr e).balance)
    (hx : x.funds = (s.accountOr e).stakedBalance) : (t.putAccount e x).supply ≤ s.supply := by
  have hput := supply_putAccount (s := t) (a := e) (x := x)
  have hdrop := supply_dropAccount (s := t) (a := e)
  have hstart := supply_dropAccount (s := s) (a := e)
  rw [show (s.accountOr e).funds = (s.accountOr e).balance + (s.accountOr e).stakedBalance from rfl]
    at hstart
  omega

theorem supply_inferenceEscrowRelease (body : InferenceEscrowReleaseBody) :
    wp (executeInferenceEscrowRelease tx body) s (SupplyAtMost s.supply) := by
  simp [executeInferenceEscrowRelease]
  intro _ _ _ _
  rw [wp_bind]
  refine wp_mono (supply_payRelease body _ (InferenceEscrowOpenBody.escrowAddress body.requestId)) ?_
  rintro r t _ ⟨rfl, hpaid⟩
  let escrow := InferenceEscrowOpenBody.escrowAddress body.requestId
  let opened := ((s.ensure tx.sender).ensure escrow).putAccount tx.sender
    (s.accountOr tx.sender).bumped
  have hsupply : opened.supply ≤ s.supply := by simp [opened]
  have hbalance : (opened.accountOr escrow).balance = (s.accountOr escrow).balance := by
    simp [opened, balance_putAccount]
  have hstake : (opened.accountOr escrow).stakedBalance = (s.accountOr escrow).stakedBalance := by
    simp [opened, stakedBalance_putAccount]
  refine (supply_cleared_le (s := opened) ?_ ?_).trans hsupply
  · rw [hbalance]
    exact hpaid
  · rw [hstake]
    exact zero_add _

theorem supply_modelRegistration (body : ModelRegistrationBody) :
    wp (executeModelRegistration c tx body) s (SupplyAtMost s.supply) := by
  simp [executeModelRegistration, -supply_putAccount_le]
  intro _ _ hcover _
  -- the fee moves from the sender to the treasury, then the registry's balance is cleared
  let registry := ModelRegistrationBody.registryAccount body.modelId
  let spent := ((s.ensure tx.sender).ensure registry).putAccount tx.sender
    ((s.accountOr tx.sender).spend body.fee)
  let paid := spent.putAccount v3FeeTreasuryAddress ((spent.accountOr v3FeeTreasuryAddress).withBalance
    (wrappingAdd (spent.accountOr v3FeeTreasuryAddress).balance body.fee))
  have hspent : spent.supply + body.fee ≤ s.supply := by
    simp [spent, funds]
    omega
  have hpaid : paid.supply ≤ spent.supply + body.fee :=
    creditBounded_supply wrappingAdd_le spent v3FeeTreasuryAddress body.fee
  have hstake : (paid.accountOr registry).stakedBalance = (s.accountOr registry).stakedBalance := by
    simp [paid, spent, stakedBalance_putAccount]
  show (paid.putAccount registry _).supply ≤ s.supply
  rw [supply_putAccount_le, funds, funds, hstake]
  simp only [registry]
  omega

theorem supply_shardCoverageClaim (body : ShardCoverageClaimBody) :
    wp (executeShardCoverageClaim c tx body) s (SupplyAtMost s.supply) := by
  by_cases hself : ShardCoverageClaimBody.claimAccount body.modelId body.nodePubkey = tx.sender
  · simp [executeShardCoverageClaim, funds]
    omega
  · simp [executeShardCoverageClaim, funds]
    omega

/-! ### Tier 1 requests -/

theorem supply_inferenceRequest (body : InferenceRequestBody) :
    wp (executeInferenceRequest c tx body) s (SupplyAtMost s.supply) := by
  by_cases hself : tier1EscrowAddress body.requestId = tx.sender
  · simp [executeInferenceRequest, checkTier1Request, funds]
    omega
  · simp [executeInferenceRequest, checkTier1Request, funds]
    omega

theorem supply_inferenceVote (body : InferenceVoteBody) :
    wp (executeInferenceVote tx body) s (SupplyAtMost s.supply) := by
  by_cases hself : tier1EscrowAddress body.requestId = tx.sender <;>
    cases hblob : body.outputBlob <;>
    simp [executeInferenceVote, checkOutputBlob, storeOutputBlob, withTier1Status, hself, hblob,
      accountOr_putAccount, funds]

omit [Externals] in
theorem bpsShare_le (reward bps : Nat) : bpsShare reward bps ≤ reward * bps / 10000 :=
  Nat.div_le_div_right (Nat.mod_le _ _)

theorem supply_payAgreed (escrow requester : Address) (votes : List (Address × Hash256))
    (output : Hash256) (maxReward : Nat) (e : Address) :
    wp (payAgreed escrow requester votes output maxReward) s fun r t _ =>
      r = .ok () ∧ (t.dropAccount e).supply ≤ (s.dropAccount e).supply + maxReward := by
  have hμ := supply_dropAccount_credit saturatingAdd_le e
  let agreeing := (votes.filter fun v => v.2 = output).map Prod.fst
  let perVoter := if agreeing = [] then 0 else bpsShare maxReward 7000 / agreeing.length
  have hvoters : perVoter * agreeing.length ≤ bpsShare maxReward 7000 := by
    simp only [perVoter]
    split
    · simp
    · exact Nat.div_mul_le_self _ _
  unfold payAgreed
  rw [wp_bind]
  refine wp_mono (wp_forEach_credit (μ := fun t => (t.dropAccount e).supply) hμ id
    (fun _ => perVoter) agreeing) ?_
  rintro r t _ ⟨rfl, hloop⟩
  simp only [wp_creditAccount_bind, wp_setStorage]
  refine ⟨trivial, (hμ _ _ _).trans ?_⟩
  have hrequester := hμ t requester (bpsShare maxReward 2000)
  have h70 := bpsShare_le maxReward 7000
  have h20 := bpsShare_le maxReward 2000
  have h10 := bpsShare_le maxReward 1000
  simp only [map_const', sum_replicate_nat, mul_comm agreeing.length] at hloop
  show _ + (bpsShare maxReward 1000 + (maxReward - (bpsShare maxReward 7000 +
    bpsShare maxReward 2000 + bpsShare maxReward 1000)) +
      (bpsShare maxReward 7000 - perVoter * agreeing.length)) ≤ _
  omega

theorem supply_refundDisagreed (requester : Address) (maxReward : Nat) (e : Address) :
    wp (refundDisagreed requester maxReward) s fun r t _ =>
      r = .ok () ∧ (t.dropAccount e).supply ≤ (s.dropAccount e).supply + maxReward := by
  have hμ := supply_dropAccount_credit saturatingAdd_le e
  have hrequester := hμ s requester (maxReward - min 1 maxReward)
  simp only [refundDisagreed, wp_creditAccount_bind, wp_ite, wp_creditAccount, wp_pure]
  refine ⟨fun _ => ⟨trivial, (hμ _ _ _).trans ?_⟩, fun _ => ⟨trivial, hrequester.trans ?_⟩⟩
  · omega
  · omega

/-- A settlement raises the supply outside any one account by at most the reward. -/
theorem supply_settleRequest (escrow requester : Address) (votes : List (Address × Hash256))
    (committeeSize maxReward : Nat) (e : Address) :
    wp (settleRequest escrow requester votes committeeSize maxReward) s fun r t _ =>
      (∃ status, r = .ok status) ∧
        (t.dropAccount e).supply ≤ (s.dropAccount e).supply + maxReward := by
  simp only [settleRequest, wp_ite]
  constructor
  · intro _
    rw [wp_bind]
    refine wp_mono (supply_payAgreed escrow requester votes _ maxReward e) ?_
    rintro r t _ ⟨rfl, hle⟩
    exact ⟨⟨_, rfl⟩, hle⟩
  · intro _
    rw [wp_bind]
    refine wp_mono (supply_refundDisagreed requester maxReward e) ?_
    rintro r t _ ⟨rfl, hle⟩
    exact ⟨⟨_, rfl⟩, hle⟩

theorem supply_inferenceFinalize (body : InferenceFinalizeBody) :
    wp (executeInferenceFinalize c tx body) s (SupplyAtMost s.supply) := by
  simp [executeInferenceFinalize]
  intro _ _ _ _ _
  rw [wp_bind]
  refine wp_mono (supply_settleRequest _ _ _ _ _ (tier1EscrowAddress body.requestId)) ?_
  rintro r t _ ⟨⟨status, rfl⟩, hpaid⟩
  let opened := (s.putAccount tx.sender (s.accountOr tx.sender).bumped).ensure
    (tier1EscrowAddress body.requestId)
  have hsupply : opened.supply ≤ s.supply := by simp [opened]
  refine (supply_cleared_le (s := opened) ?_ ?_).trans hsupply
  · simpa [opened] using hpaid
  · simp [opened, withTier1Status]

/-! ### Contracts -/

omit [Externals] in
/-- Storage writes leave the accounts alone. -/
theorem wp_forEach_setStorage (a : Address) (writes : List (Hash256 × Bytes)) :
    wp (forEach writes fun w => setStorage a w.1 w.2) s
      fun r t _ => r = .ok () ∧ t.accounts = s.accounts :=
  wp_forEach (I := fun t : Ledger => t.accounts = s.accounts) (fun _ _ _ ht => ⟨rfl, ht⟩) rfl

omit [Externals] in
theorem supply_congr (h : t.accounts = s.accounts) : t.supply = s.supply := by
  rw [Ledger.supply, Ledger.supply, h]

omit [Externals] in
theorem accountOr_congr (h : t.accounts = s.accounts) (a : Address) :
    t.accountOr a = s.accountOr a := by
  rw [Ledger.accountOr, Ledger.accountOr, h]

omit [Externals] in
/-- The end of a call, from the ledger `t` in which the value has been sent: it is enough that
    the bound holds there unless the call stays within its gas, and once the sender's copy is
    stored, spent or put back. -/
theorem supply_finishWasmCall {body : WasmCallBody} {sender : Account} {N : Nat}
    (outcome : WasmOutcome)
    (hstuck : (∀ used result, used ≤ body.wasmGasLimit → outcome ≠ .called false used result) →
      t.supply ≤ N) (hstored : t.supply + sender.funds ≤ N + (t.accountOr tx.sender).funds)
    (hreverted : wp (revertCallValue tx body sender) t (SupplyAtMost N)) :
    wp (finishWasmCall tx body sender gas outcome) t (SupplyAtMost N) := by
  cases outcome with
  | compileError | instantiateError | functionMissing => exact hstuck (by simp)
  | called outOfGas used result =>
    simp only [finishWasmCall, wp_require_bind]
    refine ⟨?_, fun hgas => hstuck ?_⟩
    · rintro ⟨rfl, hle⟩
      cases result with
      | ok writes =>
        simp only [wp_bind]
        refine wp_mono (wp_forEach_setStorage body.contract writes) ?_
        rintro r u _ ⟨rfl, hu⟩
        simp [supply_congr hu, accountOr_congr hu]
        exact hstored
      | error e =>
        simp only [wp_bind]
        refine wp_mono hreverted ?_
        rintro r u _ hle
        cases r with
        | ok | error => exact hle
    · rintro used' result' hle heq
      simp only [WasmOutcome.called.injEq] at heq
      exact hgas ⟨heq.1, heq.2.1 ▸ hle⟩

theorem supply_wasmCall (body : WasmCallBody) (hfresh : c.Fresh s tx.sender)
    (h : body.value ≤ (s.accountOr body.contract).balance ∨ ∃ gasUsed result,
      gasUsed ≤ body.wasmGasLimit ∧
        Externals.runWasm (body.input c tx ((s.contracts.lookup body.contract).getD [])
          (s.storage.lookup body.contract)) = .called false gasUsed result) :
    wp (executeWasmCall c tx body gas) s (SupplyAtMost s.supply) := by
  cases hcode : s.contracts.lookup body.contract with
  | none => simp [executeWasmCall, hcode]
  | some code =>
    rw [hcode] at h
    by_cases hvalue : 0 < body.value
    · simp [executeWasmCall, hcode, sendCallValue, hvalue, hfresh.accountOrNew]
      intro _ _ hcover
      refine supply_finishWasmCall _ (fun hstuck => ?_) ?_ ?_
      · -- the contract's balance was set, the sender not debited
        rcases h with hle | ⟨used, result, hused, hrun⟩
        · simp [funds]
          omega
        · exact absurd hrun (hstuck used result hused)
      · by_cases hself : tx.sender = body.contract
        · simp [← hself, funds]
          omega
        · simp [accountOr_putAccount, hself, funds]
          omega
      · by_cases hself : body.contract = tx.sender
        · simp [revertCallValue, hvalue, lookup_putAccount, hself, funds]
        · have hself' : tx.sender ≠ body.contract := fun heq => hself heq.symm
          simp [revertCallValue, lookup_putAccount, accountOr_putAccount,
            hself, hself', funds]
          omega
    · simp [executeWasmCall, hcode, sendCallValue, hvalue, hfresh.accountOrNew]
      intro _ _
      refine supply_finishWasmCall _ (fun _ => le_refl _) (le_refl _) ?_
      simp [revertCallValue, hvalue]

omit [Externals] in
/-- The end of a deployment: the sender's copy is stored unless the constructor fails, and a
    failed constructor only removes an account. -/
theorem supply_finishConstructor_bind {α : Type} {contract : Address} {a : α}
    {N : Nat} (outcome : WasmOutcome) (ht : t.supply ≤ N)
    (hstored : t.supply + x.funds ≤ N + (t.accountOr tx.sender).funds) :
    wp (finishConstructor contract outcome >>= fun _ => storeAccount tx.sender x >>= fun _ => pure a)
      t (SupplyAtMost N) := by
  cases outcome with
  | compileError | instantiateError => exact ht
  | functionMissing e => simpa [finishConstructor] using hstored
  | called outOfGas used result =>
    simp only [finishConstructor, wp_bind_assoc, wp_require_bind]
    refine ⟨fun _ => ?_, fun _ => ht⟩
    cases result with
    | ok writes =>
      rw [wp_bind]
      refine wp_mono (wp_forEach_setStorage contract writes) ?_
      rintro r u _ ⟨rfl, hu⟩
      simpa [supply_congr hu, accountOr_congr hu] using hstored
    | error e =>
      simp
      omega

theorem supply_deployContract (body : DeployBody) :
    wp (executeDeployContract c tx body gas) s (SupplyAtMost s.supply) := by
  let contract := computeContractAddress tx.sender tx.nonce
  let deployed := ((s.ensure tx.sender).putContract contract (some body.bytecode)).putAccount
    contract (newContract contract (hashBytes body.bytecode))
  let spent := (s.accountOr tx.sender).spend (wrappingAdd tx.fee body.stateRentDeposit)
  have hdeployed : deployed.supply ≤ s.supply := by
    simp [deployed, newContract, funds]
  have hstored : deployed.supply + spent.funds ≤ s.supply + (deployed.accountOr tx.sender).funds := by
    by_cases hself : tx.sender = contract
    · simp [deployed, spent, ← hself, newContract, funds]
    · simp [deployed, spent, accountOr_putAccount, hself, newContract, funds]
      omega
  simp only [executeDeployContract, wp_openSender_bind, wp_requireBalance_bind, wp_require_bind,
    wp_chargeGas_bind, wp_deployContract_bind, supplyAtMost_iff,
    supply_ensure, le_refl, implies_true, and_true]
  intro _ _ _ _
  by_cases hargs : body.constructorArgs = []
  · simpa [hargs, deployed, spent] using hstored
  · simp only [hargs]
    exact supply_finishConstructor_bind _ hdeployed hstored

/-! ### Faucet claims and rewards -/

omit [Externals] in
/-- A commit to distinct addresses whose accounts hold no more than before. -/
theorem supply_of_commits {P : List (Address × Account) → Prop} {arm : Exec Unit}
    (h : wp arm s (Commits s P)) (hnodup : ∀ l, P l → (l.map Prod.fst).Nodup)
    (hle : ∀ l, P l → (l.map fun e => e.2.funds).sum ≤
      (l.map fun e => (s.accountOr e.1).funds).sum) : wp arm s (SupplyAtMost s.supply) := by
  refine wp_mono h ?_
  intro r t _ hc
  cases r with
  | error e => exact hc.1 ▸ le_refl _
  | ok u =>
    obtain ⟨l, hP, rfl, _⟩ := hc
    have hsupply := supply_putAccounts (s := s) (hnodup l hP)
    have := hle l hP
    show (s.putAccounts l).supply ≤ s.supply
    omega

theorem supply_faucetClaim (body : FaucetClaimBody) (hrecipient : c.Fresh s body.recipient)
    (hpool : c.Fresh s faucetPoolAddress) :
    wp (executeFaucetClaim c tx body) s (SupplyAtMost s.supply) := by
  refine supply_of_commits (commits_faucetClaim body) (fun _ hP => hP.nodup) fun l hP => ?_
  have hcovers := hP.covers
  have hstored := hP.stored
  rw [hrecipient.accountOrNew, hpool.accountOrNew] at hstored
  rw [hpool.accountOrNew] at hcovers
  rw [hstored]
  refine (sum_funds_move (l := [_]) hcovers).trans_le ?_
  exact (Nat.le_add_right _ _).trans_eq sum_funds_at_move.symm

omit [Externals] in
theorem funds_rewardMarkers (m : RewardMarkers) (body : CommunityInferenceRewardBody) :
    ((m.accounts body).map fun e => e.2.funds).sum = 0 := by
  cases hprobe : m.probe <;> simp [RewardMarkers.accounts, hprobe, markerAccount, funds]

theorem supply_communityInferenceReward (hlegacy : c.Legacy) (body : CommunityInferenceRewardBody)
    (hworker : c.Fresh s body.worker) (htreasury : c.Fresh s inferenceRewardTreasuryAddress) :
    wp (executeCommunityInferenceReward c tx body) s (SupplyAtMost s.supply) := by
  refine supply_of_commits (commits_communityInferenceReward body) (fun _ hP => hP.nodup)
    fun l hP => ?_
  obtain ⟨budgets, hbudgets, hstored⟩ := hP.stored
  have hcovers := hP.covers
  obtain rfl : [] = budgets := by
    simp only [rewardBudgets, hlegacy.protocolV3] at hbudgets
    exact Except.ok.inj hbudgets
  have hmarkers := funds_rewardMarkers (rewardMarkers c body) body
  rw [hworker.accountOrNew, htreasury.accountOrNew, append_nil] at hstored
  rw [htreasury.accountOrNew] at hcovers
  rw [hstored, sum_funds_move hcovers, sum_funds_at_move, hmarkers]
  exact Nat.le_add_right _ _

/-! ## What a family adds, and the cases left out -/

/-- The number a family keeps in a balance or stake field without moving funds: the end of a
    challenge period, the fingerprint of a proof, the weight of a model request. -/
def TxBody.recorded (c : Context) : TxBody → Nat
  | .channelDispute body => wrappingAdd c.height body.challengePeriod
  | .shardProof body => proofFingerprint body
  | .modelRequest body => body.bondPerLayerEpoch
  | _ => 0

/-- A transaction outside the cases in which the source mints by an oversight. -/
def TxBody.Regular (c : Context) (s : Ledger) (tx : Transaction) : TxBody → Prop
  | .transfer body => c.Fresh s tx.sender ∧ c.Fresh s body.recipient
  | .swap body => body.counterparty = tx.sender → body.offerAmount ≤ body.receiveAmount
  | .escrow body => body.isCreate = true ∨ body.amount = 0 ∨ body.beneficiary = tx.sender
  | .wasmCall body => c.Fresh s tx.sender ∧
      (body.value ≤ (s.accountOr body.contract).balance ∨ ∃ gasUsed result,
        gasUsed ≤ body.wasmGasLimit ∧
          Externals.runWasm (body.input c tx ((s.contracts.lookup body.contract).getD [])
            (s.storage.lookup body.contract)) = .called false gasUsed result)
  | .batchSettle body => (body.entries.map SettleEntry.amount).sum ≤ u64Max
  | .channelClose body => tx.sender ≠ channelEscrowAddress body.channelId ∧
      body.openerBalance + body.counterpartyBalance ≤ u64Max
  | .inferenceAttestation _ => c.Fresh s tx.sender
  | .communityInferenceReward body =>
    c.Fresh s body.worker ∧ c.Fresh s inferenceRewardTreasuryAddress
  | .inferenceChallenge body =>
    tx.sender ≠ attestEscrowAddress body.attestationHash ∨ body.challengerBond = 0
  | .faucetClaim body => c.Fresh s body.recipient ∧ c.Fresh s faucetPoolAddress
  | _ => True

theorem supply_executeBody (h : c.Legacy) (body : TxBody)
    (hmint : ∀ mint, body ≠ .bridgeMint mint) (hregular : body.Regular c s tx) :
    wp (executeBody c tx gas body) s (SupplyAtMost (s.supply + body.recorded c)) := by
  have hflat : ∀ {N : Nat} {arm : Exec Unit}, wp arm s (SupplyAtMost N) →
      wp (flatGas gas arm) s (SupplyAtMost N) := by
    intro N arm harm
    simp only [flatGas, wp_bind]
    refine wp_mono harm ?_
    intro r t l ht
    cases r with
    | ok | error => exact ht
  cases body with
  | multiSig | registerAgent | claimRewards | governance | capacityAdvertisement
  | shardAssignmentProposal =>
    -- nothing is credited
    refine hflat ?_
    simp [executeMultiSig, executeRegisterAgent, executeClaimRewards, executeGovernance,
      executeNonceOnly, executeCapacityAdvertisement, executeShardAssignmentProposal,
      funds, TxBody.recorded]
  | joinValidator | leaveValidator | updateStake =>
    -- what leaves the balance is staked, and the other way round
    refine hflat ?_
    simp [executeJoinValidator, executeLeaveValidator, executeUpdateStake,
      refuseRegistryChangeUnderNativeBinding, returnStake, adjustStake, requireTrackedStake,
      checkedAdd_eq_some, checkedSub_eq_some, funds]
    omega
  | channelDispute | shardProof | inferenceRegister | modelRequest =>
    refine hflat ?_
    simp [executeChannelDispute, executeShardProof, executeInferenceRegister, executeModelRequest,
      wrappingAdd, funds, TxBody.recorded]
    omega
  | transfer body =>
    refine hflat ?_
    rw [h.protocolV3]
    exact supply_transfer body hregular.1 hregular.2
  | settle body => exact hflat (supply_settle body)
  | swap body => exact hflat (supply_swap body hregular)
  | escrow body => exact hflat (supply_escrow body hregular)
  | stake body => exact hflat (supply_stake body)
  | wasmCall body => exact supply_wasmCall body hregular.1 hregular.2
  | deployContract body => exact supply_deployContract body
  | bridgeLock body => exact hflat (supply_bridgeLock body)
  | bridgeMint body => exact absurd rfl (hmint body)
  | batchSettle body => exact hflat (supply_batchSettle body hregular)
  | channelOpen body => exact hflat (supply_channelOpen body)
  | channelClose body => exact hflat (supply_channelClose body hregular.1 hregular.2)
  | inferenceAttestation body => exact hflat (supply_inferenceAttestation body hregular)
  | communityInferenceReward body =>
    exact hflat (supply_communityInferenceReward h body hregular.1 hregular.2)
  | inferenceChallenge body => exact hflat (supply_inferenceChallenge body hregular)
  | inferenceEscrowOpen body => exact hflat (supply_inferenceEscrowOpen body)
  | inferenceEscrowRelease body => exact hflat (supply_inferenceEscrowRelease body)
  | inferenceEscrowRefund body => exact hflat (supply_inferenceEscrowRefund body)
  | modelRegistration body => exact hflat (supply_modelRegistration body)
  | shardCoverageClaim body => exact hflat (supply_shardCoverageClaim body)
  | faucetClaim body => exact hflat (supply_faucetClaim body hregular.1 hregular.2)
  | inferenceRequest body => exact hflat (supply_inferenceRequest body)
  | inferenceVote body => exact hflat (supply_inferenceVote body)
  | inferenceFinalize body => exact hflat (supply_inferenceFinalize body)
  | nativeInferenceRequest | nativeInferenceFinalize | nativeInferenceRefund => exact le_refl _

end Arms

namespace Sample

/-- A model request that names a bond of 7. -/
def modelRequest : Transaction :=
  tx 1 0 (.modelRequest
    { requestId := address 20, modelId := address 21, targetKReplication := 2,
      bondPerLayerEpoch := 7, maxWaitSecs := 60 })

/-- A settlement of 30 with another account. -/
def settlement : Transaction :=
  tx 1 0 (.settle
    { agentId := address 2, serviceHash := .zero, amount := 30, usageUnits := 1,
      amountCommitment := none })

end Sample

end ArcChain
