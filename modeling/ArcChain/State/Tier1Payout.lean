/-
What `InferenceFinalize` pays out of a request's escrow.

The payout is a list of credits, any of which may go to the same account:
a share to every agreeing voter, a refund to the requester and the rest to
the faucet pool.  The credits add up to the reward whatever the basis-point
products wrap to, since what the shares leave over is taken by subtraction.
A credit saturates, so an account receives what it is due as long as that
fits beside its balance (`Pays`).
-/
import ArcChain.State.Supply
import ArcChain.State.Verdict

namespace ArcChain

open Word StoreProg Ledger Sample

/-! ## Exact credits -/

/-- Unless a balance overflows, every account receives what it is due, and the supply grows by
    the total. -/
def Pays (due : Address → Nat) (total : Nat) (s t : Ledger) : Prop :=
  (∀ a, (s.accountOr a).balance + due a ≤ u64Max) →
    (∀ a, (t.accountOr a).balance = (s.accountOr a).balance + due a ∧
      (t.accountOr a).stakedBalance = (s.accountOr a).stakedBalance) ∧
    t.supply = s.supply + total

namespace Pays

variable {s t u : Ledger} {due due' : Address → Nat} {total total' : Nat}

theorem of_total (h : total = total') (hpays : Pays due total s t) : Pays due total' s t :=
  h ▸ hpays

theorem refl : Pays (fun _ => 0) 0 s s := fun _ => ⟨fun _ => ⟨rfl, rfl⟩, rfl⟩

theorem trans (h : Pays due total s t) (h' : Pays due' total' t u) :
    Pays (fun a => due a + due' a) (total + total') s u := by
  intro hfits
  obtain ⟨hfirst, hsupply⟩ := h fun a => by
    have hboth := hfits a
    dsimp only at hboth
    omega
  obtain ⟨hsecond, hsupply'⟩ := h' fun a => by
    rw [(hfirst a).1, add_assoc]
    exact hfits a
  refine ⟨fun a => ?_, by omega⟩
  rw [(hsecond a).1, (hsecond a).2, (hfirst a).1, (hfirst a).2]
  exact ⟨add_assoc _ _ _, rfl⟩

/-- One credit. -/
theorem credit (a : Address) (n : Nat) : Pays (fun b => if b = a then n else 0) n s (s.putAccount a
      ((s.accountOr a).withBalance (saturatingAdd (s.accountOr a).balance n))) := by
  intro hfits
  have hsum : saturatingAdd (s.accountOr a).balance n = (s.accountOr a).balance + n := by
    have hself := hfits a
    simp only [if_true] at hself
    exact min_eq_left hself
  rw [hsum]
  refine ⟨fun b => ?_, ?_⟩
  · rw [accountOr_putAccount]
    by_cases hb : b = a <;> simp [hb]
  · have hput := supply_putAccount (s := s) (a := a)
      (x := (s.accountOr a).withBalance ((s.accountOr a).balance + n))
    rw [Account.funds_withBalance, Account.funds] at hput
    omega

/-- A loop of equal credits. -/
theorem forEach_credit (l : List Address) (n : Nat) :
    wp (forEach l fun a => creditAccount saturatingAdd a n) s fun r t _ =>
      r = .ok () ∧ Pays (fun a => n * l.count a) (n * l.length) s t := by
  induction l generalizing s with
  | nil => exact ⟨rfl, refl⟩
  | cons a l ih =>
    show wp (creditAccount saturatingAdd a n >>= fun _ => forEach l _) s _
    rw [wp_creditAccount_bind]
    apply wp_mono ih
    rintro r t _ ⟨hok, hpays⟩
    refine ⟨hok, ?_⟩
    have hall := (credit a n).trans hpays
    have hdue : (fun b => (if b = a then n else 0) + n * l.count b) =
        fun b => n * (a :: l).count b := by
      funext b
      rw [List.count_cons, Nat.mul_add, add_comm]
      by_cases hb : b = a
      · simp [hb]
      · simp [hb, Ne.symm hb]
    rwa [hdue, add_comm] at hall

end Pays

/-! ## The payout of a request -/

/-- The credits of a settlement. -/
structure Tier1Payout where
  agreeing : List Address
  share : Nat
  refund : Nat
  rest : Nat

/-- What an account is due. -/
def Tier1Payout.due [Crypto] (p : Tier1Payout) (requester a : Address) : Nat :=
  p.share * p.agreeing.count a + (if a = requester then p.refund else 0) +
    if a = faucetPoolAddress then p.rest else 0

section Payout

variable [Externals] {c : Context} {s : Ledger} {tx : Transaction}

/-- The credits for the votes on a request. -/
def tier1Payout (votes : List (Address × Hash256)) (committeeSize maxReward : Nat) :
    Tier1Payout :=
  match decidedOutput committeeSize (Externals.mapOrder (tallyVotes votes)) with
  | some output =>
    let agreeing := (votes.filter fun v => v.2 = output).map Prod.fst
    let votersPool := bpsShare maxReward 7000
    let refund := bpsShare maxReward 2000
    let treasury := bpsShare maxReward 1000
    let share := if agreeing = [] then 0 else votersPool / agreeing.length
    ⟨agreeing, share, refund, treasury + (maxReward - (votersPool + refund + treasury)) +
      (votersPool - share * agreeing.length)⟩
  | none => ⟨[], 0, maxReward - min 1 maxReward, min 1 maxReward⟩

/-- **The credits add up to the reward**, also where the products wrap. -/
theorem tier1Payout_total (votes : List (Address × Hash256)) (committeeSize maxReward : Nat) :
    let p := tier1Payout votes committeeSize maxReward
    p.share * p.agreeing.length + p.refund + p.rest = maxReward := by
  unfold tier1Payout
  cases decidedOutput committeeSize (Externals.mapOrder (tallyVotes votes)) with
  | none =>
    show 0 * 0 + (maxReward - min 1 maxReward) + min 1 maxReward = maxReward
    omega
  | some output =>
    dsimp only
    generalize (votes.filter fun v => v.2 = output).map Prod.fst = agreeing
    have hvoters : (if agreeing = [] then 0 else bpsShare maxReward 7000 / agreeing.length) *
        agreeing.length ≤ bpsShare maxReward 7000 := by
      split
      · simp
      · exact Nat.div_mul_le_self _ _
    have h70 := bpsShare_le maxReward 7000
    have h20 := bpsShare_le maxReward 2000
    have h10 := bpsShare_le maxReward 1000
    omega

/-- A settlement pays the credits. -/
theorem pays_settleRequest (escrow requester : Address) (votes : List (Address × Hash256))
    (committeeSize maxReward : Nat) :
    wp (settleRequest escrow requester votes committeeSize maxReward) s fun r t _ =>
      (∃ status, r = .ok status) ∧
        Pays ((tier1Payout votes committeeSize maxReward).due requester) maxReward s t := by
  have htotal := tier1Payout_total votes committeeSize maxReward
  rw [settleRequest_eq]
  unfold tier1Payout at htotal ⊢
  generalize decidedOutput committeeSize (Externals.mapOrder (tallyVotes votes)) = decided
    at htotal ⊢
  cases decided with
  | some output =>
    dsimp only at htotal ⊢
    rw [payAgreed, wp_bind_assoc, wp_bind]
    refine wp_mono (Pays.forEach_credit _ _) ?_
    rintro r t _ ⟨rfl, hvoters⟩
    simp only [wp_bind_assoc, wp_creditAccount_bind]
    exact ⟨⟨_, rfl⟩, .of_total htotal
      ((hvoters.trans (.credit requester _)).trans (.credit faucetPoolAddress _))⟩
  | none =>
    simp only [refundDisagreed, wp_bind_assoc, wp_creditAccount_bind, wp_ite_bind, wp_pure_bind,
      wp_pure]
    have hrequester := Pays.refl.trans (Pays.credit (s := s) requester (maxReward - min 1 maxReward))
    refine ⟨fun _ => ⟨⟨_, rfl⟩, .of_total htotal (hrequester.trans (.credit faucetPoolAddress _))⟩,
      fun hfee => ⟨⟨_, rfl⟩, .of_total htotal (hrequester.trans ?_)⟩⟩
    -- nothing is withheld, so the faucet pool is not credited
    rw [Nat.eq_zero_of_not_pos hfee]
    simpa only [ite_self] using Pays.refl

omit [Externals] in
/-- Closing the escrow takes its balance from the supply. -/
theorem supply_closed {t : Ledger} {a : Address} {escrow : Account} {n : Nat} (status : UInt8)
    (h : (t.accountOr a).funds = n + escrow.stakedBalance) :
    (t.putAccount a ((withTier1Status escrow status).withBalance 0)).supply + n = t.supply := by
  have hput := supply_putAccount (s := t) (a := a)
    (x := (withTier1Status escrow status).withBalance 0)
  have hfunds : ((withTier1Status escrow status).withBalance 0).funds =
      0 + escrow.stakedBalance := by
    rw [Account.funds_withBalance, withTier1Status]
  omega

/-- The requester recorded for a request. -/
def Ledger.tier1Requester (s : Ledger) (r : Hash256) : Address :=
  .ofBytes (((s.storage.lookup (tier1EscrowAddress r)).bind fun m =>
    m.lookup (tier1Key "tier1.requester")).getD [])

/-- The payout that a finalization of the request makes now. -/
def Ledger.tier1Payout (s : Ledger) (r : Hash256) : Tier1Payout :=
  ArcChain.tier1Payout (s.tier1Votes r) (tier1CommitteeSize (s.tier1Escrow r))
    (s.tier1Escrow r).balance

/-- The escrow of a request has been paid out: the credits add up to it, every other account has
    received what it is due, and the supply is what it was. -/
structure PaidOut (s t : Ledger) (r : Hash256) : Prop where
  total : (s.tier1Payout r).share * (s.tier1Payout r).agreeing.length + (s.tier1Payout r).refund +
    (s.tier1Payout r).rest = (s.tier1Escrow r).balance
  closed : (t.tier1Escrow r).balance = 0
  credited : ∀ a, a ≠ tier1EscrowAddress r → (t.accountOr a).balance =
    (s.accountOr a).balance + (s.tier1Payout r).due (s.tier1Requester r) a
  supply : t.supply = s.supply

/-- **A payout conserves the escrow.**  A successful finalization credits the agreeing voters with
    one share each, the requester and the faucet pool, in all with what it takes from the escrow,
    whichever of them are one account. -/
theorem finalize_conserves_escrow {body : InferenceFinalizeBody}
    (hok : ((executeInferenceFinalize c tx body).run s).result = .ok ())
    (hfits : ∀ a, (s.accountOr a).balance +
      (s.tier1Payout body.requestId).due (s.tier1Requester body.requestId) a ≤ u64Max)
    (hescrow : (s.tier1Payout body.requestId).due (s.tier1Requester body.requestId)
      (tier1EscrowAddress body.requestId) = 0) :
    PaidOut s ((executeInferenceFinalize c tx body).run s).store body.requestId := by
  revert hok
  show wp (executeInferenceFinalize c tx body) s fun r t _ =>
    r = .ok () → PaidOut s t body.requestId
  simp only [executeInferenceFinalize, wp_openSender_bind, wp_storeAccount_bind,
    wp_getOrCreateAccount_bind, wp_require_bind, wp_getStorage_bind, reduceCtorEq, false_implies,
    implies_true, and_true, putAccount_ensure, storage_ensure,
    storage_putAccount]
  -- consuming the nonce changes nothing that the payout reads
  have hbalance : ∀ a, ((s.putAccount tx.sender (s.accountOr tx.sender).bumped).accountOr
      a).balance = (s.accountOr a).balance := fun a => balance_putAccount rfl
  have hcode : ((s.putAccount tx.sender (s.accountOr tx.sender).bumped).accountOr
      (tier1EscrowAddress body.requestId)).codeHash = (s.tier1Escrow body.requestId).codeHash := by
    rw [accountOr_putAccount]
    split
    · rename_i hself
      rw [tier1Escrow, hself]
      rfl
    · rfl
  have hopened : (s.putAccount tx.sender (s.accountOr tx.sender).bumped).supply = s.supply :=
    Nat.add_right_cancel (supply_putAccount (s := s))
  generalize s.putAccount tx.sender (s.accountOr tx.sender).bumped = opened at *
  intro _ _ _ _ _
  rw [wp_bind, tier1CommitteeSize_congr hcode, hbalance]
  refine wp_mono (pays_settleRequest _ _ _ _ _) ?_
  rintro r t _ ⟨⟨status, rfl⟩, hpays⟩ -
  obtain ⟨heach, hsupply⟩ := hpays fun a => by
    rw [accountOr_ensure, hbalance]
    exact hfits a
  refine ⟨tier1Payout_total _ _ _, ?_, fun a ha => ?_, ?_⟩
  · show ((Ledger.putAccount t _ _).accountOr _).balance = 0
    rw [accountOr_putAccount_self]
    rfl
  · show ((Ledger.putAccount t _ _).accountOr a).balance = _
    rw [accountOr_putAccount, if_neg ha, (heach a).1, accountOr_ensure, hbalance]
    rfl
  · -- the closing write takes from the supply what the credits have added
    have hheld : (t.accountOr (tier1EscrowAddress body.requestId)).funds =
        (s.tier1Escrow body.requestId).balance +
          (opened.accountOr (tier1EscrowAddress body.requestId)).stakedBalance := by
      rw [Account.funds, (heach _).1, (heach _).2, accountOr_ensure, hbalance]
      exact congrArg (· + _) (congrArg (_ + ·) hescrow)
    have hclosed := supply_closed status hheld
    rw [hsupply, supply_ensure, hopened] at hclosed
    exact Nat.add_right_cancel hclosed

/-- No account is due more than the whole payout. -/
theorem Tier1Payout.due_le (p : Tier1Payout) (requester a : Address) :
    p.due requester a ≤ p.share * p.agreeing.length + p.refund + p.rest := by
  have hcount : p.share * p.agreeing.count a ≤ p.share * p.agreeing.length :=
    Nat.mul_le_mul_left _ List.count_le_length
  unfold due
  split <;> split <;> omega

end Payout

namespace Sample

def finalizeTx : Transaction := tx 21 1 (.inferenceFinalize tier1Finalize)

/-- The requester holds as much as a balance can. -/
def richLedger : Ledger := votedLedger.putAccount (address 21) (account 21 u64Max 1)

end Sample

/-- The refund of a requester that can hold no more is lost. -/
theorem saturated_refund_is_lost :
    letI := concreteExternals
    let outcome := (executeInferenceFinalize (Sample.context 1) Sample.finalizeTx
      Sample.tier1Finalize).run Sample.richLedger
    outcome.result = .ok () ∧ (Sample.richLedger.tier1Escrow (Sample.address 7)).balance = 10000 ∧
      (outcome.store.tier1Escrow (Sample.address 7)).balance = 0 ∧
      outcome.store.supply + 2000 = Sample.richLedger.supply := by
  exact ⟨by decide +kernel, by decide +kernel, by decide +kernel, by decide +kernel⟩

/-- The only voter receives 7000 of a reward of 10000. -/
theorem finalize_conserves_escrow_one_voter :
    letI := concreteExternals
    ((executeInferenceFinalize (Sample.context 1) Sample.finalizeTx Sample.tier1Finalize).run
      Sample.votedLedger).store.supply = Sample.votedLedger.supply ∧
    (Sample.votedLedger.tier1Payout (Sample.address 7)).due (Sample.address 21)
      (Sample.address 32) = 7000 := by
  let _ : Externals := concreteExternals
  have hsupply : votedLedger.supply = 20100 := by decide +kernel
  have hreward : (votedLedger.tier1Escrow (address 7)).balance = 10000 := by
    decide +kernel
  have hfits : ∀ a, (votedLedger.accountOr a).balance + (votedLedger.tier1Payout (address 7)).due
        (votedLedger.tier1Requester (address 7)) a ≤ u64Max := by
    intro a
    have hbalance := FinMap.weightAt_le_total Account.funds votedLedger.accounts a
    rw [weightAt_accounts, ← Ledger.supply, Account.funds] at hbalance
    have hdue := (votedLedger.tier1Payout (address 7)).due_le
      (votedLedger.tier1Requester (address 7)) a
    have htotal := tier1Payout_total (votedLedger.tier1Votes (address 7))
      (tier1CommitteeSize (votedLedger.tier1Escrow (address 7)))
      (votedLedger.tier1Escrow (address 7)).balance
    rw [hreward] at htotal
    have hmax : 30100 ≤ u64Max := by decide
    unfold Ledger.tier1Payout at hdue ⊢
    rw [hreward] at hdue ⊢
    omega
  exact ⟨(finalize_conserves_escrow (by decide +kernel) hfits (by decide +kernel)).supply,
    by decide +kernel⟩

end ArcChain
