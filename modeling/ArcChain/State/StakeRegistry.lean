/-
The staking registry over runs of `Stake`, `JoinValidator`,
`LeaveValidator`, `UpdateStake` and `InferenceRegister` transactions.

An account's `staked_balance` holds the stake that the registry tracks and
the account's provider bonds.  What any of the five transactions may do is
said once, in `Restaked`: it moves funds between the balance and the stake
of its sender, and changes the sender's registry entry and the pool by the
same amount.  The registry invariant and the provider bonds follow from it.
-/
import ArcChain.Lib.Run
import ArcChain.State.Supply

namespace ArcChain

open Word StoreProg Ledger FinMap Sample

/-! ## The registry of a ledger -/

namespace Ledger

/-- The stake that the registry tracks for an account. -/
def tracked (s : Ledger) (a : Address) : Nat := (s.validators.lookup a).getD 0

/-- The part of an account's stake that the registry does not track. -/
def providerBond (s : Ledger) (a : Address) : Nat := (s.accountOr a).stakedBalance - s.tracked a

/-- The pool is the sum of the registry, every tracked stake is covered by the account's stake,
    and no entry is zero. -/
structure RegistrySound (s : Ledger) : Prop where
  pool : s.stakingPool = FinMap.total id s.validators
  covered : ∀ v stake, s.validators.lookup v = some stake → stake ≤ (s.accountOr v).stakedBalance
  positive : ∀ v, s.validators.lookup v ≠ some 0

/-- A registry whose tracked stakes are covered. -/
theorem RegistrySound.tracked_le {s : Ledger} (h : s.RegistrySound) (a : Address) :
    s.tracked a ≤ (s.accountOr a).stakedBalance := by
  unfold tracked
  cases hentry : s.validators.lookup a with
  | none => exact Nat.zero_le _
  | some stake => exact h.covered a stake hentry

end Ledger

/-- What a staking transaction of `a` may do. -/
@[mk_iff] structure Restaked (s t : Ledger) (a : Address) : Prop where
  others : ∀ b, b ≠ a → t.accountOr b = s.accountOr b
  registry : t.validators = FinMap.set s.validators a (t.validators.lookup a)
  pool : t.stakingPool + s.tracked a = s.stakingPool + t.tracked a
  funds : (t.accountOr a).funds = (s.accountOr a).funds
  bond : (s.accountOr a).stakedBalance + t.tracked a ≤ (t.accountOr a).stakedBalance + s.tracked a
  entry : t.validators.lookup a = some 0 → s.validators.lookup a = some 0

namespace Restaked

variable {s t u : Ledger} {a : Address} {x : Account} {o : Option Nat}

/-! ### The writes of the arms -/

@[simp] theorem refl : Restaked s s a := by simp [restaked_iff]

@[simp] theorem ensure : Restaked s (s.ensure a) a := by simp [restaked_iff, Ledger.tracked]

/-- A write of the sender's account alone. -/
@[simp] theorem putAccount_iff : Restaked s (s.putAccount a x) a ↔
    x.funds = (s.accountOr a).funds ∧ (s.accountOr a).stakedBalance ≤ x.stakedBalance := by
  have hothers : ∀ b, b ≠ a → (s.putAccount a x).accountOr b = s.accountOr b := fun b hb => by
    rw [accountOr_putAccount, if_neg hb]
  simpa [restaked_iff, Ledger.tracked] using fun _ _ => hothers

/-- A write of the sender's registry entry and account. -/
@[simp] theorem putValidators_iff (hu : ∀ b, u.accountOr b = s.accountOr b) :
    Restaked s ((u.putValidators (FinMap.set s.validators a o)).putAccount a x) a ↔
      u.stakingPool + s.tracked a = s.stakingPool + o.getD 0 ∧ x.funds = (s.accountOr a).funds ∧
        (s.accountOr a).stakedBalance + o.getD 0 ≤ x.stakedBalance + s.tracked a ∧
        (o = some 0 → s.validators.lookup a = some 0) := by
  have hothers : ∀ b, b ≠ a → ((u.putValidators (FinMap.set s.validators a o)).putAccount a
      x).accountOr b = s.accountOr b := fun b hb => by
    rw [accountOr_putAccount, if_neg hb]
    exact hu b
  have hvalidators : (u.putValidators (FinMap.set s.validators a o)).validators =
    FinMap.set s.validators a o := rfl
  have hpool : (u.putValidators (FinMap.set s.validators a o)).stakingPool = u.stakingPool := rfl
  simpa [restaked_iff, Ledger.tracked, hvalidators, hpool] using fun _ _ _ _ => hothers

/-! ### What follows for the registry -/

section

variable (h : Restaked s t a)
include h

/-- Every account keeps its funds. -/
theorem funds_eq (b : Address) : (t.accountOr b).funds = (s.accountOr b).funds := by
  by_cases hb : b = a
  · subst hb
    exact h.funds
  · rw [h.others b hb]

theorem lookup_of_ne {b : Address} (hb : b ≠ a) :
    t.validators.lookup b = s.validators.lookup b := by
  rw [h.registry, lookup_set_of_ne _ _ hb]

/-- **A staking transaction keeps the registry sound.** -/
theorem sound (hs : s.RegistrySound) : t.RegistrySound where
  pool := by
    have hset := total_set id s.validators a (t.validators.lookup a)
    have hold : FinMap.weightAt id s.validators a = s.tracked a := by
      unfold FinMap.weightAt Ledger.tracked
      cases s.validators.lookup a <;> rfl
    have hnew : (t.validators.lookup a).elim 0 id = t.tracked a := by
      unfold Ledger.tracked
      cases t.validators.lookup a <;> rfl
    have hpool := h.pool
    rw [← h.registry] at hset
    have htotal := hs.pool
    omega
  covered := by
    intro v stake hentry
    by_cases hv : v = a
    · subst hv
      have hbond := h.bond
      have hcovered := hs.tracked_le v
      have htracked : t.tracked v = stake := by rw [Ledger.tracked, hentry, Option.getD_some]
      omega
    · rw [h.lookup_of_ne hv] at hentry
      rw [h.others v hv]
      exact hs.covered v stake hentry
  positive := by
    intro v hzero
    by_cases hv : v = a
    · subst hv
      exact hs.positive v (h.entry hzero)
    · exact hs.positive v (h.lookup_of_ne hv ▸ hzero)

/-- A staking transaction releases no provider bond. -/
theorem providerBond_le (hs : s.RegistrySound) (b : Address) :
    s.providerBond b ≤ t.providerBond b := by
  by_cases hb : b = a
  · subst hb
    have hbond := h.bond
    unfold Ledger.providerBond
    omega
  · rw [Ledger.providerBond, Ledger.providerBond, h.others b hb, Ledger.tracked, Ledger.tracked,
      h.lookup_of_ne hb]

end

end Restaked

/-! ## The five transactions -/

section Arms

variable {c : Context} {s : Ledger} {tx : Transaction} {gas : GasMeter}

@[simp] theorem Ledger.stakingPool_putStakingPool {n : Nat} :
    (s.putStakingPool n).stakingPool = n := (rfl)

/-- An entry that is removed when it is zero. -/
@[simp] theorem getD_positiveEntry (n : Nat) : (if n = 0 then none else some n).getD 0 = n := by
  split
  · exact Eq.symm ‹_›
  · rfl

theorem restaked_stake (body : StakeBody) (h : body.isStake = true → body.amount = 0 →
    s.validators.lookup tx.sender ≠ none) :
    wp (executeStake c tx body) s fun _ t _ => Restaked s t tx.sender := by
  cases hstake : body.isStake with
  | true =>
    -- a stake of zero is the only one that may leave a zero entry
    have hentry : (s.validators.lookup tx.sender).getD 0 = 0 → body.amount = 0 →
        s.validators.lookup tx.sender = some 0 := by
      intro hzero hamount
      cases hlookup : s.validators.lookup tx.sender with
      | none => exact absurd hlookup (h hstake hamount)
      | some stake =>
        rw [hlookup, Option.getD_some] at hzero
        rw [hzero]
    simp [executeStake, refuseRegistryChangeUnderNativeBinding, hstake, stakeFunds,
      requireTrackedStake, checkedAdd_eq_some, checkedSub_eq_some, Account.funds, Ledger.tracked]
    intro _ _ _ _ _ _ _ _ _
    exact ⟨by omega, by omega, by omega, hentry⟩
  | false =>
    simp [executeStake, refuseRegistryChangeUnderNativeBinding, hstake, unstakeFunds,
      requireTrackedStake, checkedAdd_eq_some, checkedSub_eq_some, Account.funds, Ledger.tracked]
    omega

theorem restaked_joinValidator (body : JoinValidatorBody) :
    wp (executeJoinValidator c tx body) s fun _ t _ => Restaked s t tx.sender := by
  have hmin : 0 < minValidatorStake := by decide
  simp [executeJoinValidator, refuseRegistryChangeUnderNativeBinding, checkedAdd_eq_some,
    checkedSub_eq_some, Account.funds, Ledger.tracked]
  omega

theorem restaked_leaveValidator :
    wp (executeLeaveValidator tx) s fun _ t _ => Restaked s t tx.sender := by
  simp [executeLeaveValidator, returnStake, requireTrackedStake, checkedAdd_eq_some,
    checkedSub_eq_some, Account.funds, Ledger.tracked]
  omega

theorem restaked_updateStake (body : UpdateStakeBody) :
    wp (executeUpdateStake c tx body) s fun _ t _ => Restaked s t tx.sender := by
  simp [executeUpdateStake, refuseRegistryChangeUnderNativeBinding, adjustStake,
    requireTrackedStake, checkedAdd_eq_some, checkedSub_eq_some, Account.funds, Ledger.tracked]
  omega

theorem restaked_inferenceRegister (body : InferenceRegisterBody)
    (h : (s.accountOr tx.sender).stakedBalance + body.stakeBond ≤ u64Max) :
    wp (executeInferenceRegister tx body) s fun _ t _ => Restaked s t tx.sender := by
  have hsum : wrappingAdd (s.accountOr tx.sender).stakedBalance body.stakeBond =
      (s.accountOr tx.sender).stakedBalance + body.stakeBond :=
    Nat.mod_eq_of_lt (lt_of_le_of_lt h (by decide))
  simp [executeInferenceRegister, Account.funds]
  omega

/-- A staking transaction that neither opens an empty registry entry nor overflows the stake of
    its sender. -/
def Transaction.StakesSoundly (s : Ledger) (tx : Transaction) : Prop :=
  match tx.body with
  | .stake body =>
    body.isStake = true → body.amount = 0 → s.validators.lookup tx.sender ≠ none
  | .joinValidator _ | .leaveValidator | .updateStake _ => True
  | .inferenceRegister body => (s.accountOr tx.sender).stakedBalance + body.stakeBond ≤ u64Max
  | _ => False

theorem restaked_executeTx [Externals] (hc : c.Legacy) (h : tx.StakesSoundly s) :
    Restaked s ((executeTx c tx).run s).store tx.sender := by
  show wp (executeTx c tx) s fun _ t _ => Restaked s t tx.sender
  have hflat : ∀ {gas : GasMeter} {arm : Exec Unit},
      wp arm s (fun _ t _ => Restaked s t tx.sender) →
        wp (flatGas gas arm >>= fun gas => pure gas.consumed) s fun _ t _ =>
          Restaked s t tx.sender := by
    intro gas arm harm
    simp only [flatGas, wp_bind]
    refine wp_mono harm fun r t l ht => ?_
    cases r with
    | ok | error => exact ht
  simp only [executeTx, requireTxType, hc.protocolV3, wp_require_bind, wp_chargeGas_bind,
    Bool.false_eq_true, if_false, Restaked.refl, implies_true, and_true]
  intro _ _
  unfold Transaction.StakesSoundly at h
  cases hbody : tx.body with
  | stake body => exact hflat (restaked_stake body (by simpa only [hbody] using h))
  | joinValidator body => exact hflat (restaked_joinValidator body)
  | leaveValidator => exact hflat restaked_leaveValidator
  | updateStake body => exact hflat (restaked_updateStake body)
  | inferenceRegister body =>
    exact hflat (restaked_inferenceRegister body (by simpa only [hbody] using h))
  | _ => simp only [hbody] at h

end Arms

/-! ## Runs -/

section Runs

variable [Externals] {s t : Ledger} {txs : List (Context × Transaction)}

/-- One transaction of a sequence, in the context of its block. -/
def executeNext (s : Ledger) (next : Context × Transaction) : Option Ledger :=
  some ((executeTx next.1 next.2).run s).store

/-- A staking transaction of a legacy chain that keeps the registry in order. -/
def SoundStaking (s : Ledger) (next : Context × Transaction) : Prop :=
  next.1.Legacy ∧ next.2.StakesSoundly s

/-- **The staking registry over a run.**  Every staking transaction keeps the registry sound and
    everyone's funds, and takes nothing from a provider bond. -/
theorem staking_registry_invariant (hpool : s.stakingPool = FinMap.total id s.validators)
    (hcovered : ∀ v stake, s.validators.lookup v = some stake →
      stake ≤ (s.accountOr v).stakedBalance)
    (hpositive : ∀ v, s.validators.lookup v ≠ some 0)
    (hrun : Run executeNext SoundStaking s txs t) :
    t.RegistrySound ∧ ∀ a, (t.accountOr a).balance + (t.accountOr a).stakedBalance =
      (s.accountOr a).balance + (s.accountOr a).stakedBalance ∧
        s.providerBond a ≤ t.providerBond a := by
  have hsound : s.RegistrySound := ⟨hpool, hcovered, hpositive⟩
  clear hpool hcovered hpositive
  induction hrun with
  | nil s => exact ⟨hsound, fun a => ⟨rfl, le_refl _⟩⟩
  | cons hguard hstep _ ih =>
    obtain rfl := Option.some.inj hstep
    have hone := restaked_executeTx hguard.1 hguard.2
    obtain ⟨hafter, hrest⟩ := ih (hone.sound hsound)
    refine ⟨hafter, fun a => ?_⟩
    obtain ⟨hfunds, hbond⟩ := hrest a
    exact ⟨hfunds.trans (hone.funds_eq a), le_trans (hone.providerBond_le hsound a) hbond⟩

end Runs

namespace Sample

/-- A stake of an amount. -/
def stake (amount : Nat) : Transaction :=
  tx 1 0 (.stake ⟨amount, true, address 1⟩)

/-- The registration of a provider of the lowest tier with its least bond. -/
def register : Transaction :=
  tx 1 0 (.inferenceRegister ⟨1, 1000⟩)

/-- An account with 1000 that is staked to the limit. -/
def stakedToLimit : Ledger :=
  ledger [{ account 1 1000 0 with stakedBalance := u64Max }]

theorem ledger_registrySound (accounts : List Account) : (ledger accounts).RegistrySound where
  pool := rfl
  covered := fun v stake h => by simp [ledger] at h
  positive := fun v h => by simp [ledger] at h

end Sample

/-- A stake of nothing opens a registry entry of zero, and the bond of a provider wraps the stake
    of an account that is staked to the limit. -/
theorem zero_stake_opens_entry_and_bond_wraps :
    letI := concreteExternals
    (Sample.ledger [Sample.account 1 100 0]).RegistrySound ∧
      ((executeTx (Sample.context 3) (Sample.stake 0)).run
        (Sample.ledger [Sample.account 1 100 0])).store.validators.lookup (Sample.address 1) =
          some 0 ∧
      Sample.stakedToLimit.RegistrySound ∧
      (((executeTx (Sample.context 3) Sample.register).run Sample.stakedToLimit).store.accountOr
        (Sample.address 1)).funds = 999 ∧
      (Sample.stakedToLimit.accountOr (Sample.address 1)).funds = 1000 + u64Max := by
  exact ⟨ledger_registrySound _, by decide +kernel, ledger_registrySound _,
    by decide +kernel, by decide +kernel⟩

/-- A stake of 30 is tracked. -/
theorem staking_registry_invariant_stake :
    letI := concreteExternals
    ∃ t : Ledger, t.validators.lookup (Sample.address 1) = some 30 ∧ t.RegistrySound := by
  let _ : Externals := concreteExternals
  have hstake : (stake 30).StakesSoundly (ledger [account 1 100 0]) :=
    fun _ hzero => absurd hzero (by decide)
  have hrun : Run executeNext SoundStaking (ledger [account 1 100 0]) [(context 3, stake 30)] _ :=
    .cons ⟨context_legacy 3, hstake⟩ rfl (.nil _)
  obtain ⟨hpool, hcovered, hpositive⟩ := ledger_registrySound [account 1 100 0]
  exact ⟨_, by decide +kernel, (staking_registry_invariant hpool hcovered hpositive hrun).1⟩

end ArcChain
