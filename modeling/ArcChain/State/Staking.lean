/-
`execute_tx`, the arms that change the validator registry: `Stake`,
`JoinValidator`, `LeaveValidator` and `UpdateStake`.

An account's staked balance may hold an inference-provider bond next to
its validator stake; the registry records the validator part, and only
that part can be withdrawn here.
-/
import ArcChain.State.Payments

namespace ArcChain

open Word StoreProg

def refuseRegistryChangeUnderNativeBinding (c : Context) : Exec Unit :=
  require (c.nativeMigration = true ∨ c.nativeInferenceContext = false) (.executionError
    ("the validator registry is frozen by the active native inference binding; " ++
      "changing the committee requires an explicit migration to a fresh activation"))

/-- The check that an account's stake covers what the registry records of it. -/
def requireTrackedStake (sender : Account) (tracked : Nat) : Exec Unit :=
  require (tracked ≤ sender.stakedBalance) (.executionError
    (s!"validator account stake {sender.stakedBalance} is below tracked validator stake " ++
      s!"{tracked}"))

/-- `TxBody::Stake` with `is_stake`: the registry entry grows with the account's stake. -/
def stakeFunds (tx : Transaction) (body : StakeBody) (sender : Account) : Exec Account := do
  requireBalance sender.balance body.amount
  let prevStake ← validatorStake tx.sender
  requireTrackedStake sender prevStake
  let newBalance ← orError "stake balance underflow" (checkedSub sender.balance body.amount)
  let newAccountStake ← orError "account stake overflow"
    (checkedAdd sender.stakedBalance body.amount)
  let newStake ← orError "validator stake overflow" (checkedAdd prevStake body.amount)
  addStakingPoolChecked body.amount
  setValidatorStake tx.sender (some newStake)
  pure { sender with balance := newBalance, stakedBalance := newAccountStake }

/-- `TxBody::Stake` without `is_stake`: an emptied registry entry is removed. -/
def unstakeFunds (tx : Transaction) (body : StakeBody) (sender : Account) : Exec Account := do
  let prevStake ← validatorStake tx.sender
  requireBalance prevStake body.amount
  requireTrackedStake sender prevStake
  let newAccountStake ← orError "account stake underflow"
    (checkedSub sender.stakedBalance body.amount)
  let newBalance ← orError "unstake balance overflow" (checkedAdd sender.balance body.amount)
  let newStake ← orError "validator stake underflow" (checkedSub prevStake body.amount)
  subtractStakingPoolChecked body.amount
  setValidatorStake tx.sender (if newStake = 0 then none else some newStake)
  pure { sender with balance := newBalance, stakedBalance := newAccountStake }

def executeStake (c : Context) (tx : Transaction) (body : StakeBody) : Exec Unit := do
  refuseRegistryChangeUnderNativeBinding c
  let sender ← openSender tx
  let nextNonce ← orError "stake nonce overflow" (checkedAdd sender.nonce 1)
  let sender ← if body.isStake then stakeFunds tx body sender else unstakeFunds tx body sender
  storeAccount tx.sender { sender with nonce := nextNonce }

def executeJoinValidator (c : Context) (tx : Transaction) (body : JoinValidatorBody) :
    Exec Unit := do
  refuseRegistryChangeUnderNativeBinding c
  let sender ← openSender tx
  let nextNonce ← orError "validator join nonce overflow" (checkedAdd sender.nonce 1)
  requireBalance sender.balance body.initialStake
  require (minValidatorStake ≤ body.initialStake) (.executionError
    s!"initial stake {body.initialStake} below minimum {minValidatorStake}")
  let currentStake ← validatorStake tx.sender
  require (currentStake = 0) (.executionError
    s!"validator already has {currentStake} tracked stake; use UpdateStake")
  let newBalance ← orError "join balance underflow" (checkedSub sender.balance body.initialStake)
  let newAccountStake ← orError "account stake overflow"
    (checkedAdd sender.stakedBalance body.initialStake)
  addStakingPoolChecked body.initialStake
  setValidatorStake tx.sender (some body.initialStake)
  storeAccount tx.sender
    { sender with balance := newBalance, stakedBalance := newAccountStake, nonce := nextNonce }

/-- The stake returned by `TxBody::LeaveValidator`. -/
def returnStake (tx : Transaction) (staked : Nat) (sender : Account) : Exec Account := do
  requireTrackedStake sender staked
  let newAccountStake ← orError "account stake underflow" (checkedSub sender.stakedBalance staked)
  let newBalance ← orError "validator exit balance overflow" (checkedAdd sender.balance staked)
  subtractStakingPoolChecked staked
  setValidatorStake tx.sender none
  pure { sender with balance := newBalance, stakedBalance := newAccountStake }

def executeLeaveValidator (tx : Transaction) : Exec Unit := do
  let sender ← openSender tx
  let nextNonce ← orError "validator exit nonce overflow" (checkedAdd sender.nonce 1)
  let staked ← validatorStake tx.sender
  let sender ← if 0 < staked then returnStake tx staked sender else pure sender
  storeAccount tx.sender { sender with nonce := nextNonce }

/-- The funds moved by `TxBody::UpdateStake` from the current to the new stake. -/
def adjustStake (currentStake newStake : Nat) (sender : Account) : Exec Account :=
  if currentStake < newStake then do
    let diff := newStake - currentStake
    requireBalance sender.balance diff
    let newBalance ← orError "stake increase balance underflow" (checkedSub sender.balance diff)
    let newAccountStake ← orError "account stake overflow" (checkedAdd sender.stakedBalance diff)
    addStakingPoolChecked diff
    pure { sender with balance := newBalance, stakedBalance := newAccountStake }
  else if newStake < currentStake then do
    let diff := currentStake - newStake
    let newAccountStake ← orError "account stake underflow" (checkedSub sender.stakedBalance diff)
    let newBalance ← orError "stake decrease balance overflow" (checkedAdd sender.balance diff)
    subtractStakingPoolChecked diff
    pure { sender with balance := newBalance, stakedBalance := newAccountStake }
  else pure sender

def executeUpdateStake (c : Context) (tx : Transaction) (body : UpdateStakeBody) :
    Exec Unit := do
  refuseRegistryChangeUnderNativeBinding c
  let sender ← openSender tx
  let nextNonce ← orError "validator stake nonce overflow" (checkedAdd sender.nonce 1)
  let currentStake ← validatorStake tx.sender
  requireTrackedStake sender currentStake
  let sender ← adjustStake currentStake body.newStake sender
  setValidatorStake tx.sender (if body.newStake = 0 then none else some body.newStake)
  storeAccount tx.sender { sender with nonce := nextNonce }

end ArcChain
