/-
The state database (`StateDB`) as transaction execution sees it.

`Ledger` holds what a transaction can change; its cells are one account,
one contract's storage, one contract's code, the validator registry, the
staking pool, one open inference request, one queued bond release.
`Context` holds what stays fixed while a transaction runs: the height, the
GPU account cache and the protocol configuration.

Execution is a program over the cells (`Exec`).  The write-ahead log
receives a record wherever the source appends one; writes and records are
separate steps, as they are in the source.
-/
import ArcChain.Lib.StoreProg
import ArcChain.Types.Block

namespace ArcChain

open Word StoreProg FinMap Finmap

/-- `StateError`, with the variants the modelled functions return. -/
inductive StateError where
  | insufficientBalance (available need : Nat)
  | invalidNonce (expected got : Nat)
  | executionError (text : String)
  | contractNotFound (address : Address)
  | persistenceError (text : String)
  | accountNotFound (address : Address)
deriving DecidableEq, Repr

structure RecoveryContext where
  chainIdHash : Hash256
  genesisHash : Hash256
  recoveryEpoch : Nat
  validatorSetId : Nat
  protocolVersion : ProtocolVersion
deriving DecidableEq, Repr

def RecoveryContext.domainHash [Crypto] (c : RecoveryContext) : Hash256 :=
  Crypto.blake3DeriveKey "ARC-recovery-consensus-domain-v1"
    (c.chainIdHash.toBytes ++ c.genesisHash.toBytes ++ beBytes 8 c.recoveryEpoch ++
      beBytes 8 c.validatorSetId ++ beBytes 2 c.protocolVersion.major ++
      beBytes 2 c.protocolVersion.minor ++ beBytes 2 c.protocolVersion.patch)

/-- What execution reads and never changes. -/
structure Context where
  height : Nat
  /-- The accounts `get_account_fast` finds; empty without a GPU cache. -/
  gpuCache : FinMap Address Account
  communityRewardsV1ActivationHeight : Option Nat
  recoveryContext : Option RecoveryContext
  /-- Whether `native_inference_context` and `native_migration` are set. -/
  nativeInferenceContext : Bool
  nativeMigration : Bool

namespace Context

def activeProtocolVersion (c : Context) : ProtocolVersion :=
  if c.nativeInferenceContext ∧ ¬ c.nativeMigration then ⟨4, 0, 0⟩
  else match c.recoveryContext with
    | some context => context.protocolVersion
    | none => .genesis

/-- Neither a recovery context nor a native inference context is installed. -/
def Legacy (c : Context) : Prop := c.recoveryContext = none ∧ c.nativeInferenceContext = false

theorem Legacy.activeProtocolVersion {c : Context} (h : c.Legacy) :
    c.activeProtocolVersion = .genesis := by
  simp [Context.activeProtocolVersion, h.1, h.2]

/-- Whether protocol major version 3 is active. -/
def protocolV3 (c : Context) : Bool := c.activeProtocolVersion.major == 3

theorem Legacy.protocolV3 {c : Context} (h : c.Legacy) : c.protocolV3 = false := by
  simp [Context.protocolV3, h.activeProtocolVersion, ProtocolVersion.genesis]

def communityRewardsV1Active (c : Context) : Bool :=
  match c.communityRewardsV1ActivationHeight with
  | some activation => activation ≤ c.height
  | none => false

def transactionDomainHash [Crypto] (c : Context) : Option Hash256 :=
  c.recoveryContext.map RecoveryContext.domainHash

/-- `verify_transaction_signature`, as `is_ok()`. -/
def verifyTransactionSignature [Externals] (c : Context) (tx : Transaction) : Bool :=
  tx.verifySignature c.transactionDomainHash

end Context

/-! ## The ledger and its cells -/

/-- The maps that transactions change.

    `pending_bond_releases` files a sorted bucket of escrows under each release height; it is
    the set of its pairs here. -/
@[ext] structure Ledger where
  accounts : FinMap Address Account
  storage : FinMap Address (FinMap Hash256 Bytes)
  contracts : FinMap Address Bytes
  validators : FinMap Address Nat
  stakingPool : Nat
  tier1Pending : FinMap Hash256 Nat
  pendingBondReleases : FinMap (Nat × Address) Unit
deriving DecidableEq

/-- The parts of the ledger that are read and written as one. -/
inductive Cell where
  | account (address : Address)
  | storage (address : Address)
  | contract (address : Address)
  | validators
  | stakingPool
  | tier1Pending (requestId : Hash256)
  | bondRelease (height : Nat) (escrow : Address)
deriving DecidableEq, Repr

/-- The content of a cell. -/
def Cell.Value : Cell → Type
  | account _ => Option Account
  | storage _ => Option (FinMap Hash256 Bytes)
  | contract _ => Option Bytes
  | validators => FinMap Address Nat
  | stakingPool => Nat
  | tier1Pending _ => Option Nat
  | bondRelease _ _ => Option Unit

namespace Ledger

/-- The content of a cell. -/
def read (s : Ledger) : (c : Cell) → c.Value
  | .account a => s.accounts.lookup a
  | .storage a => s.storage.lookup a
  | .contract a => s.contracts.lookup a
  | .validators => s.validators
  | .stakingPool => s.stakingPool
  | .tier1Pending r => s.tier1Pending.lookup r
  | .bondRelease h a => s.pendingBondReleases.lookup (h, a)

/-- Overwrite one cell. -/
def write (s : Ledger) : (c : Cell) → c.Value → Ledger
  | .account a, v => { s with accounts := FinMap.set s.accounts a v }
  | .storage a, v => { s with storage := FinMap.set s.storage a v }
  | .contract a, v => { s with contracts := FinMap.set s.contracts a v }
  | .validators, v => { s with validators := v }
  | .stakingPool, v => { s with stakingPool := v }
  | .tier1Pending r, v => { s with tier1Pending := FinMap.set s.tier1Pending r v }
  | .bondRelease h a, v =>
    { s with pendingBondReleases := FinMap.set s.pendingBondReleases (h, a) v }

theorem read_write_self (s : Ledger) (c : Cell) (v : c.Value) : (s.write c v).read c = v := by
  cases c with
  | account a => exact lookup_set_self _ a v
  | storage a => exact lookup_set_self _ a v
  | contract a => exact lookup_set_self _ a v
  | validators => rfl
  | stakingPool => rfl
  | tier1Pending r => exact lookup_set_self _ r v
  | bondRelease h a => exact lookup_set_self _ (h, a) v

theorem read_write_of_ne (s : Ledger) (c : Cell) (v : c.Value) (c' : Cell) (h : c' ≠ c) :
    (s.write c v).read c' = s.read c' := by
  cases c <;> cases c' <;> try rfl
  all_goals first
    | exact lookup_set_of_ne _ v (by rintro rfl; exact h rfl)
    | exact absurd rfl h
    | skip
  case bondRelease.bondRelease =>
    apply lookup_set_of_ne
    rintro ⟨⟩
    exact h rfl

theorem ext_read (s t : Ledger) (h : ∀ c, s.read c = t.read c) : s = t := by
  have haccounts : s.accounts = t.accounts := ext_lookup fun a => h (.account a)
  have hstorage : s.storage = t.storage := ext_lookup fun a => h (.storage a)
  have hcontracts : s.contracts = t.contracts := ext_lookup fun a => h (.contract a)
  have hvalidators : s.validators = t.validators := h .validators
  have hpool : s.stakingPool = t.stakingPool := h .stakingPool
  have htier1 : s.tier1Pending = t.tier1Pending := ext_lookup fun r => h (.tier1Pending r)
  have hbonds : s.pendingBondReleases = t.pendingBondReleases :=
    ext_lookup fun p => h (.bondRelease p.1 p.2)
  cases s
  simp_all

instance : CellStore Cell.Value Ledger where
  read := read
  write := write
  read_write_self := read_write_self
  read_write_of_ne := read_write_of_ne
  ext := ext_read

end Ledger

/-! ## Log records and programs -/

/-- The state records a transaction appends to the write-ahead log. -/
inductive StateRecord where
  | setAccount (address : Address) (account : Account)
  | setStorage (address : Address) (key : Hash256) (value : Bytes)
  | setContract (address : Address) (bytecode : Bytes)
deriving DecidableEq, Repr

/-- A program over the ledger. -/
abbrev Exec := StoreProg Cell.Value StateRecord StateError

/-- The entry of an account (`accounts.get`). -/
def readAccount (a : Address) : Exec (Option Account) := StoreProg.read (Cell.account a)

/-- `accounts.insert`. -/
def insertAccount (a : Address) (account : Account) : Exec Unit :=
  StoreProg.write (Cell.account a) (some account)

/-- `accounts.remove`. -/
def removeAccount (a : Address) : Exec Unit := StoreProg.write (Cell.account a) none

/-- The GPU cache first, then the account map. -/
def getAccount (c : Context) (a : Address) : Exec (Option Account) :=
  match c.gpuCache.lookup a with
  | some account => pure (some account)
  | none => readAccount a

/-- A missing account is stored at once. -/
def getOrCreateAccount (a : Address) : Exec Account := do
  match ← readAccount a with
  | some account => pure account
  | none =>
    insertAccount a (Account.new a 0)
    pure (Account.new a 0)

/-- `wal.append(WalOp::SetAccount(a, account), height)`. -/
def logAccount (a : Address) (account : Account) : Exec Unit :=
  StoreProg.append (.setAccount a account)

/-- The usual pair: store the account, then append its record. -/
def storeAccount (a : Address) (account : Account) : Exec Unit := do
  insertAccount a account
  logAccount a account

/-- All storage entries of a contract (`storage.get`). -/
def readStorage (a : Address) : Exec (Option (FinMap Hash256 Bytes)) :=
  StoreProg.read (Cell.storage a)

def getStorage (a : Address) (key : Hash256) : Exec (Option Bytes) := do
  let entries ← readStorage a
  pure (entries.bind fun m => m.lookup key)

def setStorage (a : Address) (key : Hash256) (value : Bytes) : Exec Unit := do
  let entries ← readStorage a
  StoreProg.write (Cell.storage a) (some (FinMap.set (entries.getD ∅) key (some value)))
  StoreProg.append (.setStorage a key value)

def getContract (a : Address) : Exec (Option Bytes) := StoreProg.read (Cell.contract a)

def deployContract (a : Address) (bytecode : Bytes) : Exec Unit := do
  StoreProg.write (Cell.contract a) (some bytecode)
  StoreProg.append (.setContract a bytecode)

/-- `contracts.remove`. -/
def removeContract (a : Address) : Exec Unit := StoreProg.write (Cell.contract a) none

/-- The validator registry. -/
def readValidators : Exec (FinMap Address Nat) := StoreProg.read Cell.validators

/-- The stake an address has in the registry, 0 if it has none (`validators.get`). -/
def validatorStake (a : Address) : Exec Nat := do
  let validators ← readValidators
  pure ((validators.lookup a).getD 0)

/-- `validators.insert` and `validators.remove`. -/
def setValidatorStake (a : Address) (stake : Option Nat) : Exec Unit := do
  let validators ← readValidators
  StoreProg.write Cell.validators (FinMap.set validators a stake)

def minValidatorStake : Nat := 100000

def isValidator (validators : FinMap Address Nat) (a : Address) : Bool :=
  match validators.lookup a with
  | some stake => minValidatorStake ≤ stake
  | none => false

/-- The staking pool. -/
def readStakingPool : Exec Nat := StoreProg.read Cell.stakingPool

def addStakingPoolChecked (amount : Nat) : Exec Unit := do
  let current ← readStakingPool
  let pool ← ofOption (.executionError
    s!"staking pool overflow: current={current}, add={amount}") (checkedAdd current amount)
  StoreProg.write Cell.stakingPool pool

def subtractStakingPoolChecked (amount : Nat) : Exec Unit := do
  let current ← readStakingPool
  let pool ← ofOption (.executionError
    s!"staking pool underflow: current={current}, subtract={amount}") (checkedSub current amount)
  StoreProg.write Cell.stakingPool pool

/-- `tier1_pending.insert` and `tier1_pending.remove`. -/
def setTier1Pending (requestId : Hash256) (anchor : Option Nat) : Exec Unit :=
  StoreProg.write (Cell.tier1Pending requestId) anchor

/-- Queue an escrow in the bucket of its release height. -/
def queueBondRelease (releaseHeight : Nat) (escrow : Address) : Exec Unit :=
  StoreProg.write (Cell.bondRelease releaseHeight escrow) (some ())

/-- `if sender.nonce != tx.nonce { return Err(InvalidNonce) }`. -/
def requireNonce (account : Account) (nonce : Nat) : Exec Unit :=
  require (account.nonce = nonce) (.invalidNonce account.nonce nonce)

/-- `if balance < need { return Err(InsufficientBalance) }`. -/
def requireBalance (available need : Nat) : Exec Unit :=
  require (need ≤ available) (.insufficientBalance available need)

/-- `checked_*(..).ok_or_else(|| ExecutionError(text))`. -/
def orError {α : Type} (text : String) (value : Option α) : Exec α :=
  ofOption (.executionError text) value

/-- A 64-bit sum that may wrap (`+=`). -/
def wrappingAdd (a b : Nat) : Nat := (a + b) % 2 ^ 64

end ArcChain
