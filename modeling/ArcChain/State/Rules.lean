/-
How the ledger operations act, as rewrite rules.

`accountOr`, `putAccount` and `ensure` say what the account operations read
and write; `Context.accountOf` is the read through the GPU cache.  Each
operation of `State.Db` has one `wp` rule, so that an arm of `execute_tx`
is executed symbolically by rewriting: the conditions of its paths come
out over the store the path has reached.
-/
import ArcChain.State.Execute

namespace ArcChain

open Word StoreProg FinMap Ledger

/-! ## Reading and writing accounts -/

namespace Ledger

/-- The account at an address, the empty one if there is none. -/
def accountOr (s : Ledger) (a : Address) : Account :=
  (s.accounts.lookup a).getD (Account.new a 0)

/-- The address has an account. -/
def Present (s : Ledger) (a : Address) : Prop := s.accounts.lookup a ≠ none

/-- Set the account at an address. -/
def putAccount (s : Ledger) (a : Address) (x : Account) : Ledger :=
  { s with accounts := FinMap.set s.accounts a (some x) }

/-- Create the account if it is missing. -/
def ensure (s : Ledger) (a : Address) : Ledger := s.putAccount a (s.accountOr a)

/-- Set one storage entry. -/
def putStorage (s : Ledger) (a : Address) (key : Hash256) (value : Bytes) : Ledger :=
  let entries := (s.storage.lookup a).getD ∅
  { s with storage := FinMap.set s.storage a (some (FinMap.set entries key (some value))) }

/-- Set the accounts of a list, in order. -/
def putAccounts (s : Ledger) (l : List (Address × Account)) : Ledger :=
  l.foldl (fun t e => t.putAccount e.1 e.2) s

/-- Remove the account at an address. -/
def dropAccount (s : Ledger) (a : Address) : Ledger :=
  { s with accounts := FinMap.set s.accounts a none }

/-- Set or remove a contract's code. -/
def putContract (s : Ledger) (a : Address) (code : Option Bytes) : Ledger :=
  { s with contracts := FinMap.set s.contracts a code }

/-- Replace the validator registry. -/
def putValidators (s : Ledger) (validators : FinMap Address Nat) : Ledger :=
  { s with validators := validators }

/-- Replace the staking pool. -/
def putStakingPool (s : Ledger) (pool : Nat) : Ledger := { s with stakingPool := pool }

/-- Set or remove an open inference request. -/
def putTier1Pending (s : Ledger) (requestId : Hash256) (anchor : Option Nat) : Ledger :=
  { s with tier1Pending := FinMap.set s.tier1Pending requestId anchor }

/-- Queue a bond release. -/
def putBondRelease (s : Ledger) (height : Nat) (escrow : Address) : Ledger :=
  { s with pendingBondReleases := FinMap.set s.pendingBondReleases (height, escrow) (some ()) }

variable {s : Ledger} {a b : Address} {x y : Account}

instance : Decidable (s.Present a) := inferInstanceAs (Decidable (_ ≠ _))

theorem lookup_putAccount :
    (s.putAccount a x).accounts.lookup b = if b = a then some x else s.accounts.lookup b := by
  simp [putAccount, lookup_set]

@[simp] theorem accountOr_putAccount_self : (s.putAccount a x).accountOr a = x := by
  simp [accountOr, lookup_putAccount]

theorem accountOr_putAccount :
    (s.putAccount a x).accountOr b = if b = a then x else s.accountOr b := by
  unfold accountOr
  rw [lookup_putAccount]
  split <;> rfl

theorem present_putAccount : (s.putAccount a x).Present b ↔ b = a ∨ s.Present b := by
  unfold Present
  rw [lookup_putAccount]
  split <;> simp [*]

@[simp] theorem putAccount_putAccount : (s.putAccount a x).putAccount a y = s.putAccount a y := by
  simp [putAccount, set_set]

@[simp] theorem putAccount_ensure : (s.ensure a).putAccount a x = s.putAccount a x :=
  putAccount_putAccount

@[simp] theorem accountOr_ensure : (s.ensure a).accountOr b = s.accountOr b := by
  unfold ensure
  rw [accountOr_putAccount]
  split
  · subst b
    rfl
  · rfl

theorem present_ensure : (s.ensure a).Present b ↔ b = a ∨ s.Present b := present_putAccount

theorem setAccounts_eq_self {o : Option Account} :
    { s with accounts := FinMap.set s.accounts a o } = s ↔ s.accounts.lookup a = o := by
  rw [← set_eq_self_iff]
  constructor
  · intro h
    exact congrArg Ledger.accounts h
  · intro h
    rw [h]

theorem putAccount_eq_self : s.putAccount a x = s ↔ s.accounts.lookup a = some x :=
  setAccounts_eq_self

theorem putAccount_comm (h : a ≠ b) :
    (s.putAccount a x).putAccount b y = (s.putAccount b y).putAccount a x := by
  simp only [putAccount, set_comm _ _ _ h]

theorem putAccount_putAccount_eq_self (h : a ≠ b) : (s.putAccount a x).putAccount b y = s ↔
      s.accounts.lookup a = some x ∧ s.accounts.lookup b = some y := by
  constructor
  · intro heq
    rw [← heq]
    simp [lookup_putAccount, h]
  · rintro ⟨ha, hb⟩
    rw [putAccount_eq_self.mpr ha, putAccount_eq_self.mpr hb]

@[simp] theorem ensure_eq_self : s.ensure a = s ↔ s.Present a := by
  rw [ensure, putAccount_eq_self, Present, accountOr]
  cases s.accounts.lookup a <;> simp

theorem accountOr_of_lookup (hx : s.accounts.lookup a = some x) : s.accountOr a = x := by
  rw [accountOr, hx]
  rfl

theorem ensure_of_lookup (hx : s.accounts.lookup a = some x) : s.ensure a = s :=
  ensure_eq_self.mpr (by simp [Present, hx])

@[simp] theorem ensure_ensure_eq_self : (s.ensure a).ensure b = s ↔ s.Present a ∧ s.Present b := by
  constructor
  · intro h
    constructor
    · rw [← h, present_ensure, present_ensure]
      exact Or.inr (Or.inl rfl)
    · rw [← h, present_ensure]
      exact Or.inl rfl
  · rintro ⟨ha, hb⟩
    rw [ensure_eq_self.mpr ha, ensure_eq_self.mpr hb]

theorem ensure_putAccount_eq_self :
    (s.ensure a).putAccount b x = s ↔ s.accounts.lookup b = some x ∧ s.Present a := by
  constructor
  · intro h
    constructor
    · rw [← h, lookup_putAccount, if_pos rfl]
    · rw [← h, present_putAccount, present_ensure]
      exact Or.inr (Or.inl rfl)
  · rintro ⟨hb, ha⟩
    rw [ensure_eq_self.mpr ha, putAccount_eq_self.mpr hb]

theorem lookup_dropAccount :
    (s.dropAccount a).accounts.lookup b = if b = a then none else s.accounts.lookup b := by
  simp [dropAccount, lookup_set]

@[simp] theorem dropAccount_putAccount : (s.putAccount a x).dropAccount a = s.dropAccount a := by
  simp [putAccount, dropAccount, set_set]

theorem dropAccount_putAccount_of_ne (h : b ≠ a) :
    (s.putAccount b x).dropAccount a = (s.dropAccount a).putAccount b x := by
  simp only [putAccount, dropAccount, set_comm _ _ _ h]

theorem dropAccount_eq_self : s.dropAccount a = s ↔ s.accounts.lookup a = none :=
  setAccounts_eq_self

theorem ensure_dropAccount_eq_self : (s.ensure a).dropAccount b = s ↔
      s.accounts.lookup b = none ∧ (b ≠ a → s.Present a) := by
  constructor
  · intro h
    constructor
    · rw [← h, lookup_dropAccount, if_pos rfl]
    · intro hne
      rw [← h, Present, lookup_dropAccount, if_neg fun heq => hne heq.symm]
      exact present_ensure.mpr (Or.inl rfl)
  · rintro ⟨hb, ha⟩
    by_cases heq : b = a
    · subst heq
      rw [ensure, dropAccount_putAccount, dropAccount_eq_self.mpr hb]
    · rw [ensure_eq_self.mpr (ha heq), dropAccount_eq_self.mpr hb]

/-- Setting a contract's code on a ledger with the same contracts. -/
theorem putContract_eq_iff {t : Ledger} {code : Option Bytes} (h : t.contracts = s.contracts) :
    t.putContract a code = s ↔ s.contracts.lookup a = code ∧ t = s := by
  constructor
  · intro heq
    have hcode : FinMap.set s.contracts a code = s.contracts := by
      rw [← h]
      exact (congrArg Ledger.contracts heq).trans h.symm
    refine ⟨(set_eq_self_iff _ _ _).mp hcode, ?_⟩
    rw [← heq]
    refine Ledger.ext rfl rfl ?_ rfl rfl rfl rfl
    rw [putContract, h, hcode]
  · rintro ⟨hcode, rfl⟩
    rw [putContract, (set_eq_self_iff _ _ _).mpr hcode]

section Fields

-- An operation on one field is invisible to the others.  The proofs are `(rfl)` so that
-- rewriting a condition also replaces its decision procedure.

variable {key : Hash256} {value : Bytes} {code : Option Bytes} {vs : FinMap Address Nat}
  {n : Nat} {o : Option Nat}

@[simp] theorem storage_putAccount : (s.putAccount a x).storage = s.storage := (rfl)
@[simp] theorem contracts_putAccount : (s.putAccount a x).contracts = s.contracts := (rfl)
@[simp] theorem validators_putAccount : (s.putAccount a x).validators = s.validators := (rfl)
@[simp] theorem stakingPool_putAccount : (s.putAccount a x).stakingPool = s.stakingPool := (rfl)

@[simp] theorem storage_ensure : (s.ensure a).storage = s.storage := (rfl)
@[simp] theorem contracts_ensure : (s.ensure a).contracts = s.contracts := (rfl)
@[simp] theorem validators_ensure : (s.ensure a).validators = s.validators := (rfl)
@[simp] theorem stakingPool_ensure : (s.ensure a).stakingPool = s.stakingPool := (rfl)

@[simp] theorem accountOr_putStorage : (s.putStorage b key value).accountOr a = s.accountOr a := (rfl)
@[simp] theorem accountOr_putContract : (s.putContract b code).accountOr a = s.accountOr a := (rfl)
@[simp] theorem accountOr_putValidators : (s.putValidators vs).accountOr a = s.accountOr a := (rfl)
@[simp] theorem accountOr_putStakingPool : (s.putStakingPool n).accountOr a = s.accountOr a := (rfl)

@[simp] theorem putAccount_putContract :
    (s.putContract b code).putAccount a x = (s.putAccount a x).putContract b code := (rfl)
@[simp] theorem dropAccount_putContract :
    (s.putContract b code).dropAccount a = (s.dropAccount a).putContract b code := (rfl)
@[simp] theorem putContract_putContract {code' : Option Bytes} :
    (s.putContract b code).putContract b code' = s.putContract b code' := by
  simp [putContract, set_set]

@[simp] theorem validators_putStakingPool : (s.putStakingPool n).validators = s.validators := (rfl)

end Fields

end Ledger

/-- What `get_account` finds. -/
def Context.accountOf (c : Context) (s : Ledger) (a : Address) : Option Account :=
  (c.gpuCache.lookup a).or (s.accounts.lookup a)

/-- What `get_account` finds, or the empty account. -/
def Context.accountOrNew (c : Context) (s : Ledger) (a : Address) : Account :=
  (c.accountOf s a).getD (Account.new a 0)

variable {a : Address}

@[simp] theorem Context.getD_accountOf {c : Context} {s : Ledger} :
    (c.accountOf s a).getD (Account.new a 0) = c.accountOrNew s a := (rfl)

variable {x : Account}

theorem Context.accountOrNew_of_some {c : Context} {s : Ledger} (h : c.accountOf s a = some x) : c.accountOrNew s a = x := by
  rw [Context.accountOrNew, h, Option.getD_some]

variable {ε' ε α : Type}

@[simp] theorem mapError_eq_ok {f : ε → ε'} {x : Except ε α} {a : α} :
    x.mapError f = .ok a ↔ x = .ok a := by
  cases x <;> simp [Except.mapError]

theorem mapError_eq_error {f : ε → ε'} {x : Except ε α} {e : ε'} :
    x.mapError f = .error e ↔ ∃ e', x = .error e' ∧ f e' = e := by
  cases x <;> simp [Except.mapError]

/-! ## Rules of the operations -/

section Rules

variable {α : Type} {s : Ledger} {Q : Except StateError α → Ledger → List StateRecord → Prop}
  {QU : Except StateError Unit → Ledger → List StateRecord → Prop} {c : Context} {a : Address}
  {x : Account} {n : Nat} {key : Hash256} {value : Bytes} {r : Hash256} {o : Option Nat}
  {tx : Transaction} {add : Nat → Nat → Nat} {f : Unit → Exec α}

variable {l : List (Address × Account)}

@[simp] theorem wp_readAccount_bind {f : Option Account → Exec α} :
    wp (readAccount a >>= f) s Q ↔ wp (f (s.accounts.lookup a)) s Q := Iff.rfl

@[simp] theorem wp_insertAccount_bind :
    wp (insertAccount a x >>= f) s Q ↔ wp (f ()) (s.putAccount a x) Q := Iff.rfl

@[simp] theorem wp_insertAccount :
    wp (insertAccount a x) s QU ↔ QU (.ok ()) (s.putAccount a x) [] := Iff.rfl

@[simp] theorem wp_logAccount_bind :
    wp (logAccount a x >>= f) s Q ↔ wp (f ()) s fun r t l => Q r t (.setAccount a x :: l) :=
  Iff.rfl

@[simp] theorem wp_logAccount :
    wp (logAccount a x) s QU ↔ QU (.ok ()) s [.setAccount a x] := Iff.rfl

@[simp] theorem wp_storeAccount_bind : wp (storeAccount a x >>= f) s Q ↔
      wp (f ()) (s.putAccount a x) fun r t l => Q r t (.setAccount a x :: l) := Iff.rfl

@[simp] theorem wp_storeAccount :
    wp (storeAccount a x) s QU ↔ QU (.ok ()) (s.putAccount a x) [.setAccount a x] := Iff.rfl

@[simp] theorem wp_getAccount_bind {f : Option Account → Exec α} :
    wp (getAccount c a >>= f) s Q ↔ wp (f (c.accountOf s a)) s Q := by
  unfold getAccount Context.accountOf
  cases c.gpuCache.lookup a with
  | none | some => exact Iff.rfl

@[simp] theorem wp_getOrCreateAccount_bind {f : Account → Exec α} :
    wp (getOrCreateAccount a >>= f) s Q ↔ wp (f (s.accountOr a)) (s.ensure a) Q := by
  unfold getOrCreateAccount
  rw [wp_bind_assoc, wp_readAccount_bind]
  cases h : s.accounts.lookup a with
  | none =>
    have hor : s.accountOr a = Account.new a 0 := by simp [Ledger.accountOr, h]
    rw [Ledger.ensure, hor]
    exact Iff.rfl
  | some x =>
    rw [accountOr_of_lookup h, ensure_of_lookup h]
    exact Iff.rfl

@[simp] theorem wp_requireNonce_bind : wp (requireNonce x n >>= f) s Q ↔
      (x.nonce = n → wp (f ()) s Q) ∧ (x.nonce ≠ n → Q (.error (.invalidNonce x.nonce n)) s []) :=
  wp_require_bind

@[simp] theorem wp_requireBalance_bind {available need : Nat} :
    wp (requireBalance available need >>= f) s Q ↔ (need ≤ available → wp (f ()) s Q) ∧
        (¬ need ≤ available → Q (.error (.insufficientBalance available need)) s []) :=
  wp_require_bind

@[simp] theorem wp_orError_bind {β : Type} {text : String} {o : Option β} {f : β → Exec α} :
    wp (orError text o >>= f) s Q ↔
      (∀ b, o = some b → wp (f b) s Q) ∧ (o = none → Q (.error (.executionError text)) s []) :=
  wp_ofOption_bind

@[simp] theorem wp_openSender_bind {f : Account → Exec α} : wp (openSender tx >>= f) s Q ↔
      ((s.accountOr tx.sender).nonce = tx.nonce →
        wp (f (s.accountOr tx.sender)) (s.ensure tx.sender) Q) ∧
      ((s.accountOr tx.sender).nonce ≠ tx.nonce →
        Q (.error (.invalidNonce (s.accountOr tx.sender).nonce tx.nonce)) (s.ensure tx.sender) [])
    := by
  unfold openSender
  rw [wp_bind_assoc, wp_getOrCreateAccount_bind]
  rw [wp_bind_assoc, wp_requireNonce_bind]
  exact Iff.rfl

@[simp] theorem wp_creditAccount_bind : wp (creditAccount add a n >>= f) s Q ↔
      wp (f ()) (s.putAccount a ((s.accountOr a).withBalance (add (s.accountOr a).balance n)))
        fun r t l => Q r t
          (.setAccount a ((s.accountOr a).withBalance (add (s.accountOr a).balance n)) :: l) := by
  unfold creditAccount
  rw [wp_bind_assoc, wp_getOrCreateAccount_bind, wp_storeAccount_bind, putAccount_ensure]

@[simp] theorem wp_creditAccount : wp (creditAccount add a n) s QU ↔ QU (.ok ()) (s.putAccount a
          ((s.accountOr a).withBalance (add (s.accountOr a).balance n)))
        [.setAccount a ((s.accountOr a).withBalance (add (s.accountOr a).balance n))] := by
  unfold creditAccount
  rw [wp_getOrCreateAccount_bind, wp_storeAccount, putAccount_ensure]

@[simp] theorem wp_removeAccount_bind :
    wp (removeAccount a >>= f) s Q ↔ wp (f ()) (s.dropAccount a) Q := Iff.rfl

@[simp] theorem wp_containsAccount_bind {f : Bool → Exec α} :
    wp (containsAccount a >>= f) s Q ↔ wp (f (s.accounts.lookup a).isSome) s Q := Iff.rfl

@[simp] theorem wp_getAccountOrNew_bind {f : Account → Exec α} :
    wp (getAccountOrNew c a >>= f) s Q ↔ wp (f (c.accountOrNew s a)) s Q := by
  unfold getAccountOrNew
  rw [wp_bind_assoc, wp_getAccount_bind]
  exact Iff.rfl

@[simp] theorem wp_readStorage_bind {f : Option (FinMap Hash256 Bytes) → Exec α} :
    wp (readStorage a >>= f) s Q ↔ wp (f (s.storage.lookup a)) s Q := Iff.rfl

@[simp] theorem wp_getStorage_bind {f : Option Bytes → Exec α} : wp (getStorage a key >>= f) s Q ↔
      wp (f ((s.storage.lookup a).bind fun m => m.lookup key)) s Q := Iff.rfl

@[simp] theorem wp_setStorage_bind : wp (setStorage a key value >>= f) s Q ↔
      wp (f ()) (s.putStorage a key value) fun r t l => Q r t (.setStorage a key value :: l) :=
  Iff.rfl

@[simp] theorem wp_setStorage : wp (setStorage a key value) s QU ↔
      QU (.ok ()) (s.putStorage a key value) [.setStorage a key value] := Iff.rfl

@[simp] theorem wp_getContract_bind {f : Option Bytes → Exec α} :
    wp (getContract a >>= f) s Q ↔ wp (f (s.contracts.lookup a)) s Q := Iff.rfl

@[simp] theorem wp_deployContract_bind {code : Bytes} : wp (deployContract a code >>= f) s Q ↔
      wp (f ()) (s.putContract a (some code)) fun r t l => Q r t (.setContract a code :: l) :=
  Iff.rfl

@[simp] theorem wp_removeContract_bind :
    wp (removeContract a >>= f) s Q ↔ wp (f ()) (s.putContract a none) Q := Iff.rfl

@[simp] theorem wp_readValidators_bind {f : FinMap Address Nat → Exec α} :
    wp (readValidators >>= f) s Q ↔ wp (f s.validators) s Q := Iff.rfl

@[simp] theorem wp_validatorStake_bind {f : Nat → Exec α} :
    wp (validatorStake a >>= f) s Q ↔ wp (f ((s.validators.lookup a).getD 0)) s Q := Iff.rfl

@[simp] theorem wp_setValidatorStake_bind : wp (setValidatorStake a o >>= f) s Q ↔
      wp (f ()) (s.putValidators (FinMap.set s.validators a o)) Q := Iff.rfl

@[simp] theorem wp_readStakingPool_bind {f : Nat → Exec α} :
    wp (readStakingPool >>= f) s Q ↔ wp (f s.stakingPool) s Q := Iff.rfl

@[simp] theorem wp_addStakingPoolChecked_bind : wp (addStakingPoolChecked n >>= f) s Q ↔
      (s.stakingPool + n ≤ u64Max → wp (f ()) (s.putStakingPool (s.stakingPool + n)) Q) ∧
      (u64Max < s.stakingPool + n → Q (.error (.executionError
        s!"staking pool overflow: current={s.stakingPool}, add={n}")) s []) := by
  unfold addStakingPoolChecked
  simp only [wp_bind_assoc, wp_readStakingPool_bind, wp_ofOption_bind, checkedAdd_eq_some,
    checkedAdd_eq_none, and_imp, forall_eq']
  exact Iff.rfl

@[simp] theorem wp_subtractStakingPoolChecked_bind : wp (subtractStakingPoolChecked n >>= f) s Q ↔
      (n ≤ s.stakingPool → wp (f ()) (s.putStakingPool (s.stakingPool - n)) Q) ∧
      (s.stakingPool < n → Q (.error (.executionError
        s!"staking pool underflow: current={s.stakingPool}, subtract={n}")) s []) := by
  unfold subtractStakingPoolChecked
  simp only [wp_bind_assoc, wp_readStakingPool_bind, wp_ofOption_bind, checkedSub_eq_some,
    checkedSub_eq_none, and_imp]
  constructor
  · rintro ⟨hok, herr⟩
    exact ⟨fun h => hok _ h rfl, herr⟩
  · rintro ⟨hok, herr⟩
    exact ⟨fun pool h hpool => hpool ▸ hok h, herr⟩

@[simp] theorem wp_setTier1Pending_bind :
    wp (setTier1Pending r o >>= f) s Q ↔ wp (f ()) (s.putTier1Pending r o) Q := Iff.rfl

@[simp] theorem wp_setTier1Pending :
    wp (setTier1Pending r o) s QU ↔ QU (.ok ()) (s.putTier1Pending r o) [] := Iff.rfl

@[simp] theorem wp_queueBondRelease {h : Nat} :
    wp (queueBondRelease h a) s QU ↔ QU (.ok ()) (s.putBondRelease h a) [] := Iff.rfl

@[simp] theorem wp_requireValidator_bind {family : String} :
    wp (requireValidator family a >>= f) s Q ↔ (isValidator s.validators a = true → wp (f ()) s Q) ∧
      (isValidator s.validators a ≠ true → Q (.error (.executionError
        s!"{family}: signer {a.toHex} is not an active validator")) s []) :=
  wp_require_bind

@[simp] theorem wp_chargeGas_bind {gas : GasMeter} {f : GasMeter → Exec α} :
    wp (chargeGas gas n >>= f) s Q ↔ ((gas.charge n).2 = none → wp (f (gas.charge n).1) s Q) ∧
      (∀ e, (gas.charge n).2 = some e →
        Q (.error (.executionError s!"gas: {e.display}")) s []) := by
  unfold chargeGas
  rcases gas.charge n with ⟨gas', _ | e⟩ <;> simp

/-- The result of a family that charges no further gas. -/
theorem wp_flatGas_consumed {gas : GasMeter} {arm : Exec Unit}
    {Q : Except StateError Nat → Ledger → List StateRecord → Prop} :
    wp (flatGas gas arm >>= fun gas => pure gas.consumed) s Q ↔
      wp arm s fun r t l => Q (r.map fun _ => gas.consumed) t l := by
  unfold flatGas
  rw [wp_bind_assoc, wp_bind]
  unfold wp
  generalize arm.run s = outcome
  obtain ⟨r, t, l⟩ := outcome
  cases r with
  | ok u =>
    show Q (.ok gas.consumed) t (l ++ []) ↔ Q (.ok gas.consumed) t l
    rw [List.append_nil]
  | error e => exact Iff.rfl

theorem wp_forEach_insertAccount_bind :
    wp (forEach l (fun e => insertAccount e.1 e.2) >>= f) s Q ↔ wp (f ()) (s.putAccounts l) Q := by
  induction l generalizing s with
  | nil => exact Iff.rfl
  | cons e l ih => exact ih

theorem wp_forEach_logAccount : wp (forEach l fun e => logAccount e.1 e.2) s QU ↔
      QU (.ok ()) s (l.map fun e => .setAccount e.1 e.2) := by
  induction l generalizing QU with
  | nil => exact Iff.rfl
  | cons e l ih =>
    show wp (forEach l _) s (fun r t es => QU r t (.setAccount e.1 e.2 :: es)) ↔ _
    rw [ih]
    exact Iff.rfl

@[simp] theorem wp_commitAccounts : wp (commitAccounts l) s QU ↔
      QU (.ok ()) (s.putAccounts l) (l.map fun e => .setAccount e.1 e.2) := by
  unfold commitAccounts
  rw [wp_forEach_insertAccount_bind, wp_forEach_logAccount]

end Rules

/-! ## Operations that cannot fail -/

theorem noFail_getOrCreateAccount (a : Address) : (getOrCreateAccount a).NoFail := by
  intro o
  cases o with
  | none | some => trivial

@[simp] theorem noFail_storeAccount : (storeAccount a x).NoFail :=
  trivial

@[simp] theorem noFail_storeAccount_bind {f : Unit → Exec α} : (storeAccount a x >>= f).NoFail ↔ (f ()).NoFail := Iff.rfl

@[simp] theorem noFail_setTier1Pending {r : Hash256} {o : Option Nat} :
    (setTier1Pending r o).NoFail := trivial

theorem noFail_creditAccount (add : Nat → Nat → Nat) (a : Address) (n : Nat) :
    (creditAccount add a n).NoFail :=
  (noFail_getOrCreateAccount a).bind fun _ => trivial

theorem noFail_setStorage (a : Address) (key : Hash256) (value : Bytes) :
    (setStorage a key value).NoFail :=
  fun _ => trivial

theorem noFail_payRelease (body : InferenceEscrowReleaseBody) (total : Nat) :
    (payRelease body total).NoFail :=
  (noFail_creditAccount _ _ _).bind fun _ =>
    (NoFail.forEach fun _ => noFail_creditAccount _ _ _).bind fun _ =>
      (noFail_creditAccount _ _ _).bind fun _ => noFail_creditAccount _ _ _

section

variable [Externals]

theorem noFail_settleRequest (escrow requester : Address) (votes : List (Address × Hash256))
    (committeeSize maxReward : Nat) :
    (settleRequest escrow requester votes committeeSize maxReward).NoFail := by
  have hagreed : ∀ output, (payAgreed escrow requester votes output maxReward).NoFail := fun _ =>
    (NoFail.forEach fun _ => noFail_creditAccount _ _ _).bind fun _ =>
      (noFail_creditAccount _ _ _).bind fun _ =>
        (noFail_creditAccount _ _ _).bind fun _ => noFail_setStorage _ _ _
  have hrefund : (refundDisagreed requester maxReward).NoFail :=
    (noFail_creditAccount _ _ _).bind fun _ => by simp [noFail_creditAccount]
  unfold settleRequest
  rw [noFail_ite]
  exact ⟨fun _ => (hagreed _).bind fun _ => trivial, fun _ => hrefund.bind fun _ => trivial⟩

theorem noFail_storeOutputBlob (escrow : Address) (body : InferenceVoteBody) :
    (storeOutputBlob escrow body).NoFail := by
  unfold storeOutputBlob
  cases body.outputBlob with
  | none => trivial
  | some blob =>
    refine NoFail.bind (fun _ => trivial) fun existing => ?_
    simp [noFail_setStorage]

end

/-! ## Footprints of the operations -/

section Footprints

variable {α : Type} {R W : Cell → Prop} {G : StateRecord → Prop} {c : Context} {a : Address}
  {x : Account} {n : Nat} {key : Hash256} {value : Bytes} {r : Hash256} {o : Option Nat}
  {tx : Transaction} {add : Nat → Nat → Nat} {f : Unit → Exec α}

@[simp] theorem within_readAccount_bind {f : Option Account → Exec α} :
    Within R W G (readAccount a >>= f) ↔ R (.account a) ∧ ∀ o, Within R W G (f o) := Iff.rfl

@[simp] theorem within_insertAccount_bind :
    Within R W G (insertAccount a x >>= f) ↔ W (.account a) ∧ Within R W G (f ()) := Iff.rfl

@[simp] theorem within_insertAccount :
    Within R W G (insertAccount a x) ↔ W (.account a) := within_write

@[simp] theorem within_removeAccount_bind :
    Within R W G (removeAccount a >>= f) ↔ W (.account a) ∧ Within R W G (f ()) := Iff.rfl

@[simp] theorem within_logAccount_bind :
    Within R W G (logAccount a x >>= f) ↔ G (.setAccount a x) ∧ Within R W G (f ()) := Iff.rfl

@[simp] theorem within_logAccount :
    Within R W G (logAccount a x) ↔ G (.setAccount a x) := within_append

@[simp] theorem within_storeAccount_bind : Within R W G (storeAccount a x >>= f) ↔
      W (.account a) ∧ G (.setAccount a x) ∧ Within R W G (f ()) := Iff.rfl

@[simp] theorem within_storeAccount :
    Within R W G (storeAccount a x) ↔ W (.account a) ∧ G (.setAccount a x) := by
  simp [storeAccount]

@[simp] theorem within_getAccount_bind {f : Option Account → Exec α} :
    Within R W G (getAccount c a >>= f) ↔
      (c.gpuCache.lookup a = none → R (.account a) ∧ ∀ o, Within R W G (f o)) ∧
      (∀ x, c.gpuCache.lookup a = some x → Within R W G (f (some x))) := by
  unfold getAccount
  cases c.gpuCache.lookup a with
  | none => simp
  | some x => simp

@[simp] theorem within_getAccountOrNew_bind {f : Account → Exec α} :
    Within R W G (getAccountOrNew c a >>= f) ↔ (c.gpuCache.lookup a = none → R (.account a) ∧
        ∀ o : Option Account, Within R W G (f (o.getD (Account.new a 0)))) ∧
      (∀ x, c.gpuCache.lookup a = some x → Within R W G (f x)) := by
  simp [getAccountOrNew]

@[simp] theorem within_getOrCreateAccount_bind {f : Account → Exec α} :
    Within R W G (getOrCreateAccount a >>= f) ↔
      R (.account a) ∧ W (.account a) ∧ ∀ x, Within R W G (f x) := by
  constructor
  · rintro ⟨hread, hrest⟩
    exact ⟨hread, (hrest none).1, fun x => hrest (some x)⟩
  · rintro ⟨hread, hwrite, hrest⟩
    refine ⟨hread, fun o => ?_⟩
    cases o with
    | none => exact ⟨hwrite, hrest _⟩
    | some x => exact hrest x

@[simp] theorem within_requireNonce_bind :
    Within R W G (requireNonce x n >>= f) ↔ (x.nonce = n → Within R W G (f ())) :=
  within_require_bind

@[simp] theorem within_requireBalance_bind {available need : Nat} :
    Within R W G (requireBalance available need >>= f) ↔ (need ≤ available → Within R W G (f ())) :=
  within_require_bind

@[simp] theorem within_orError_bind {β : Type} {text : String} {o : Option β} {f : β → Exec α} :
    Within R W G (orError text o >>= f) ↔ ∀ b, o = some b → Within R W G (f b) :=
  within_ofOption_bind

@[simp] theorem within_openSender_bind {f : Account → Exec α} : Within R W G (openSender tx >>= f) ↔
      R (.account tx.sender) ∧ W (.account tx.sender) ∧
        ∀ x : Account, x.nonce = tx.nonce → Within R W G (f x) := by
  simp [openSender]

@[simp] theorem within_creditAccount_bind : Within R W G (creditAccount add a n >>= f) ↔
      R (.account a) ∧ W (.account a) ∧
        (∀ x : Account, G (.setAccount a (x.withBalance (add x.balance n)))) ∧
        Within R W G (f ()) := by
  simp only [creditAccount, within_bind_assoc, within_getOrCreateAccount_bind]
  constructor
  · rintro ⟨hR, hW, hrest⟩
    exact ⟨hR, hW, fun x => (hrest x).2.1, (hrest (Account.new a 0)).2.2⟩
  · rintro ⟨hR, hW, hG, hf⟩
    exact ⟨hR, hW, fun x => ⟨hW, hG x, hf⟩⟩

@[simp] theorem within_creditAccount : Within R W G (creditAccount add a n) ↔
      R (.account a) ∧ W (.account a) ∧
        (∀ x : Account, G (.setAccount a (x.withBalance (add x.balance n)))) := by
  simp only [creditAccount, within_getOrCreateAccount_bind, within_storeAccount]
  constructor
  · rintro ⟨hR, hW, hrest⟩
    exact ⟨hR, hW, fun x => (hrest x).2⟩
  · rintro ⟨hR, hW, hG⟩
    exact ⟨hR, hW, fun x => ⟨hW, hG x⟩⟩

@[simp] theorem within_containsAccount_bind {f : Bool → Exec α} :
    Within R W G (containsAccount a >>= f) ↔
      R (.account a) ∧ ∀ o : Option Account, Within R W G (f o.isSome) := Iff.rfl

@[simp] theorem within_getStorage_bind {f : Option Bytes → Exec α} :
    Within R W G (getStorage a key >>= f) ↔ R (.storage a) ∧
      ∀ o : Option (FinMap Hash256 Bytes), Within R W G (f (o.bind fun m => m.lookup key)) :=
  Iff.rfl

@[simp] theorem within_setStorage_bind : Within R W G (setStorage a key value >>= f) ↔
      R (.storage a) ∧ W (.storage a) ∧ G (.setStorage a key value) ∧ Within R W G (f ()) := by
  refine Iff.trans (?_ : _ ↔ R (.storage a) ∧ ∀ _ : Option (FinMap Hash256 Bytes),
    W (.storage a) ∧ G (.setStorage a key value) ∧ Within R W G (f ())) (by simp)
  exact Iff.rfl

@[simp] theorem within_setStorage : Within R W G (setStorage a key value) ↔
      R (.storage a) ∧ W (.storage a) ∧ G (.setStorage a key value) := by
  refine Iff.trans (?_ : _ ↔ R (.storage a) ∧ ∀ _ : Option (FinMap Hash256 Bytes),
    W (.storage a) ∧ G (.setStorage a key value) ∧ True) (by simp)
  exact Iff.rfl

@[simp] theorem within_getContract_bind {f : Option Bytes → Exec α} :
    Within R W G (getContract a >>= f) ↔ R (.contract a) ∧ ∀ o, Within R W G (f o) := Iff.rfl

@[simp] theorem within_deployContract_bind {code : Bytes} :
    Within R W G (deployContract a code >>= f) ↔
      W (.contract a) ∧ G (.setContract a code) ∧ Within R W G (f ()) := Iff.rfl

@[simp] theorem within_removeContract_bind :
    Within R W G (removeContract a >>= f) ↔ W (.contract a) ∧ Within R W G (f ()) := Iff.rfl

@[simp] theorem within_readValidators_bind {f : FinMap Address Nat → Exec α} :
    Within R W G (readValidators >>= f) ↔ R .validators ∧ ∀ vs, Within R W G (f vs) := Iff.rfl

@[simp] theorem within_validatorStake_bind {f : Nat → Exec α} :
    Within R W G (validatorStake a >>= f) ↔
      R .validators ∧ ∀ vs : FinMap Address Nat, Within R W G (f ((vs.lookup a).getD 0)) := Iff.rfl

@[simp] theorem within_setValidatorStake_bind : Within R W G (setValidatorStake a o >>= f) ↔
      R .validators ∧ W .validators ∧ Within R W G (f ()) := by
  refine Iff.trans (?_ : _ ↔ R .validators ∧ ∀ _ : FinMap Address Nat,
    W .validators ∧ Within R W G (f ())) (by simp)
  exact Iff.rfl

@[simp] theorem within_addStakingPoolChecked_bind
    (hR : R .stakingPool) (hW : W .stakingPool) (hf : Within R W G (f ())) :
    Within R W G (addStakingPoolChecked n >>= f) := by
  refine ⟨hR, fun pool => ?_⟩
  show Within R W G ((ofOption _ (checkedAdd pool n) >>= _) >>= f)
  rw [within_bind_assoc, within_ofOption_bind]
  exact fun _ _ => ⟨hW, hf⟩

@[simp] theorem within_subtractStakingPoolChecked_bind
    (hR : R .stakingPool) (hW : W .stakingPool) (hf : Within R W G (f ())) :
    Within R W G (subtractStakingPoolChecked n >>= f) := by
  refine ⟨hR, fun pool => ?_⟩
  show Within R W G ((ofOption _ (checkedSub pool n) >>= _) >>= f)
  rw [within_bind_assoc, within_ofOption_bind]
  exact fun _ _ => ⟨hW, hf⟩

@[simp] theorem within_setTier1Pending :
    Within R W G (setTier1Pending r o) ↔ W (.tier1Pending r) := within_write

@[simp] theorem within_queueBondRelease {h : Nat} :
    Within R W G (queueBondRelease h a) ↔ W (.bondRelease h a) := within_write

theorem within_chargeGas (gas : GasMeter) (n : Nat) : Within R W G (chargeGas gas n) := by
  unfold chargeGas
  split <;> trivial

end Footprints

end ArcChain
