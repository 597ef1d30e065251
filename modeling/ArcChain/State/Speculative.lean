/-
The speculative executor (`block_stm.rs`) and the pipeline stage that
applies its results.

Every transfer and settlement first runs on the accounts the block starts
from.  A transaction whose accounts a lower one then turns out to have
written runs again, in index order, on the versions the lower ones wrote;
what ends without success runs through `execute_tx` after all the others.

Three things tie this to execution in order: the versions a transaction
reads when it runs for the last time, the transactions that wrote none in
the first round, and the ones that are put off to the end.
-/
import ArcChain.State.Concrete
import ArcChain.State.Rules

namespace ArcChain

open Word StoreProg List

/-! ## Versions -/

/-- The fields of an account that the executor tracks. -/
structure Version where
  balance : Nat
  nonce : Nat
deriving DecidableEq, Repr

namespace Account

def version (x : Account) : Version := ⟨x.balance, x.nonce⟩

def withVersion (x : Account) (v : Version) : Account :=
  { x with balance := v.balance, nonce := v.nonce }

@[simp] theorem balance_withVersion (x : Account) (v : Version) :
    (x.withVersion v).balance = v.balance := rfl

@[simp] theorem nonce_withVersion (x : Account) (v : Version) :
    (x.withVersion v).nonce = v.nonce := rfl

end Account

/-- The versions of an account, one for each transaction that wrote it. -/
structure MVHashMap where
  data : FinMap (Address × Nat) Version

namespace MVHashMap

def new : MVHashMap := ⟨∅⟩

/-- An earlier version of the same transaction is replaced. -/
def write (m : MVHashMap) (account : Address) (txIndex : Nat) (v : Version) : MVHashMap :=
  ⟨FinMap.set m.data (account, txIndex) (some v)⟩

/-- The version of the last writer below an index, with the writer. -/
def read (m : MVHashMap) (account : Address) : Nat → Option (Version × Nat)
  | 0 => none
  | i + 1 =>
    match m.data.lookup (account, i) with
    | some v => some (v, i)
    | none => m.read account i

end MVHashMap

/-! ## Speculative execution of one transaction -/

/-- `SpeculativeTxAccessSet`.  A read names the transaction it read from, none for a read of
    the accounts of the block's start (`usize::MAX` in the source). -/
structure SpeculativeTxAccessSet where
  reads : List (Address × Version × Option Nat)
  writes : List (Address × Version)
deriving DecidableEq, Repr

structure SpeculativeResult where
  txIndex : Nat
  success : Bool
  accessSet : SpeculativeTxAccessSet
  gasUsed : Nat
deriving DecidableEq, Repr

/-- What a transfer and a settlement have in common. -/
structure Payment where
  sender : Address
  recipient : Address
  nonce : Nat
  amount : Nat
deriving DecidableEq, Repr

/-- The payment of a transfer or a settlement. -/
def Transaction.payment (tx : Transaction) : Option Payment :=
  match tx.body with
  | .transfer body => some ⟨tx.sender, body.recipient, tx.nonce, body.amount⟩
  | .settle body => some ⟨tx.sender, body.agentId, tx.nonce, body.amount⟩
  | _ => none

/-- The version of an account below an index and where it comes from: the multi-version map,
    or else the accounts of the block's start. -/
def MVHashMap.source (m : MVHashMap) (baseAccounts : FinMap Address Account) (a : Address)
    (txIndex : Nat) : Option (Version × Option Nat) :=
  match m.read a txIndex with
  | some (v, writer) => some (v, some writer)
  | none => (baseAccounts.lookup a).map fun x => (x.version, none)

/-- The writes of a payment that passes its checks on these versions.  A payment to oneself
    subtracts the amount and adds it back. -/
def Payment.writes (p : Payment) (sender recipient : Version) : List (Address × Version) :=
  if p.recipient = p.sender then
    [(p.sender, ⟨wrappingAdd (sender.balance - p.amount) p.amount, wrappingAdd sender.nonce 1⟩)]
  else
    [(p.sender, ⟨sender.balance - p.amount, wrappingAdd sender.nonce 1⟩),
      (p.recipient, ⟨wrappingAdd recipient.balance p.amount, recipient.nonce⟩)]

/-- The arms of `speculative_execute_tx` for a transfer and for a settlement. -/
def speculatePayment (txIndex : Nat) (p : Payment) (baseAccounts : FinMap Address Account)
    (m : MVHashMap) : SpeculativeResult :=
  let source := m.source baseAccounts p.sender txIndex
  let sender := source.getD (⟨0, 0⟩, none)
  let recipient := (m.source baseAccounts p.recipient txIndex).getD (⟨0, 0⟩, none)
  let success := decide (source ≠ none ∧ p.amount ≤ sender.1.balance ∧ sender.1.nonce = p.nonce)
  { txIndex := txIndex
    success := success
    accessSet :=
      { reads := (p.sender, sender) ::
          if p.recipient = p.sender then [] else [(p.recipient, recipient)]
        writes := if success then p.writes sender.1 recipient.1 else [] }
    gasUsed := 21000 }

def speculativeExecuteTx (txIndex : Nat) (tx : Transaction)
    (baseAccounts : FinMap Address Account) (m : MVHashMap) : SpeculativeResult :=
  match tx.payment with
  | some p => speculatePayment txIndex p baseAccounts m
  | none => ⟨txIndex, false, ⟨[], []⟩, 0⟩

/-! ## The scheduler -/

inductive TxStatus where
  | pending
  | executed
  | validated
  | needsReExecution
deriving DecidableEq, Repr

/-- The status and the result of one transaction. -/
structure Slot where
  status : TxStatus
  result : Option SpeculativeResult
deriving DecidableEq, Repr

structure SpeculativeScheduler where
  slots : List Slot
  mvHashmap : MVHashMap

namespace SpeculativeScheduler

def new (numTxs : Nat) : SpeculativeScheduler :=
  ⟨List.replicate numTxs ⟨.pending, none⟩, .new⟩

/-- A failed transaction writes nothing, and removes nothing it wrote in an
    earlier round. -/
def recordResult (s : SpeculativeScheduler) (r : SpeculativeResult) : SpeculativeScheduler where
  slots := s.slots.set r.txIndex ⟨.executed, some r⟩
  mvHashmap := r.accessSet.writes.foldl (fun m w => m.write w.1 r.txIndex w.2) s.mvHashmap

/-- Whether no read is behind the multi-version map.  An account that no lower transaction
    wrote is not looked at. -/
def readsCurrent (m : MVHashMap) (idx : Nat) (r : SpeculativeResult) : Bool :=
  r.accessSet.reads.all fun (account, v, source) =>
    match m.read account idx with
    | none => true
    | some (latest, writer) => source == some writer && latest == v

/-- What `validate` makes of one slot. -/
def validateSlot (m : MVHashMap) (idx : Nat) (slot : Slot) : Slot :=
  match slot.status, slot.result with
  | .executed, some r =>
    { slot with status := if readsCurrent m idx r then .validated else .needsReExecution }
  | _, _ => slot

/-- Whether `validate` finds a conflict in a slot. -/
def conflicts (m : MVHashMap) (idx : Nat) (slot : Slot) : Bool :=
  match slot.status, slot.result with
  | .executed, some r => !readsCurrent m idx r
  | _, _ => false

/-- The scheduler afterwards and the transactions to run again. -/
def validate (s : SpeculativeScheduler) : SpeculativeScheduler × List Nat :=
  ({ s with slots := s.slots.mapIdx (validateSlot s.mvHashmap) },
    (List.range s.slots.length).filter fun idx =>
      (s.slots[idx]?).elim false (conflicts s.mvHashmap idx))

/-- The result of a slot that is applied as it is. -/
def Slot.resolved? (slot : Slot) : Option SpeculativeResult :=
  match slot.status, slot.result with
  | .validated, some r => if r.success then some r else none
  | _, _ => none

/-- The results to apply and the transactions left to `execute_tx`. -/
def finalize (s : SpeculativeScheduler) : List SpeculativeResult × List Nat :=
  (s.slots.filterMap Slot.resolved?,
    (List.range s.slots.length).filter fun idx => ((s.slots[idx]?).bind Slot.resolved?).isNone)

end SpeculativeScheduler

/-- Run the conflicting transactions again, in index order. -/
def reexecute (transactions : List Transaction) (accounts : FinMap Address Account)
    (s : SpeculativeScheduler) (conflicts : List Nat) : SpeculativeScheduler :=
  conflicts.foldl (fun s idx =>
    match transactions[idx]? with
    | some tx => s.recordResult (speculativeExecuteTx idx tx accounts s.mvHashmap)
    | none => s) s

/-- The validation rounds, until one finds no conflict. -/
def validationRounds (transactions : List Transaction) (accounts : FinMap Address Account) :
    Nat → SpeculativeScheduler → SpeculativeScheduler
  | 0, s => s
  | rounds + 1, s =>
    if s.validate.2 = [] then s.validate.1
    else validationRounds transactions accounts rounds
      (reexecute transactions accounts s.validate.1 s.validate.2)

def maxRounds : Nat := 3

def executeSpeculative (transactions : List Transaction) (accounts : FinMap Address Account) :
    List SpeculativeResult × List Nat :=
  let scheduler := SpeculativeScheduler.new transactions.length
  let results := transactions.mapIdx fun idx tx =>
    speculativeExecuteTx idx tx accounts scheduler.mvHashmap
  let scheduler := results.foldl SpeculativeScheduler.recordResult scheduler
  let scheduler := validationRounds transactions accounts maxRounds scheduler
  scheduler.validate.1.finalize

/-! ## The pipeline stage -/

/-- The state the pipeline works on; the context holds the GPU cache. -/
structure PipelineState where
  context : Context
  ledger : Ledger
  success : List Bool

/-- With a GPU cache, the account is written through to it. -/
def PipelineState.updateAccount (gpu : Bool) (p : PipelineState) (a : Address) (x : Account) :
    PipelineState where
  context :=
    if gpu then { p.context with gpuCache := FinMap.set p.context.gpuCache a (some x) }
    else p.context
  ledger := p.ledger.putAccount a x
  success := p.success

/-- Apply the writes of one result. -/
def PipelineState.applyWrites (gpu : Bool) (p : PipelineState) (writes : List (Address × Version)) :
    PipelineState :=
  writes.foldl (fun p w =>
    p.updateAccount gpu w.1 ((p.context.accountOrNew p.ledger w.1).withVersion w.2)) p

/-- Apply a speculative result and mark its receipt. -/
def PipelineState.applyResult (gpu : Bool) (p : PipelineState) (r : SpeculativeResult) :
    PipelineState :=
  if r.success then
    let p := p.applyWrites gpu r.accessSet.writes
    { p with success := p.success.set r.txIndex true }
  else { p with success := p.success.set r.txIndex false }

section

variable [Externals]

/-- Run an unresolved transaction through `execute_tx`. -/
def PipelineState.fallBack (transactions : List Transaction) (p : PipelineState) (idx : Nat) :
    PipelineState :=
  match transactions[idx]? with
  | none => p
  | some tx =>
    { p with
      ledger := ((executeTx p.context tx).run p.ledger).store
      success := p.success.set idx ((executeTx p.context tx).run p.ledger).result.isOk }

/-- The speculative stage of the pipeline: the ledger and the receipts' success flags. -/
def runSpeculative (gpu : Bool) (c : Context) (transactions : List Transaction) (s : Ledger) :
    Ledger × List Bool :=
  let outcome := executeSpeculative transactions s.accounts
  let p : PipelineState := ⟨c, s, List.replicate transactions.length false⟩
  let p := outcome.1.foldl (PipelineState.applyResult gpu) p
  let p := outcome.2.foldl (PipelineState.fallBack transactions) p
  (p.ledger, p.success)

/-- `execute_tx` over the list in order: the ledger and the success flags. -/
def runInOrder (c : Context) : List Transaction → Ledger → Ledger × List Bool
  | [], s => (s, [])
  | tx :: rest, s =>
    let outcome := (executeTx c tx).run s
    ((runInOrder c rest outcome.store).1,
      outcome.result.isOk :: (runInOrder c rest outcome.store).2)

end

/-! ## Payments in exact arithmetic -/

namespace Payment

variable (p q : Payment) (versions start : Address → Version)

/-- The versions after the payment. -/
def apply (a : Address) : Version :=
  if a = p.sender then
    if p.recipient = p.sender then ⟨(versions a).balance, (versions a).nonce + 1⟩
    else ⟨(versions a).balance - p.amount, (versions a).nonce + 1⟩
  else if a = p.recipient then ⟨(versions a).balance + p.amount, (versions a).nonce⟩
  else versions a

/-- The payment passes the checks of the speculative executor. -/
def Accepted : Prop :=
  p.amount ≤ (versions p.sender).balance ∧ (versions p.sender).nonce = p.nonce

/-- The payment passes its checks and no counter overflows. -/
def Payable : Prop :=
  p.Accepted versions ∧ (versions p.sender).nonce + 1 ≤ u64Max ∧
    (versions p.sender).balance ≤ u64Max ∧
    (p.recipient ≠ p.sender → (versions p.recipient).balance + p.amount ≤ u64Max)

/-- The nonce was used up before the block. -/
def Replayed : Prop := p.nonce < (start p.sender).nonce

/-- The payment touches the account. -/
def Touches (a : Address) : Prop := a = p.sender ∨ a = p.recipient

/-- The payments have an account in common. -/
def Meets : Prop := p.Touches q.sender ∨ p.Touches q.recipient

instance : Decidable (p.Accepted versions) := inferInstanceAs (Decidable (_ ∧ _))
instance : Decidable (p.Payable versions) := inferInstanceAs (Decidable (_ ∧ _))
instance : Decidable (p.Replayed start) := inferInstanceAs (Decidable (_ < _))
instance (a : Address) : Decidable (p.Touches a) := inferInstanceAs (Decidable (_ ∨ _))
instance : Decidable (p.Meets q) := inferInstanceAs (Decidable (_ ∨ _))

/-- A replayed payment changes nothing. -/
def settle : Address → Version := if p.Replayed start then versions else p.apply versions

end Payment

/-- The versions after payments made in order. -/
def versionsAfter (start : Address → Version) (payments : List Payment) : Address → Version :=
  payments.foldl (fun versions p => p.settle versions start) start

/-- Each payment is a replay, or is payable when its turn comes.  And if an earlier payment
    meets it, then one does that passes its checks at the start. -/
def InOrder (start : Address → Version) (payments : List Payment) : Prop :=
  ∀ (i : Nat) (p : Payment), payments[i]? = some p → ¬ p.Replayed start →
    p.Payable (versionsAfter start (payments.take i)) ∧
    (∀ (k : Nat) (q : Payment), k < i → payments[k]? = some q → ¬ q.Replayed start → p.Meets q →
      ∃ (j : Nat) (r : Payment),
        j < i ∧ payments[j]? = some r ∧ r.Accepted start ∧ p.Meets r)

theorem inOrder_iff {start : Address → Version} {payments : List Payment} :
    InOrder start payments ↔ ∀ i : Fin payments.length, ¬ payments[i].Replayed start →
      payments[i].Payable (versionsAfter start (payments.take i)) ∧
      ∀ k : Fin payments.length, k < i → ¬ payments[k].Replayed start →
        payments[i].Meets payments[k] → ∃ j : Fin payments.length,
          j < i ∧ payments[j].Accepted start ∧ payments[i].Meets payments[j] := by
  constructor
  · intro h i hlive
    obtain ⟨hpayable, hmeets⟩ := h i payments[i] (by simp) hlive
    refine ⟨hpayable, fun k hk hlive' hmeet => ?_⟩
    obtain ⟨j, r, hj, hr, haccepted, hmeet'⟩ := hmeets k payments[k] hk (by simp) hlive' hmeet
    obtain ⟨hlt, rfl⟩ := List.getElem?_eq_some_iff.mp hr
    exact ⟨⟨j, hlt⟩, hj, haccepted, hmeet'⟩
  · intro h i p hp hlive
    obtain ⟨hi, rfl⟩ := List.getElem?_eq_some_iff.mp hp
    obtain ⟨hpayable, hmeets⟩ := h ⟨i, hi⟩ hlive
    refine ⟨hpayable, fun k q hk hq hlive' hmeet => ?_⟩
    obtain ⟨hlt, rfl⟩ := List.getElem?_eq_some_iff.mp hq
    obtain ⟨j, hj, haccepted, hmeet'⟩ := hmeets ⟨k, hlt⟩ hk hlive' hmeet
    exact ⟨j, payments[j], hj, by simp, haccepted, hmeet'⟩

instance (start : Address → Version) (payments : List Payment) :
    Decidable (InOrder start payments) :=
  decidable_of_iff' _ inOrder_iff

section Payments

variable {p q : Payment} {versions start : Address → Version} {a : Address}
  {payments : List Payment} {i : Nat}

theorem Payment.meets_iff : p.Meets q ↔ ∃ a, p.Touches a ∧ q.Touches a := by
  constructor
  · rintro (h | h)
    · exact ⟨_, h, .inl rfl⟩
    · exact ⟨_, h, .inr rfl⟩
  · rintro ⟨a, hp, rfl | rfl⟩
    · exact .inl hp
    · exact .inr hp

theorem Payment.apply_of_not_touches (h : ¬ p.Touches a) : p.apply versions a = versions a := by
  have hsender : a ≠ p.sender := fun heq => h (.inl heq)
  have hrecipient : a ≠ p.recipient := fun heq => h (.inr heq)
  rw [apply, if_neg hsender, if_neg hrecipient]

theorem Payment.nonce_le_settle : (versions a).nonce ≤ (p.settle versions start a).nonce := by
  rw [settle]
  split
  · exact le_refl _
  rw [apply]
  split
  · split <;> exact Nat.le_succ _
  · split <;> exact le_refl _

theorem versionsAfter_take_succ (hp : payments[i]? = some p) :
    versionsAfter start (payments.take (i + 1)) =
      p.settle (versionsAfter start (payments.take i)) start := by
  rw [take_add_one, hp, versionsAfter, foldl_append]
  rfl

/-- No payment lowers a nonce. -/
theorem nonce_le_versionsAfter (start : Address → Version) (payments : List Payment) (a : Address) :
    (start a).nonce ≤ (versionsAfter start payments a).nonce := by
  induction payments using List.reverseRecOn with
  | nil => exact le_refl _
  | append_singleton payments p ih =>
    rw [versionsAfter, foldl_append]
    exact le_trans ih Payment.nonce_le_settle

/-- A replayed payment fails on every version the payments lead to. -/
theorem Payment.Replayed.nonce_ne (h : p.Replayed start) (payments : List Payment) :
    (versionsAfter start payments p.sender).nonce ≠ p.nonce := by
  have hle := nonce_le_versionsAfter start payments p.sender
  have hlt : p.nonce < (start p.sender).nonce := h
  omega

theorem Payment.Replayed.not_accepted (h : p.Replayed start) (payments : List Payment) :
    ¬ p.Accepted (versionsAfter start payments) :=
  fun haccepted => h.nonce_ne payments haccepted.2

end Payments

/-! ## The multi-version map -/

namespace MVHashMap

variable {m m' : MVHashMap} {a : Address} {i k : Nat}

theorem read_eq_none_iff : m.read a i = none ↔ ∀ k < i, m.data.lookup (a, k) = none := by
  induction i with
  | zero => simp [read]
  | succ i ih =>
    rw [read]
    cases h : m.data.lookup (a, i) with
    | some v =>
      simp only [reduceCtorEq, false_iff, not_forall]
      exact ⟨i, Nat.lt_succ_self i, by simp [h]⟩
    | none =>
      simp only [ih]
      constructor
      · intro hbelow k hk
        rcases Nat.lt_succ_iff_lt_or_eq.mp hk with hlt | rfl
        · exact hbelow k hlt
        · exact h
      · intro hbelow k hk
        exact hbelow k (Nat.lt_succ_of_lt hk)

/-- A read depends on the lower writers only. -/
theorem read_congr (h : ∀ k < i, m.data.lookup (a, k) = m'.data.lookup (a, k)) :
    m.read a i = m'.read a i := by
  induction i with
  | zero => rfl
  | succ i ih =>
    rw [read, read, h i (Nat.lt_succ_self i), ih fun k hk => h k (Nat.lt_succ_of_lt hk)]

theorem lookup_write {v : Version} {b : Address} {j : Nat} : (m.write b j v).data.lookup (a, k) =
      if a = b ∧ k = j then some v else m.data.lookup (a, k) := by
  simp only [write, FinMap.lookup_set, Prod.mk.injEq]

/-- The writes of one transaction replace its versions of the accounts they name. -/
theorem lookup_writes {ws : List (Address × Version)} (hnodup : (ws.map Prod.fst).Nodup) :
    ((ws.foldl (fun m w => m.write w.1 i w.2) m).data.lookup (a, k)) =
      if k = i then (ws.lookup a).or (m.data.lookup (a, k)) else m.data.lookup (a, k) := by
  induction ws generalizing m with
  | nil => simp
  | cons w ws ih =>
    obtain ⟨b, v⟩ := w
    obtain ⟨hnot, hrest⟩ := nodup_cons.mp hnodup
    rw [foldl_cons, ih hrest, lookup_write]
    by_cases hk : k = i
    · by_cases ha : a = b
      · subst ha
        have hlookup : ws.lookup a = none := by
          rw [lookup_eq_none_iff]
          intro e he
          exact bne_iff_ne.mpr fun heq => hnot (mem_map.mpr ⟨e, he, heq.symm⟩)
        simp [hlookup]
      · simp [ha, lookup_cons, beq_eq_false_iff_ne.mpr ha]
    · simp [hk]

end MVHashMap

/-! ## One payment -/

section Speculate

variable {p : Payment} {m : MVHashMap} {accounts : FinMap Address Account} {a : Address} {i : Nat}

/-- The versions of a ledger. -/
def versionsOf (accounts : FinMap Address Account) (a : Address) : Version :=
  (accounts.lookup a).elim ⟨0, 0⟩ Account.version

/-- What a transaction at an index reads of an account. -/
def MVHashMap.seen (m : MVHashMap) (accounts : FinMap Address Account) (i : Nat) (a : Address) :
    Version :=
  (m.read a i).elim (versionsOf accounts a) Prod.fst

theorem source_eq (h : accounts.lookup a ≠ none) :
    m.source accounts a i = some (m.seen accounts i a, (m.read a i).map Prod.snd) := by
  obtain ⟨x, hx⟩ := Option.ne_none_iff_exists'.mp h
  unfold MVHashMap.source MVHashMap.seen versionsOf
  cases m.read a i with
  | some e => rfl
  | none => simp [hx]

/-- The speculative run of a payment between stored accounts. -/
theorem speculatePayment_eq (hsender : accounts.lookup p.sender ≠ none)
    (hrecipient : accounts.lookup p.recipient ≠ none) :
    speculatePayment i p accounts m =
      { txIndex := i
        success := decide (p.Accepted (m.seen accounts i))
        accessSet :=
          { reads := (p.sender, m.seen accounts i p.sender, (m.read p.sender i).map Prod.snd) ::
              if p.recipient = p.sender then []
              else [(p.recipient, m.seen accounts i p.recipient,
                (m.read p.recipient i).map Prod.snd)]
            writes := if p.Accepted (m.seen accounts i) then
                p.writes (m.seen accounts i p.sender) (m.seen accounts i p.recipient) else [] }
        gasUsed := 21000 } := by
  by_cases h : p.Accepted (m.seen accounts i)
  · have hchecks := h
    unfold Payment.Accepted at hchecks
    simp [speculatePayment, source_eq hsender, source_eq hrecipient, h, hchecks]
  · have hchecks := h
    unfold Payment.Accepted at hchecks
    simp [speculatePayment, source_eq hsender, source_eq hrecipient, h, hchecks]

theorem Payment.nodup_writes {v w : Version} : ((p.writes v w).map Prod.fst).Nodup := by
  unfold writes
  split
  · simp
  · rename_i h
    simpa using fun heq : p.sender = p.recipient => h heq.symm

/-- Without overflow the writes are the versions after the payment. -/
theorem Payment.lookup_writes {versions : Address → Version} (h : p.Payable versions) :
    (p.writes (versions p.sender) (versions p.recipient)).lookup a =
      if p.Touches a then some (p.apply versions a) else none := by
  obtain ⟨⟨hcovers, -⟩, hnonce, hbalance, hroom⟩ := h
  have hmax : u64Max + 1 = 2 ^ 64 := rfl
  have hnext : wrappingAdd (versions p.sender).nonce 1 = (versions p.sender).nonce + 1 :=
    Nat.mod_eq_of_lt (by omega)
  by_cases hself : p.recipient = p.sender
  · have hback : wrappingAdd ((versions p.sender).balance - p.amount) p.amount =
        (versions p.sender).balance := by
      rw [wrappingAdd, Nat.sub_add_cancel hcovers]
      exact Nat.mod_eq_of_lt (by omega)
    by_cases ha : a = p.sender
    · subst ha
      simp [writes, hself, Touches, apply, hnext, hback]
    · simp [writes, hself, Touches, ha]
  · have hcredit : wrappingAdd (versions p.recipient).balance p.amount =
        (versions p.recipient).balance + p.amount :=
      Nat.mod_eq_of_lt (by have := hroom hself; omega)
    by_cases ha : a = p.sender
    · subst ha
      simp [writes, hself, Touches, apply, hnext]
    by_cases hr : a = p.recipient
    · subst hr
      simp [writes, hself, Touches, apply, hcredit, lookup_cons, beq_eq_false_iff_ne.mpr ha]
    · simp [writes, hself, Touches, ha, hr, beq_eq_false_iff_ne.mpr ha,
        beq_eq_false_iff_ne.mpr hr]

/-- A version is written only by a payment that touches the account. -/
theorem Payment.lookup_writes_of_not_touches {v w : Version} (h : ¬ p.Touches a) :
    (p.writes v w).lookup a = none := by
  have hsender : a ≠ p.sender := fun heq => h (.inl heq)
  have hrecipient : a ≠ p.recipient := fun heq => h (.inr heq)
  unfold writes
  split <;> simp [lookup_cons, beq_eq_false_iff_ne.mpr hsender, beq_eq_false_iff_ne.mpr hrecipient]

/-- What a payment reads. -/
theorem mem_reads (hsender : accounts.lookup p.sender ≠ none)
    (hrecipient : accounts.lookup p.recipient ≠ none) {e : Address × Version × Option Nat} :
    e ∈ (speculatePayment i p accounts m).accessSet.reads ↔
      p.Touches e.1 ∧ e.2 = (m.seen accounts i e.1, (m.read e.1 i).map Prod.snd) := by
  obtain ⟨a, v⟩ := e
  rw [speculatePayment_eq hsender hrecipient]
  by_cases hself : p.recipient = p.sender
  · simp only [hself, if_true, mem_singleton, Prod.mk.injEq, Payment.Touches, or_self]
    constructor
    · rintro ⟨rfl, rfl⟩
      exact ⟨rfl, rfl⟩
    · rintro ⟨rfl, rfl⟩
      exact ⟨rfl, rfl⟩
  · simp only [hself, if_false, mem_cons, not_mem_nil, or_false, Prod.mk.injEq]
    constructor
    · rintro (⟨rfl, rfl⟩ | ⟨rfl, rfl⟩)
      · exact ⟨.inl rfl, rfl⟩
      · exact ⟨.inr rfl, rfl⟩
    · rintro ⟨rfl | rfl, rfl⟩
      · exact .inl ⟨rfl, rfl⟩
      · exact .inr ⟨rfl, rfl⟩

end Speculate

/-! ## The first round -/

namespace SpeculativeScheduler

/-- Recording the results of the transactions in order. -/
theorem foldl_recordResult (n : Nat) (results : List SpeculativeResult)
    (hlength : results.length ≤ n)
    (hindex : ∀ (j : Nat) (r : SpeculativeResult), results[j]? = some r → r.txIndex = j)
    (hnodup : ∀ r ∈ results, (r.accessSet.writes.map Prod.fst).Nodup) :
    (results.foldl recordResult (new n)).slots = results.map (fun r => ⟨.executed, some r⟩) ++
          List.replicate (n - results.length) ⟨.pending, none⟩ ∧
      ∀ a k, (results.foldl recordResult (new n)).mvHashmap.data.lookup (a, k) =
        (results[k]?).bind fun r => r.accessSet.writes.lookup a := by
  induction results using List.reverseRecOn with
  | nil => simp [new, MVHashMap.new]
  | append_singleton results r ih =>
    rw [length_append, length_singleton] at hlength
    have hr : r.txIndex = results.length := hindex results.length r (by simp)
    obtain ⟨hslots, hlookup⟩ := ih (by omega) (fun j r' hj => hindex j r' (by
        rw [List.getElem?_append_left (List.getElem?_eq_some_iff.mp hj).1, hj]))
      (fun r' hr' => hnodup r' (mem_append_left _ hr'))
    rw [foldl_append]
    constructor
    · -- the slot of the new result is the first pending one
      have hpending : List.replicate (n - results.length) (⟨.pending, none⟩ : Slot) =
          ⟨.pending, none⟩ :: List.replicate (n - (results.length + 1)) ⟨.pending, none⟩ := by
        rw [← replicate_succ]
        congr 1
        omega
      simp only [foldl_cons, recordResult, hslots, hr, hpending]
      simp
    · intro a k
      simp only [foldl_cons, foldl_nil, recordResult]
      rw [MVHashMap.lookup_writes (hnodup r (by simp)), hlookup, hr]
      by_cases hk : k = results.length
      · subst hk
        simp
      rw [if_neg hk]
      by_cases hlt : k < results.length
      · rw [List.getElem?_append_left hlt]
      · rw [List.getElem?_eq_none (by omega), List.getElem?_eq_none (by
          rw [length_append, length_singleton]
          omega)]

end SpeculativeScheduler

end ArcChain
