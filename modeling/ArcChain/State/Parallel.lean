/-
Parallel execution of a legacy block against sequential execution.

The parallel executor runs the batches of `partition_batches` one after
another, the transactions of a batch in any order.  It agrees with
sequential execution if no two transactions that it may reorder touch each
other's state (`parallel_eq_sequential`).

The access sets are to guarantee that.  They do so for the families whose
footprint they cover (`TxBody.covered`); the others touch state that
`tx_access_set` does not name, and two bridge locks in one batch already
leave a balance that depends on the order.
-/
import ArcChain.State.BlockStm
import ArcChain.State.Concrete
import ArcChain.State.Footprint

namespace ArcChain

open StoreProg Schedule List StoreProg.Independent Sample

section

variable [Externals]

/-- `execute_tx` as a task: the ledger afterwards and the result. -/
def executeStep (c : Context) (tx : Transaction) (s : Ledger) : Ledger × Except StateError Nat :=
  (((executeTx c tx).run s).store, ((executeTx c tx).run s).result)

/-- The task at an index of the block. -/
def executeIndex (c : Context) (txs : List Transaction) (i : Nat) (s : Ledger) :
    Ledger × Option (Except StateError Nat) :=
  match txs[i]? with
  | none => (s, none)
  | some tx => ((executeStep c tx s).1, some (executeStep c tx s).2)

/-- The transactions in the order of the block. -/
def runSequential (c : Context) (txs : List Transaction) (s : Ledger) :
    Ledger × List (Nat × Option (Except StateError Nat)) :=
  runAll (executeIndex c txs) (List.range txs.length) s

/-! ## Independent transactions -/

namespace Transaction

variable {c : Context} {x y : Transaction}

/-- Independent transactions commute, and each has the result it has alone. -/
theorem Independent.commute (h : x.Independent c y) : Commute (executeStep c) x y := by
  intro s
  have hwx := within_executeTx c x
  have hwy := within_executeTx c y
  exact ⟨store_comm h hwx hwy s, (result_after h hwx hwy s).1,
    (result_after (StoreProg.Independent.symm h) hwy hwx s).1⟩

theorem Independent.commute_index {txs : List Transaction} {i j : Nat} (hx : txs[i]? = some x)
    (hy : txs[j]? = some y) (h : x.Independent c y) : Commute (executeIndex c txs) i j := by
  intro s
  obtain ⟨hstore, hresult, hresult'⟩ := h.commute s
  simp only [executeIndex, hx, hy]
  exact ⟨hstore, congrArg some hresult, congrArg some hresult'⟩

/-- Transactions without a common cell are independent. -/
theorem independent_of_reads (h : ∀ k, x.Reads c k → ¬ y.Reads c k) : x.Independent c y := by
  intro k
  refine ⟨fun hk => ?_, fun hk => ?_⟩
  · exact ⟨h k (.inl hk), fun hk' => h k (.inl hk) (.inl hk')⟩
  · exact ⟨fun hk' => h k hk' (.inl hk), fun hk' => h k (.inl hk') (.inl hk)⟩

/-- The cells in the table of a transaction that it may change. -/
def writeList (c : Context) (tx : Transaction) : List Cell :=
  (tx.sender :: tx.body.writtenAccounts c tx).map Cell.account ++ tx.body.writtenCells c tx

theorem writes_iff {k : Cell} :
    x.Writes c k ↔ k ∈ x.writeList c ∨ (x.body.paysStored = true ∧ k.isAccount = true) := by
  simp only [Writes, writeList, mem_append, or_assoc]

/-- A transaction that pays stored accounts is independent of none. -/
theorem Independent.paysStored_eq_false (h : x.Independent c y) : x.body.paysStored = false := by
  by_contra hstored
  have hwrites : x.Writes c (.account y.sender) := .inr (.inr ⟨Bool.not_eq_false _ ▸ hstored, rfl⟩)
  exact ((h _).1 hwrites).2 (.inl mem_cons_self)

theorem independent_iff : x.Independent c y ↔
    x.body.paysStored = false ∧ y.body.paysStored = false ∧
      (∀ k ∈ x.writeList c, ¬ y.Reads c k) ∧ ∀ k ∈ y.writeList c, ¬ x.Reads c k := by
  constructor
  · intro h
    refine ⟨h.paysStored_eq_false, Independent.paysStored_eq_false (.symm h), fun k hk => ?_,
      fun k hk => ?_⟩
    · exact ((h k).1 (writes_iff.mpr (.inl hk))).1
    · exact ((h k).2 (writes_iff.mpr (.inl hk))).1
  · rintro ⟨hx, hy, hxy, hyx⟩ k
    refine ⟨fun hk => ?_, fun hk => ?_⟩
    · have hmem : k ∈ x.writeList c := by simpa [writes_iff, hx] using hk
      exact ⟨hxy k hmem, fun hk' => hxy k hmem (.inl hk')⟩
    · have hmem : k ∈ y.writeList c := by simpa [writes_iff, hy] using hk
      exact ⟨hyx k hmem, fun hk' => hyx k hmem (.inl hk')⟩

instance : Decidable (x.Independent c y) := decidable_of_iff' _ independent_iff

end Transaction

/-! ## Parallel execution -/

/-- Any two transactions that the batches may reorder are independent. -/
def Reorderable (c : Context) (txs : List Transaction) : Prop :=
  ∀ i j x y, i < j → txs[i]? = some x → txs[j]? = some y →
    NotAfter (partitionBatches txs) j i → x.Independent c y

/-- **Parallel execution.**  If the transactions that the batches may reorder are independent,
    then every schedule of the batches ends in the ledger of sequential execution, and every
    transaction has its sequential result. -/
theorem parallel_eq_sequential {c : Context} {txs : List Transaction}
    (hreorderable : Reorderable c txs) (s : Ledger) {schedule : List Nat}
    (hschedule : InBatches (partitionBatches txs) schedule) :
    (runAll (executeIndex c txs) schedule s).1 = (runSequential c txs s).1 ∧
      (runAll (executeIndex c txs) schedule s).2.Perm (runSequential c txs s).2 := by
  have hperm : schedule.Perm (List.range txs.length) :=
    hschedule.perm.symm.trans (perm_partitionBatches txs)
  apply runAll_perm hperm
  -- a pair in opposite order runs `j` before `i` although `i < j`
  intro j i hji hij
  have hlt : i < j := pairwise_pair.mp ((pairwise_lt_range).sublist hij)
  have hmem : ∀ k ∈ [j, i], k < txs.length := fun k hk =>
    mem_range.mp (hperm.mem_iff.mp (hji.subset hk))
  have hi := List.getElem?_eq_getElem (hmem i (by simp))
  have hj := List.getElem?_eq_getElem (hmem j (by simp))
  have hindependent := hreorderable i j _ _ hlt hi hj (hschedule.notAfter hji)
  exact Transaction.Independent.commute_index hj hi (StoreProg.Independent.symm hindependent)

/-! ## What the access sets cover -/

/-- The account of an access set that stands for a cell. -/
def Cell.accessKey : Cell → Address
  | .account a | .storage a | .contract a | .bondRelease _ a => a
  | .validators | .stakingPool => validatorSetAccessKey
  | .tier1Pending requestId => tier1EscrowAddress requestId

/-- The families whose whole legacy footprint is in the access set. -/
def TxBody.covered : TxBody → Bool
  | .deployContract _ | .bridgeLock _ | .bridgeMint _ | .channelOpen _ | .channelClose _
  | .channelDispute _ | .shardProof _ | .shardAssignmentProposal _ | .modelRegistration _
  | .inferenceVote _ | .inferenceFinalize _ => false
  | _ => true

section

variable {c : Context} (hlegacy : c.Legacy)
include hlegacy

/-- The access set of a covered family names every cell the transaction may touch. -/
theorem accessKey_mem_txAccessSet {tx : Transaction}
    (hcovered : tx.body.covered = true) {k : Cell} (hk : tx.Reads c k) :
    k.accessKey ∈ txAccessSet tx := by
  have hv3 := hlegacy.protocolV3
  -- row by row: the footprint's accounts and cells against the access set
  have hstored : tx.body.paysStored = false := by
    cases hbody : tx.body <;> simp_all [TxBody.covered, TxBody.paysStored]
  have haccounts : ∀ a ∈ tx.body.writtenAccounts c tx, a ∈ txAccessSet tx := by
    cases hbody : tx.body <;>
      simp_all [TxBody.covered, TxBody.writtenAccounts, txAccessSet, TxBody.accessAccounts,
        rewardMarkers, faucetMarker, RewardMarkers.addresses]
  have hcells : ∀ k ∈ tx.body.writtenCells c tx ++ tx.body.readCells c,
      k.accessKey ∈ txAccessSet tx := by
    cases hbody : tx.body <;>
      simp_all [TxBody.covered, TxBody.writtenCells, TxBody.readCells, txAccessSet,
        TxBody.accessAccounts, Cell.accessKey]
  rcases hk with (haccount | hcell | ⟨hpays, _⟩) | hread
  · obtain ⟨a, ha, rfl⟩ := mem_map.mp haccount
    rcases mem_cons.mp ha with rfl | ha
    · exact mem_cons_self
    · exact haccounts a ha
  · exact hcells k (mem_append_left _ hcell)
  · rw [hstored] at hpays
    cases hpays
  · exact hcells k (mem_append_right _ hread)

/-- Covered transactions with disjoint access sets are independent. -/
theorem independent_of_disjoint {x y : Transaction}
    (hx : x.body.covered = true) (hy : y.body.covered = true)
    (hdisjoint : ∀ a ∈ txAccessSet x, a ∉ txAccessSet y) : x.Independent c y :=
  Transaction.independent_of_reads fun _ hkx hky =>
    hdisjoint _ (accessKey_mem_txAccessSet hlegacy hx hkx) (accessKey_mem_txAccessSet hlegacy hy hky)

/-- Where every transaction is of a covered family, the batches only reorder independent
    transactions. -/
theorem reorderable_of_covered {txs : List Transaction}
    (hcovered : ∀ tx ∈ txs, tx.body.covered = true) : Reorderable c txs := by
  rintro i j x y hij hx hy ⟨m, k, hmk, hj, hi⟩
  apply independent_of_disjoint hlegacy (hcovered x (mem_of_getElem? hx))
    (hcovered y (mem_of_getElem? hy))
  -- a common account would put `j` in a later batch than `i`
  intro a hax hay
  exact absurd (partitionBatches_later hij hi hj hx hy hax hay) (Nat.not_lt.mpr hmk)

end

end

/-! ## Two bridge locks -/

namespace Sample

/-- Two senders lock funds in the bridge. -/
def bridgeLocks : List Transaction :=
  [tx 1 0 (.bridgeLock ⟨0, .zero, 30⟩), tx 2 0 (.bridgeLock ⟨0, .zero, 50⟩)]

/-- Two senders pay two agents. -/
def settlements : List Transaction :=
  [tx 1 0 (.settle ⟨address 3, .zero, 30, 0, none⟩),
    tx 2 0 (.settle ⟨address 4, .zero, 50, 0, none⟩)]

/-- Both senders hold 100. -/
def twoSenders : Ledger := ledger [account 1 100 0, account 2 100 0]

end Sample

example :
    letI := concreteExternals
    ¬ (tx 1 0 (.bridgeLock ⟨0, .zero, 30⟩)).Independent (context 3)
      (tx 2 0 (.bridgeLock ⟨0, .zero, 50⟩)) := by decide +kernel

/-- Both locks are in one batch, and the escrow keeps the amount of the one that runs last. -/
theorem bridgeLocks_depend_on_order :
    letI := concreteExternals
    (Sample.context 3).Legacy ∧
      InBatches (partitionBatches Sample.bridgeLocks) [1, 0] ∧
      ((runSequential (Sample.context 3) Sample.bridgeLocks
        Sample.twoSenders).1.accounts.lookup bridgeEscrowAddress).map Account.balance = some 50 ∧
      ((runAll (executeIndex (Sample.context 3) Sample.bridgeLocks) [1, 0]
        Sample.twoSenders).1.accounts.lookup bridgeEscrowAddress).map Account.balance = some 30 := by
  refine ⟨context_legacy 3, ?_, by decide +kernel, by decide +kernel⟩
  exact ⟨[[1, 0]], .cons (.swap 1 0 []) .nil, rfl⟩

/-- Two settlements of different accounts may run in either order. -/
theorem settlements_parallel :
    letI := concreteExternals
    Reorderable (Sample.context 3) Sample.settlements ∧
      InBatches (partitionBatches Sample.settlements) [1, 0] ∧
      (runAll (executeIndex (Sample.context 3) Sample.settlements) [1, 0] Sample.twoSenders).1 =
        (runSequential (Sample.context 3) Sample.settlements Sample.twoSenders).1 := by
  let _ : Externals := concreteExternals
  have hreorderable : Reorderable (context 3) settlements :=
    reorderable_of_covered (context_legacy 3) (by decide +kernel)
  have hschedule : InBatches (partitionBatches settlements) [1, 0] := by
    exact ⟨[[1, 0]], .cons (.swap 1 0 []) .nil, rfl⟩
  exact ⟨hreorderable, hschedule, (parallel_eq_sequential hreorderable twoSenders hschedule).1⟩

end ArcChain
