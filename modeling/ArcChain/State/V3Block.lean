/-
Admitted blocks of the recovery protocol execute completely, in any order.

Every transaction is validated against the state before the block.  The
admitted access sets are disjoint, and so are the footprints: of the
accounts outside the access sets only the budget counters of a reward are
touched, and of two admitted transactions at most one is a reward or a
faucet claim, because those share the key of the validator set.
-/
import ArcChain.State.Admission
import ArcChain.State.Parallel

namespace ArcChain

open StoreProg Schedule TxBody List

section

variable [Externals] {nativeAdmission : List Transaction → Nat → Exec Unit} {c : Context}
  {s : Ledger} {tx : Transaction} {H : Nat}

/-! ## What block admission checks -/

/-- Admission of an ordinary transaction only reads. -/
theorem readOnly_admission (hnative : tx.body.isNativeBody = false) :
    (validateV3TransactionAdmissionAt nativeAdmission c tx H).ReadOnly := by
  have hfamily : (validateV3Family nativeAdmission c tx H tx.body).ReadOnly := by
    cases hbody : tx.body with
    | transfer body => exact within_validateV3TransferAdmission body fun _ _ => trivial
    | faucetClaim body =>
      exact within_validateV3FaucetAdmission body trivial fun _ _ => trivial
    | communityInferenceReward body =>
      exact within_validateCommunityRewardAdmission body _ trivial trivial trivial
        (fun _ _ => trivial) (fun _ _ => trivial) (fun _ _ _ => trivial)
    | nativeInferenceRequest | nativeInferenceFinalize | nativeInferenceRefund =>
      simp [hbody, isNativeBody] at hnative
    | _ => trivial
  unfold ReadOnly validateV3TransactionAdmissionAt
  rw [within_require_bind]
  exact fun _ => Within.bind within_validateV3TransactionEnvelope fun _ => hfamily

/-- The transaction passes admission at a height. -/
def Admitted (nativeAdmission : List Transaction → Nat → Exec Unit) (c : Context) (s : Ledger)
    (H : Nat) (tx : Transaction) : Prop :=
  ((validateV3TransactionAdmissionAt nativeAdmission c tx H).run s).result = .ok ()

/-- The access sets have no account in common. -/
def DisjointAccess (x y : Transaction) : Prop := ∀ a ∈ txAccessSet x, a ∉ txAccessSet y

section

variable {txs : List Transaction} (hnative : ∀ tx ∈ txs, tx.body.isNativeBody = false)
include hnative

/-- The loop admits every transaction, with access sets apart from each other and from the
    accounts seen before. -/
theorem admitTransactions_ok {seen : AdmittedSoFar}

    (h : ((admitTransactions nativeAdmission c H seen txs).run s).result = .ok ()) :
    (∀ tx ∈ txs, Admitted nativeAdmission c s H tx) ∧ txs.Pairwise DisjointAccess ∧
      ∀ tx ∈ txs, ∀ a ∈ txAccessSet tx, a ∉ seen.accessed := by
  induction txs generalizing seen with
  | nil => simp
  | cons tx txs ih =>
    have hread : (validateV3TransactionAdmissionAt nativeAdmission c tx H).ReadOnly :=
      readOnly_admission (hnative tx mem_cons_self)
    have hwp : wp (admitTransactions nativeAdmission c H seen (tx :: txs)) s
      fun r _ _ => r = .ok () := h
    simp only [admitTransactions, wp_require_bind, hread.wp_bind_eq_ok, reduceCtorEq, imp_false,
      not_not, check_and_iff] at hwp
    obtain ⟨_, _, _, hadmitted, hapart, hrest⟩ := hwp
    obtain ⟨hall, hpairs, hseen⟩ := ih (fun tx' h' => hnative tx' (mem_cons_of_mem _ h')) hrest
    refine ⟨forall_mem_cons.mpr ⟨hadmitted, hall⟩, pairwise_cons.mpr ⟨?_, hpairs⟩,
      forall_mem_cons.mpr ⟨hapart, ?_⟩⟩
    · intro y hy a hax hay
      exact hseen y hy a hay (mem_append_left _ hax)
    · intro y hy a hay hold
      exact hseen y hy a hay (mem_append_right _ hold)

/-- What block admission says of an ordinary block. -/
theorem validateV3BlockAdmissionAt_ok

    (h : ((validateV3BlockAdmissionAt nativeAdmission c txs H).run s).result = .ok ()) :
    (∀ tx ∈ txs, Admitted nativeAdmission c s H tx) ∧ txs.Pairwise DisjointAccess := by
  have hordinary : ¬ txs.any (fun tx => tx.body.isNativeBody) = true := by
    simpa using hnative
  have hwp : wp (validateV3BlockAdmissionAt nativeAdmission c txs H) s fun r _ _ => r = .ok () := h
  unfold validateV3BlockAdmissionAt at hwp
  rw [if_neg hordinary, wp_require_bind] at hwp
  by_cases hlength : txs.length ≤ v3MaxTransactionsPerBlock
  · obtain ⟨hall, hpairs, _⟩ := admitTransactions_ok hnative (hwp.1 hlength)
    exact ⟨hall, hpairs⟩
  · cases hwp.2 hlength

/-! ## Disjoint access sets, disjoint footprints -/

end

section

variable (hv3 : c.protocolV3 = true)
include hv3

/-- An account of a transfer: not a system account, apart from the fee treasury. -/
theorem reads_v3Transfer {body : TransferBody}
    (hbody : tx.body = .transfer body) (hcollision : v3TransferCollision tx body = false)
    {k : Cell} (hk : tx.Reads c k) :
    k.accessKey ∈ txAccessSet tx ∧
      ∃ a, k = .account a ∧ (a = v3FeeTreasuryAddress ∨ isV3SystemAccount a = false) := by
  simp [v3TransferCollision, isReservedSystemAccount] at hcollision
  have hcells : k ∈ [tx.sender, body.recipient, v3FeeTreasuryAddress].map Cell.account := by
    simpa [Transaction.Reads, Transaction.Writes, hbody, writtenAccounts, hv3,
      writtenCells, readCells, paysStored] using hk
  obtain ⟨a, ha, rfl⟩ := mem_map.mp hcells
  refine ⟨?_, a, rfl, ?_⟩
  · simpa [txAccessSet, hbody, accessAccounts, Cell.accessKey] using ha
  · simp at ha
    rcases ha with rfl | rfl | rfl
    · exact .inr (by simp [hcollision])
    · exact .inr (by simp [hcollision])
    · exact .inl rfl

/-- A faucet claim touches nothing outside its access set. -/
theorem reads_v3Faucet {body : FaucetClaimBody}
    (hbody : tx.body = .faucetClaim body) {k : Cell} (hk : tx.Reads c k) :
    k.accessKey ∈ txAccessSet tx := by
  simp [Transaction.Reads, Transaction.Writes, hbody, writtenAccounts, hv3,
    writtenCells, readCells, paysStored, faucetMarker] at hk
  rcases hk with (rfl | rfl | rfl | rfl) | rfl | rfl <;>
    simp [txAccessSet, hbody, accessAccounts, Cell.accessKey]

/-- A reward touches its budget counters besides its access set. -/
theorem reads_v3Reward {body : CommunityInferenceRewardBody}
    (hbody : tx.body = .communityInferenceReward body) {k : Cell} (hk : tx.Reads c k) :
    k.accessKey ∈ txAccessSet tx ∨ ∃ a ∈ budgetAddresses body c.height, k = .account a := by
  simp [Transaction.Reads, Transaction.Writes, hbody, writtenAccounts, hv3,
    writtenCells, readCells, paysStored, rewardMarkers,
    RewardMarkers.addresses] at hk
  rcases hk with (rfl | rfl | rfl | rfl | rfl | ⟨a, ha, rfl⟩ | ⟨a, ha, rfl⟩) | rfl | rfl | rfl |
    ⟨a, ha, rfl⟩
  all_goals
    simp_all [txAccessSet, accessAccounts, Cell.accessKey]

end

namespace Admitted

variable (h : Admitted nativeAdmission c s H tx)
include h

theorem parts : c.protocolV3 = true ∧ ((validateV3TransactionEnvelope c tx).run s).result = .ok () ∧
    ((validateV3Family nativeAdmission c tx H tx.body).run s).result = .ok () := by
  have hread : (validateV3TransactionEnvelope c tx).ReadOnly := within_validateV3TransactionEnvelope
  have hwp : wp (validateV3TransactionAdmissionAt nativeAdmission c tx H) s
    fun r _ _ => r = .ok () := h
  simp only [validateV3TransactionAdmissionAt, wp_require_bind, hread.wp_bind_eq_ok, reduceCtorEq,
    imp_false, not_not, check_and_iff] at hwp
  obtain ⟨hv3, _, henvelope, hfamily⟩ := hwp
  exact ⟨hv3, henvelope, hfamily⟩

theorem collision_of_transfer {body : TransferBody} (hbody : tx.body = .transfer body) :
    v3TransferCollision tx body = false := by
  have hfamily := h.parts.2.2
  rw [hbody] at hfamily
  have hwp : wp (validateV3TransferAdmission c tx body) s fun r _ _ => r = .ok () := hfamily
  simp [validateV3TransferAdmission, check_and_iff] at hwp
  exact hwp.2.2.2.1

theorem budgets_of_reward {body : CommunityInferenceRewardBody}
    (hbody : tx.body = .communityInferenceReward body) :
    ∀ a ∈ budgetAddresses body H, isV3SystemAccount a = true := by
  obtain ⟨hv3, _, hfamily⟩ := h.parts
  rw [hbody] at hfamily
  obtain ⟨budgets, hbudgets⟩ := (rewardAdmitted hfamily).budgets hv3
  exact (budgetCollision_eq_false (communityRewardBudgetCandidatesAt_ok hbudgets).1).2.1

end Admitted

/-- An admitted transfer uses the fee treasury and touches no v3 system account; any other
    admitted transaction uses the validator set, and what it touches outside its access set are
    v3 system accounts. -/
theorem Admitted.touches (hc : c.height = H)
    (htreasury : isV3SystemAccount v3FeeTreasuryAddress = false)
    (hnative : tx.body.isNativeBody = false) (h : Admitted nativeAdmission c s H tx) :
    (v3FeeTreasuryAddress ∈ txAccessSet tx ∧ ∀ k, tx.Reads c k →
        k.accessKey ∈ txAccessSet tx ∧ ∃ a, k = .account a ∧ isV3SystemAccount a = false) ∨
      (validatorSetAccessKey ∈ txAccessSet tx ∧ ∀ k, tx.Reads c k →
        k.accessKey ∈ txAccessSet tx ∨ ∃ a, k = .account a ∧ isV3SystemAccount a = true) := by
  obtain ⟨hv3, henvelope, _⟩ := h.parts
  have hallowed := (envelopeOk (.inr hnative) henvelope).allowed
  cases hbody : tx.body with
  | transfer body =>
    refine .inl ⟨by simp [txAccessSet, hbody, accessAccounts], fun k hk => ?_⟩
    obtain ⟨hkey, a, rfl, ha⟩ := reads_v3Transfer hv3 hbody (h.collision_of_transfer hbody) hk
    refine ⟨hkey, a, rfl, ?_⟩
    rcases ha with rfl | ha
    · exact htreasury
    · exact ha
  | faucetClaim body =>
    refine .inr ⟨by simp [txAccessSet, hbody, accessAccounts], fun k hk => ?_⟩
    exact .inl (reads_v3Faucet hv3 hbody hk)
  | communityInferenceReward body =>
    refine .inr ⟨by simp [txAccessSet, hbody, accessAccounts], fun k hk => ?_⟩
    rcases reads_v3Reward hv3 hbody hk with hkey | ⟨a, ha, rfl⟩
    · exact .inl hkey
    · rw [hc] at ha
      exact .inr ⟨a, rfl, h.budgets_of_reward hbody a ha⟩
  | _ => simp [hbody, v3Allows] at hallowed

/-- **Independence.**  Admitted transactions with disjoint access sets do not touch each other's
    state. -/
theorem independent_of_admitted {x y : Transaction} (hc : c.height = H)
    (htreasury : isV3SystemAccount v3FeeTreasuryAddress = false)
    (hnx : x.body.isNativeBody = false) (hny : y.body.isNativeBody = false)
    (hx : Admitted nativeAdmission c s H x) (hy : Admitted nativeAdmission c s H y)
    (hdisjoint : DisjointAccess x y) : x.Independent c y := by
  apply Transaction.independent_of_reads
  intro k hkx hky
  rcases hx.touches hc htreasury hnx with ⟨hkeyx, hx⟩ | ⟨hkeyx, hx⟩ <;>
    rcases hy.touches hc htreasury hny with ⟨hkeyy, hy⟩ | ⟨hkeyy, hy⟩
  · exact hdisjoint _ hkeyx hkeyy
  · obtain ⟨hkey, a, rfl, ha⟩ := hx k hkx
    rcases hy _ hky with hkey' | ⟨b, heq, hb⟩
    · exact hdisjoint _ hkey hkey'
    · cases heq
      rw [ha] at hb
      cases hb
  · obtain ⟨hkey, a, rfl, ha⟩ := hy k hky
    rcases hx _ hkx with hkey' | ⟨b, heq, hb⟩
    · exact hdisjoint _ hkey' hkey
    · cases heq
      rw [ha] at hb
      cases hb
  · exact hdisjoint _ hkeyx hkeyy

/-! ## Admitted blocks -/

/-- **Admitted blocks.**  In every order, every transaction of an admitted ordinary block
    executes, and all orders lead to the ledger of the block's own order. -/
theorem admitted_block_executes {txs order : List Transaction} (hv3 : c.protocolV3 = true)
    (htreasury : isV3SystemAccount v3FeeTreasuryAddress = false)
    (hnative : ∀ tx ∈ txs, tx.body.isNativeBody = false)
    (hadmitted : ((validateV3BlockAdmissionAt nativeAdmission c txs (c.height + 1)).run s).result =
      .ok ()) (horder : order.Perm txs) :
    let next := { c with height := c.height + 1 }
    (∀ answer ∈ (runAll (executeStep next) order s).2, ∃ gas, answer.2 = .ok gas) ∧
      (runAll (executeStep next) order s).1 = (runAll (executeStep next) txs s).1 := by
  intro next
  obtain ⟨hall, hdisjoint⟩ := validateV3BlockAdmissionAt_ok hnative hadmitted
  -- no check of admission reads the current height
  have hnext : ∀ tx ∈ txs, Admitted nativeAdmission next s next.height tx := hall
  have hcommute : txs.Pairwise (Commute (executeStep next)) := by
    refine hdisjoint.imp_of_mem fun hx hy hxy => ?_
    exact (independent_of_admitted rfl htreasury (hnative _ hx) (hnative _ hy) (hnext _ hx)
      (hnext _ hy) hxy).commute
  constructor
  · rw [runAll_answers ((horder.pairwise_iff Schedule.Commute.symm).mpr hcommute)]
    intro answer hanswer
    obtain ⟨tx, htx, rfl⟩ := mem_map.mp hanswer
    have hmem := horder.mem_iff.mp htx
    have hv3' : next.protocolV3 = true := hv3
    exact (executes_iff_admitted hv3' (.inr (hnative tx hmem))).mpr (hnext tx hmem)
  · apply (runAll_perm horder ?_ s).1
    intro x y _ hyx
    exact (pairwise_pair.mp (hcommute.sublist hyx)).symm

end

/-! ## A transfer and a faucet claim -/

namespace Sample

/-- The recovery protocol at a height, without a GPU cache. -/
def v3Context (height : Nat) : Context :=
  { context height with recoveryContext := some ⟨.zero, .zero, 1, 1, ⟨3, 0, 0⟩⟩ }

/-- A transaction with a fee, signed for the recovery domain. -/
def signedTx (sender nonce fee : Nat) (body : TxBody) : Transaction :=
  letI := concreteExternals
  let unsigned := { tx sender nonce body with fee := fee }
  let domain := ((v3Context 0).transactionDomainHash).getD .zero
  let hash := unsigned.computeHashInDomain domain
  { unsigned with hash := hash, signature := Concrete.signature (address sender) hash }

/-- Six validators with the minimum stake, a funded user and a funded faucet pool. -/
def v3Ledger : Ledger :=
  letI := concreteExternals
  { ledger [account 21 100 0, Account.new faucetPoolAddress 1000] with
    validators := FinMap.ofList
      ([11, 12, 13, 14, 15, 16].map fun n => (address n, minValidatorStake)) }

/-- User 21 pays user 22, validator 11 pays out a faucet claim for user 23. -/
def v3Txs : List Transaction :=
  [signedTx 21 0 1 (.transfer ⟨address 22, 5, none⟩),
    signedTx 11 0 0 (.faucetClaim ⟨address 23, 10⟩)]

end Sample

/-- The block is admitted, so both orders execute it. -/
theorem v3Txs_execute_reversed :
    letI := concreteExternals
    (Sample.v3Context 8).protocolV3 = true ∧
      isV3SystemAccount v3FeeTreasuryAddress = false ∧
      (∀ tx ∈ Sample.v3Txs, tx.body.isNativeBody = false) ∧
      ((validateV3BlockAdmissionAt (fun _ _ => pure ()) (Sample.v3Context 8) Sample.v3Txs 9).run
        Sample.v3Ledger).result = .ok () ∧
      (runAll (executeStep (Sample.v3Context 9)) Sample.v3Txs.reverse Sample.v3Ledger).1 =
        (runAll (executeStep (Sample.v3Context 9)) Sample.v3Txs Sample.v3Ledger).1 := by
  let _ : Externals := concreteExternals
  have hv3 : (Sample.v3Context 8).protocolV3 = true := by decide
  have htreasury : isV3SystemAccount v3FeeTreasuryAddress = false := by decide +kernel
  have hnative : ∀ tx ∈ Sample.v3Txs, tx.body.isNativeBody = false := by decide +kernel
  have hadmitted : ((validateV3BlockAdmissionAt (fun _ _ => pure ()) (Sample.v3Context 8)
      Sample.v3Txs 9).run Sample.v3Ledger).result = .ok () := by decide +kernel
  exact ⟨hv3, htreasury, hnative, hadmitted, (admitted_block_executes hv3 htreasury hnative
    hadmitted (reverse_perm _)).2⟩

end ArcChain
