/-
Rewards and faucet claims of the recovery protocol along runs: each is
paid at most once, and the issuance budgets hold.

A payment leaves markers, accounts that a later payment must not find; no
operation removes an account, so a marker stands for good.  The budgets
are counted in the nonces of four counter accounts.  A counter is read
through `get_account`, which prefers the copy in the GPU cache, and is
written to the account map only: where the cached copy lags behind, every
reward counts from it again and the budget is lost.
-/
import ArcChain.State.Chain
import ArcChain.State.LedgerLaw

namespace ArcChain

open StoreProg Ledger List Admitted CommunityInferenceRewardBody Option FaucetClaimBody

/-! ## Presence -/

namespace Ledger

variable {s : Ledger} {l : List (Address × Account)} {a : Address}

theorem present_putAccounts (h : s.Present a) : (s.putAccounts l).Present a := by
  induction l generalizing s with
  | nil => exact h
  | cons e l ih => exact ih (present_putAccount.mpr (.inr h))

theorem present_putAccounts_of_mem (hnodup : (l.map Prod.fst).Nodup) {x : Account}
    (h : (a, x) ∈ l) : (s.putAccounts l).Present a := by
  rw [Present, lookup_putAccounts_of_mem hnodup h]
  exact some_ne_none x

theorem accountOr_of_not_present (h : ¬ s.Present a) : s.accountOr a = Account.new a 0 := by
  rw [accountOr, not_not.mp h]
  rfl

end Ledger

section Runs

variable [Externals]

variable {Q : Nat → CommunityInferenceRewardBody → Prop}

/-! ## What is counted -/

/-- The operation executes a transaction of the given kind, at the height it is executed at. -/
def executes (P : Nat → TxBody → Bool) (p : Context × Ledger) : ChainOp → Bool
  | .transaction tx => P p.1.height tx.body && ((executeSigned p.1 tx).run p.2).result.isOk
  | _ => false

/-- Rewards of a kind. -/
def rewardWith (Q : Nat → CommunityInferenceRewardBody → Prop) [∀ h b, Decidable (Q h b)] :
    Nat → TxBody → Bool
  | height, .communityInferenceReward body => Q height body
  | _, _ => false

/-- Faucet claims for a recipient. -/
def claimFor (recipient : Address) : Nat → TxBody → Bool
  | _, .faucetClaim body => body.recipient = recipient
  | _, _ => false

/-- The number of rewards of a kind that the operations execute. -/
def rewardsPaid (Q : Nat → CommunityInferenceRewardBody → Prop) [∀ h b, Decidable (Q h b)]
    (p : Context × Ledger) (ops : List ChainOp) : Nat :=
  Run.occurrences chainStep (executes (rewardWith Q)) p ops

/-- The number of faucet claims for a recipient that the operations execute. -/
def claimsPaid (recipient : Address) (p : Context × Ledger) (ops : List ChainOp) : Nat :=
  Run.occurrences chainStep (executes (claimFor recipient)) p ops

/-- Every reward and every claim is paid at most once. -/
structure PaidOnce (p : Context × Ledger) (ops : List ChainOp) : Prop where
  jobs : ∀ domain job,
    rewardsPaid (fun _ body => body.chainDomain = domain ∧ body.jobId = job) p ops ≤ 1
  certificates : ∀ worker attestation,
    rewardsPaid (fun _ body => body.worker = worker ∧
      body.workerCertificate.attestationHash = attestation) p ops ≤ 1
  probes : ∀ epoch, CommunityInferenceRewardBody.isRecoveryProbeAssignment epoch = true →
    rewardsPaid (fun _ body => body.assignmentEpoch = epoch) p ops ≤ 1
  claims : ∀ recipient, claimsPaid recipient p ops ≤ 1

/-- The issuance budgets per height, epoch, worker and coordinator. -/
structure WithinBudgets (p : Context × Ledger) (ops : List ChainOp) : Prop where
  perBlock : ∀ H, rewardsPaid (fun height _ => height = H) p ops ≤ v3CommunityRewardMaxPerBlock
  perEpoch : ∀ epoch,
    rewardsPaid (fun height _ => height / v3CommunityRewardEpochBlocks = epoch) p ops ≤
      v3CommunityRewardMaxPerEpoch
  perWorker : ∀ epoch worker,
    rewardsPaid (fun height body => height / v3CommunityRewardEpochBlocks = epoch ∧
      body.worker = worker) p ops ≤ v3CommunityRewardMaxPerWorkerEpoch
  perCoordinator : ∀ epoch coordinator,
    rewardsPaid (fun height body => height / v3CommunityRewardEpochBlocks = epoch ∧
      body.coordinator = coordinator) p ops ≤ v3CommunityRewardMaxPerCoordinatorEpoch

/-! ## One transaction -/

section Transactions

variable {c : Context} {s : Ledger} {tx : Transaction} {accounts : List (Address × Account)}

variable {body : CommunityInferenceRewardBody}

/-- Admission as far as a chain without native work knows it. -/
def AdmittedNow (c : Context) (s : Ledger) (tx : Transaction) : Prop :=
  Admitted (fun _ _ => pure ()) c s c.height tx

/-- A transaction is refused without a trace, or it was admitted and stores its accounts. -/
theorem v3_executeSigned_stores (hv3 : c.protocolV3 = true) : wp (executeSigned c tx) s fun r t _ =>
      match r with
      | .error _ => t = s
      | .ok _ => AdmittedNow c s tx ∧
          ∃ accounts, tx.body.V3Stores c s tx accounts ∧ t = s.putAccounts accounts := by
  have htx : wp (executeTx c tx) s fun r t _ =>
      match r with
      | .error _ => t = s
      | .ok _ => AdmittedNow c s tx ∧
          ∃ accounts, tx.body.V3Stores c s tx accounts ∧ t = s.putAccounts accounts := by
    have hstores : wp (executeTx c tx) s _ := v3_executeTx_stores hv3
    unfold wp at hstores ⊢
    cases hresult : ((executeTx c tx).run s).result with
    | error e =>
      rw [hresult] at hstores
      exact hstores
    | ok gas =>
      rw [hresult] at hstores
      obtain ⟨accounts, hstored, hledger⟩ := hstores
      have hordinary : tx.body.isNativeBody = false := by
        cases hbody : tx.body with
        | nativeInferenceRequest | nativeInferenceFinalize | nativeInferenceRefund =>
          rw [hbody] at hstored; exact hstored.elim
        | _ => rfl
      exact ⟨(executes_iff_admitted hv3 (.inr hordinary)).mp ⟨gas, hresult⟩, accounts, hstored,
        hledger⟩
  unfold executeSigned
  simp only [wp_ite]
  exact ⟨fun _ => htx, fun _ => ⟨fun _ => rfl, fun _ => ⟨fun _ => htx, fun _ => rfl⟩⟩⟩

theorem TxBody.V3Stores.nodup (h : tx.body.V3Stores c s tx accounts) :
    (accounts.map Prod.fst).Nodup := by
  cases hbody : tx.body with
  | transfer body =>
    rw [hbody] at h
    exact TransferCommit.nodup h
  | faucetClaim body =>
    rw [hbody] at h
    exact FaucetCommit.nodup h
  | communityInferenceReward body =>
    rw [hbody] at h
    exact RewardCommit.nodup h
  | _ =>
    rw [hbody] at h
    exact h.elim

/-- The pool and the treasuries are not accounts of the v3 system namespace. -/
structure TreasuriesApart : Prop where
  pool : isV3SystemAccount faucetPoolAddress = false
  rewards : isV3SystemAccount inferenceRewardTreasuryAddress = false
  fees : isV3SystemAccount v3FeeTreasuryAddress = false

/-- What a reward stores: its markers, new, and its counters, each one further. -/
theorem RewardCommit.markers_and_counters (hv3 : c.protocolV3 = true)
    (h : RewardCommit c s body accounts) :
    (∀ a ∈ (v3RewardMarkers body).addresses, ¬ s.Present a ∧ ∃ x, (a, x) ∈ accounts) ∧
      ∃ counters, List.Forall₂ (fun e limit => e.2.nonce = (c.accountOrNew s e.1).nonce + 1 ∧
          e.2.nonce ≤ limit) counters budgetLimits ∧
        counters.map Prod.fst = budgetAddresses body c.height ∧
        accounts.map Prod.fst = [inferenceRewardTreasuryAddress, body.worker] ++
          (v3RewardMarkers body).addresses ++ budgetAddresses body c.height ∧
        ∀ e ∈ counters, e ∈ accounts := by
  obtain ⟨budgets, hbudgets, hstored⟩ := h.stored
  have hunpaid := h.unpaid
  simp only [rewardMarkers, hv3] at hstored hunpaid
  simp only [rewardBudgets, hv3] at hbudgets
  obtain ⟨_, haddresses, hcounters⟩ := communityRewardBudgetCandidatesAt_counters hbudgets
  refine ⟨fun a ha => ⟨fun hpresent => hpresent (absent_of_requireUnpaid hunpaid a ha), ?_⟩,
    budgets, hcounters.imp ?_, haddresses, ?_, fun e he => ?_⟩
  · rw [← RewardMarkers.map_accounts _ body] at ha
    obtain ⟨e, he, rfl⟩ := mem_map.mp ha
    exact ⟨e.2, by rw [hstored]; exact mem_append_left _ (mem_append_right _ he)⟩
  · rintro e limit ⟨codeHash, label, hnext⟩
    exact (nextCommunityRewardBudgetCounter_ok hnext).2
  · rw [hstored, map_append, map_append, RewardMarkers.map_accounts, haddresses]
    rfl
  · rw [hstored]
    exact mem_append_right _ he

/-- The cached copies of the counters count no fewer rewards than the stored counters. -/
def TxBody.CountersCurrent (c : Context) (s : Ledger) : TxBody → Prop
  | .communityInferenceReward body => ∀ a ∈ budgetAddresses body c.height,
      (s.accountOr a).nonce ≤ (c.accountOrNew s a).nonce
  | _ => True

/-- A stored account of the system namespace is new or an advanced counter. -/
theorem TxBody.V3Stores.system_entry (hapart : TreasuriesApart) (hv3 : c.protocolV3 = true)
    (hadmitted : AdmittedNow c s tx) (h : tx.body.V3Stores c s tx accounts)
    {e : Address × Account} (he : e ∈ accounts) (hsystem : isV3SystemAccount e.1 = true) :
    ¬ s.Present e.1 ∨ ∃ body, tx.body = .communityInferenceReward body ∧
      e.1 ∈ budgetAddresses body c.height ∧ e.2.nonce = (c.accountOrNew s e.1).nonce + 1 := by
  -- no account of a user is in the namespace
  have huser : ∀ a, isReservedSystemAccount a = false → e.1 ≠ a := by
    rintro a ha rfl
    simp [isReservedSystemAccount, hsystem] at ha
  have hother : ∀ a, isV3SystemAccount a = false → e.1 ≠ a := by
    rintro a ha rfl
    rw [hsystem] at ha
    cases ha
  have hkey : e.1 ∈ accounts.map Prod.fst := mem_map_of_mem he
  cases hbody : tx.body with
  | transfer body =>
    rw [hbody] at h
    have hdistinct := h.distinct
    simp only [v3TransferCollision, Bool.or_eq_false_iff] at hdistinct
    rw [h.stored] at hkey
    simp only [map_cons, map_nil, mem_cons, not_mem_nil, or_false] at hkey
    rcases hkey with hkey | hkey | hkey
    · exact absurd hkey (huser _ hdistinct.1.1.1.2)
    · exact absurd hkey (huser _ hdistinct.1.1.2)
    · exact absurd hkey (hother _ hapart.fees)
  | faucetClaim body =>
    rw [hbody] at h
    have hrecipient := recipient_of_faucet hadmitted hbody
    rw [h.stored] at hkey
    simp only [map_cons, map_nil, mem_cons, not_mem_nil, or_false] at hkey
    rcases hkey with hkey | hkey | hkey
    · exact absurd hkey (hother _ hapart.pool)
    · exact absurd hkey (huser _ hrecipient)
    · left
      rw [hkey]
      exact not_not.mpr h.marker_absent
  | communityInferenceReward body =>
    rw [hbody] at h
    have hnodup := RewardCommit.nodup h
    obtain ⟨hmarkers, counters, hcounters, haddresses, haccounts, hmem⟩ :=
      RewardCommit.markers_and_counters hv3 h
    have hworker := worker_of_reward hadmitted hbody
    rw [haccounts] at hkey
    simp only [mem_append, mem_cons, not_mem_nil, or_false] at hkey
    rcases hkey with ((hkey | hkey) | hkey) | hkey
    · exact absurd hkey (hother _ hapart.rewards)
    · exact absurd hkey (huser _ hworker)
    · exact .inl (hmarkers _ hkey).1
    · right
      refine ⟨body, rfl, hkey, ?_⟩
      rw [← haddresses] at hkey
      obtain ⟨e', he', heq⟩ := mem_map.mp hkey
      have hsame : e' = e := inj_on_of_nodup_map hnodup (hmem e' he') he heq
      obtain ⟨i, hi, rfl⟩ := getElem_of_mem he'
      rw [← hsame]
      exact (hcounters.get hi (hcounters.length_eq ▸ hi)).1
  | _ =>
    rw [hbody] at h
    exact h.elim

/-- **Counters.**  No transaction lowers the nonce of a system account, as long as the copies of
    the counters are current. -/
theorem nonce_le_executeSigned (hapart : TreasuriesApart) (hv3 : c.protocolV3 = true)
    (hcurrent : tx.body.CountersCurrent c s) {a : Address} (ha : isV3SystemAccount a = true) :
    (s.accountOr a).nonce ≤ (((executeSigned c tx).run s).store.accountOr a).nonce := by
  have hstores : wp (executeSigned c tx) s _ := v3_executeSigned_stores hv3
  unfold wp at hstores
  cases hresult : ((executeSigned c tx).run s).result with
  | error e =>
    rw [hresult] at hstores
    rw [hstores]
  | ok gas =>
    rw [hresult] at hstores
    obtain ⟨hadmitted, accounts, hstored, hledger⟩ := hstores
    rw [hledger]
    by_cases hmem : a ∈ accounts.map Prod.fst
    · obtain ⟨e, he, rfl⟩ := mem_map.mp hmem
      rw [accountOr_putAccounts_of_mem hstored.nodup he]
      rcases hstored.system_entry hapart hv3 hadmitted he ha with hnew | ⟨body, hbody, hbudget, hnext⟩
      · rw [accountOr_of_not_present hnew]
        exact Nat.zero_le _
      · rw [hbody] at hcurrent
        have hle := hcurrent _ hbudget
        omega
    · rw [accountOr_putAccounts_of_not_mem hmem]

/-- No transaction removes an account. -/
theorem present_executeSigned (hv3 : c.protocolV3 = true) {a : Address} (ha : s.Present a) :
    ((executeSigned c tx).run s).store.Present a := by
  have hstores : wp (executeSigned c tx) s _ := v3_executeSigned_stores hv3
  unfold wp at hstores
  cases hresult : ((executeSigned c tx).run s).result with
  | error e =>
    rw [hresult] at hstores
    rwa [hstores]
  | ok gas =>
    rw [hresult] at hstores
    obtain ⟨_, accounts, _, hledger⟩ := hstores
    rw [hledger]
    exact present_putAccounts ha

/-- An executed transaction was admitted and stores its accounts. -/
theorem stores_of_ok (hv3 : c.protocolV3 = true)
    (hok : ((executeSigned c tx).run s).result.isOk = true) :
    AdmittedNow c s tx ∧ ∃ accounts, tx.body.V3Stores c s tx accounts ∧
      ((executeSigned c tx).run s).store = s.putAccounts accounts := by
  have hstores : wp (executeSigned c tx) s _ := v3_executeSigned_stores hv3
  unfold wp at hstores
  cases hresult : ((executeSigned c tx).run s).result with
  | error e =>
    rw [hresult] at hok
    cases hok
  | ok gas =>
    rw [hresult] at hstores
    exact hstores

theorem AdmittedNow.chainDomain (h : AdmittedNow c s tx)
    (hbody : tx.body = .communityInferenceReward body) :
    body.chainDomain = expectedChainDomain := by
  have hfamily := Admitted.parts h
  rw [hbody] at hfamily
  have hassigned : wp (checkRewardAssignment c tx body c.height) s fun r _ _ => r = .ok () :=
    (rewardAdmitted hfamily.2.2).assigned
  unfold checkRewardAssignment at hassigned
  rw [wp_require_bind] at hassigned
  by_contra hne
  cases hassigned.2 hne

end Transactions

/-! ## One operation -/

section Operations

variable {p q : Context × Ledger} {op : ChainOp}

/-- The operation reads no counter from a cached copy that lags behind. -/
def CountersCurrent (p : Context × Ledger) : ChainOp → Prop
  | .transaction tx => tx.body.CountersCurrent p.1 p.2
  | _ => True

/-- Without cached copies the counters are current. -/
theorem countersCurrent_of_uncached (huncached : p.1.gpuCache = ∅) : CountersCurrent p op := by
  have hsame : ∀ a, p.1.accountOrNew p.2 a = p.2.accountOr a := fun a => by
    rw [Context.accountOrNew, Context.accountOf, huncached]
    rfl
  unfold CountersCurrent TxBody.CountersCurrent
  split
  · split
    · intro a _
      rw [hsame]
    · trivial
  · trivial

theorem protocolV3_chainStep (hv3 : p.1.protocolV3 = true) (hstep : chainStep p op = some q) :
    q.1.protocolV3 = true := by
  cases op with
  | raiseHeight | transaction | sweep =>
    obtain rfl := some.inj hstep
    exact hv3

theorem nonce_le_chainStep (hapart : TreasuriesApart) (hv3 : p.1.protocolV3 = true) {a : Address}
    (ha : isV3SystemAccount a = true) (hcurrent : CountersCurrent p op)
    (hstep : chainStep p op = some q) : (p.2.accountOr a).nonce ≤ (q.2.accountOr a).nonce := by
  cases op with
  | raiseHeight =>
    obtain rfl := some.inj hstep
    exact le_refl _
  | transaction tx =>
    obtain rfl := some.inj hstep
    exact nonce_le_executeSigned hapart hv3 hcurrent ha
  | sweep =>
    obtain rfl := some.inj hstep
    refine sweep_keeps (R := fun s t => (s.accountOr a).nonce ≤ (t.accountOr a).nonce)
      (fun _ => le_refl _) (fun _ _ _ => le_trans) (fun _ _ => le_refl _) ?_ _ _
    intro s b x hnonce _
    rw [accountOr_putAccount]
    split
    · rename_i heq
      rw [hnonce, heq]
    · exact le_refl _

section

variable (hv3 : p.1.protocolV3 = true)
include hv3

theorem present_chainStep {a : Address}
    (hstep : chainStep p op = some q) (ha : p.2.Present a) : q.2.Present a := by
  cases op with
  | raiseHeight =>
    obtain rfl := some.inj hstep
    exact ha
  | transaction tx =>
    obtain rfl := some.inj hstep
    exact present_executeSigned hv3 ha
  | sweep =>
    obtain rfl := some.inj hstep
    refine sweep_keeps (R := fun s t => s.Present a → t.Present a) (fun _ h => h)
      (fun _ _ _ h h' hs => h' (h hs)) (fun _ _ h => h) ?_ _ _ ha
    intro s b x _ _ h
    exact present_putAccount.mpr (.inr h)

/-- An operation that executes a reward: the body, its markers and its counters. -/
theorem executes_reward [∀ h b, Decidable (Q h b)]
    (hstep : chainStep p op = some q) (h : executes (rewardWith Q) p op = true) :
    ∃ tx body, op = .transaction tx ∧ tx.body = .communityInferenceReward body ∧ Q p.1.height body ∧
      body.chainDomain = expectedChainDomain ∧
      (∀ a ∈ (v3RewardMarkers body).addresses, ¬ p.2.Present a ∧ q.2.Present a) ∧
      (∀ a ∈ budgetAddresses body p.1.height, isV3SystemAccount a = true) ∧
      List.Forall₂ (fun a limit => (q.2.accountOr a).nonce = (p.1.accountOrNew p.2 a).nonce + 1 ∧
        (q.2.accountOr a).nonce ≤ limit) (budgetAddresses body p.1.height) budgetLimits := by
  cases op with
  | raiseHeight | sweep => cases h
  | transaction tx =>
    obtain rfl := some.inj hstep
    obtain ⟨hkind, hok⟩ := Bool.and_eq_true_iff.mp h
    cases hbody : tx.body with
    | communityInferenceReward body =>
      rw [hbody] at hkind
      obtain ⟨hadmitted, accounts, hstored, hledger⟩ := stores_of_ok hv3 hok
      have hnodup := hstored.nodup
      rw [hbody] at hstored
      obtain ⟨hmarkers, counters, hcounters, haddresses, _, hmem⟩ :=
        RewardCommit.markers_and_counters hv3 hstored
      refine ⟨tx, body, rfl, hbody, of_decide_eq_true hkind, hadmitted.chainDomain hbody,
        fun a ha => ?_, budgets_of_reward hadmitted hbody, ?_⟩
      · obtain ⟨hnew, x, hx⟩ := hmarkers a ha
        refine ⟨hnew, ?_⟩
        rw [hledger]
        exact present_putAccounts_of_mem hnodup hx
      · rw [← haddresses, forall₂_map_left_iff]
        have hall : ∀ e ∈ counters, (((executeSigned p.1 tx).run p.2).store.accountOr e.1) = e.2 := by
          intro e he
          rw [hledger]
          exact accountOr_putAccounts_of_mem hnodup (hmem e he)
        refine forall₂_iff_get.mpr ⟨hcounters.length_eq, fun i hi hi' => ?_⟩
        have hnext := hcounters.get hi hi'
        rw [hall _ (get_mem counters ⟨i, hi⟩)]
        exact hnext
    | _ =>
      rw [hbody] at hkind
      cases hkind

theorem executes_claim {recipient : Address}
    (hstep : chainStep p op = some q) (h : executes (claimFor recipient) p op = true) :
    ¬ p.2.Present (v3MarkerAddress recipient) ∧ q.2.Present (v3MarkerAddress recipient) := by
  cases op with
  | raiseHeight | sweep => cases h
  | transaction tx =>
    obtain rfl := some.inj hstep
    obtain ⟨hkind, hok⟩ := Bool.and_eq_true_iff.mp h
    cases hbody : tx.body with
    | faucetClaim body =>
      rw [hbody] at hkind
      obtain rfl : body.recipient = recipient := of_decide_eq_true hkind
      obtain ⟨_, accounts, hstored, hledger⟩ := stores_of_ok hv3 hok
      have hnodup := hstored.nodup
      rw [hbody] at hstored
      have hmarker : faucetMarker p.1 body.recipient =
          FaucetClaimBody.v3MarkerAddress body.recipient := if_pos hv3
      have habsent := hstored.marker_absent
      have hstores := hstored.stored
      rw [hmarker] at habsent hstores
      refine ⟨not_not.mpr habsent, ?_⟩
      rw [hledger]
      have hmem : (FaucetClaimBody.v3MarkerAddress body.recipient,
          markerAccount (v3MarkerAddress body.recipient) body.recipient
            (hashBytes (Word.beBytes 8 body.amount))) ∈ accounts := by
        rw [hstores]
        simp
      exact present_putAccounts_of_mem hnodup hmem
    | _ =>
      rw [hbody] at hkind
      cases hkind

end

end Operations

/-! ## Runs -/

section

variable {guard : Context × Ledger → ChainOp → Prop} {p q : Context × Ledger} {ops : List ChainOp}

/-- What leaves a marker that was not there happens at most once. -/
theorem occurrences_le_one {P : Nat → TxBody → Bool} (marker : Address)
    (hmarks : ∀ p op q, p.1.protocolV3 = true → chainStep p op = some q →
      executes P p op = true → ¬ p.2.Present marker ∧ q.2.Present marker)
    (hv3 : p.1.protocolV3 = true) (hrun : Run chainStep guard p ops q) :
    Run.occurrences chainStep (executes P) p ops ≤ 1 := by
  refine Run.occurrences_le (fun p => p.1.protocolV3 = true)
    (fun p => if p.2.Present marker then 1 else 0) ?_ ?_ ?_ hrun hv3
  · exact fun s op t _ hs hstep => protocolV3_chainStep hs hstep
  · intro s op t _ hs hstep
    by_cases hpresent : s.2.Present marker
    · rw [if_pos hpresent, if_pos (present_chainStep hs hstep hpresent)]
    · rw [if_neg hpresent]
      exact Nat.zero_le _
  · intro s op t _ hs hstep hcounted
    obtain ⟨hnew, hpresent⟩ := hmarks s op t hs hstep hcounted
    rw [if_neg hnew, if_pos hpresent]
    exact ⟨Nat.one_pos, le_refl _⟩

/-- Rewards of a kind that share a marker are paid at most once. -/
theorem rewardsPaid_le_one [∀ h b, Decidable (Q h b)] (marker : Address)
    (hmarker : ∀ height body, Q height body → body.chainDomain = expectedChainDomain →
      marker ∈ (v3RewardMarkers body).addresses) (hv3 : p.1.protocolV3 = true)
    (hrun : Run chainStep guard p ops q) :
    rewardsPaid Q p ops ≤ 1 := by
  refine occurrences_le_one marker (fun s op t hs hstep h => ?_) hv3 hrun
  obtain ⟨_, body, _, _, hkind, hdomain, hmarks, _⟩ := executes_reward hs hstep h
  exact hmarks marker (hmarker _ _ hkind hdomain)

/-- **Markers.**  Along every run each reward and each claim is paid at most once, whatever the
    cache holds. -/
theorem paidOnce (hv3 : p.1.protocolV3 = true) (hrun : Run chainStep guard p ops q) :
    PaidOnce p ops where
  jobs domain job := by
    refine rewardsPaid_le_one (v3MarkerAddress domain job) ?_ hv3 hrun
    rintro _ body ⟨rfl, rfl⟩ _
    simp [RewardMarkers.addresses, v3RewardMarkers]
  certificates worker attestation := by
    refine rewardsPaid_le_one (v3CertificateMarkerAddress
      expectedChainDomain worker attestation) ?_ hv3 hrun
    rintro _ body ⟨rfl, rfl⟩ hdomain
    rw [← hdomain]
    simp [RewardMarkers.addresses, v3RewardMarkers]
  probes epoch hprobe := by
    have hsome : ∃ marker, v3RecoveryProbeMarkerAddress
        expectedChainDomain epoch = some marker := by
      rw [v3RecoveryProbeMarkerAddress, recoveryProbeMarkerAddress, if_pos hprobe]
      exact ⟨_, rfl⟩
    obtain ⟨marker, hmarker⟩ := hsome
    refine rewardsPaid_le_one marker ?_ hv3 hrun
    rintro _ body rfl hdomain
    rw [← hdomain] at hmarker
    simp [RewardMarkers.addresses, v3RewardMarkers, hmarker]
  claims recipient := occurrences_le_one _ (fun _ _ _ hs => executes_claim hs) hv3 hrun

/-- Rewards of a kind that share a counter stay within its limit. -/
theorem rewardsPaid_le [∀ h b, Decidable (Q h b)] (i : Nat) (counter : Address) {limit : Nat}
    (hlimit : budgetLimits[i]? = some limit)
    (hcounter : ∀ height body, Q height body → (budgetAddresses body height)[i]? = some counter)
    (hapart : TreasuriesApart) (hv3 : p.1.protocolV3 = true)
    (hrun : Run chainStep CountersCurrent p ops q) : rewardsPaid Q p ops ≤ limit := by
  by_cases hsystem : isV3SystemAccount counter = true
  · refine Run.occurrences_le (fun p => p.1.protocolV3 = true)
      (fun p => (p.2.accountOr counter).nonce) ?_ ?_ ?_ hrun hv3
    · exact fun s op t _ hs hstep => protocolV3_chainStep hs hstep
    · exact fun s op t hcurrent hs hstep => nonce_le_chainStep hapart hs hsystem hcurrent hstep
    · intro s op t hcurrent hs hstep hcounted
      obtain ⟨tx, body, rfl, hbody, hkind, _, _, _, hcounters⟩ := executes_reward hs hstep hcounted
      have hat := hcounter _ _ hkind
      obtain ⟨hi, hget⟩ := List.getElem?_eq_some_iff.mp hat
      obtain ⟨hi', hget'⟩ := List.getElem?_eq_some_iff.mp hlimit
      have hnext := hcounters.get hi hi'
      simp only [get_eq_getElem, hget] at hnext
      have hle : (s.2.accountOr counter).nonce ≤ (s.1.accountOrNew s.2 counter).nonce := by
        have hcopies : tx.body.CountersCurrent s.1 s.2 := hcurrent
        rw [hbody] at hcopies
        exact hcopies counter (mem_of_getElem? hat)
      omega
  · -- a counter outside the namespace stops every reward
    have hnone : rewardsPaid Q p ops ≤ 0 := by
      refine Run.occurrences_le (fun p => p.1.protocolV3 = true) (fun _ => 0) ?_
        (fun _ _ _ _ _ _ => le_refl _) ?_ hrun hv3
      · exact fun s op t _ hs hstep => protocolV3_chainStep hs hstep
      · intro s op t _ hs hstep hcounted
        obtain ⟨_, body, _, _, hkind, _, _, hall, _⟩ := executes_reward hs hstep hcounted
        exact absurd (hall counter (mem_of_getElem? (hcounter _ _ hkind))) hsystem
    omega

/-- **Issuance.**  Along every run of the recovery protocol in which no reward reads a counter
    from a cached copy that lags behind, rewards and claims are paid at most once and within the
    budgets. -/
theorem issuance_limits (hapart : TreasuriesApart) (hv3 : p.1.protocolV3 = true)
    (hrun : Run chainStep CountersCurrent p ops q) : PaidOnce p ops ∧ WithinBudgets p ops := by
  refine ⟨paidOnce hv3 hrun, ?_, ?_, ?_, ?_⟩
  · intro H
    refine rewardsPaid_le 0 (communityRewardBlockBudgetAddress H) rfl ?_ hapart hv3 hrun
    rintro _ body rfl
    rfl
  · intro epoch
    refine rewardsPaid_le 1 (communityRewardEpochBudgetAddress epoch) rfl ?_ hapart hv3 hrun
    rintro _ body rfl
    rfl
  · intro epoch worker
    refine rewardsPaid_le 2 (communityRewardWorkerBudgetAddress epoch worker) rfl ?_ hapart hv3 hrun
    rintro _ body ⟨rfl, rfl⟩
    rfl
  · intro epoch coordinator
    refine rewardsPaid_le 3 (communityRewardCoordinatorBudgetAddress epoch coordinator) rfl ?_ hapart hv3 hrun
    rintro _ body ⟨rfl, rfl⟩
    rfl

end

end Runs

/-! ## A lagging copy -/

namespace Sample

/-- The executable instance with padded inputs for derived keys, so that the leading half of a
    key, which system addresses keep, depends on all of the input. -/
@[reducible] def paddedExternals : Externals :=
  { concreteExternals with
    toCrypto := { concreteCrypto with
      blake3DeriveKey := fun _ bytes => Concrete.checksum (bytes ++ List.replicate 16 0) } }

/-- The recovery protocol at a height with rewards active, over a GPU cache. -/
def rewardContext (height : Nat) (cache : FinMap Address Account) : Context :=
  { v3Context height with communityRewardsV1ActivationHeight := some 0, gpuCache := cache }

/-- The domain that transactions are signed for. -/
def rewardDomain : Hash256 :=
  letI := paddedExternals
  ((v3Context 0).transactionDomainHash).getD .zero

/-- Worker 31's job with the given nonce for coordinator 11, certified by the worker. -/
def certifiedJob (n : Nat) : CommunityInferenceRewardBody :=
  letI := paddedExternals
  let assigned : CommunityInferenceRewardBody :=
    { chainDomain := CommunityInferenceRewardBody.expectedChainDomain
      jobId := CommunityInferenceRewardBody.deriveJobId (address 11) (address 77) n (address 5)
        (address 6) 100
      coordinator := address 11
      assignmentEpoch := address 77
      jobNonce := n
      recoveryEpoch := 1
      validatorSetId := 1
      transactionDomain := rewardDomain
      worker := address 31
      modelId := address 5
      inputHash := address 6
      outputHash := address 7
      maxTokens := 100
      expiresAtHeight := 1000
      workerCertificate := ⟨.zero, n, 10, .ed25519 [] []⟩
      validatorApprovals := [] }
  let attested := assigned.reconstructWorkerAttestation.computeHashInDomain rewardDomain
  { assigned with
    workerCertificate := ⟨attested, n, 10, Concrete.signature (address 31) attested⟩ }

/-- The reward for the job, approved by validators 11 to 15 and signed by the coordinator. -/
def jobReward (n : Nat) : Transaction :=
  letI := paddedExternals
  let body := certifiedJob n
  let approve (v : Nat) : CommunityRewardValidatorApproval :=
    ⟨address v, (address v).toBytes, body.validatorApprovalCommitment.toBytes⟩
  let unsigned := tx 11 0 (.communityInferenceReward
    { body with validatorApprovals := [11, 12, 13, 14, 15].map approve })
  let hash := unsigned.computeHashInDomain rewardDomain
  { unsigned with hash := hash, signature := Concrete.signature (address 11) hash }

/-- Six validators and a treasury that can pay a hundred rewards. -/
def rewardLedger : Ledger :=
  letI := paddedExternals
  { v3Ledger with
    accounts := FinMap.ofList [(inferenceRewardTreasuryAddress,
      Account.new inferenceRewardTreasuryAddress (100 * inferenceAttestationReward))] }

/-- The ledger after the first reward, paid at height 8. -/
def firstReward : Ledger :=
  letI := paddedExternals
  ((executeSigned (rewardContext 8 ∅) (jobReward 0)).run rewardLedger).store

/-- Further rewards for the worker, one in each block. -/
def laterRewards (count : Nat) : List ChainOp :=
  ((List.range count).map fun n => [ChainOp.raiseHeight, .transaction (jobReward (n + 1))]).flatten

/-- The GPU cache is filled after the first reward.  Every later reward counts from the copy of
    the worker's counter in it, and all nine are paid in one epoch; the limit is eight. -/
theorem cached_counter_exceeds_budget :
    letI := paddedExternals
    (rewardContext 8 firstReward.accounts).protocolV3 = true ∧ TreasuriesApart ∧
      rewardsPaid (fun height body => height / v3CommunityRewardEpochBlocks = 0 ∧
        body.worker = address 31) (rewardContext 8 firstReward.accounts, firstReward)
        (laterRewards 9) = 9 ∧
      ¬ WithinBudgets (rewardContext 8 firstReward.accounts, firstReward) (laterRewards 9) := by
  let _ : Externals := paddedExternals
  have hnine : rewardsPaid (fun height body => height / v3CommunityRewardEpochBlocks = 0 ∧
      body.worker = address 31) (rewardContext 8 firstReward.accounts, firstReward)
      (laterRewards 9) = 9 := by decide +kernel
  refine ⟨by decide, ⟨by decide +kernel, by decide +kernel, by decide +kernel⟩, hnine, ?_⟩
  intro h
  have hle := h.perWorker 0 (address 31)
  rw [hnine] at hle
  exact absurd hle (by decide)

/-- Without a cache the run stays within the budgets. -/
theorem uncached_rewards_within_budgets :
    letI := paddedExternals
    TreasuriesApart ∧ (rewardContext 8 ∅).protocolV3 = true ∧
      PaidOnce (rewardContext 8 ∅, rewardLedger) [.transaction (jobReward 0), .raiseHeight] ∧
      WithinBudgets (rewardContext 8 ∅, rewardLedger) [.transaction (jobReward 0), .raiseHeight] := by
  let _ : Externals := paddedExternals
  have hapart : TreasuriesApart := ⟨by decide +kernel, by decide +kernel, by decide +kernel⟩
  have hv3 : (rewardContext 8 ∅).protocolV3 = true := by decide
  exact ⟨hapart, hv3, issuance_limits hapart hv3
    (.cons (countersCurrent_of_uncached rfl) rfl (.single trivial rfl))⟩

end Sample

end ArcChain
