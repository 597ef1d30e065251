/-
The parallel executor (`block_stm.rs`): the access set predicted for a
transaction, and the partition of a block into batches.

A transaction goes to the first batch after every batch in which one of its
accounts was last used.  So of two transactions that share an account the
later one is in a later batch (`Partition.Sound`), and the partition is
right as far as the access sets are.
-/
import ArcChain.Lib.Schedule
import ArcChain.State.Execute
import ArcChain.Types.InferenceContract

namespace ArcChain

open Schedule List

variable [Externals]

def validatorSetAccessKey : Address := hashBytes (asciiBytes "arc-block-stm-validator-set-v1")

/-- `inference_contract_state::escrow_address`. -/
def nativeEscrowAddress (requestId : Hash256) : Address :=
  Crypto.blake3DeriveKey "ARC-isolated-inference-escrow-v1" requestId.toBytes

/-- The accounts the body adds to the access set. -/
def TxBody.accessAccounts (tx : Transaction) : TxBody → List Address
  | .transfer body => [body.recipient, v3FeeTreasuryAddress]
  | .settle body => [body.agentId]
  | .swap body => [body.counterparty]
  | .stake body => [body.validator, validatorSetAccessKey]
  | .wasmCall body => [body.contract]
  | .escrow body => [body.beneficiary]
  | .deployContract _ | .registerAgent _ | .multiSig _ _ _ => []
  | .joinValidator _ | .leaveValidator | .updateStake _ => [validatorSetAccessKey]
  | .claimRewards | .governance _ | .bridgeLock _ | .bridgeMint _ => []
  | .batchSettle body => body.entries.map SettleEntry.agentId
  | .channelOpen body => [body.counterparty]
  | .channelClose _ | .channelDispute _ | .shardProof _ => []
  | .inferenceAttestation _ => [attestEscrowAddress tx.hash]
  | .communityInferenceReward body =>
    [inferenceRewardTreasuryAddress, validatorSetAccessKey, body.worker,
      (legacyRewardMarkers body).job, (v3RewardMarkers body).job,
      (legacyRewardMarkers body).certificate, (v3RewardMarkers body).certificate] ++
    (legacyRewardMarkers body).probe.toList ++ (v3RewardMarkers body).probe.toList
  | .inferenceChallenge body => [attestEscrowAddress body.attestationHash]
  | .inferenceRegister _ => []
  | .inferenceEscrowOpen body => [InferenceEscrowOpenBody.escrowAddress body.requestId]
  | .inferenceEscrowRelease body =>
    [InferenceEscrowOpenBody.escrowAddress body.requestId, body.proposer] ++ body.replicas ++
      [body.observerPool, body.treasury]
  | .inferenceEscrowRefund body => [InferenceEscrowOpenBody.escrowAddress body.requestId]
  | .modelRegistration body => [ModelRegistrationBody.registryAccount body.modelId]
  | .modelRequest body => [ModelRequestBody.requestAccount body.requestId]
  | .shardCoverageClaim body =>
    [ShardCoverageClaimBody.claimAccount body.modelId body.nodePubkey]
  | .capacityAdvertisement body => [CapacityAdvertisementBody.capacityAccount body.nodePubkey]
  | .shardAssignmentProposal _ => []
  | .faucetClaim body =>
    [body.recipient, faucetPoolAddress, FaucetClaimBody.markerAddress body.recipient,
      FaucetClaimBody.v3MarkerAddress body.recipient, validatorSetAccessKey]
  | .inferenceRequest body => [tier1EscrowAddress body.requestId]
  | .inferenceVote body => [tier1EscrowAddress body.requestId]
  | .inferenceFinalize body => [tier1EscrowAddress body.requestId, faucetPoolAddress]
  | .nativeInferenceRequest body =>
    [validatorSetAccessKey, nativeEscrowAddress body.request.job.requestId]
  | .nativeInferenceFinalize body => [validatorSetAccessKey, nativeEscrowAddress body.requestId]
  | .nativeInferenceRefund body => [validatorSetAccessKey, nativeEscrowAddress body.requestId]

def txAccessSet (tx : Transaction) : List Address := tx.sender :: tx.body.accessAccounts tx

/-! ## Batches -/

section Partition

/-- The loop state of `partition_batches`. -/
structure Partition where
  batches : List (List Nat)
  lastBatchByAccount : FinMap Address Nat

namespace Partition

/-- The batch after the last one that used an account of the set. -/
def batchIndex (p : Partition) (access : List Address) : Nat :=
  ((access.filterMap fun a => (p.lastBatchByAccount.lookup a).map (· + 1)).max?).getD 0

/-- Push an index to a batch, the missing batches created empty. -/
def pushTo (batches : List (List Nat)) (k i : Nat) : List (List Nat) :=
  (batches ++ List.replicate (k + 1 - batches.length) []).modify k (· ++ [i])

/-- One round of the loop. -/
def add (p : Partition) (i : Nat) (access : List Address) : Partition where
  batches := pushTo p.batches (p.batchIndex access) i
  lastBatchByAccount := access.foldl
    (fun last a => FinMap.set last a (some (p.batchIndex access))) p.lastBatchByAccount

/-- The loop, from the index of the next access set. -/
def addAll (p : Partition) (i : Nat) : List (List Address) → Partition
  | [] => p
  | access :: rest => (p.add i access).addAll (i + 1) rest

def empty : Partition := ⟨[], ∅⟩

end Partition

def partitionBatches (txs : List Transaction) : List (List Nat) :=
  (Partition.empty.addAll 0 (txs.map txAccessSet)).batches

/-! ## The order of the batches -/

namespace Partition

variable {p : Partition} {i k : Nat} {access : List Address}

variable {placed : List (List Address)}

omit [Externals]

variable {batches : List (List Nat)}

theorem mem_pushTo {k i m j : Nat} :
    j ∈ (pushTo batches k i).getD m [] ↔ j ∈ batches.getD m [] ∨ (m = k ∧ j = i) := by
  simp only [pushTo, getD_eq_getElem?_getD, List.getElem?_modify, List.getElem?_append]
  by_cases hlen : m < batches.length
  · by_cases hk : k = m <;> simp [hlen, hk, eq_comm]
  by_cases hk : k = m
  · subst hk
    simp [hlen, show k - batches.length < k + 1 - batches.length by omega]
  · have hmk : ¬ m = k := fun h => hk h.symm
    by_cases hpad : m - batches.length < k + 1 - batches.length <;> simp [hlen, hk, hmk, hpad]

theorem perm_pushTo {k i : Nat} : (pushTo batches k i).flatten.Perm (batches.flatten ++ [i]) := by
  have hk : k < (batches ++ List.replicate (k + 1 - batches.length) []).length := by
    simp
    omega
  have hpad : (batches ++ List.replicate (k + 1 - batches.length) []).flatten =
      batches.flatten := by simp
  rw [pushTo, modify_eq_take_cons_drop hk, ← hpad]
  conv => rhs; rw [← take_append_drop k (batches ++ _), drop_eq_getElem_cons hk]
  simp only [flatten_append, flatten_cons, append_assoc]
  exact ((perm_append_comm).append_left _).append_left _

/-- The batch comes after the last use of every account of the set. -/
theorem lt_batchIndex {a : Address} {b : Nat} (ha : a ∈ access)
    (hb : p.lastBatchByAccount.lookup a = some b) : b < p.batchIndex access := by
  apply le_max?_getD_of_mem
  exact mem_filterMap.mpr ⟨a, ha, by simp [hb]⟩

theorem lookup_add {a : Address} : (p.add i access).lastBatchByAccount.lookup a =
      if a ∈ access then some (p.batchIndex access) else p.lastBatchByAccount.lookup a := by
  have hfold : ∀ (b : Nat) (last : FinMap Address Nat),
      (access.foldl (fun last a => FinMap.set last a (some b)) last).lookup a =
        if a ∈ access then some b else last.lookup a := by
    intro b last
    induction access generalizing last with
    | nil => simp
    | cons a' access ih =>
      rw [foldl_cons, ih, FinMap.lookup_set]
      by_cases ha : a ∈ access
      · simp [ha]
      · by_cases heq : a = a' <;> simp [ha]
  exact hfold _ _

/-- What holds of the batches once the given access sets have been placed. -/
structure Sound (p : Partition) (placed : List (List Address)) : Prop where
  /-- Every index is in exactly one batch. -/
  perm : p.batches.flatten.Perm (List.range placed.length)
  /-- No use of an account is after its last use. -/
  last : ∀ {i k a}, i ∈ p.batches.getD k [] → a ∈ placed.getD i [] →
    ∃ b, p.lastBatchByAccount.lookup a = some b ∧ k ≤ b
  /-- Of two sets with a common account the later one is in a later batch. -/
  later : ∀ {i j k m a}, i < j → i ∈ p.batches.getD k [] → j ∈ p.batches.getD m [] →
    a ∈ placed.getD i [] → a ∈ placed.getD j [] → k < m

theorem lt_length_of_mem (hi : i ∈ batches.getD k []) : k < batches.length := by
  by_contra hk
  rw [getD_eq_default _ _ (not_lt.mp hk)] at hi
  exact absurd hi not_mem_nil

theorem Sound.lt_length (h : p.Sound placed) (hi : i ∈ p.batches.getD k []) :
    i < placed.length := by
  have hmem : i ∈ p.batches.flatten := by
    have hk := lt_length_of_mem hi
    rw [getD_eq_getElem _ _ hk] at hi
    exact mem_flatten.mpr ⟨_, getElem_mem hk, hi⟩
  exact mem_range.mp (h.perm.mem_iff.mp hmem)

theorem sound_empty : empty.Sound [] where
  perm := List.Perm.refl _
  last hi := by simp [empty] at hi
  later _ hi := by simp [empty] at hi

/-- One round places the next set. -/
theorem Sound.add (h : p.Sound placed) (access : List Address) :
    (p.add placed.length access).Sound (placed ++ [access]) where
  perm := by
    rw [length_append, length_singleton, range_succ]
    exact perm_pushTo.trans (h.perm.append_right _)
  last := by
    intro i k a hi ha
    rw [lookup_add]
    rcases mem_pushTo.mp hi with hold | ⟨rfl, rfl⟩
    · rw [getD_append _ _ _ _ (h.lt_length hold)] at ha
      obtain ⟨b, hb, hkb⟩ := h.last hold ha
      by_cases hmem : a ∈ access
      · exact ⟨_, if_pos hmem, Nat.le_of_lt (lt_of_le_of_lt hkb (lt_batchIndex hmem hb))⟩
      · exact ⟨b, by rw [if_neg hmem, hb], hkb⟩
    · have hmem : a ∈ access := by simpa using ha
      exact ⟨_, if_pos hmem, le_refl _⟩
  later := by
    intro i j k m a hij hi hj hai haj
    rcases mem_pushTo.mp hj with hjold | ⟨rfl, rfl⟩
    · -- neither set is the new one
      have hjlt := h.lt_length hjold
      rcases mem_pushTo.mp hi with hiold | ⟨_, rfl⟩
      · rw [getD_append _ _ _ _ (h.lt_length hiold)] at hai
        rw [getD_append _ _ _ _ hjlt] at haj
        exact h.later hij hiold hjold hai haj
      · exact absurd hjlt (not_lt.mpr (Nat.le_of_lt hij))
    · rcases mem_pushTo.mp hi with hiold | ⟨_, rfl⟩
      · rw [getD_append _ _ _ _ (h.lt_length hiold)] at hai
        obtain ⟨b, hb, hkb⟩ := h.last hiold hai
        exact lt_of_le_of_lt hkb (lt_batchIndex (by simpa using haj) hb)
      · exact absurd hij (lt_irrefl _)

theorem Sound.addAll (h : p.Sound placed) (rest : List (List Address)) :
    (p.addAll placed.length rest).Sound (placed ++ rest) := by
  induction rest generalizing p placed with
  | nil => simpa [Partition.addAll] using h
  | cons access rest ih =>
    have hnext := ih (h.add access)
    rwa [append_assoc, length_append] at hnext

end Partition

/-- The batches hold every index of the block once. -/
theorem perm_partitionBatches (txs : List Transaction) :
    (partitionBatches txs).flatten.Perm (List.range txs.length) := by
  have h := (Partition.sound_empty.addAll (txs.map txAccessSet)).perm
  rwa [nil_append, length_map] at h

/-- **Partition.**  Of two transactions that share a predicted account the later one is in a
    later batch. -/
theorem partitionBatches_later {txs : List Transaction} {i j k m : Nat} {x y : Transaction}
    {a : Address} (hij : i < j) (hi : i ∈ (partitionBatches txs).getD k [])
    (hj : j ∈ (partitionBatches txs).getD m []) (hx : txs[i]? = some x) (hy : txs[j]? = some y)
    (hax : a ∈ txAccessSet x) (hay : a ∈ txAccessSet y) : k < m := by
  apply (Partition.sound_empty.addAll (txs.map txAccessSet)).later hij hi hj (a := a)
  · simpa [hx] using hax
  · simpa [hy] using hay

/-! ## No batch is later than it must be -/

namespace Partition

variable {p : Partition} {i k : Nat} {access : List Address} {placed : List (List Address)}

omit [Externals]

/-- What keeps the batches early once the given access sets have been placed. -/
structure Tight (p : Partition) (placed : List (List Address)) : Prop where
  /-- No batch is empty. -/
  filled : ∀ k < p.batches.length, ∃ i, i ∈ p.batches.getD k []
  /-- The last use of an account is a use of it. -/
  used : ∀ {a b}, p.lastBatchByAccount.lookup a = some b →
    ∃ i, i ∈ p.batches.getD b [] ∧ a ∈ placed.getD i []
  /-- A set is put off only because of an earlier one in the batch before. -/
  earlier : ∀ {i k}, i ∈ p.batches.getD (k + 1) [] →
    ∃ j a, j < i ∧ j ∈ p.batches.getD k [] ∧ a ∈ placed.getD j [] ∧ a ∈ placed.getD i []

theorem tight_empty : empty.Tight [] where
  filled k hk := absurd hk (Nat.not_lt_zero k)
  used hlast := by simp [empty] at hlast
  earlier hi := by simp [empty] at hi

/-- A batch other than the first was chosen because of the one before it. -/
theorem lookup_of_batchIndex (hk : p.batchIndex access = k + 1) :
    ∃ a ∈ access, p.lastBatchByAccount.lookup a = some k := by
  rw [batchIndex] at hk
  cases hmax : (access.filterMap fun a => (p.lastBatchByAccount.lookup a).map (· + 1)).max? with
  | none =>
    rw [hmax] at hk
    cases hk
  | some m =>
    obtain ⟨a, ha, hlast⟩ := mem_filterMap.mp (List.max?_mem hmax)
    obtain ⟨b, hb, rfl⟩ := Option.map_eq_some_iff.mp hlast
    rw [hmax] at hk
    exact ⟨a, ha, hb.trans (congrArg some (Nat.succ.inj hk))⟩

/-- One round places the next set. -/
theorem Tight.add (h : p.Tight placed) (hsound : p.Sound placed) (access : List Address) :
    (p.add placed.length access).Tight (placed ++ [access]) := by
  have hkeep : ∀ {i k a}, i ∈ p.batches.getD k [] → a ∈ placed.getD i [] →
      a ∈ (placed ++ [access]).getD i [] := by
    intro i k a hi ha
    rwa [getD_append _ _ _ _ (hsound.lt_length hi)]
  have hself : ∀ {a}, a ∈ access → a ∈ (placed ++ [access]).getD placed.length [] := by
    simpa using ha
  refine ⟨?_, ?_, ?_⟩
  · intro k hk
    -- the new batch follows a batch that exists, so nothing in between was created empty
    have hindex : p.batchIndex access ≤ p.batches.length := by
      cases hm : p.batchIndex access with
      | zero => exact Nat.zero_le _
      | succ m =>
        obtain ⟨a, -, hlast⟩ := lookup_of_batchIndex hm
        obtain ⟨i, hi, -⟩ := h.used hlast
        exact lt_length_of_mem hi
    by_cases hnew : k = p.batchIndex access
    · exact ⟨placed.length, mem_pushTo.mpr (.inr ⟨hnew, rfl⟩)⟩
    have hlen : (p.add placed.length access).batches.length =
        p.batches.length + (p.batchIndex access + 1 - p.batches.length) := by
      simp [Partition.add, pushTo]
    obtain ⟨i, hi⟩ := h.filled k (by omega)
    exact ⟨i, mem_pushTo.mpr (.inl hi)⟩
  · intro a b hlast
    rw [lookup_add] at hlast
    split at hlast
    · next ha =>
        exact ⟨placed.length, mem_pushTo.mpr (.inr ⟨(Option.some.inj hlast).symm, rfl⟩), hself ha⟩
    · obtain ⟨i, hi, ha⟩ := h.used hlast
      exact ⟨i, mem_pushTo.mpr (.inl hi), hkeep hi ha⟩
  · intro i k hi
    rcases mem_pushTo.mp hi with hold | ⟨hk, rfl⟩
    · obtain ⟨j, a, hji, hj, haj, hai⟩ := h.earlier hold
      exact ⟨j, a, hji, mem_pushTo.mpr (.inl hj), hkeep hj haj, hkeep hold hai⟩
    · obtain ⟨a, ha, hlast⟩ := lookup_of_batchIndex hk.symm
      obtain ⟨j, hj, haj⟩ := h.used hlast
      exact ⟨j, a, hsound.lt_length hj, mem_pushTo.mpr (.inl hj), hkeep hj haj, hself ha⟩

theorem Tight.addAll (h : p.Tight placed) (hsound : p.Sound placed) (rest : List (List Address)) :
    (p.addAll placed.length rest).Tight (placed ++ rest) := by
  induction rest generalizing p placed with
  | nil => simpa [Partition.addAll] using h
  | cons access rest ih =>
    have hnext := ih (h.add hsound access) (hsound.add access)
    rwa [append_assoc, length_append] at hnext

end Partition

/-- Two transactions of the block share a predicted account. -/
def Overlap (txs : List Transaction) (i j : Nat) : Prop :=
  ∃ a, a ∈ (txs.map txAccessSet).getD i [] ∧ a ∈ (txs.map txAccessSet).getD j []

/-- `ConflictChain txs i n`: a chain of `n` predecessors ends at transaction `i`, each in
    conflict with the next. -/
inductive ConflictChain (txs : List Transaction) : Nat → Nat → Prop
  | start (i : Nat) : ConflictChain txs i 0
  | next {i j n : Nat} (chain : ConflictChain txs i n) (before : i < j)
      (overlap : Overlap txs i j) : ConflictChain txs j (n + 1)

/-- **Exact partition.**  Every index is in one batch, no batch is empty, what is in one batch
    does not conflict, conflicts keep their order, and a transaction's batch is the length of
    the longest chain of conflicts that ends at it. -/
theorem partitionBatches_exact (txs : List Transaction) :
    (partitionBatches txs).flatten.Perm (List.range txs.length) ∧
    (∀ batch ∈ partitionBatches txs, batch ≠ []) ∧
    (∀ batch ∈ partitionBatches txs, ∀ i ∈ batch, ∀ j ∈ batch, i ≠ j → ¬ Overlap txs i j) ∧
    (∀ i j k m, i < j → Overlap txs i j → i ∈ (partitionBatches txs).getD k [] →
      j ∈ (partitionBatches txs).getD m [] → k < m) ∧
    ∀ i k, i ∈ (partitionBatches txs).getD k [] → IsGreatest { n | ConflictChain txs i n } k := by
  have hsound := Partition.sound_empty.addAll (txs.map txAccessSet)
  have htight := Partition.tight_empty.addAll Partition.sound_empty (txs.map txAccessSet)
  have horder : ∀ i j k m, i < j → Overlap txs i j → i ∈ (partitionBatches txs).getD k [] →
      j ∈ (partitionBatches txs).getD m [] → k < m := by
    rintro i j k m hij ⟨a, hai, haj⟩ hi hj
    exact hsound.later hij hi hj hai haj
  have hbatch : ∀ batch ∈ partitionBatches txs,
      ∃ k < (partitionBatches txs).length, (partitionBatches txs).getD k [] = batch := by
    intro batch hmem
    obtain ⟨k, hk, rfl⟩ := getElem_of_mem hmem
    exact ⟨k, hk, getD_eq_getElem _ _ hk⟩
  refine ⟨perm_partitionBatches txs, ?_, ?_, horder, ?_⟩
  · rintro batch hmem rfl
    obtain ⟨k, hk, hempty⟩ := hbatch _ hmem
    obtain ⟨i, hi⟩ := htight.filled k hk
    exact not_mem_nil (hempty ▸ hi)
  · rintro batch hmem i hi j hj hij ⟨a, hai, haj⟩
    obtain ⟨k, -, rfl⟩ := hbatch _ hmem
    rcases Nat.lt_or_gt_of_ne hij with hlt | hlt
    · exact lt_irrefl k (horder i j k k hlt ⟨a, hai, haj⟩ hi hj)
    · exact lt_irrefl k (horder j i k k hlt ⟨a, haj, hai⟩ hj hi)
  · intro i k hi
    constructor
    · -- follow the batches down: each has a conflicting predecessor in the one before
      induction k generalizing i with
      | zero => exact .start i
      | succ k ih =>
        obtain ⟨j, a, hji, hj, haj, hai⟩ := htight.earlier hi
        exact .next (ih j hj) hji ⟨a, haj, hai⟩
    · -- along a chain the batch grows with every link
      intro n hchain
      induction hchain generalizing k with
      | start i => exact Nat.zero_le k
      | @next i j n _ hij hoverlap ih =>
        have hmem : i ∈ (partitionBatches txs).flatten := by
          have hlt := hsound.lt_length hi
          rw [nil_append, length_map] at hlt
          exact (perm_partitionBatches txs).mem_iff.mpr (mem_range.mpr (hij.trans hlt))
        obtain ⟨batch, hbatchMem, hib⟩ := mem_flatten.mp hmem
        obtain ⟨m, -, rfl⟩ := hbatch _ hbatchMem
        exact lt_of_le_of_lt (ih m hib) (horder i j m k hij hoverlap hib hi)

end Partition

end ArcChain
