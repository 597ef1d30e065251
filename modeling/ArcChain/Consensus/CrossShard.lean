/-
Cross-shard transactions (`arc-consensus/src/lib.rs`): the two functions
that tell which transactions are cross-shard, and the locks that are taken
for them.

A lock is pending until it is committed or aborted, and then completed.
Finishing a lock moves it from one map to the other (`finish_moves`);
taking one looks at the pending map only, so a completed transaction can
be locked again and finished otherwise.
-/
import ArcChain.Lib.FinMap
import ArcChain.Lib.Run
import ArcChain.Crypto.Concrete
import ArcChain.Consensus.ValidatorSet
import ArcChain.Types.Transaction

namespace ArcChain

open Word FinMap

/-! ## Shards -/

/-- The first eight bytes of the address. -/
def shardOf (address : Address) (numShards : Nat) : Nat :=
  if numShards = 0 then 0 else leValue (address.toBytes.take 8) % numShards

def needsFullConsensus (tx : Transaction) (numShards : Nat) : Bool :=
  if numShards ≤ 1 then false
  else
    let senderShard := shardOf tx.sender numShards
    match tx.body with
    | .transfer body => senderShard != shardOf body.recipient numShards
    | .settle body => senderShard != shardOf body.agentId numShards
    | .swap body => senderShard != shardOf body.counterparty numShards
    | .escrow body => senderShard != shardOf body.beneficiary numShards
    | .stake body => senderShard != shardOf body.validator numShards
    | .wasmCall body => senderShard != shardOf body.contract numShards
    | .multiSig _ signers _ => signers.any fun signer => shardOf signer numShards != senderShard
    | .channelOpen body => senderShard != shardOf body.counterparty numShards
    | .communityInferenceReward _ | .nativeInferenceRequest _ | .nativeInferenceFinalize _
    | .nativeInferenceRefund _ => true
    | _ => false

/-- The first two bytes of the address. -/
def assignShard (address : Address) (numShards : Nat) : Nat :=
  leValue (address.toBytes.take 2) % numShards

def isCrossShard (sender recipient : Address) (numShards : Nat) : Bool :=
  if numShards ≤ 1 then false
  else assignShard sender numShards != assignShard recipient numShards

/-- The two prefixes agree modulo 2^16. -/
theorem leValue_take_eight (bytes : List UInt8) (h : 2 ≤ bytes.length) :
    leValue (bytes.take 8) = leValue (bytes.take 2) + 65536 * leValue ((bytes.drop 2).take 6) := by
  match bytes, h with
  | a :: b :: rest, _ =>
    show a.toNat + 256 * (b.toNat + 256 * leValue (rest.take 6)) =
      a.toNat + 256 * (b.toNat + 256 * 0) + 65536 * leValue (rest.take 6)
    omega

/-- A shard count that divides 2^16 sees the first two bytes only. -/
theorem shardOf_eq_assignShard {numShards : Nat} (hdvd : numShards ∣ 65536) (address : Address) :
    shardOf address numShards = assignShard address numShards := by
  have hpos : numShards ≠ 0 := by
    rintro rfl
    exact absurd (Nat.eq_zero_of_zero_dvd hdvd) (by decide)
  obtain ⟨m, hm⟩ := hdvd
  rw [shardOf, if_neg hpos, assignShard, leValue_take_eight _ (by simp), hm, Nat.mul_assoc,
    Nat.add_mul_mod_self_left]

/-- The address whose first eight bytes spell 2^16. -/
def farAddress : Address := .ofBytes ([0, 0, 1] ++ List.replicate 29 0)

def farTransfer : Transaction :=
  { txType := .transfer, sender := .zero, nonce := 0, body := .transfer ⟨farAddress, 0, none⟩,
    fee := 0, gasLimit := 0, hash := .zero, signature := .secp256k1 [], sigVerified := false }

/-- **When the two classifiers agree.**  They agree on all transfers for a shard count that divides
    2^16, a power of two, and for no other above 1. -/
theorem classifiers_agree_iff (numShards : Nat) :
    (∀ tx body, tx.body = .transfer body →
        isCrossShard tx.sender body.recipient numShards = needsFullConsensus tx numShards) ↔
      numShards ≤ 1 ∨ numShards ∣ 65536 := by
  constructor
  · intro h
    by_contra hshards
    obtain ⟨hmany, hdvd⟩ := not_or.mp hshards
    -- the first two bytes of both addresses are zero, the eight bytes differ by 2^16
    have hagree := h farTransfer _ rfl
    have hzero : leValue (Hash256.zero.toBytes.take 8) = 0 := by decide +kernel
    have hfar : leValue (farAddress.toBytes.take 8) = 65536 := by decide +kernel
    have hzero' : leValue (Hash256.zero.toBytes.take 2) = 0 := by decide +kernel
    have hfar' : leValue (farAddress.toBytes.take 2) = 0 := by decide +kernel
    have hpos : numShards ≠ 0 := by omega
    simp only [farTransfer, isCrossShard, needsFullConsensus, hmany, assignShard,
      shardOf, hpos, hzero, hfar, hzero', hfar'] at hagree
    have hmod : (0 : Nat) = 65536 % numShards := by simpa using hagree.symm
    exact hdvd (Nat.dvd_of_mod_eq_zero hmod.symm)
  · rintro hshards tx body hbody
    by_cases hone : numShards ≤ 1
    · simp [isCrossShard, needsFullConsensus, hone]
    · have hdvd := hshards.resolve_left hone
      simp only [isCrossShard, needsFullConsensus, hbody,
        shardOf_eq_assignShard hdvd]

/-- With three shards a transfer from the zero address is local for one and cross-shard for the
    other. -/
theorem classifiers_disagree_for_three_shards :
    isCrossShard .zero farAddress 3 = false ∧
      needsFullConsensus farTransfer 3 = true := by
  decide +kernel

/-! ## Locks -/

inductive CrossShardStatus where
  | locked
  | committed
  | aborted
deriving DecidableEq, Repr

structure CrossShardProof where
  txHash : Hash256
  sourceShard : Nat
  targetShard : Nat
  sourceBlockHash : Hash256
  sourceRound : Nat
  status : CrossShardStatus
  lockHash : Hash256
  inclusionProof : List UInt8
  lockedAtMs : Nat
  lockedAtRound : Nat
deriving DecidableEq, Repr

/-- `pending_cross_shard` and `completed_cross_shard`. -/
structure CrossShardLocks where
  pending : FinMap Hash256 CrossShardProof
  completed : FinMap Hash256 CrossShardProof
deriving DecidableEq

namespace CrossShardLocks

/-- `CROSS_SHARD_LOCK_TIMEOUT_MS`. -/
def lockTimeoutMs : Nat := 30000

def maxLockRounds : Nat := 100

def empty : CrossShardLocks := ⟨∅, ∅⟩

/-- What `lock_cross_shard` says of a transaction that is pending. -/
def alreadyLocked (tx : Hash256) : String := s!"tx {tx.display} already locked"

/-- `commit_cross_shard` and `abort_cross_shard`, which differ in the status they record. -/
def finish (status : CrossShardStatus) (tx : Hash256) (s : CrossShardLocks) :
    Except ConsensusError CrossShardProof × CrossShardLocks :=
  match s.pending.lookup tx with
  | none => (.error (.crossShardLockNotFound s!"tx {tx.display} not found in pending"), s)
  | some proof =>
    (.ok { proof with status },
      { pending := FinMap.set s.pending tx none
        completed := FinMap.set s.completed tx (some { proof with status }) })

def commitCrossShard :
    Hash256 → CrossShardLocks → Except ConsensusError CrossShardProof × CrossShardLocks :=
  finish .committed

def abortCrossShard :
    Hash256 → CrossShardLocks → Except ConsensusError CrossShardProof × CrossShardLocks :=
  finish .aborted

/-- Abort the given transactions; those that are not pending are skipped. -/
def abortAll (txs : List Hash256) (s : CrossShardLocks) : CrossShardLocks :=
  txs.foldl (fun s tx => (abortCrossShard tx s).2) s

/-- Both expiry functions: abort the locks held for too long, and count them. -/
def expireHeld (timeoutMs nowMs currentRound : Nat) (s : CrossShardLocks) : Nat × CrossShardLocks :=
  let expired := ((FinMap.toSortedList s.pending).filter fun e =>
    timeoutMs < nowMs - e.2.lockedAtMs ∨ maxLockRounds < currentRound - e.2.lockedAtRound).map
      Prod.fst
  (expired.length, abortAll expired s)

def expireStaleLocks (nowMs currentRound : Nat) : CrossShardLocks → Nat × CrossShardLocks :=
  expireHeld lockTimeoutMs nowMs currentRound

/-- `expire_stale_locks_with_timeout`; the product may wrap. -/
def expireStaleLocksWithTimeout (timeoutSecs nowMs currentRound : Nat) :
    CrossShardLocks → Nat × CrossShardLocks :=
  expireHeld (timeoutSecs * 1000 % 2 ^ 64) nowMs currentRound

/-- What a batch ends in; an index beyond the list of shards panics. -/
inductive BatchOutcome where
  | locked (proofs : List CrossShardProof)
  | failed (error : ConsensusError)
  | panicked

section Lock

variable [Crypto]

/-- `lock_cross_shard`, with the clock and the engine's round as it reads them. -/
def lockCrossShard (tx : Hash256) (sourceShard targetShard : Nat) (sourceBlock : Hash256)
    (sourceRound nowMs currentRound : Nat) (s : CrossShardLocks) :
    Except ConsensusError CrossShardProof × CrossShardLocks :=
  if s.pending.lookup tx ≠ none then (.error (.crossShardLockAlreadyExists (alreadyLocked tx)), s)
  else
    let proof : CrossShardProof :=
      { txHash := tx, sourceShard, targetShard, sourceBlockHash := sourceBlock, sourceRound
        status := .locked
        lockHash := hashBytes (tx.toBytes ++ leBytes 2 sourceShard ++ leBytes 2 targetShard)
        inclusionProof := tx.toBytes ++ sourceBlock.toBytes
        lockedAtMs := nowMs
        lockedAtRound := currentRound }
    (.ok proof, { s with pending := FinMap.set s.pending tx (some proof) })

/-- The loop of `atomic_cross_shard_batch`: `proofs` are the locks taken so far, `clock` is read
    once for each lock. -/
def lockBatch (clock : Nat → Nat) (currentRound : Nat) :
    List CrossShardProof → List Hash256 → List (Nat × Nat) → CrossShardLocks →
      BatchOutcome × CrossShardLocks
  | proofs, [], _, s => (.locked proofs, s)
  | _, _ :: _, [], s => (.panicked, s)
  | proofs, tx :: txs, (source, target) :: shards, s =>
    match lockCrossShard tx source target (hashBytes "batch_source".toUTF8.toList) 0
        (clock proofs.length) currentRound s with
    | (.ok proof, s) => lockBatch clock currentRound (proofs ++ [proof]) txs shards s
    | (.error _, s) =>
      (.failed (.crossShardLockFailed (s!"batch failed at tx {tx.display}: " ++
        s!"cross-shard lock already exists: {alreadyLocked tx}")),
        abortAll (proofs.map CrossShardProof.txHash) s)

def atomicCrossShardBatch (txs : List Hash256) (shards : List (Nat × Nat)) (clock : Nat → Nat)
    (currentRound : Nat) : CrossShardLocks → BatchOutcome × CrossShardLocks :=
  lockBatch clock currentRound [] txs shards

/-- A call, with the times and rounds it reads. -/
inductive Call where
  | lock (tx : Hash256) (sourceShard targetShard : Nat) (sourceBlock : Hash256)
      (sourceRound nowMs currentRound : Nat)
  | commit (tx : Hash256)
  | abort (tx : Hash256)
  | batch (txs : List Hash256) (shards : List (Nat × Nat)) (clock : Nat → Nat) (currentRound : Nat)
  | expire (nowMs currentRound : Nat)
  | expireWithTimeout (timeoutSecs nowMs currentRound : Nat)

/-- The maps after a call. -/
def step (s : CrossShardLocks) : Call → Option CrossShardLocks
  | .lock tx source target block round now current =>
    some (lockCrossShard tx source target block round now current s).2
  | .commit tx => some (commitCrossShard tx s).2
  | .abort tx => some (abortCrossShard tx s).2
  | .batch txs shards clock current => some (atomicCrossShardBatch txs shards clock current s).2
  | .expire now current => some (expireStaleLocks now current s).2
  | .expireWithTimeout secs now current => some (expireStaleLocksWithTimeout secs now current s).2

/-- The call locks no transaction that is completed. -/
def LocksFresh (s : CrossShardLocks) : Call → Prop
  | .lock tx _ _ _ _ _ _ => s.completed.lookup tx = none
  | .batch txs _ _ _ => ∀ tx ∈ txs, s.completed.lookup tx = none
  | _ => True

/-! ## Terminal states -/

/-- No transaction is both pending and completed. -/
def Apart (s : CrossShardLocks) : Prop :=
  ∀ tx, s.pending.lookup tx = none ∨ s.completed.lookup tx = none

/-- What is completed in `s` is completed in `t`, in the same way. -/
def Extends (s t : CrossShardLocks) : Prop :=
  ∀ tx proof, s.completed.lookup tx = some proof → t.completed.lookup tx = some proof

variable {s t : CrossShardLocks} {tx : Hash256}

omit [Crypto] in
/-- Finishing a lock moves it to the completed ones. -/
theorem finish_moves (status : CrossShardStatus) (h : s.Apart) :
    (finish status tx s).2.Apart ∧ s.Extends (finish status tx s).2 := by
  unfold finish
  cases hpending : s.pending.lookup tx with
  | none => exact ⟨h, fun _ _ hp => hp⟩
  | some proof =>
    have hopen : s.completed.lookup tx = none := (h tx).resolve_left (by simp [hpending])
    constructor
    · intro tx'
      by_cases heq : tx' = tx
      · exact .inl (by rw [heq, lookup_set_self])
      · rw [lookup_set_of_ne _ _ heq, lookup_set_of_ne _ _ heq]
        exact h tx'
    · intro tx' proof' hdone
      have hne : tx' ≠ tx := by
        rintro rfl
        rw [hopen] at hdone
        cases hdone
      rw [lookup_set_of_ne _ _ hne, hdone]

omit [Crypto] in
theorem abortAll_moves (txs : List Hash256) (h : s.Apart) :
    (abortAll txs s).Apart ∧ s.Extends (abortAll txs s) := by
  induction txs generalizing s with
  | nil => exact ⟨h, fun _ _ hp => hp⟩
  | cons tx txs ih =>
    have hone : (abortCrossShard tx s).2.Apart ∧ s.Extends (abortCrossShard tx s).2 :=
      finish_moves .aborted h
    obtain ⟨happart', hext'⟩ := ih hone.1
    exact ⟨happart', fun tx' proof hp => hext' tx' proof (hone.2 tx' proof hp)⟩

/-- A lock of a transaction that is not completed keeps the maps apart and completes nothing. -/
theorem lock_keeps (source target : Nat) (block : Hash256) (round now current : Nat) (h : s.Apart)
    (hfresh : s.completed.lookup tx = none) :
    (lockCrossShard tx source target block round now current s).2.Apart ∧
      (lockCrossShard tx source target block round now current s).2.completed = s.completed := by
  unfold lockCrossShard
  split
  · exact ⟨h, rfl⟩
  refine ⟨fun tx' => ?_, rfl⟩
  by_cases heq : tx' = tx
  · exact .inr (heq ▸ hfresh)
  · rw [lookup_set_of_ne _ _ heq]
    exact h tx'

variable {proofs : List CrossShardProof} {shards : List (Nat × Nat)}

theorem lockBatch_moves {clock : Nat → Nat} {current : Nat} {txs : List Hash256} (h : s.Apart)
    (hfresh : ∀ tx ∈ txs, s.completed.lookup tx = none) :
    (lockBatch clock current proofs txs shards s).2.Apart ∧
      s.Extends (lockBatch clock current proofs txs shards s).2 := by
  induction txs generalizing proofs shards s with
  | nil => exact ⟨h, fun _ _ hp => hp⟩
  | cons tx txs ih =>
    cases shards with
    | nil => exact ⟨h, fun _ _ hp => hp⟩
    | cons shard shards =>
      obtain ⟨happart, hcompleted⟩ := lock_keeps shard.1 shard.2
        (hashBytes "batch_source".toUTF8.toList) 0 (clock proofs.length) current h
        (hfresh tx List.mem_cons_self)
      rw [lockBatch]
      split
      · rename_i proof t hlock
        rw [hlock] at happart hcompleted
        have hrest : ∀ tx' ∈ txs, t.completed.lookup tx' = none := fun tx' htx' =>
          hcompleted ▸ hfresh tx' (List.mem_cons_of_mem _ htx')
        obtain ⟨happart', hext⟩ := ih happart hrest
        exact ⟨happart', fun tx' p hp => hext tx' p (hcompleted ▸ hp)⟩
      · rename_i t hlock
        rw [hlock] at happart hcompleted
        obtain ⟨happart', hext⟩ := abortAll_moves (proofs.map CrossShardProof.txHash) happart
        exact ⟨happart', fun tx' p hp => hext tx' p (hcompleted ▸ hp)⟩

/-- One call, if it locks nothing that is completed. -/
theorem step_moves {call : Call} (hfresh : s.LocksFresh call) (h : s.Apart)
    (hstep : s.step call = some t) : t.Apart ∧ s.Extends t := by
  cases call with
  | lock tx source target block round now current =>
    obtain rfl := Option.some.inj hstep
    obtain ⟨happart, hcompleted⟩ := lock_keeps source target block round now current h hfresh
    exact ⟨happart, fun tx' proof hp => hcompleted ▸ hp⟩
  | commit tx => exact Option.some.inj hstep ▸ finish_moves .committed h
  | abort tx => exact Option.some.inj hstep ▸ finish_moves .aborted h
  | batch txs shards clock current => exact Option.some.inj hstep ▸ lockBatch_moves h hfresh
  | expire | expireWithTimeout => exact Option.some.inj hstep ▸ abortAll_moves _ h

theorem run_moves {calls : List Call} (hrun : Run step LocksFresh s calls t) (h : s.Apart) :
    t.Apart ∧ s.Extends t := by
  induction hrun with
  | nil s => exact ⟨h, fun _ _ hp => hp⟩
  | cons hfresh hstep _ ih =>
    obtain ⟨happart, hext⟩ := step_moves hfresh h hstep
    obtain ⟨happart', hext'⟩ := ih happart
    exact ⟨happart', fun tx proof hp => hext' tx proof (hext tx proof hp)⟩

/-! ## Batches that fail -/

omit [Crypto] in
theorem lookup_abortAll (txs : List Hash256) (tx : Hash256) :
    (abortAll txs s).pending.lookup tx = if tx ∈ txs then none else s.pending.lookup tx := by
  induction txs generalizing s with
  | nil => rfl
  | cons tx' txs ih =>
    have hone : (abortCrossShard tx' s).2.pending.lookup tx =
        if tx = tx' then none else s.pending.lookup tx := by
      unfold abortCrossShard finish
      split
      · rename_i hpending
        by_cases heq : tx = tx'
        · rw [if_pos heq, heq, hpending]
        · rw [if_neg heq]
      · rw [lookup_set]
    rw [abortAll, List.foldl_cons, ← abortAll, ih, hone]
    by_cases htx : tx ∈ txs <;> simp [htx]

/-- The batch leaves the pending locks it found: those of its own are added, and aborted again if it
    fails. -/
theorem lockBatch_failed {clock : Nat → Nat} {current : Nat}
    {txs : List Hash256} {start : FinMap Hash256 CrossShardProof}
    (hstart : ∀ tx, start.lookup tx =
      if tx ∈ proofs.map CrossShardProof.txHash then none else s.pending.lookup tx)
    {e : ConsensusError} (hfailed : lockBatch clock current proofs txs shards s = (.failed e, t)) :
    t.pending = start := by
  induction txs generalizing proofs shards s with
  | nil => cases hfailed
  | cons tx txs ih =>
    cases shards with
    | nil => cases hfailed
    | cons shard shards =>
      rw [lockBatch] at hfailed
      split at hfailed
      · rename_i proof u hlock
        refine ih (fun tx' => ?_) hfailed
        unfold lockCrossShard at hlock
        split at hlock
        · cases hlock
        rename_i hfree
        obtain ⟨rfl, rfl⟩ := hlock
        rw [hstart tx', lookup_set]
        by_cases heq : tx' = tx
        · subst heq
          have hnone := Classical.not_not.mp hfree
          simp [hnone]
        · simp [heq]
      · rename_i u hlock
        have hsame : u = s := by
          unfold lockCrossShard at hlock
          split at hlock
          · exact (Prod.mk.inj hlock).2.symm
          · cases hlock
        obtain ⟨-, rfl⟩ := Prod.mk.inj hfailed
        refine Finmap.ext_lookup fun tx' => ?_
        rw [lookup_abortAll, hsame, hstart tx']

/-- **Terminal states are final as long as no completed transaction is locked again.**  At every
    point of such a history no transaction is pending and completed at once, what is completed
    stays completed in the same way, and a batch that fails leaves the pending locks as they were. -/
theorem terminal_states_final {calls later : List Call}
    (hrun : Run step LocksFresh empty calls s) (hlater : Run step LocksFresh s later t) :
    s.Apart ∧
      (∀ tx proof, s.completed.lookup tx = some proof → t.completed.lookup tx = some proof) ∧
      ∀ txs shards clock current e s', atomicCrossShardBatch txs shards clock current s =
        (.failed e, s') → s'.pending = s.pending := by
  have hempty : empty.Apart := fun _ => .inl rfl
  obtain ⟨happart, -⟩ := run_moves hrun hempty
  refine ⟨happart, (run_moves hlater happart).2, fun txs shards clock current e s' hfailed => ?_⟩
  exact lockBatch_failed (fun tx => by simp) hfailed

end Lock

end CrossShardLocks

namespace SampleLocks

open CrossShardLocks

def lockCall : Call :=
  .lock ⟨1⟩ 0 1 ⟨2⟩ 3 1000 4

end SampleLocks

/-- A committed transaction is locked again and is then in both maps; aborting it replaces the
    record of its commit. -/
theorem committed_then_aborted :
    letI := concreteCrypto
    (∃ s, [SampleLocks.lockCall, .commit ⟨1⟩].foldlM CrossShardLocks.step .empty = some s ∧
      (s.completed.lookup ⟨1⟩).map CrossShardProof.status = some .committed) ∧
    (∃ s, [SampleLocks.lockCall, .commit ⟨1⟩, SampleLocks.lockCall].foldlM CrossShardLocks.step
      .empty = some s ∧ ¬ s.Apart) ∧
    ∃ s, [SampleLocks.lockCall, .commit ⟨1⟩, SampleLocks.lockCall, .abort ⟨1⟩].foldlM
      CrossShardLocks.step .empty = some s ∧
        (s.completed.lookup ⟨1⟩).map CrossShardProof.status = some .aborted := by
  refine ⟨⟨_, rfl, by decide +kernel⟩, ⟨_, rfl, fun happart => ?_⟩, ⟨_, rfl, by decide +kernel⟩⟩
  exact absurd (happart ⟨1⟩) (by decide +kernel)

/-- A transaction that is locked and committed once stays committed. -/
theorem terminal_states_final_once :
    letI := concreteCrypto
    ∃ s : CrossShardLocks, s.Apart ∧
      (s.completed.lookup ⟨1⟩).map CrossShardProof.status = some .committed := by
  let _ : Crypto := concreteCrypto
  have hrun : Run CrossShardLocks.step CrossShardLocks.LocksFresh .empty
      [SampleLocks.lockCall, .commit ⟨1⟩] _ := .cons rfl rfl (.cons trivial rfl (.nil _))
  exact ⟨_, (CrossShardLocks.terminal_states_final hrun (.nil _)).1, by decide +kernel⟩

end ArcChain
