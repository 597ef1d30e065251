/-
The state of the DAG consensus engine (`ConsensusEngine` in
`arc-consensus/src/lib.rs`), its constructors, the installation of a
recovery domain and cursor, restart and rebase, round participation and
pruning.

Rounds are natural numbers; the source's 64-bit cursors reach 2^64 on no
run, and the checked additions that guard them are kept where they exist.
Concurrent maps are finite maps, and a lock-protected field is a field:
each public method is one atomic step.  Timers, metrics, cross-shard
locks, data-availability commitments and the double-vote log are written
and never read by the functions modelled here, and are left out.
-/
import ArcChain.Consensus.ViewChange

namespace ArcChain

open Word List

/-- The floor of DAG retention. -/
def pruneDepth : Nat := 100

def defaultRetainedRounds : Nat := 4096

def defaultRetainedFinalityHeights : Nat := 8192

def finalityPruneEvery : Nat := 256

def securityHistoryDepth : Nat := 10 * pruneDepth

/-! ## The withholding detector -/

/-- The (validator, round) pairs for which a block was expected,
    and those for which one was received. -/
structure WithholdingDetector where
  expected : List (Address × Nat)
  received : List (Address × Nat)

namespace WithholdingDetector

variable {d : WithholdingDetector}

def new : WithholdingDetector := ⟨[], []⟩

def reportExpected (d : WithholdingDetector) (validator : Address) (round : Nat) :
    WithholdingDetector :=
  { d with expected := d.expected.insert (validator, round) }

def reportReceived (d : WithholdingDetector) (validator : Address) (round : Nat) :
    WithholdingDetector :=
  { d with received := d.received.insert (validator, round) }

/-- The validators that missed more than half of the blocks
    expected of them within the window. -/
def detectWithholding (d : WithholdingDetector) (window : Nat) : List Address :=
  let maxRound := (d.expected.map (·.2)).foldl max 0
  let windowStart := maxRound - window
  (d.expected.map (·.1)).dedup.filter fun validator =>
    let expectedInWindow := d.expected.filter fun p =>
      p.1 = validator ∧ windowStart < p.2 ∧ p.2 ≤ maxRound
    let missing := expectedInWindow.filter fun p => p ∉ d.received
    0 < expectedInWindow.length ∧ expectedInWindow.length < 2 * missing.length

def prune (d : WithholdingDetector) (beforeRound : Nat) : WithholdingDetector where
  expected := d.expected.filter fun p => p.2 ≥ beforeRound
  received := d.received.filter fun p => p.2 ≥ beforeRound

/-- What the engine maintains: it only expects what it also records as received. -/
def Met (d : WithholdingDetector) : Prop := ∀ p ∈ d.expected, p ∈ d.received

/-- A detector whose expectations are all met reports nobody. -/
theorem Met.detectWithholding (h : d.Met) (window : Nat) : d.detectWithholding window = [] := by
  rw [WithholdingDetector.detectWithholding, filter_eq_nil_iff]
  intro v _
  have hmissing : ∀ l : List (Address × Nat), (∀ p ∈ l, p ∈ d.expected) →
      l.filter (fun p => p ∉ d.received) = [] := by
    intro l hl
    rw [filter_eq_nil_iff]
    intro p hp
    simpa using h p (hl p hp)
  dsimp only
  rw [hmissing _ fun p hp => (mem_filter.mp hp).1]
  simp

theorem met_new : new.Met := nofun

theorem Met.prune (h : d.Met) (round : Nat) : (d.prune round).Met := by
  intro p hp
  obtain ⟨hmem, hround⟩ := mem_filter.mp hp
  exact mem_filter.mpr ⟨h p hmem, hround⟩

theorem Met.reportReceived (h : d.Met) (v : Address) (round : Nat) :
    (d.reportReceived v round).Met := by
  intro p hp
  exact mem_insert_of_mem (h p hp)

theorem Met.reportBoth (h : d.Met) (v : Address) (round : Nat) :
    ((d.reportExpected v round).reportReceived v round).Met := by
  intro p hp
  rcases mem_insert_iff.mp hp with rfl | hp
  · exact mem_insert_self
  · exact mem_insert_of_mem (h p hp)

end WithholdingDetector

/-! ## The engine -/

structure ConsensusEngine [Crypto] where
  dag : AssocMap Hash256 DagBlock
  rounds : AssocMap Nat (List Hash256)
  committed : List Hash256
  lastCommittedRound : Nat
  currentRound : Nat
  validatorSet : ValidatorSet
  frozenValidatorSet : ValidatorSet
  pendingValidators : List Validator
  localAddress : Address
  localKeypair : Option Crypto.KeyPair
  validatorKeys : AssocMap Address (List UInt8)
  authorRoundBlocks : AssocMap (Address × Nat) Hash256
  withholdingDetector : WithholdingDetector
  consensusDomain : Option ConsensusDomain
  certificateDomain : Option ConsensusDomain
  skipCertificates : AssocMap (Nat × Address) SkipCertificate
  finalityCertificates : AssocMap Nat FinalityCertificate
  highestFinalizedHeight : Nat
  retainedFinalityHeights : Nat
  retainedRounds : Nat
  recoveryBootstrapRound : Option Nat
  restartBaseRound : Option Nat
  proposalFloor : Nat
  localRecoveryBoundaryRound : Option Nat
  localRecoveryReplayActive : Bool

namespace ConsensusEngine

variable [Crypto]

/-- `ConsensusEngine::new` and `new_with_keypair`: the key is the only difference. -/
def new (validatorSet : ValidatorSet) (localAddress : Address)
    (localKeypair : Option Crypto.KeyPair) : ConsensusEngine where
  dag := ∅
  rounds := ∅
  committed := []
  lastCommittedRound := 0
  currentRound := 0
  validatorSet := validatorSet
  frozenValidatorSet := validatorSet
  pendingValidators := []
  localAddress := localAddress
  localKeypair := localKeypair
  validatorKeys := ∅
  authorRoundBlocks := ∅
  withholdingDetector := .new
  consensusDomain := none
  certificateDomain := none
  skipCertificates := ∅
  finalityCertificates := ∅
  highestFinalizedHeight := 0
  retainedFinalityHeights := defaultRetainedFinalityHeights
  retainedRounds := defaultRetainedRounds
  recoveryBootstrapRound := none
  restartBaseRound := none
  proposalFloor := 0
  localRecoveryBoundaryRound := none
  localRecoveryReplayActive := false

def registerValidatorKey (e : ConsensusEngine) (address : Address)
    (ed25519Pubkey : List UInt8) : ConsensusEngine :=
  { e with validatorKeys := e.validatorKeys.insert address ed25519Pubkey }

/-- Clamped up to `PRUNE_DEPTH`. -/
def setRetainedRounds (e : ConsensusEngine) (rounds : Nat) : ConsensusEngine :=
  { e with retainedRounds := max rounds pruneDepth }

def getBlock (e : ConsensusEngine) (hash : Hash256) : Option DagBlock := e.dag.lookup hash

def blocksInRound (e : ConsensusEngine) (round : Nat) : List Hash256 :=
  (e.rounds.lookup round).getD []

def insertBlockIntoDag (e : ConsensusEngine) (block : DagBlock) : ConsensusEngine :=
  { e with
    dag := e.dag.insert block.hash block
    rounds := e.rounds.insert block.round (e.blocksInRound block.round ++ [block.hash]) }

/-! ## Recovery domain, restart and rebase -/

def installCertificateDomain (e : ConsensusEngine) (domain : ConsensusDomain) :
    Except ConsensusError Unit × ConsensusEngine :=
  match e.certificateDomain with
  | some existing =>
    if existing = domain then (.ok (), e)
    else
      (.error (.invalidBlock "certificate domain is already bound to another chain/epoch"), e)
  | none => (.ok (), { e with certificateDomain := some domain })

/-- The engine holds no DAG and has moved no cursor. -/
def isUntouched (e : ConsensusEngine) : Bool :=
  e.dag.entries.isEmpty && e.currentRound == 0 && e.lastCommittedRound == 0

def installConsensusDomain (e : ConsensusEngine) (domain : ConsensusDomain) :
    Except ConsensusError Unit × ConsensusEngine :=
  match e.consensusDomain with
  | some existing =>
    if existing = domain then e.installCertificateDomain domain
    else
      (.error (.invalidBlock "consensus recovery domain is already bound to another epoch/set"),
        e)
  | none =>
    if e.isUntouched = false then
      (.error (.invalidBlock
        "consensus recovery domain must be installed before DAG/cursor recovery"), e)
    else
      match e.installCertificateDomain domain with
      | (.error err, e) => (.error err, e)
      | (.ok (), e) => (.ok (), { e with consensusDomain := some domain })

/-- The round after the certified source round starts the
    recovered DAG without parents. -/
def installRecoveryCursor (e : ConsensusEngine) (sourceConsensusRound : Nat) :
    Except ConsensusError Nat × ConsensusEngine :=
  if e.consensusDomain.isNone then
    (.error (.invalidBlock "recovery cursor requires an installed consensus domain"), e)
  else
    match checkedAdd sourceConsensusRound 1 with
    | none => (.error (.invalidBlock "recovery source consensus round overflows u64"), e)
    | some bootstrapRound =>
      match e.recoveryBootstrapRound with
      | some existing =>
        if existing = bootstrapRound ∧ e.currentRound = bootstrapRound ∧
            e.lastCommittedRound = bootstrapRound then
          (.ok bootstrapRound, e)
        else
          (.error (.invalidBlock "recovery cursor is already bound to another position"), e)
      | none =>
        if e.isUntouched = false then
          (.error (.invalidBlock
            "recovery cursor must be installed before DAG/local-WAL recovery"), e)
        else
          (.ok bootstrapRound,
            { e with
              currentRound := bootstrapRound
              lastCommittedRound := bootstrapRound
              recoveryBootstrapRound := some bootstrapRound })

/-- Replay of a pinned local generation starts at
    its retained floor. -/
def installRecoveryGenerationCursor (e : ConsensusEngine)
    (retentionFloorRound currentRound nextCommitRound : Nat) :
    Except ConsensusError Unit × ConsensusEngine :=
  match e.recoveryBootstrapRound with
  | none =>
    (.error (.invalidBlock "local recovery generation requires the signed bootstrap cursor"), e)
  | some bootstrap =>
    if e.consensusDomain.isNone ∨ e.dag.entries ≠ [] ∨ e.localRecoveryReplayActive ∨
        e.localRecoveryBoundaryRound.isSome then
      (.error (.invalidBlock
        "local recovery generation must be installed once on an empty domain-bound engine"), e)
    else if e.currentRound ≠ bootstrap ∨ e.lastCommittedRound ≠ bootstrap ∨
        retentionFloorRound < bootstrap ∨ retentionFloorRound > nextCommitRound ∨
        nextCommitRound > currentRound ∨ currentRound - retentionFloorRound > 4096 then
      (.error (.invalidBlock
        "local recovery generation cursors are inconsistent or outside the bounded window"), e)
    else
      (.ok (),
        { e with
          localRecoveryBoundaryRound := some retentionFloorRound
          currentRound := currentRound
          lastCommittedRound := nextCommitRound
          localRecoveryReplayActive := true })

def finishRecoveryGenerationReplay (e : ConsensusEngine) :
    Except ConsensusError Unit × ConsensusEngine :=
  if e.localRecoveryReplayActive then (.ok (), { e with localRecoveryReplayActive := false })
  else (.error (.invalidBlock "local recovery generation replay is not active"), e)

def isRecoveryBootstrapRound (e : ConsensusEngine) (round : Nat) : Bool :=
  e.recoveryBootstrapRound == some round

/-- The one round admitted without its parents, open until the
    commit cursor is past it. -/
def isRestartBaseRound (e : ConsensusEngine) (round : Nat) : Bool :=
  e.restartBaseRound == some round &&
    decide (e.lastCommittedRound ≤ saturatingAdd round 1)

/-- `restart_base_round()`: the restart base round while it is open. -/
def openRestartBaseRound (e : ConsensusEngine) : Option Nat :=
  match e.restartBaseRound with
  | some base => if e.isRestartBaseRound base then some base else none
  | none => none

def setRestartBaseRound (e : ConsensusEngine) (round : Nat) :
    Except ConsensusError Unit × ConsensusEngine :=
  if round = 0 ∨ e.dag.entries ≠ [] ∨ e.recoveryBootstrapRound.isSome ∨
      round ≠ e.lastCommittedRound then
    (.error (.invalidBlock
      "a restart base round needs an empty DAG and must be this node's own commit cursor"), e)
  else (.ok (), { e with restartBaseRound := some round })

def closeRestartBaseRound (e : ConsensusEngine) : ConsensusEngine :=
  { e with restartBaseRound := none }

/-- The cursor that a rebase to `anchorRound` would set. -/
def checkRebase (e : ConsensusEngine) (anchorRound : Nat) : Except ConsensusError Nat :=
  match checkedAdd anchorRound 1 with
  | none => .error (.invalidBlock "checkpoint anchor round overflows")
  | some cursor =>
    if e.recoveryBootstrapRound.isSome then
      .error (.invalidBlock
        "a recovery-domain engine is repositioned by its signed recovery path")
    else if cursor ≤ e.lastCommittedRound then
      .error (.invalidBlock "a checkpoint must move the commit cursor forward")
    else .ok cursor

/-- The state change of `rebase_to` once `check_rebase` has given the cursor. -/
def rebaseAt (e : ConsensusEngine) (cursor : Nat) : ConsensusEngine :=
  { e with
    dag := ∅
    rounds := ∅
    committed := []
    authorRoundBlocks := ∅
    proposalFloor := max e.proposalFloor e.currentRound
    currentRound := max e.currentRound cursor
    lastCommittedRound := cursor
    restartBaseRound := some cursor }

/-- Move to the DAG position of an adopted checkpoint. -/
def rebaseTo (e : ConsensusEngine) (anchorRound : Nat) :
    Except ConsensusError Nat × ConsensusEngine :=
  match e.checkRebase anchorRound with
  | .error err => (.error err, e)
  | .ok cursor => (.ok cursor, e.rebaseAt cursor)

/-- Inconsistent cursors are ignored; the proposal floor
    rises to the restored round whether or not the cursors move. -/
def restoreRoundFromLocalWal (e : ConsensusEngine) (round committed : Nat) : ConsensusEngine :=
  if committed > round then e
  else
    let e := { e with proposalFloor := max e.proposalFloor round }
    if round > e.currentRound then
      { e with currentRound := round, lastCommittedRound := committed }
    else e

/-! ## Participation and round advance -/

def requiresFullRoundParticipation (e : ConsensusEngine) : Bool := e.consensusDomain.isSome

def isExcusedForRound (e : ConsensusEngine) (round : Nat) (address : Address) : Bool :=
  (e.skipCertificates.lookup (round, address)).isSome

def roundParticipationSatisfiesQuorum (e : ConsensusEngine) (validatorSet : ValidatorSet)
    (round : Nat) (authors : List Address) (stake : Nat) : Bool :=
  decide (stake ≥ validatorSet.quorum) &&
    (!e.requiresFullRoundParticipation ||
      (validatorSet.validators.filter fun v => v.stake > 0).all fun v =>
        decide (v.address ∈ authors) || e.isExcusedForRound round v.address)

/-- The authors of the held blocks among `hashes`, in order. -/
def authorsOf (e : ConsensusEngine) (hashes : List Hash256) : List Address :=
  hashes.filterMap fun hash => (e.getBlock hash).map (·.author)

def hasQuorumParentsForRound (e : ConsensusEngine) (round : Nat) : Bool :=
  let counted := e.validatorSet.tallyAuthors (e.authorsOf (e.blocksInRound round))
  e.roundParticipationSatisfiesQuorum e.validatorSet round counted.1 counted.2

/-- Whether the round was advanced. -/
def advanceRound (e : ConsensusEngine) : Bool × ConsensusEngine :=
  if e.hasQuorumParentsForRound e.currentRound then
    match checkedAdd e.currentRound 1 with
    | none => (false, e)
    | some newRound => (true, { e with currentRound := newRound })
  else (false, e)

def forceAdvanceRound (e : ConsensusEngine) : ConsensusEngine :=
  match checkedAdd e.currentRound 1 with
  | none => e
  | some newRound => { e with currentRound := newRound }

/-! ## Pruning -/

/-- The round index entries that a prune below `below` takes. -/
def roundsToPrune (e : ConsensusEngine) (below : Nat) : List Nat :=
  e.rounds.keys.filter (· < below)

/-- The hashes listed under those rounds. -/
def hashesToPrune (e : ConsensusEngine) (below : Nat) : List Hash256 :=
  (e.roundsToPrune below).flatMap e.blocksInRound

/-- What both pruning routines do below their cutoff: drop the indexed rounds, the
    blocks listed under them and their author entries; committed hashes follow the DAG
    if any block went. -/
def pruneRounds (e : ConsensusEngine) (below : Nat) : ConsensusEngine :=
  let gone := e.roundsToPrune below
  let hashes := e.hashesToPrune below
  let dag := AssocMap.retain (fun hash _ => decide (hash ∉ hashes)) e.dag
  { e with
    dag
    rounds := AssocMap.retain (fun round _ => decide (round ∉ gone)) e.rounds
    authorRoundBlocks := AssocMap.retain (fun key _ => decide (key.2 ∉ gone)) e.authorRoundBlocks
    committed :=
      if hashes.length > 0 then e.committed.filter fun hash => (dag.lookup hash).isSome
      else e.committed }

/-- The cutoff of `prune_old_rounds`, never above the commit cursor. -/
def oldRoundsCutoff (e : ConsensusEngine) : Nat :=
  if e.currentRound ≤ e.retainedRounds then 0
  else min (e.currentRound - e.retainedRounds) e.lastCommittedRound

def pruneOldRounds (e : ConsensusEngine) : ConsensusEngine :=
  if e.currentRound ≤ e.retainedRounds then e else e.pruneRounds e.oldRoundsCutoff

/-- The caller names the committed round; skip certificates age
    out on the same horizon.  Returns the number of blocks pruned. -/
def pruneBelowRound (e : ConsensusEngine) (committedRound : Nat) : Nat × ConsensusEngine :=
  if committedRound < e.retainedRounds then (0, e)
  else
    let cutoff := committedRound - e.retainedRounds
    ((e.hashesToPrune cutoff).length,
      { e.pruneRounds cutoff with
        skipCertificates := AssocMap.retain (fun key _ => decide (key.1 ≥ cutoff))
          e.skipCertificates })

def pruneSecurityHistory (e : ConsensusEngine) (round : Nat) : ConsensusEngine :=
  if round % pruneDepth ≠ 0 then e
  else
    match checkedSub round securityHistoryDepth with
    | none => e
    | some beforeRound =>
      { e with withholdingDetector := e.withholdingDetector.prune beforeRound }

end ConsensusEngine

end ArcChain
