/-
The commit rule of the engine (`try_commit_limited` in
`arc-consensus/src/lib.rs`): leaders of a round, the two-round commit
certificate, and the retroactive decision of an undecided round by the
first later anchor that is certified in the local view.

`decideRound` is the body of the scan as a pure function of the engine:
the scan changes nothing that it reads.  `direct` and `retro` are the two
ways a round's block is committed, `skip` passes the round without one,
and `stop` is every `break` of the loop.
-/
import ArcChain.Lib.Worklist
import ArcChain.Consensus.Receive

namespace ArcChain

namespace ConsensusEngine

variable [Crypto]

/-- The certifiers of `child` two rounds above `round`: the authors of the held blocks
    of that round that name it. -/
def certifiersOf (e : ConsensusEngine) (child : Hash256) (round : Nat) : List Address :=
  e.authorsOf ((e.blocksInRound (round + 2)).filter fun hash =>
    match e.getBlock hash with
    | some certifier => decide (child ∈ certifier.parents)
    | none => false)

/-- A held child of `blockHash` whose distinct certifiers carry a quorum, as the loop
    over the children meets it first; the value is the certifiers' stake. -/
def twoRoundCommitSupport (e : ConsensusEngine) (blockHash : Hash256) (round : Nat)
    (validatorSet : ValidatorSet) : Option Nat :=
  (e.blocksInRound (round + 1)).findSome? fun childHash =>
    match e.getBlock childHash with
    | none => none
    | some child =>
      if blockHash ∈ child.parents then
        let supportingStake := (validatorSet.tally (e.certifiersOf childHash round)).2
        if supportingStake ≥ validatorSet.quorum then some supportingStake else none
      else none

/-- The parents that the history walk takes from a block: none from a block that is not
    held or lies below the floor. -/
def historyStep (e : ConsensusEngine) (floorRound : Nat) (hash : Hash256) : List Hash256 :=
  match e.getBlock hash with
  | none => []
  | some block => if block.round < floorRound then [] else block.parents

/-- An upper bound on the hashes the walk can push: every parent of every held block. -/
def historyFuel (e : ConsensusEngine) : Nat :=
  ((AssocMap.values e.dag).flatMap (·.parents)).length + 1

def causalHistoryContains (e : ConsensusEngine) (start target : Hash256) (floorRound : Nat) :
    Bool :=
  decide (start = target) ||
    Worklist.search (e.historyStep floorRound) target e.historyFuel [start] [start]

/-! ## Leaders and anchors -/

/-- The frozen validators' addresses in canonical order. -/
def frozenLeaders (e : ConsensusEngine) : List Address :=
  DagBlock.sortHashes (e.frozenValidatorSet.validators.map (·.address))

/-- The round's leader: the frozen addresses in turn. -/
def leaderOf (e : ConsensusEngine) (round : Nat) : Option Address :=
  e.frozenLeaders[round % max e.frozenLeaders.length 1]?

/-- The held blocks of the round's leader, sorted. -/
def anchorsOf (e : ConsensusEngine) (round : Nat) : List Hash256 :=
  match e.leaderOf round with
  | none => []
  | some leader =>
    (DagBlock.sortHashes ((e.blocksInRound round).filter fun hash =>
      match e.getBlock hash with
      | some block => decide (block.author = leader)
      | none => false)).dedup

/-- The anchors of a round that hold a two-round certificate in this view. -/
def certifiedAnchors (e : ConsensusEngine) (round : Nat) : List Hash256 :=
  (e.anchorsOf round).filter fun hash =>
    (e.twoRoundCommitSupport hash round e.frozenValidatorSet).isSome

/-- The first certified anchor of the given rounds.  An ambiguous round before it (two
    certified anchors, or inside a recovery domain two anchors at all) decides nothing,
    like no certified anchor at all. -/
def findDecider (e : ConsensusEngine) : List Nat → Option (Nat × Hash256)
  | [] => none
  | round :: rest =>
    if e.consensusDomain.isSome ∧ (e.anchorsOf round).length > 1 then none
    else
      match e.certifiedAnchors round with
      | [] => e.findDecider rest
      | [hash] => some (round, hash)
      | _ :: _ :: _ => none

inductive RoundDecision where
  | direct (hash : Hash256)
  | retro (hash : Hash256)
  | skip
  | stop
deriving DecidableEq, Repr

/-- What the retroactive rule reads from the decider's causal history. -/
def decideFrom (e : ConsensusEngine) (round : Nat) (decider : Hash256) : RoundDecision :=
  match (e.anchorsOf round).filter fun hash => e.causalHistoryContains decider hash round with
  | [] => .skip
  | [hash] => .retro hash
  | _ :: _ :: _ => .stop

/-- The decision of one round of the scan that ends at `scanEnd`. -/
def decideRound (e : ConsensusEngine) (scanEnd round : Nat) : RoundDecision :=
  if e.frozenLeaders = [] then .stop
  else if e.consensusDomain.isSome ∧ (e.anchorsOf round).length > 1 then .stop
  else
    match e.certifiedAnchors round with
    | [hash] => .direct hash
    | _ :: _ :: _ => .stop
    | [] =>
      match e.findDecider (List.range' (round + 3) (scanEnd + 1 - (round + 3))) with
      | none => .stop
      | some decider => e.decideFrom round decider.2

/-! ## The scan -/

/-- A decided block joins the output unless it was committed before or is not held. -/
def pushCommitted (e : ConsensusEngine) (newly : List DagBlock) (hash : Hash256) :
    List DagBlock :=
  if hash ∈ e.committed then newly
  else
    match e.getBlock hash with
    | some block => newly ++ [block]
    | none => newly

/-- The loop of `try_commit_limited` from `round`, with the blocks committed so far; it
    returns them and the round the cursor stops at.  `none` is the limit `usize::MAX`,
    which no scan reaches. -/
def scanRounds (e : ConsensusEngine) (maximumBlocks : Option Nat) (scanEnd : Nat) :
    Nat → Nat → List DagBlock → List DagBlock × Nat
  | 0, round, newly => (newly, round)
  | fuel + 1, round, newly =>
    if round ≤ scanEnd ∧ maximumBlocks.all (fun limit => newly.length < limit) then
      match e.decideRound scanEnd round with
      | .stop => (newly, round)
      | .skip => e.scanRounds maximumBlocks scanEnd fuel (round + 1) newly
      | .direct hash | .retro hash =>
        e.scanRounds maximumBlocks scanEnd fuel (round + 1) (e.pushCommitted newly hash)
    else (newly, round)

/-- `committed.push` for the hashes that are not there yet. -/
def appendCommitted (committed : List Hash256) (newly : List DagBlock) : List Hash256 :=
  newly.foldl (fun acc block => if block.hash ∈ acc then acc else acc ++ [block.hash]) committed

/-- The slashes of the periodic withholding check. -/
def slashWithholders (e : ConsensusEngine) (maxRound : Nat) : Option ConsensusEngine :=
  (e.withholdingDetector.detectWithholding 100).foldlM
    (fun e validator =>
      (e.validatorSet.punish validator .livenessFault (hashBytes validator.toBytes) maxRound
        0).map fun r => { e with validatorSet := r.2 })
    e

/-- The maintenance after a commit: withholding slashes every 100 rounds, then both
    pruning routines. -/
def maintainAfterCommit (e : ConsensusEngine) (maxRound : Nat) : Option ConsensusEngine :=
  (if maxRound % 100 = 0 then e.slashWithholders maxRound else some e).map fun e =>
    (e.pruneOldRounds.pruneBelowRound maxRound).2

/-- `try_commit_limited`.  `none` is the panic of a failed slash. -/
def tryCommitLimited (e : ConsensusEngine) (maximumBlocks : Option Nat)
    (maintainLiveState : Bool) : Option (List DagBlock × ConsensusEngine) :=
  if e.frozenValidatorSet.epoch = 0 then some ([], e)
  else if e.currentRound < 2 then some ([], e)
  else
    let scanEnd := e.currentRound - 2
    let fuel := scanEnd + 1 - e.lastCommittedRound
    let scan := e.scanRounds maximumBlocks scanEnd fuel e.lastCommittedRound []
    let e := { e with
      lastCommittedRound := scan.2
      committed := appendCommitted e.committed scan.1 }
    if maintainLiveState = false then some (scan.1, e)
    else
      match (scan.1.map (·.round)).max? with
      | none => some (scan.1, e)
      | some maxRound => (e.maintainAfterCommit maxRound).map fun e => (scan.1, e)

def tryCommit (e : ConsensusEngine) : Option (List DagBlock × ConsensusEngine) :=
  e.tryCommitLimited none true

/-- `restore_next_recovery_commit_from_local_wal`: one decision, with no maintenance,
    while a local generation is replayed. -/
def restoreNextRecoveryCommit (e : ConsensusEngine) :
    Option (Except ConsensusError DagBlock × ConsensusEngine) :=
  if e.consensusDomain.isNone ∨ e.localRecoveryReplayActive = false then
    some (.error (.invalidBlock
      "recovery commit replay requires an active bound local generation"), e)
  else
    (e.tryCommitLimited (some 1) false).map fun r =>
      match r.1 with
      | block :: _ => (.ok block, r.2)
      | [] =>
        (.error (.invalidBlock "recovery DAG has no certified next canonical decision"), r.2)

end ConsensusEngine

end ArcChain
