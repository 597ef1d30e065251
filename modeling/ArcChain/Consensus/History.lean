/-
Importing history from a peer (`import_history_with_persistence` in
`arc-consensus/src/lib.rs`): the batch is grouped by round, cut to what
may be applied, and then applied block by block through the ordinary
validation, advancing one round at a time.

`planImport` is everything before the first block is received; it reads
the engine and changes nothing.  The persistence hook may answer
differently at every call: it is given the blocks it was offered before.
-/
import ArcChain.Consensus.Receive

namespace ArcChain

open Word

namespace ConsensusEngine

variable [Crypto]

/-- `by_round`: the blocks grouped by round, in ascending order of rounds. -/
def groupByRound (blocks : List DagBlock) : List (Nat × List DagBlock) :=
  ((blocks.map (·.round)).dedup.insertionSort (· ≤ ·)).map fun round =>
    (round, blocks.filter fun b => b.round = round)

/-- `by_round.get(&round)`. -/
def roundBlocks (byRound : List (Nat × List DagBlock)) (round : Nat) :
    Option (List DagBlock) :=
  (byRound.find? fun group => group.1 = round).map (·.2)

/-- The stake a base-round block must have behind it: one honest validator's worth. -/
def oneHonest (validatorSet : ValidatorSet) : Nat :=
  saturatingAdd (validatorSet.totalStake - validatorSet.quorum) 1

/-- The base-round blocks that authentic next-round blocks of the batch support. -/
def supportedBase (e : ConsensusEngine) (byRound : List (Nat × List DagBlock)) (base : Nat)
    (baseBlocks : List DagBlock) : List DagBlock :=
  let next := ((roundBlocks byRound (saturatingAdd base 1)).getD []).filter
    e.isAuthenticCommitteeBlock
  baseBlocks.filter fun candidate =>
    let naming := next.filter fun b => candidate.hash ∈ b.parents
    (e.validatorSet.tallyAuthors (naming.map (·.author))).2 ≥ oneHonest e.validatorSet

/-- The batch cut at the open restart base round, with only the supported blocks left
    at that round. -/
def cutAtBase (e : ConsensusEngine) (byRound : List (Nat × List DagBlock)) :
    Except ConsensusError (List (Nat × List DagBlock)) :=
  match e.openRestartBaseRound with
  | none => .ok byRound
  | some base =>
    let kept := byRound.filter fun group => group.1 ≥ base
    if kept = [] then
      .error (.invalidBlock "history is entirely below this node's commit cursor")
    else
      match roundBlocks kept base with
      | none => .ok kept
      | some baseBlocks =>
        match e.supportedBase kept base baseBlocks with
        | [] =>
          .error (.invalidBlock
            "history names no base-round block its next round supports")
        | supported =>
          .ok (kept.map fun group => if group.1 = base then (base, supported) else group)

/-- A round that may be stepped over: quorum stake of distinct authors, or every
    positive-stake member present or excused. -/
def thinRound (e : ConsensusEngine) (group : Nat × List DagBlock) : Bool :=
  let counted := e.validatorSet.tally (group.2.map (·.author))
  let excused := (e.validatorSet.validators.filter fun v => v.stake > 0).all fun v =>
    decide (v.address ∈ counted.1) || e.isExcusedForRound group.1 v.address
  decide (counted.2 < e.validatorSet.quorum) && !excused

/-- Everything `import_history` decides before it receives a block: the groups to
    apply, in order. -/
def planImport (e : ConsensusEngine) (blocks : List DagBlock) (maxRounds : Nat) :
    Except ConsensusError (List (Nat × List DagBlock)) :=
  if blocks = [] then .error (.invalidBlock "empty history")
  else
    match e.cutAtBase (groupByRound blocks) with
    | .error err => .error err
    | .ok byRound =>
      let start := e.currentRound
      let first := (byRound.map (·.1)).headD 0
      let last := (byRound.map (·.1)).getLastD 0
      if first > start then
        .error (.invalidBlock
          s!"history starts at round {first} but this node is waiting at {start}")
      else if last - start > maxRounds then
        .error (.invalidBlock
          s!"history spans {last - first} rounds, above the {maxRounds} bound")
      else
        match (List.range' first (last + 1 - first)).find? fun round =>
            (roundBlocks byRound round).isNone with
        | some gap => .error (.invalidBlock s!"history has a gap at round {gap}")
        | none =>
          let whole := byRound.takeWhile fun group => !e.thinRound group
          match whole, byRound with
          | [], group :: _ =>
            let stake := (e.validatorSet.tally (group.2.map (·.author))).2
            .error (.invalidBlock
              s!"history round {group.1} carries {stake} stake, below quorum {e.validatorSet.quorum}")
          | _, _ => .ok whole

/-- The state of the import loop. -/
structure ImportState where
  engine : ConsensusEngine
  reached : Nat
  inserted : Nat
  offered : List DagBlock

/-- How a block or a round of the import ends: go on, `break 'rounds`, or `return Err`. -/
inductive ImportFlow where
  | next
  | halt
  | fail (err : ConsensusError)

/-- One block of the import loop. -/
def importBlock (s : ImportState) (block : DagBlock) (baseException : Bool)
    (persist : List DagBlock → DagBlock → Except ConsensusError Unit) :
    Option (ImportFlow × ImportState) :=
  (s.engine.receiveBlockInner block baseException (persist s.offered)).map fun r =>
    let s := { s with engine := r.2, offered := s.offered ++ [block] }
    match r.1 with
    | .ok () => (.next, { s with inserted := s.inserted + 1 })
    | .error .duplicateBlock => (.next, s)
    | .error (.historyPersistence why) => (.fail (.historyPersistence why), s)
    | .error _ => (.halt, s)

/-- The blocks of one round. -/
def importBlocks (baseException : Bool)
    (persist : List DagBlock → DagBlock → Except ConsensusError Unit) :
    List DagBlock → ImportState → Option (ImportFlow × ImportState)
  | [], s => some (.next, s)
  | block :: rest, s =>
    match importBlock s block baseException persist with
    | none => none
    | some (.next, s) => importBlocks baseException persist rest s
    | some (flow, s) => some (flow, s)

/-- The attempt to advance after a round of the import. -/
def importAdvance (s : ImportState) (round : Nat) : ImportState :=
  if round ≥ s.reached then
    match s.engine.advanceRound with
    | (true, e) => { s with engine := e, reached := e.currentRound }
    | (false, e) => { s with engine := e }
  else s

/-- The rounds of the import, in ascending order. -/
def importRounds (base : Option Nat)
    (persist : List DagBlock → DagBlock → Except ConsensusError Unit) :
    List (Nat × List DagBlock) → ImportState → Option (ImportFlow × ImportState)
  | [], s => some (.next, s)
  | (round, blocks) :: rest, s =>
    match importBlocks (base == some round) persist blocks s with
    | none => none
    | some (.next, s) => importRounds base persist rest (importAdvance s round)
    | some (flow, s) => some (flow, s)

/-- `import_history_with_persistence`. -/
def importHistory (e : ConsensusEngine) (blocks : List DagBlock) (maxRounds : Nat)
    (persist : List DagBlock → DagBlock → Except ConsensusError Unit) :
    Option (Except ConsensusError Nat × ConsensusEngine) :=
  match e.planImport blocks maxRounds with
  | .error err => some (.error err, e)
  | .ok byRound =>
    (importRounds e.openRestartBaseRound persist byRound ⟨e, e.currentRound, 0, []⟩).map
      fun r =>
        match r.1 with
        | .fail err => (.error err, r.2.engine)
        | _ =>
          if r.2.inserted = 0 ∧ r.2.reached = e.currentRound then
            (.error (.invalidBlock "history added nothing this node did not already have"),
              r.2.engine)
          else (.ok r.2.reached, r.2.engine)

end ConsensusEngine

end ArcChain
