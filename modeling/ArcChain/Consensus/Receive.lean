/-
Proposing and receiving DAG blocks (`propose_block` and
`receive_block_inner_with_persistence` in `arc-consensus/src/lib.rs`).

Both are split as the source orders them: first the checks, which read
the engine and may fail without changing it, then the state change.  A
received block that makes its author an equivocator is inserted like any
other; outside a recovery domain the author is slashed on the way.
-/
import ArcChain.Consensus.Engine

namespace ArcChain

open Word

namespace ConsensusEngine

variable [Crypto]

/-! ## Proposing -/

/-- The parents selected so far, their authors, and the authors' stake. -/
structure ParentChoice where
  parents : List Hash256
  authors : List Address
  stake : Nat

/-- One turn of the parent selection: a held block of a member that was not selected
    before.  Distinct members' stake fits the checked total, so the `expect` on the sum
    never fires. -/
def selectParent (e : ConsensusEngine) (acc : ParentChoice) (hash : Hash256) : ParentChoice :=
  match e.getBlock hash with
  | none => acc
  | some block =>
    match e.validatorSet.getValidator block.author with
    | none => acc
    | some validator =>
      if block.author ∈ acc.authors then acc
      else ⟨acc.parents ++ [hash], block.author :: acc.authors, acc.stake + validator.stake⟩

def selectParents (e : ConsensusEngine) (hashes : List Hash256) : ParentChoice :=
  hashes.foldl e.selectParent ⟨[], [], 0⟩

/-- The parents of a proposal for `round`. -/
def proposalParents (e : ConsensusEngine) (round : Nat) :
    Except ConsensusError (List Hash256) :=
  if round = 0 ∨ e.isRecoveryBootstrapRound round then .ok []
  else
    let prevRound := round - 1
    let choice := e.selectParents (DagBlock.sortHashes (e.blocksInRound prevRound))
    if e.roundParticipationSatisfiesQuorum e.validatorSet prevRound choice.authors
        choice.stake then
      .ok choice.parents
    else .error .insufficientParents

/-- The block for the current round over the given parents, hashed and unsigned. -/
def unsignedProposal (e : ConsensusEngine) (parents transactions : List Hash256)
    (timestamp : Nat) : DagBlock :=
  let transactions := DagBlock.sortHashes transactions
  let block : DagBlock :=
    { author := e.localAddress
      round := e.currentRound
      parents
      transactions
      timestamp
      hash := Hash256.zero
      signature := []
      orderingCommitment := DagBlock.computeOrderingCommitment transactions }
  { block with hash := block.hashFor e.consensusDomain }

/-- The checks of `propose_block`, and the signed block they allow. -/
def proposal (e : ConsensusEngine) (transactions : List Hash256) (timestamp : Nat) :
    Except ConsensusError DagBlock :=
  if e.validatorSet.canProduceBlocks e.localAddress = false then .error .notValidator
  else if (e.authorRoundBlocks.lookup (e.localAddress, e.currentRound)).isSome then
    .error .duplicateBlock
  else if e.proposalFloor > 0 ∧ e.currentRound ≤ e.proposalFloor then .error .duplicateBlock
  else
    match e.proposalParents e.currentRound with
    | .error err => .error err
    | .ok parents =>
      let block := e.unsignedProposal parents transactions timestamp
      match e.localKeypair with
      | none => .ok block
      | some keypair =>
        match Crypto.sign keypair block.hash with
        | .error err => .error (.invalidBlock s!"failed to sign block: {err}")
        | .ok sig => .ok { block with signature := Crypto.serializeSignature sig }

/-- The state change of `propose_block`. -/
def recordProposal (e : ConsensusEngine) (block : DagBlock) : ConsensusEngine :=
  let e := e.insertBlockIntoDag block
  let e := { e with
    authorRoundBlocks := e.authorRoundBlocks.insert (block.author, block.round) block.hash
    withholdingDetector :=
      (e.withholdingDetector.reportExpected e.localAddress block.round).reportReceived
        e.localAddress block.round }
  e.pruneSecurityHistory block.round

def proposeBlock (e : ConsensusEngine) (transactions : List Hash256) (timestamp : Nat) :
    Except ConsensusError DagBlock × ConsensusEngine :=
  match e.proposal transactions timestamp with
  | .error err => (.error err, e)
  | .ok block => (.ok block, e.recordProposal block)

/-! ## Receiving -/

/-- The signer's Ed25519 key differs from the key registered for the author. -/
def registeredKeyMismatch (e : ConsensusEngine) (author : Address) (sig : Signature) : Bool :=
  match e.validatorKeys.lookup author, sig with
  | some registeredKey, .ed25519 publicKey _ => decide (publicKey ≠ registeredKey)
  | _, _ => false

/-- Step 3c: a signature must verify; without one, only a keyless engine accepts. -/
def checkSignature (e : ConsensusEngine) (block : DagBlock) : Except ConsensusError Unit :=
  if block.signature ≠ [] then
    match Crypto.deserializeSignature block.signature with
    | none => .error .invalidSignature
    | some sig =>
      if Crypto.verify sig block.hash block.author = false then .error .invalidSignature
      else if e.registeredKeyMismatch block.author sig then .error .invalidSignature
      else .ok ()
  else if e.localKeypair.isSome then .error .invalidSignature
  else .ok ()

/-- The block is held, and of the given round. -/
def heldAt (e : ConsensusEngine) (round : Nat) (hash : Hash256) : Bool :=
  match e.getBlock hash with
  | some block => decide (block.round = round)
  | none => false

/-- A parent list that names something, nothing twice, and not the zero hash. -/
def wellFormedParents (block : DagBlock) : Bool :=
  !block.parents.isEmpty && decide (Hash256.zero ∉ block.parents) &&
    decide (block.parents.dedup.length = block.parents.length)

/-- Step 5: the parent rules of the block's round. -/
def checkParents (e : ConsensusEngine) (block : DagBlock) (baseException : Bool) :
    Except ConsensusError Unit :=
  if block.round = 0 ∨ e.isRecoveryBootstrapRound block.round then
    if block.parents ≠ [] then .error (.invalidBlock "bootstrap block must not have parents")
    else .ok ()
  else if baseException && e.isRestartBaseRound block.round then
    if wellFormedParents block then .ok ()
    else
      .error (.invalidBlock
        "restart base round block has an empty, zero, or duplicate parent list")
  else if e.localRecoveryReplayActive && e.localRecoveryBoundaryRound == some block.round then
    if wellFormedParents block then .ok ()
    else
      .error (.invalidBlock
        "local recovery boundary has an empty, zero, or duplicate parent commitment")
  else
    let found := block.parents.filter (e.heldAt (block.round - 1))
    let missing := block.parents.length - found.length
    let counted := e.validatorSet.tally (e.authorsOf found)
    if missing > 0 then .error (.missingParents block.hash missing)
    else if e.roundParticipationSatisfiesQuorum e.validatorSet (block.round - 1) counted.1
        counted.2 = false then
      .error .insufficientParents
    else .ok ()

/-- The checks of `receive_block_inner_with_persistence`, in the source's order. -/
def checkBlock (e : ConsensusEngine) (block : DagBlock) (baseException : Bool) :
    Except ConsensusError Unit :=
  if e.validatorSet.canProduceBlocks block.author = false then .error .notValidator
  else if (e.dag.lookup block.hash).isSome then .error .duplicateBlock
  else if block.verifyHash e.consensusDomain = false then
    .error (.invalidBlock "hash does not match block contents")
  else if block.verifyOrdering = false then
    .error (.mevOrderingViolation
      s!"block {block.hash.display} by {block.author.display} has transactions not in canonical lexicographic order or ordering commitment does not match sorted tx hashes")
  else
    match e.checkSignature block with
    | .error err => .error err
    | .ok () =>
      if block.round - e.currentRound > 1 then
        .error (.roundTooFarAhead block.round e.currentRound)
      else e.checkParents block baseException

structure EquivocationProof where
  author : Address
  round : Nat
  block1Hash : Hash256
  block2Hash : Hash256

def detectEquivocation (e : ConsensusEngine) (block : DagBlock) : Option EquivocationProof :=
  match e.authorRoundBlocks.lookup (block.author, block.round) with
  | some existing =>
    if existing ≠ block.hash then some ⟨block.author, block.round, existing, block.hash⟩
    else none
  | none => none

/-- Step 7: an equivocation is slashed outside a recovery domain and retained as
    evidence inside one; otherwise the author's entry is inserted if vacant. -/
def noteAuthor (e : ConsensusEngine) (block : DagBlock) : Option ConsensusEngine :=
  match e.detectEquivocation block with
  | some equivocation =>
    if e.consensusDomain.isSome then some e
    else
      let evidence := hashPair equivocation.block1Hash equivocation.block2Hash
      (e.validatorSet.punish block.author .equivocationDAG evidence block.round
        block.timestamp).map fun r => { e with validatorSet := r.2 }
  | none =>
    match e.authorRoundBlocks.lookup (block.author, block.round) with
    | some _ => some e
    | none =>
      some { e with
        authorRoundBlocks := e.authorRoundBlocks.insert (block.author, block.round)
          block.hash }

/-- The state change of a received block. -/
def acceptBlock (e : ConsensusEngine) (block : DagBlock) : Option ConsensusEngine :=
  (e.noteAuthor block).map fun e =>
    let e := e.insertBlockIntoDag block
    let e := { e with
      withholdingDetector := e.withholdingDetector.reportReceived block.author block.round }
    e.pruneSecurityHistory block.round

/-- `receive_block_inner_with_persistence`; `none` is the panic of a failed slash. -/
def receiveBlockInner (e : ConsensusEngine) (block : DagBlock) (baseException : Bool)
    (persist : DagBlock → Except ConsensusError Unit) :
    Option (Except ConsensusError Unit × ConsensusEngine) :=
  match e.checkBlock block baseException with
  | .error err => some (.error err, e)
  | .ok () =>
    match persist block with
    | .error err => some (.error err, e)
    | .ok () => (e.acceptBlock block).map fun e => (.ok (), e)

def receiveBlock (e : ConsensusEngine) (block : DagBlock) :
    Option (Except ConsensusError Unit × ConsensusEngine) :=
  e.receiveBlockInner block false fun _ => .ok ()

/-- Evidence about another block must be signed. -/
def isAuthenticCommitteeBlock (e : ConsensusEngine) (block : DagBlock) : Bool :=
  e.validatorSet.canProduceBlocks block.author && block.verifyHash e.consensusDomain &&
    !block.signature.isEmpty &&
    (match Crypto.deserializeSignature block.signature with
      | none => false
      | some sig =>
        Crypto.verify sig block.hash block.author &&
          !e.registeredKeyMismatch block.author sig)

end ConsensusEngine

end ArcChain
