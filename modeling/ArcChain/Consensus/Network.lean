/-
Honest engines over an asynchronous network with Byzantine validators.

A step lets one honest node run one engine operation.  Delivered blocks are
arbitrary, in any order and any number of times, except that a block whose
signature verifies under an honest author has a hash that this author
proposed: signatures are not forged.  What Byzantine validators make of
their keys is not modelled further; their stake is bounded.
-/
import ArcChain.Consensus.Effects

namespace ArcChain

open ConsensusEngine

section Model

variable [Crypto]

/-- The block carries a signature that verifies. -/
def DagBlock.Signed (block : DagBlock) : Prop :=
  ∃ sig, Crypto.deserializeSignature block.signature = some sig ∧
    Crypto.verify sig block.hash block.author = true

/-- A committee with its honest members, and the blocks its network carries. -/
structure Committee where
  set : ValidatorSet
  honest : Address → Prop
  decHonest : DecidablePred honest
  /-- the recovery domain of every engine -/
  domain : Option ConsensusDomain
  /-- the recovery bootstrap round of every engine -/
  bootstrap : Option Nat
  /-- every block that is proposed or delivered -/
  blocks : Set DagBlock
  valid : set.Valid
  byzantine : ByzantineBound set honest
  collisionFree : DagBlock.CollisionFree domain blocks

namespace Committee

instance (C : Committee) : DecidablePred C.honest := C.decHonest

/-- The round that the committee's DAG starts from. -/
def base (C : Committee) : Nat := C.bootstrap.getD 0

/-- An engine of `address` before its first operation. -/
structure Starts (C : Committee) (address : Address) (e : ConsensusEngine) : Prop where
  dag : e.dag = ∅
  rounds : e.rounds = ∅
  committed : e.committed = []
  entries : e.authorRoundBlocks = ∅
  detector : e.withholdingDetector = .new
  active : e.validatorSet = C.set
  frozen : e.frozenValidatorSet = C.set
  address : e.localAddress = address
  keyed : e.localKeypair.isSome = true
  domain : e.consensusDomain = C.domain
  bootstrap : e.recoveryBootstrapRound = C.bootstrap
  replay : e.localRecoveryReplayActive = false
  restart : e.restartBaseRound = none
  current : e.currentRound = C.base
  cursor : e.lastCommittedRound = C.base
  retained : 1 ≤ e.retainedRounds

end Committee

/-- The honest engines, with what each has proposed and committed so far. -/
structure Network where
  engine : Address → ConsensusEngine
  proposed : Address → List DagBlock
  output : Address → List DagBlock

/-- One operation of one node. -/
structure NetworkEvent where
  node : Address
  op : EngineOp

namespace Network

def step (s : Network) (event : NetworkEvent) : Option Network :=
  (event.op.apply (s.engine event.node)).map fun r =>
    { engine := Function.update s.engine event.node r.engine
      proposed := Function.update s.proposed event.node (s.proposed event.node ++ r.proposed)
      output := Function.update s.output event.node (s.output event.node ++ r.committed) }

/-- Nothing has happened yet. -/
def Starts (C : Committee) (s : Network) : Prop :=
  ∀ a, C.honest a → C.Starts a (s.engine a) ∧ s.proposed a = [] ∧ s.output a = []

end Network

namespace Committee

/-- The network may deliver a block of the universe; an honest author has proposed what
    its signature is on. -/
def Delivers (C : Committee) (proposed : Address → List DagBlock) (block : DagBlock) : Prop :=
  block ∈ C.blocks ∧ (C.honest block.author → block.Signed →
    ∃ b ∈ proposed block.author, b.hash = block.hash)

/-- What an honest node does: it proposes, receives and imports what the network delivers,
    advances, commits, prunes behind its cursor, rebases, and registers certificates.
    Transactions are hashed under a context of their own: no imported block has the hash of
    one that an honest node proposed. -/
def Operates (C : Committee) (proposed : Address → List DagBlock) (e : ConsensusEngine) :
    EngineOp → Prop
  | .proposeBlock transactions timestamp =>
    ∀ b, e.proposal transactions timestamp = .ok b → b ∈ C.blocks
  | .receiveBlock block => C.Delivers proposed block
  | .importHistory blocks _ _ => ∀ block ∈ blocks, C.Delivers proposed block ∧
      ∀ author, C.honest author → ∀ p ∈ proposed author, block.hash ∉ p.transactions
  | .advanceRound | .forceAdvanceRound | .tryCommit | .pruneOldRounds | .rebaseTo _ => True
  | .pruneBelowRound committedRound => committedRound ≤ e.lastCommittedRound + e.retainedRounds
  | .config (.registerSkipCertificate _) | .config (.registerFinalityCertificate _) => True
  | .config _ => False

/-- The guard of a network run. -/
def Allows (C : Committee) (s : Network) (event : NetworkEvent) : Prop :=
  C.honest event.node ∧ C.Operates s.proposed (s.engine event.node) event.op

end Committee

namespace Network

/-- `e` is the engine of `a` at some point of the run. -/
def Visits (guard : Network → NetworkEvent → Prop) (start : Network) (events : List NetworkEvent)
    (a : Address) (e : ConsensusEngine) : Prop :=
  ∃ before after s, events = before ++ after ∧ Run step guard start before s ∧ s.engine a = e

end Network

/-! ## Guards that can be evaluated -/

/-- The operations of normal running. -/
def ConsensusEngine.EngineOp.Basic : EngineOp → Prop
  | .proposeBlock _ _ | .receiveBlock _ | .advanceRound | .tryCommit => True
  | _ => False

local instance decidableOkImp {ε α : Type} {P : α → Prop} [DecidablePred P] :
    (x : Except ε α) → Decidable (∀ b, x = .ok b → P b)
  | .error _ => .isTrue nofun
  | .ok b => decidable_of_iff (P b) ⟨fun h _ heq => Except.ok.inj heq ▸ h, fun h => h b rfl⟩

local instance decidableSomeAnd {α : Type} {P : α → Prop} [DecidablePred P] :
    (x : Option α) → Decidable (∃ a, x = some a ∧ P a)
  | none => .isFalse nofun
  | some a => decidable_of_iff (P a)
      ⟨fun h => ⟨a, rfl, h⟩, fun ⟨_, heq, h⟩ => Option.some.inj heq ▸ h⟩

instance (block : DagBlock) : Decidable block.Signed :=
  inferInstanceAs (Decidable (∃ _, _ = some _ ∧ _))

namespace Committee

variable (C : Committee) [DecidablePred (· ∈ C.blocks)] (proposed : Address → List DagBlock)

instance (block : DagBlock) : Decidable (C.Delivers proposed block) :=
  inferInstanceAs (Decidable (_ ∧ (_ → _ → _)))

/-- Whether a node may do an operation, and the operation is basic. -/
def decideBasic (e : ConsensusEngine) :
    (op : EngineOp) → Decidable (C.Operates proposed e op ∧ op.Basic)
  | .proposeBlock transactions timestamp =>
    decidable_of_iff (∀ b, e.proposal transactions timestamp = .ok b → b ∈ C.blocks)
      (and_true _).to_iff.symm
  | .receiveBlock block => decidable_of_iff (C.Delivers proposed block) (and_true _).to_iff.symm
  | .advanceRound | .tryCommit => .isTrue ⟨trivial, trivial⟩
  | .importHistory _ _ _ | .forceAdvanceRound | .pruneOldRounds | .pruneBelowRound _
  | .rebaseTo _ | .config _ => .isFalse fun h => h.2

instance (s : Network) (event : NetworkEvent) :
    Decidable (C.Allows s event ∧ event.op.Basic) :=
  haveI := C.decideBasic s.proposed (s.engine event.node) event.op
  decidable_of_iff (C.honest event.node ∧ C.Operates s.proposed (s.engine event.node) event.op ∧
    event.op.Basic) and_assoc.symm

end Committee

end Model

end ArcChain
