/-
Two endpoints of an off-chain payment channel (`arc-channel`), joined by a
FIFO link each way.  `new` gives the deposit to the own side, and proposals
may cross: every channel has a run that comes to rest with different views
(`endpoints_disagree`).
-/
import ArcChain.Crypto.Concrete
import ArcChain.Types.Transaction

namespace ArcChain

open Word List Function

inductive ChannelError where
  | wrongState (expected actual : String)
  | conservationViolation (openerBal counterpartyBal total : UInt64)
  | nonceNotIncreasing (current got : UInt64)
  | invalidSignature
  | notAuthorized (text : String)

inductive ChannelState where
  | opening | «open» | closing | disputed | closed
deriving DecidableEq

def ChannelState.toString : ChannelState → String
  | opening => "Opening"
  | «open» => "Open"
  | closing => "Closing"
  | disputed => "Disputed"
  | closed => "Closed"

inductive Role where
  | opener | counterparty
deriving DecidableEq

def Role.other : Role → Role
  | opener => counterparty
  | counterparty => opener

structure StateCommitment where
  channelId : Hash256
  nonce : UInt64
  openerBalance : UInt64
  counterpartyBalance : UInt64
  proposerSig : Bytes
  acceptorSig : Option Bytes

/-- An endpoint; the keys are the functions they are used for. -/
structure ChannelStateMachine where
  channelId : Hash256
  role : Role
  state : ChannelState
  totalDeposit : UInt64
  openerBalance : UInt64
  counterpartyBalance : UInt64
  nonce : UInt64
  signingKey : Bytes → Bytes
  counterpartyVk : Bytes → Bytes → Bool
  history : List StateCommitment

variable [Crypto]

def StateCommitment.signingPayload (c : StateCommitment) : Bytes :=
  (taggedHash "arc-channel-state-v1" (c.channelId.toBytes ++ leBytes 8 c.nonce.toNat ++
    leBytes 8 c.openerBalance.toNat ++ leBytes 8 c.counterpartyBalance.toNat)).toBytes

namespace ChannelStateMachine

def new (channelId : Hash256) (role : Role) (totalDeposit : UInt64) (signingKey : Bytes → Bytes)
    (counterpartyVk : Bytes → Bytes → Bool) : ChannelStateMachine :=
  let (opener, counterparty) := match role with
    | .opener => (totalDeposit, 0)
    | .counterparty => (0, totalDeposit)
  ⟨channelId, role, .opening, totalDeposit, opener, counterparty, 0, signingKey, counterpartyVk, []⟩

variable (m : ChannelStateMachine)

def wrongState (expected : ChannelState) : ChannelError :=
  .wrongState expected.toString m.state.toString

def confirmOpen : Except ChannelError ChannelStateMachine :=
  if m.state ≠ .opening then .error (m.wrongState .opening) else .ok { m with state := .open }

/-- The sums are those of the release build. -/
def proposeState (opener counterparty : UInt64) : Except ChannelError StateCommitment :=
  if m.state ≠ .open then .error (m.wrongState .open)
  else if opener + counterparty ≠ m.totalDeposit then
    .error (.conservationViolation opener counterparty m.totalDeposit)
  else
    let commitment : StateCommitment := ⟨m.channelId, m.nonce + 1, opener, counterparty, [], none⟩
    .ok { commitment with proposerSig := m.signingKey commitment.signingPayload }

def store (c : StateCommitment) : ChannelStateMachine :=
  { m with
    nonce := c.nonce
    openerBalance := c.openerBalance
    counterpartyBalance := c.counterpartyBalance
    history := m.history ++ [c] }

def receiveState (c : StateCommitment) :
    Except ChannelError (StateCommitment × ChannelStateMachine) :=
  if m.state ≠ .open then .error (m.wrongState .open)
  else if c.channelId ≠ m.channelId then .error (.notAuthorized "channel_id mismatch")
  else if c.nonce ≤ m.nonce then .error (.nonceNotIncreasing m.nonce c.nonce)
  else if c.openerBalance + c.counterpartyBalance ≠ m.totalDeposit then
    .error (.conservationViolation c.openerBalance c.counterpartyBalance m.totalDeposit)
  else if c.proposerSig.length ≠ 64 ∨ ¬ m.counterpartyVk c.signingPayload c.proposerSig then
    .error .invalidSignature
  else
    let signed := { c with acceptorSig := some (m.signingKey c.signingPayload) }
    .ok (signed, m.store signed)

def finalizeState (c : StateCommitment) : Except ChannelError ChannelStateMachine :=
  match c.acceptorSig with
  | none => .error .invalidSignature
  | some sig =>
    if sig.length ≠ 64 ∨ ¬ m.counterpartyVk c.signingPayload sig then .error .invalidSignature
    else .ok (m.store c)

end ChannelStateMachine

inductive Message where
  | proposal (c : StateCommitment)
  | cosigned (c : StateCommitment)

/-- Both endpoints, and what is under way to each. -/
structure Endpoints where
  side : Role → ChannelStateMachine
  inbox : Role → List Message

namespace Endpoints

open ChannelStateMachine

inductive Move where
  | confirmOpen (r : Role)
  | propose (r : Role) (opener counterparty : UInt64)
  | deliver (r : Role)

def step (s : Endpoints) : Move → Endpoints
  | .confirmOpen r =>
    { s with side := update s.side r ((s.side r).confirmOpen.toOption.getD (s.side r)) }
  | .propose r opener counterparty =>
    match (s.side r).proposeState opener counterparty with
    | .ok c => { s with inbox := update s.inbox r.other (s.inbox r.other ++ [.proposal c]) }
    | .error _ => s
  | .deliver r =>
    match s.inbox r with
    | [] => s
    | .cosigned c :: rest =>
      ⟨update s.side r (((s.side r).finalizeState c).toOption.getD (s.side r)),
        update s.inbox r rest⟩
    | .proposal c :: rest =>
      match (s.side r).receiveState c with
      | .error _ => { s with inbox := update s.inbox r rest }
      | .ok (signed, m) => ⟨update s.side r m,
          update (update s.inbox r rest) r.other (s.inbox r.other ++ [.cosigned signed])⟩

def view (s : Endpoints) (r : Role) : UInt64 × UInt64 × UInt64 :=
  ((s.side r).nonce, (s.side r).openerBalance, (s.side r).counterpartyBalance)

def Agree (s : Endpoints) : Prop := s.view .opener = s.view .counterparty

def new (id : Hash256) (total : UInt64) (key : Role → Bytes → Bytes)
    (vk : Role → Bytes → Bytes → Bool) : Endpoints :=
  ⟨fun r => .new id r total (key r) (vk r.other), fun _ => []⟩

/-- Each endpoint accepts the other's proposal and then stores its own. -/
def crossing : List Move :=
  [.confirmOpen .opener, .confirmOpen .counterparty, .propose .opener (-1) 1,
    .propose .counterparty 0 0, .deliver .opener, .deliver .counterparty, .deliver .opener,
    .deliver .counterparty]

end Endpoints

namespace SampleChannel

def key (_ : Role) (_ : Bytes) : Bytes := replicate 64 0

def vk (_ : Role) (_ _ : Bytes) : Bool := true

end SampleChannel
end ArcChain
