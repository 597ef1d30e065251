/-
The native inference contract (`inference_contract.rs`): the commitments
of jobs and committees, the validation of requests and vote certificates,
and the settlement plans.

All of it is pure.  A plan says which credits the reserve of a request is
split into; the state adapter turns it into account replacements.
-/
import ArcChain.Lib.StakeQuorum
import ArcChain.Types.Block

namespace ArcChain

open Word

def inferenceContractVersion : Nat := 1

def maxCommitteeMembers : Nat := 32

def tier1InputBlobMax : Nat := 32 * 1024

def tier1OutputBlobMax : Nat := 16 * 1024

def tier1MaxTokens : Nat := 2048

structure ValidatorMember where
  address : Address
  stake : Nat
deriving DecidableEq, Repr

structure PendingInference where
  request : InferenceRequest
  requestId : Hash256
  reservedBalance : Nat
deriving DecidableEq, Repr

structure SettlementCredit where
  payee : Address
  amount : Nat
deriving DecidableEq, Repr

/-- `InferenceContractError`, without the texts of the signature library. -/
inductive InferenceContractError where
  | unsupportedVersion | domainMismatch | invalidCommittee | invalidStakeTotal
  | validatorSetMismatch | invalidBounds | expired | requestSignature | requestIdMismatch
  | invalidOutput | invalidCertificateBounds | insufficientStake | invalidVoteMember
  | voteSignature | priceExceedsReserve | arithmeticOverflow | reserveMismatch
deriving DecidableEq, Repr

/-- The text of an error. -/
def InferenceContractError.text : InferenceContractError → String
  | unsupportedVersion => "unsupported inference contract version"
  | domainMismatch => "job domain does not match trusted state domain"
  | invalidCommittee => "validator set must contain 1..=32 sorted unique members"
  | invalidStakeTotal => "validator stake sum overflow or zero"
  | validatorSetMismatch => "validator set commitment does not match job domain"
  | invalidBounds => "invalid job bounds"
  | expired => "request is expired"
  | requestSignature => "request signature is invalid"
  | requestIdMismatch => "request id does not match commitment"
  | invalidOutput => "output blob is empty, oversized, or has the wrong hash"
  | invalidCertificateBounds => "certificate must contain 1..=32 votes"
  | insufficientStake => "certificate must contain a matching two-thirds-plus stake certificate"
  | invalidVoteMember => "duplicate or non-member validator vote"
  | voteSignature => "vote signature is invalid"
  | priceExceedsReserve => "execution price exceeds reserved payment"
  | arithmeticOverflow => "settlement arithmetic overflow"
  | reserveMismatch => "reserved balance does not equal the committed reserve"

/-- The result of a contract function. -/
abbrev Contract (α : Type) := Except InferenceContractError α

/-- `if !condition { return Err(error) }`. -/
def Contract.require (condition : Prop) [Decidable condition] (e : InferenceContractError) :
    Contract Unit :=
  if condition then .ok () else .error e

/-- `ok_or(error)`. -/
def Contract.some? {α : Type} (e : InferenceContractError) : Option α → Contract α
  | some a => .ok a
  | none => .error e

/-! ## When a sequence of checks succeeds -/

theorem bind_eq_ok {ε α β : Type} {x : Except ε α} {f : α → Except ε β} {b : β} :
    (x >>= f) = .ok b ↔ ∃ a, x = .ok a ∧ f a = .ok b := by
  cases x with
  | error e => exact ⟨fun h => (nomatch h), fun ⟨a, h, _⟩ => (nomatch h)⟩
  | ok a => exact ⟨fun h => ⟨a, rfl, h⟩, fun ⟨a', h, hf⟩ => by cases h; exact hf⟩

section Commitments

variable [Crypto]

def InferenceJob.canonicalBytes (job : InferenceJob) : Bytes :=
  leBytes 2 job.version ++ job.domain.chainGenesis.toBytes ++ leBytes 8 job.domain.recoveryEpoch ++
    [job.domain.validatorSetHash, job.requester, job.modelHash, job.profileHash, job.inputHash,
      job.generationHash, job.assignmentHash].flatMap Hash256.toBytes ++
    leBytes 8 job.nonce ++ leBytes 4 job.maxTokens ++ leBytes 4 job.maxOutputBytes ++
    leBytes 8 job.executionPrice ++ leBytes 8 job.reservedMaxPayment ++ leBytes 8 job.expiresAt

def InferenceJob.commitment (job : InferenceJob) : Hash256 :=
  Crypto.blake3DeriveKey "ARC-native-inference-job-v1" job.canonicalBytes

def InferenceJob.requestId (job : InferenceJob) : Hash256 :=
  Crypto.blake3DeriveKey "ARC-native-inference-request-id-v1" job.commitment.toBytes

end Commitments

/-! ## Committees -/

/-- The loop of `validate_members`: each stake positive, each address above the one before. -/
def validateMembersFrom : Option Address → Nat → List ValidatorMember → Contract Nat
  | _, total, [] => .ok total
  | previous, total, member :: rest => do
    Contract.require (member.stake ≠ 0 ∧ ∀ a ∈ previous, a < member.address) .invalidCommittee
    let total ← Contract.some? .invalidStakeTotal (checkedAdd total member.stake)
    validateMembersFrom (some member.address) total rest

def validateMembers (members : List ValidatorMember) : Contract Nat := do
  Contract.require (members ≠ [] ∧ members.length ≤ maxCommitteeMembers) .invalidCommittee
  let total ← validateMembersFrom none 0 members
  Contract.require (total ≠ 0) .invalidStakeTotal
  pure total

variable [Crypto]

def validatorSetCommitment (members : List ValidatorMember) : Contract Hash256 := do
  let _ ← validateMembers members
  pure (Crypto.blake3DeriveKey "ARC-native-inference-validator-set-v1"
    (leBytes 4 members.length ++
      members.flatMap fun m => m.address.toBytes ++ leBytes 8 m.stake))

/-! ## Requests -/

def InferenceRequest.verifySignature (request : InferenceRequest) : Contract Unit :=
  Contract.require (Crypto.verify request.requesterSignature
    (Crypto.blake3DeriveKey "ARC-native-inference-request-signature-v1"
      request.job.commitment.toBytes) request.job.requester = true) .requestSignature

def validateJobStructure (job : InferenceJob) (expectedDomain : InferenceDomain)
    (members : List ValidatorMember) : Contract Unit := do
  Contract.require (job.version = inferenceContractVersion) .unsupportedVersion
  Contract.require (job.domain = expectedDomain) .domainMismatch
  let _ ← validateMembers members
  let commitment ← validatorSetCommitment members
  Contract.require (commitment = job.domain.validatorSetHash) .validatorSetMismatch
  Contract.require (job.executionPrice ≤ job.reservedMaxPayment) .priceExceedsReserve
  Contract.require (job.maxTokens ≠ 0 ∧ job.maxTokens ≤ tier1MaxTokens ∧ job.maxOutputBytes ≠ 0 ∧
    job.maxOutputBytes ≤ tier1OutputBlobMax ∧ job.executionPrice ≠ 0 ∧
    job.reservedMaxPayment ≠ 0) .invalidBounds

def validateJob (job : InferenceJob) (expectedDomain : InferenceDomain)
    (members : List ValidatorMember) (now : Nat) : Contract Unit := do
  validateJobStructure job expectedDomain members
  Contract.require (now < job.expiresAt) .expired

def InferenceRequest.validate (request : InferenceRequest) (expectedDomain : InferenceDomain)
    (members : List ValidatorMember) (now : Nat) : Contract PendingInference := do
  validateJob request.job expectedDomain members now
  request.verifySignature
  pure ⟨request, request.job.requestId, request.job.reservedMaxPayment⟩

/-! ## Certificates -/

def voteMessage (requestId outputHash : Hash256) (outputLen : Nat) : Hash256 :=
  Crypto.blake3DeriveKey "ARC-native-inference-vote-signature-v1"
    (requestId.toBytes ++ outputHash.toBytes ++ leBytes 8 outputLen)

/-- An Ed25519 signature of zeros. -/
def Signature.isNull : Signature → Bool
  | .ed25519 publicKey signature =>
    publicKey == List.replicate 32 0 && signature.all fun b => b == 0
  | _ => false

/-- The vote loop of `validate_certificate`: the members behind the votes. -/
def matchingMembers (members : List ValidatorMember) (message outputHash : Hash256) :
    List Address → List InferenceVote → Contract (List ValidatorMember)
  | _, [] => .ok []
  | seen, vote :: rest => do
    let member ← Contract.some? .invalidVoteMember
      (members.find? fun m => m.address == vote.validator)
    Contract.require (vote.validator ∉ seen) .invalidVoteMember
    Contract.require (vote.outputHash = outputHash) .invalidOutput
    Contract.require (vote.signature.isNull = false ∧
      Crypto.verify vote.signature message vote.validator = true) .voteSignature
    let later ← matchingMembers members message outputHash (vote.validator :: seen) rest
    pure (member :: later)

/-- A checked sum of stakes. -/
def stakeSum (members : List ValidatorMember) : Contract Nat :=
  members.foldlM (fun sum m => Contract.some? .invalidStakeTotal (checkedAdd sum m.stake)) 0

/-- The output hash and the members that voted for it, by address. -/
def validateCertificate (pending : PendingInference) (certificate : InferenceCertificate)
    (members : List ValidatorMember) (expectedDomain : InferenceDomain) (now : Nat) :
    Contract (Hash256 × List ValidatorMember) := do
  let job := pending.request.job
  validateJob job expectedDomain members now
  pending.request.verifySignature
  Contract.require (pending.requestId = job.requestId) .requestIdMismatch
  Contract.require (pending.reservedBalance = job.reservedMaxPayment) .reserveMismatch
  Contract.require (certificate.output ≠ [] ∧ certificate.output.length ≤ job.maxOutputBytes)
    .invalidOutput
  Contract.require (certificate.votes ≠ [] ∧ certificate.votes.length ≤ members.length)
    .invalidCertificateBounds
  let outputHash := hashBytes certificate.output
  let totalStake ← validateMembers members
  let message := voteMessage pending.requestId outputHash certificate.output.length
  let found ← matchingMembers members message outputHash [] certificate.votes
  let matchingStake ← stakeSum found
  Contract.require (StakeQuorum.supermajority totalStake ≤ matchingStake) .insufficientStake
  pure (outputHash, found.insertionSort fun a b => a.address ≤ b.address)

/-! ## Settlement -/

/-- `u128::MAX`. -/
def u128Max : Nat := 2 ^ 128 - 1

/-- `checked_add` on `u128`. -/
def checkedAdd128 (a b : Nat) : Contract Nat :=
  if a + b ≤ u128Max then .ok (a + b) else .error .arithmeticOverflow

/-- `u64::try_from`. -/
def toU64 (n : Nat) : Contract Nat := if n ≤ u64Max then .ok n else .error .arithmeticOverflow

/-- The totals of `coalesced_credits`. -/
def creditTotals : FinMap Address Nat → List (Address × Nat) → Contract (FinMap Address Nat)
  | totals, [] => .ok totals
  | totals, (payee, amount) :: rest => do
    let total ← checkedAdd128 ((totals.lookup payee).getD 0) amount
    creditTotals (FinMap.set totals payee (some total)) rest

def coalescedCredits (entries : List (Address × Nat)) : Contract (List SettlementCredit) := do
  let totals ← creditTotals ∅ entries
  (FinMap.toSortedList totals).mapM fun e => do
    let amount ← toU64 e.2
    pure ⟨e.1, amount⟩

/-- The shares of the members, rounded down, and what they add up to. -/
def baseShares (price totalStake : Nat) :
    Nat → List ValidatorMember → Contract (Nat × List (Address × Nat))
  | paid, [] => .ok (paid, [])
  | paid, member :: rest => do
    Contract.require (price * member.stake ≤ u128Max) .arithmeticOverflow
    let base := price * member.stake / totalStake
    let share ← toU64 base
    let paid ← Contract.some? .arithmeticOverflow (checkedAdd paid share)
    let (total, later) ← baseShares price totalStake paid rest
    pure (total, (member.address, base) :: later)

/-- One more for each of the first `remainder` shares. -/
def addRemainder : Nat → List (Address × Nat) → Contract (List (Address × Nat))
  | _, [] => .ok []
  | 0, entries => .ok entries
  | remainder + 1, (payee, amount) :: rest => do
    let amount ← checkedAdd128 amount 1
    let later ← addRemainder remainder rest
    pure ((payee, amount) :: later)

/-- A checked sum of credits. -/
def creditSum (credits : List SettlementCredit) : Option Nat :=
  credits.foldlM (fun sum c => checkedAdd sum c.amount) 0

/-- `plan_finalize`: the credits and the output hash of `SettlementPlan::Finalize`. -/
def planFinalizeCredits (pending : PendingInference) (certificate : InferenceCertificate)
    (members : List ValidatorMember) (expectedDomain : InferenceDomain) (now : Nat) :
    Contract (List SettlementCredit × Hash256) := do
  let (outputHash, found) ←
    validateCertificate pending certificate members expectedDomain now
  let price := pending.request.job.executionPrice
  Contract.require (price ≤ pending.reservedBalance) .priceExceedsReserve
  let totalStake ← stakeSum found
  let (paid, shares) ← baseShares price totalStake 0 found
  let remainder ← Contract.some? .arithmeticOverflow (checkedSub price paid)
  let entries ← addRemainder remainder shares
  let refund ← Contract.some? .arithmeticOverflow (checkedSub pending.reservedBalance price)
  let credits ← coalescedCredits (entries ++ [(pending.request.job.requester, refund)])
  let credited ← Contract.some? .arithmeticOverflow (creditSum credits)
  Contract.require (credited = pending.reservedBalance) .arithmeticOverflow
  pure (credits, outputHash)

/-- `plan_refund`: the credits of `SettlementPlan::Refund`. -/
def planRefundCredits (pending : PendingInference) (expectedDomain : InferenceDomain)
    (members : List ValidatorMember) (now : Nat) : Contract (List SettlementCredit) := do
  let job := pending.request.job
  Contract.require (pending.requestId = job.requestId) .requestIdMismatch
  Contract.require (pending.reservedBalance = job.reservedMaxPayment) .reserveMismatch
  validateJobStructure job expectedDomain members
  pending.request.verifySignature
  Contract.require (job.expiresAt ≤ now) .expired
  pure [⟨job.requester, pending.reservedBalance⟩]

end ArcChain
