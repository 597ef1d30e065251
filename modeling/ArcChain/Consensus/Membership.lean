/-
Validator-set changes of the engine (`arc-consensus/src/lib.rs`): joining,
leaving and restaking, epochs, replacement of the set, slashing and fraud
proofs; and the registration of skip and finality certificates.

The active set serves block validation, the frozen set leader selection
and commits.  `SetsValid` is the invariant of the pair.
-/
import ArcChain.Consensus.Receive

namespace ArcChain

open Word

namespace ConsensusEngine

variable [Crypto]

def queueValidator (e : ConsensusEngine) (validator : Validator) : ConsensusEngine :=
  if e.pendingValidators.any fun v => v.address = validator.address then e
  else { e with pendingValidators := e.pendingValidators ++ [validator] }

/-- One pending validator merged into the members: it replaces the first member with its
    address, or joins at the end. -/
def mergeValidator (pending : Validator) : List Validator → List Validator
  | [] => [pending]
  | v :: rest => if v.address = pending.address then pending :: rest
      else v :: mergeValidator pending rest

/-- Panics if the epoch overflows or the merged members do not check. -/
def freezeEpoch (e : ConsensusEngine) : Option ConsensusEngine :=
  let merged := e.pendingValidators.foldl (fun all pending => mergeValidator pending all)
    e.validatorSet.validators
  match checkedAdd e.validatorSet.epoch 1 with
  | none => none
  | some newEpoch =>
    (ValidatorSet.new merged newEpoch).map fun newSet =>
      { e with validatorSet := newSet, frozenValidatorSet := newSet, pendingValidators := [] }

def joinValidator (e : ConsensusEngine) (address : Address) (stake : Nat)
    (pubkey : List UInt8) (shard : Nat) : Except ConsensusError Unit × ConsensusEngine :=
  if (StakeTier.fromStake stake).isNone then
    (.error (.invalidBlock s!"stake {stake} below minimum threshold {stakeSpark}"), e)
  else if e.validatorSet.isValidator address then
    (.error (.invalidBlock "address already in validator set"), e)
  else if e.validatorSet.validators.length ≥ 100 then
    (.error (.invalidBlock "validator set at capacity (100)"), e)
  else
    match Validator.new address stake shard with
    | none => (.error (.invalidBlock "invalid stake"), e)
    | some validator =>
      match checkedAdd e.validatorSet.totalStake stake with
      | none => (.error (.invalidBlock "total validator stake exceeds u64::MAX"), e)
      | some newTotalStake =>
        let vs := { e.validatorSet with
          validators := e.validatorSet.validators ++ [validator]
          totalStake := newTotalStake
          quorum := strictSupermajorityThreshold newTotalStake }
        (.ok (), { e with validatorSet := vs }.registerValidatorKey address pubkey)

/-- The members are filtered before the total is recomputed, so a
    failed recomputation would leave them filtered. -/
def leaveValidator (e : ConsensusEngine) (address : Address) :
    Except ConsensusError Nat × ConsensusEngine :=
  match e.validatorSet.getValidator address with
  | none => (.error (.invalidBlock "address not in validator set"), e)
  | some validator =>
    let validators := e.validatorSet.validators.filter fun v => v.address ≠ address
    match checkedValidatorTotalStake validators with
    | .error err => (.error err, { e with validatorSet := { e.validatorSet with validators } })
    | .ok totalStake =>
      let vs := { e.validatorSet with
        validators, totalStake, quorum := strictSupermajorityThreshold totalStake }
      (.ok validator.stake,
        { e with
          validatorSet := vs
          validatorKeys := e.validatorKeys.erase address })

/-- The first member with the address gets the new stake and its tier. -/
def restake (address : Address) (newStake : Nat) : List Validator → List Validator
  | [] => []
  | v :: rest =>
    if v.address = address then
      { v with stake := newStake, tier := (StakeTier.fromStake newStake).getD .spark } :: rest
    else v :: restake address newStake rest

/-- The total is adjusted by checked arithmetic. -/
def updateValidatorStake (e : ConsensusEngine) (address : Address) (newStake : Nat) :
    Except ConsensusError Unit × ConsensusEngine :=
  if (StakeTier.fromStake newStake).isNone then
    (.error (.invalidBlock s!"new stake {newStake} below minimum threshold"), e)
  else
    match e.validatorSet.getValidator address with
    | none => (.error (.invalidBlock "address not in validator set"), e)
    | some validator =>
      match (checkedSub e.validatorSet.totalStake validator.stake).bind
          fun remaining => checkedAdd remaining newStake with
      | none => (.error (.invalidBlock "total validator stake exceeds u64::MAX"), e)
      | some newTotalStake =>
        let vs := { e.validatorSet with
          validators := restake address newStake e.validatorSet.validators
          totalStake := newTotalStake
          quorum := strictSupermajorityThreshold newTotalStake }
        (.ok (), { e with validatorSet := vs })

/-- `epoch_transition`; the recomputation is an `expect`, the epoch wraps. -/
def epochTransition (e : ConsensusEngine) : Option (Nat × ConsensusEngine) :=
  match checkedValidatorTotalStake e.validatorSet.validators with
  | .error _ => none
  | .ok totalStake =>
    let vs := { e.validatorSet with
      epoch := (e.validatorSet.epoch + 1) % 2 ^ 64
      totalStake
      quorum := strictSupermajorityThreshold totalStake }
    some (vs.epoch, { e with validatorSet := vs })

/-- Forged totals, quorums and duplicate members are refused. -/
def updateValidatorSet (e : ConsensusEngine) (newSet : ValidatorSet) :
    Except ConsensusError Unit × ConsensusEngine :=
  match checkedValidatorTotalStake newSet.validators with
  | .error err => (.error err, e)
  | .ok canonicalTotal =>
    if newSet.totalStake ≠ canonicalTotal ∨
        newSet.quorum ≠ strictSupermajorityThreshold canonicalTotal then
      (.error (.invalidBlock "validator set has non-canonical total stake or quorum"), e)
    else (.ok (), { e with validatorSet := newSet })

/-- Whether the offender was removed. -/
def enforceSlash (e : ConsensusEngine) (offender : Address) (amount : Nat) :
    Option (Bool × ConsensusEngine) :=
  if e.validatorSet.isValidator offender = false then some (false, e)
  else
    (e.validatorSet.applySlash offender amount).map fun vs =>
      (!vs.isValidator offender, { e with validatorSet := vs })

/-- `report_offense` on the active set. -/
def reportOffense (e : ConsensusEngine) (offender : Address) (offense : SlashableOffense)
    (evidence : Hash256) (round timestamp : Nat) :
    Except ConsensusError SlashRecord × ConsensusEngine :=
  let r := e.validatorSet.reportOffense offender offense evidence round timestamp
  (r.1, { e with validatorSet := r.2 })

/-- `submit_fraud_proof`; the clock is a parameter. -/
def submitFraudProof (e : ConsensusEngine) (proposer : Address)
    (claimedRoot actualRoot : Hash256) (round now : Nat) :
    Option (Except ConsensusError SlashRecord × ConsensusEngine) :=
  (e.validatorSet.punish proposer .invalidBlockProposal (hashPair claimedRoot actualRoot) round
    now).map fun r => (r.1, { e with validatorSet := r.2 })

/-! ## Certificates -/

def registerSkipCertificate (e : ConsensusEngine) (certificate : SkipCertificate) :
    Except CertificateError Nat × ConsensusEngine :=
  match e.certificateDomain with
  | none => (.error .wrongValidatorSet, e)
  | some domain =>
    match certificate.verify domain e.frozenValidatorSet with
    | .error err => (.error err, e)
    | .ok signing =>
      (.ok signing,
        { e with
          skipCertificates := e.skipCertificates.insert
            (certificate.round, certificate.absentee) certificate })

/-- The retention floor of finality certificates at the highest held height. -/
def finalityFloor (e : ConsensusEngine) (highest : Nat) : Nat :=
  highest - e.retainedFinalityHeights

/-- A conflicting offer is refused, judged by the block
    hash; retention is enforced every `FINALITY_PRUNE_EVERY` heights. -/
def registerFinalityCertificate (e : ConsensusEngine) (certificate : FinalityCertificate) :
    Except CertificateError Nat × ConsensusEngine :=
  match e.certificateDomain with
  | none => (.error .wrongValidatorSet, e)
  | some domain =>
    match certificate.verify domain e.frozenValidatorSet with
    | .error err => (.error err, e)
    | .ok signing =>
      let held := e.finalityCertificates.lookup certificate.height
      match held.filter fun held => held.blockHash ≠ certificate.blockHash with
      | some held =>
        (.error (.conflictingFinality certificate.height held.blockHash
          certificate.blockHash), e)
      | none =>
        let highest := max e.highestFinalizedHeight certificate.height
        let certificates := e.finalityCertificates.insert certificate.height certificate
        (.ok signing,
          { e with
            highestFinalizedHeight := highest
            finalityCertificates :=
              if certificate.height % finalityPruneEvery = 0 then
                AssocMap.retain (fun height _ => decide (height ≥ e.finalityFloor highest))
                  certificates
              else certificates })

end ConsensusEngine

end ArcChain
