/-
Absence and finality attestations, and the quorum certificates built from
them (`arc-consensus/src/view_change.rs`).

`SkipCertificate.verify` and `FinalityCertificate.verify` differ in which
fields of a vote must agree with the header; the loop over the votes is
the same, and is stated once as `countVotes` / `verifyVotes`.
`verifyVotes_eq_ok` says exactly when a certificate is accepted.
-/
import ArcChain.Consensus.DagBlock
import ArcChain.Consensus.ValidatorSet

namespace ArcChain

open Word StakeQuorum List

inductive CertificateError where
  | wrongDomain (expected found : ConsensusDomain)
  | wrongValidatorSet
  | inconsistentVote (index : Nat)
  | unknownVoter (voter : Address)
  | duplicateVoter (voter : Address)
  | badSignature (voter : Address)
  | belowQuorum (signing quorum : Nat)
  | empty
  | conflictingFinality (height : Nat) (held offered : Hash256)
deriving DecidableEq, Repr

/-- One reason, kept as an enumeration by the source. -/
inductive AbsenceReason where
  | noBlock
deriving DecidableEq, Repr

structure SkipVote where
  domain : ConsensusDomain
  validatorSetHash : Hash256
  round : Nat
  absentee : Address
  voter : Address
  reason : AbsenceReason
  observedRoundStake : Nat
  signature : Signature
deriving DecidableEq, Repr

structure SkipCertificate where
  domain : ConsensusDomain
  validatorSetHash : Hash256
  round : Nat
  absentee : Address
  reason : AbsenceReason
  votes : List SkipVote
deriving DecidableEq, Repr

structure FinalityVote where
  domain : ConsensusDomain
  validatorSetHash : Hash256
  height : Nat
  blockHash : Hash256
  stateRoot : Hash256
  txRoot : Hash256
  voter : Address
  signature : Signature
deriving DecidableEq, Repr

/-- What a finality vote says about its height. -/
def FinalityVote.statement (vote : FinalityVote) : Hash256 × Hash256 × Hash256 :=
  (vote.blockHash, vote.stateRoot, vote.txRoot)

structure FinalityCertificate where
  domain : ConsensusDomain
  validatorSetHash : Hash256
  height : Nat
  blockHash : Hash256
  stateRoot : Hash256
  txRoot : Hash256
  votes : List FinalityVote
deriving DecidableEq, Repr

/-! ## Transcripts -/

def skipVoteDomain : List UInt8 := "arc.consensus.skipvote.v1".toUTF8.toList

def finalityVoteDomain : List UInt8 := "arc.consensus.finalityvote.v1".toUTF8.toList

def validatorSetDomain : List UInt8 := "arc.consensus.validatorset.v1".toUTF8.toList

def domainBytes (domain : ConsensusDomain) : List UInt8 :=
  domain.domainHash.toBytes ++ leBytes 8 domain.recoveryEpoch ++
    leBytes 8 domain.validatorSetId

/-- The bytes of `skip_vote_transcript`. -/
def skipVoteBytes (domain : ConsensusDomain) (setHash : Hash256) (round : Nat)
    (absentee voter : Address) (reason : AbsenceReason) (observedRoundStake : Nat) :
    List UInt8 :=
  skipVoteDomain ++ domainBytes domain ++ setHash.toBytes ++ leBytes 8 round ++
    absentee.toBytes ++ voter.toBytes ++ (match reason with | .noBlock => [0]) ++
    leBytes 8 observedRoundStake

/-- The bytes of `finality_vote_transcript`. -/
def finalityVoteBytes (domain : ConsensusDomain) (setHash : Hash256) (height : Nat)
    (blockHash stateRoot txRoot : Hash256) (voter : Address) : List UInt8 :=
  finalityVoteDomain ++ domainBytes domain ++ setHash.toBytes ++ leBytes 8 height ++
    blockHash.toBytes ++ stateRoot.toBytes ++ txRoot.toBytes ++ voter.toBytes

section Verify

variable [Crypto]

/-- Epoch and members, sorted by address. -/
def validatorSetHash (set : ValidatorSet) : Hash256 :=
  let members := (set.validators.map fun v => (v.address, v.stake)).insertionSort
    fun a b => a.1 ≤ b.1
  hashBytes (validatorSetDomain ++ leBytes 8 set.epoch ++ leBytes 8 members.length ++
    members.flatMap fun m => m.1.toBytes ++ leBytes 8 m.2)

def SkipVote.transcript (vote : SkipVote) : Hash256 :=
  hashBytes (skipVoteBytes vote.domain vote.validatorSetHash vote.round vote.absentee
    vote.voter vote.reason vote.observedRoundStake)

def FinalityVote.transcript (vote : FinalityVote) : Hash256 :=
  hashBytes (finalityVoteBytes vote.domain vote.validatorSetHash vote.height vote.blockHash
    vote.stateRoot vote.txRoot vote.voter)

/-- `FinalityVote::sign`; signing itself may fail. -/
def FinalityVote.sign (domain : ConsensusDomain) (setHash : Hash256) (height : Nat)
    (blockHash stateRoot txRoot : Hash256) (keypair : Crypto.KeyPair) :
    Except String FinalityVote :=
  let voter := Crypto.keyPairAddress keypair
  (Crypto.sign keypair
      (hashBytes (finalityVoteBytes domain setHash height blockHash stateRoot txRoot voter))).map
    fun signature =>
      { domain, validatorSetHash := setHash, height, blockHash, stateRoot, txRoot, voter,
        signature }

/-- A member's vote, correctly signed, is worth its stake. -/
def verifyAgainst (set : ValidatorSet) (voter : Address) (transcript : Hash256)
    (signature : Signature) : Except CertificateError Nat :=
  match set.getValidator voter with
  | none => .error (.unknownVoter voter)
  | some validator =>
    if Crypto.verify signature transcript voter then .ok validator.stake
    else .error (.badSignature voter)

def SkipVote.verifyAgainst (vote : SkipVote) (set : ValidatorSet) :
    Except CertificateError Nat :=
  ArcChain.verifyAgainst set vote.voter vote.transcript vote.signature

def FinalityVote.verifyAgainst (vote : FinalityVote) (set : ValidatorSet) :
    Except CertificateError Nat :=
  ArcChain.verifyAgainst set vote.voter vote.transcript vote.signature

/-- The loop over the votes of a certificate.  `consistent` is the comparison with
    the header, `seen` the voters counted so far.  The stake of distinct members
    cannot exceed the checked total, so the `expect` on the sum never fires. -/
def countVotes {V : Type} (consistent : V → Bool) (voter : V → Address)
    (check : V → Except CertificateError Nat) :
    Nat → List Address → Nat → List V → Except CertificateError Nat
  | _, _, signing, [] => .ok signing
  | index, seen, signing, vote :: rest =>
    if consistent vote = false then .error (.inconsistentVote index)
    else if voter vote ∈ seen then .error (.duplicateVoter (voter vote))
    else
      match check vote with
      | .error e => .error e
      | .ok stake =>
        countVotes consistent voter check (index + 1) (voter vote :: seen)
          (signing + stake) rest

/-- The part of `verify` that both certificates share. -/
def verifyVotes {V : Type} (consistent : V → Bool) (voter : V → Address)
    (check : V → Except CertificateError Nat) (domain expected : ConsensusDomain)
    (setHash : Hash256) (set : ValidatorSet) (votes : List V) :
    Except CertificateError Nat :=
  if domain ≠ expected then .error (.wrongDomain expected domain)
  else if setHash ≠ validatorSetHash set then .error .wrongValidatorSet
  else if votes.isEmpty then .error .empty
  else
    match countVotes consistent voter check 0 [] 0 votes with
    | .error e => .error e
    | .ok signing =>
      if signing < set.quorum then .error (.belowQuorum signing set.quorum)
      else .ok signing

/-- The fields of a skip vote that must agree with the header, and its own claim to
    have seen a quorum of the round. -/
def SkipCertificate.consistent (cert : SkipCertificate) (set : ValidatorSet)
    (vote : SkipVote) : Bool :=
  decide (vote.domain = cert.domain ∧ vote.validatorSetHash = cert.validatorSetHash ∧
    vote.round = cert.round ∧ vote.absentee = cert.absentee ∧ vote.reason = cert.reason ∧
    set.quorum ≤ vote.observedRoundStake)

def SkipCertificate.verify (cert : SkipCertificate) (expected : ConsensusDomain)
    (set : ValidatorSet) : Except CertificateError Nat :=
  verifyVotes (cert.consistent set) (·.voter) (·.verifyAgainst set) cert.domain expected
    cert.validatorSetHash set cert.votes

/-- The fields of a finality vote that must agree with the header. -/
def FinalityCertificate.consistent (cert : FinalityCertificate) (vote : FinalityVote) : Bool :=
  decide (vote.domain = cert.domain ∧ vote.validatorSetHash = cert.validatorSetHash ∧
    vote.height = cert.height ∧ vote.blockHash = cert.blockHash ∧
    vote.stateRoot = cert.stateRoot ∧ vote.txRoot = cert.txRoot)

def FinalityCertificate.verify (cert : FinalityCertificate) (expected : ConsensusDomain)
    (set : ValidatorSet) : Except CertificateError Nat :=
  verifyVotes cert.consistent (·.voter) (·.verifyAgainst set) cert.domain expected
    cert.validatorSetHash set cert.votes

/-! ## When a certificate verifies -/

/-- The voter is a member and the signature is its own over the transcript. -/
def ValidVote (set : ValidatorSet) (voter : Address) (transcript : Hash256)
    (signature : Signature) : Prop :=
  voter ∈ set.addresses ∧ Crypto.verify signature transcript voter = true

theorem verifyAgainst_eq_ok {set : ValidatorSet} {voter : Address} {transcript : Hash256}
    {signature : Signature} {stake : Nat} :
    verifyAgainst set voter transcript signature = .ok stake ↔
      ValidVote set voter transcript signature ∧ set.stakeOf voter = stake := by
  unfold verifyAgainst ValidVote
  rw [← ValidatorSet.isValidator_iff, ValidatorSet.isValidator, ValidatorSet.stakeOf]
  cases set.getValidator voter with
  | none => simp
  | some v =>
    by_cases hv : Crypto.verify signature transcript voter = true <;> simp [hv]

/-- What the loop over the votes accepts. -/
structure CountedVotes {V : Type} (consistent : V → Bool) (voter : V → Address)
    (valid : V → Prop) (votes : List V) : Prop where
  agree : ∀ v ∈ votes, consistent v = true
  distinct : (votes.map voter).Nodup
  valid : ∀ v ∈ votes, valid v

section Votes

variable {V : Type} {consistent : V → Bool} {voter : V → Address}
  {check : V → Except CertificateError Nat} {valid : V → Prop} {set : ValidatorSet}

section

variable (hcheck : ∀ v stake, check v = .ok stake ↔ valid v ∧ set.stakeOf (voter v) = stake)
include hcheck

omit [Crypto] in
/-- The loop succeeds exactly on consistent, valid votes of distinct voters that are
    new to `seen`, and returns the sum of their stakes on top of `signing`. -/
theorem countVotes_eq_ok

    {index signing total : Nat} {seen : List Address} {votes : List V} :
    countVotes consistent voter check index seen signing votes = .ok total ↔
      CountedVotes consistent voter valid votes ∧ (∀ v ∈ votes, voter v ∉ seen) ∧
        signing + (votes.map fun v => set.stakeOf (voter v)).sum = total := by
  induction votes generalizing index signing seen with
  | nil =>
    simp only [countVotes, Except.ok.injEq]
    exact ⟨fun h => ⟨⟨nofun, nodup_nil, nofun⟩, nofun, h⟩, fun h => h.2.2⟩
  | cons vote rest ih =>
    unfold countVotes
    by_cases hcons : consistent vote = true
    · rw [if_neg (by simp [hcons])]
      by_cases hseen : voter vote ∈ seen
      · rw [if_pos hseen]
        simp only [reduceCtorEq, false_iff]
        exact fun h => h.2.1 vote mem_cons_self hseen
      · rw [if_neg hseen]
        cases hchk : check vote with
        | error e =>
          simp only [reduceCtorEq, false_iff]
          intro h
          have hok := (hcheck vote _).mpr ⟨h.1.valid vote mem_cons_self, rfl⟩
          rw [hchk] at hok
          cases hok
        | ok stake =>
          obtain ⟨hvalid, hstake⟩ := (hcheck vote stake).mp hchk
          show countVotes consistent voter check (index + 1) (voter vote :: seen)
            (signing + stake) rest = .ok total ↔ _
          rw [ih]
          constructor
          · rintro ⟨hrest, hnew, hsum⟩
            refine ⟨⟨?_, ?_, ?_⟩, ?_, ?_⟩
            · exact forall_mem_cons.mpr ⟨hcons, hrest.agree⟩
            · rw [map_cons, nodup_cons]
              refine ⟨?_, hrest.distinct⟩
              rw [mem_map]
              rintro ⟨w, hw, heq⟩
              exact hnew w hw (heq ▸ mem_cons_self)
            · exact forall_mem_cons.mpr ⟨hvalid, hrest.valid⟩
            · exact forall_mem_cons.mpr ⟨hseen, fun w hw hmem => hnew w hw (mem_cons_of_mem _ hmem)⟩
            · rw [map_cons, sum_cons]; omega
          · rintro ⟨hall, hnew, hsum⟩
            have hdist := hall.distinct
            rw [map_cons, nodup_cons] at hdist
            rw [map_cons, sum_cons] at hsum
            refine ⟨⟨(forall_mem_cons.mp hall.agree).2, hdist.2,
              (forall_mem_cons.mp hall.valid).2⟩, ?_, by omega⟩
            intro w hw hmem
            rcases mem_cons.mp hmem with heq | hmem
            · exact hdist.1 (mem_map.mpr ⟨w, hw, heq⟩)
            · exact hnew w (mem_cons_of_mem _ hw) hmem
    · rw [if_pos (by simpa using hcons)]
      simp only [reduceCtorEq, false_iff]
      exact fun h => hcons (h.1.agree vote mem_cons_self)

/-- **When a certificate verifies**, for either kind of vote. -/
theorem verifyVotes_eq_ok

    {domain expected : ConsensusDomain} {setHash : Hash256} {votes : List V} {total : Nat} :
    verifyVotes consistent voter check domain expected setHash set votes = .ok total ↔
      domain = expected ∧ setHash = validatorSetHash set ∧ votes ≠ [] ∧
        CountedVotes consistent voter valid votes ∧
        (votes.map fun v => set.stakeOf (voter v)).sum = total ∧ set.quorum ≤ total := by
  unfold verifyVotes
  by_cases hdomain : domain = expected
  · rw [if_neg (not_not.mpr hdomain)]
    by_cases hset : setHash = validatorSetHash set
    · rw [if_neg (not_not.mpr hset)]
      by_cases hempty : votes = []
      · simp [hempty]
      rw [if_neg (by simpa using hempty)]
      cases hcount : countVotes consistent voter check 0 [] 0 votes with
      | error e =>
        simp only [reduceCtorEq, false_iff]
        rintro ⟨-, -, -, hall, hsum, -⟩
        have hok : countVotes consistent voter check 0 [] 0 votes = .ok (0 + _) :=
          (countVotes_eq_ok hcheck).mpr ⟨hall, fun v _ => not_mem_nil, rfl⟩
        rw [hcount] at hok
        cases hok
      | ok signing =>
        obtain ⟨hall, -, hsum⟩ := (countVotes_eq_ok hcheck).mp hcount
        dsimp only
        split
        · simp only [reduceCtorEq, false_iff]
          omega
        · rw [Except.ok.injEq]
          constructor
          · intro h
            exact ⟨hdomain, hset, hempty, hall, by omega, by omega⟩
          · omega
    · simp [hset]
  · simp [hdomain]

end

omit [Crypto] in
/-- The stake of distinct voters is the weight of the set of voters. -/
theorem CountedVotes.sum_eq_weight {votes : List V}
    (h : CountedVotes consistent voter valid votes) :
    (votes.map fun v => set.stakeOf (voter v)).sum =
      weight set.stakeOf (votes.map voter).toFinset := by
  rw [weight, sum_toFinset _ h.distinct, map_map]
  rfl

end Votes

end Verify

end ArcChain
