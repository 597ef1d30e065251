/-
The anti-equivocation record of a validator (`ConsensusSigningRecord`), its
versioned file format and the functions that read it back.  The payload
codec is third-party code (`Bincode`): it is assumed to give back what it
was given (`Bincode.RoundTrip`), and `concreteBincode` is an executable
codec that does.
-/
import ArcChain.Consensus.ViewChange

namespace ArcChain

/-- `RECORD_PRUNE_EVERY` -/
def recordPruneEvery : Nat := 128

/-- `FINALITY_RECORD_MARGIN` -/
def finalityRecordMargin : Nat := 256

/-- What a finality transcript says: block hash, state root, transaction root. -/
abbrev FinalityIdentity := Hash256 × Hash256 × Hash256

structure ConsensusSigningRecord where
  skippedRounds : AssocMap Nat (AssocMap Address AbsenceReason)
  finalityVotes : AssocMap Nat FinalityIdentity
  lastAppliedRound : Option Nat
deriving DecidableEq

namespace ConsensusSigningRecord

/-- `ConsensusSigningRecord::default` -/
def empty : ConsensusSigningRecord :=
  { skippedRounds := ∅, finalityVotes := ∅, lastAppliedRound := none }

/-- `prune` -/
def prune (finalityFloorHeight absenceFloorRound : Nat) (record : ConsensusSigningRecord) :
    ConsensusSigningRecord :=
  { record with
    finalityVotes :=
      AssocMap.retain (fun height _ => decide (finalityFloorHeight ≤ height)) record.finalityVotes
    skippedRounds :=
      AssocMap.retain (fun round _ => decide (absenceFloorRound ≤ round)) record.skippedRounds }

/-- `note_durable_commit_round` -/
def noteDurableCommitRound (round : Nat) (record : ConsensusSigningRecord) :
    ConsensusSigningRecord :=
  match record.lastAppliedRound with
  | none => { record with lastAppliedRound := some round }
  | some applied =>
    if applied < round then { record with lastAppliedRound := some round } else record

/-- `note_finality_vote` -/
def noteFinalityVote (height : Nat) (identity : FinalityIdentity)
    (record : ConsensusSigningRecord) : ConsensusSigningRecord :=
  { record with finalityVotes := AList.insert height identity record.finalityVotes }

/-- What `sign_if_permitted` and `adopt_certificate` write about an absent member. -/
def noteAbsence (round : Nat) (member : Address) (reason : AbsenceReason)
    (record : ConsensusSigningRecord) : ConsensusSigningRecord :=
  { record with
    skippedRounds := AssocMap.insertIn record.skippedRounds round member reason }

theorem lookup_prune {record : ConsensusSigningRecord} {finalityFloor absenceFloor height : Nat}
    {identity : FinalityIdentity} :
    (record.prune finalityFloor absenceFloor).finalityVotes.lookup height = some identity ↔
      record.finalityVotes.lookup height = some identity ∧ finalityFloor ≤ height := by
  rw [prune, AssocMap.lookup_retain_eq_some, decide_eq_true_iff]

theorem lookup_noteFinalityVote (record : ConsensusSigningRecord) (height height' : Nat)
    (identity : FinalityIdentity) :
    (record.noteFinalityVote height identity).finalityVotes.lookup height' =
      if height' = height then some identity else record.finalityVotes.lookup height' :=
  AssocMap.lookup_insert _ _ _ _

@[simp] theorem finalityVotes_noteDurableCommitRound (record : ConsensusSigningRecord)
    (round : Nat) :
    (record.noteDurableCommitRound round).finalityVotes = record.finalityVotes := by
  rw [noteDurableCommitRound]
  split
  · rfl
  · split <;> rfl

/-- Two records that answer every lookup alike. -/
structure Same (r r' : ConsensusSigningRecord) : Prop where
  skipped : ∀ round member, (AssocMap.bucket r.skippedRounds round).lookup member =
    (AssocMap.bucket r'.skippedRounds round).lookup member
  finality : ∀ height, r.finalityVotes.lookup height = r'.finalityVotes.lookup height
  applied : r.lastAppliedRound = r'.lastAppliedRound

end ConsensusSigningRecord

/-- `LegacySigningRecordV1` -/
structure LegacySigningRecordV1 where
  skippedRounds : AssocMap Nat (AssocMap Address AbsenceReason)
  finalityVotes : AssocMap Nat FinalityIdentity
  durableCommitRound : Nat

/-- A zero does not tell an applied round 0 from none. -/
def LegacySigningRecordV1.migrate (legacy : LegacySigningRecordV1) : ConsensusSigningRecord :=
  { skippedRounds := legacy.skippedRounds
    finalityVotes := legacy.finalityVotes
    lastAppliedRound :=
      if 0 < legacy.durableCommitRound then some legacy.durableCommitRound else none }

/-- The payload codec: `bincode::serialize` and `bincode::deserialize`. -/
class Bincode where
  serialize : ConsensusSigningRecord → List UInt8
  deserialize : List UInt8 → Except String ConsensusSigningRecord
  deserializeLegacy : List UInt8 → Except String LegacySigningRecordV1

/-- `SigningRecordError` -/
inductive SigningRecordError where
  | truncated
  | unknownVersion (version : UInt8)
  | malformed (error : String)
deriving DecidableEq, Repr

/-- `SIGNING_RECORD_MAGIC` -/
def signingRecordMagic : List UInt8 := "ARC-SIGNREC".toUTF8.toList

/-- `SIGNING_RECORD_VERSION` -/
def signingRecordVersion : UInt8 := 2

section Format

variable [Bincode]

/-- `encode` -/
def ConsensusSigningRecord.encode (record : ConsensusSigningRecord) : List UInt8 :=
  signingRecordMagic ++ signingRecordVersion :: Bincode.serialize record

/-- `decode` -/
def ConsensusSigningRecord.decode (bytes : List UInt8) :
    Except SigningRecordError ConsensusSigningRecord :=
  if signingRecordMagic.isPrefixOf bytes then
    match bytes.drop signingRecordMagic.length with
    | [] => .error .truncated
    | version :: payload =>
      if version ≠ signingRecordVersion then .error (.unknownVersion version)
      else (Bincode.deserialize payload).mapError .malformed
  else ((Bincode.deserializeLegacy bytes).mapError .malformed).map LegacySigningRecordV1.migrate

/-- The payload codec gives back a record that answers every lookup as before. -/
def Bincode.RoundTrip : Prop :=
  ∀ record, ∃ record', Bincode.deserialize (Bincode.serialize record) = .ok record' ∧
    record'.Same record

/-- A written record reads back. -/
theorem ConsensusSigningRecord.decode_encode (h : Bincode.RoundTrip)
    (record : ConsensusSigningRecord) :
    ∃ record', decode record.encode = .ok record' ∧ record'.Same record := by
  obtain ⟨record', hread, hsame⟩ := h record
  refine ⟨record', ?_, hsame⟩
  have hprefix : signingRecordMagic.isPrefixOf record.encode = true :=
    List.isPrefixOf_iff_prefix.mpr (List.prefix_append _ _)
  have hdrop : record.encode.drop signingRecordMagic.length =
      signingRecordVersion :: Bincode.serialize record := List.drop_left
  rw [decode, if_pos hprefix, hdrop]
  show (if signingRecordVersion ≠ signingRecordVersion then _ else _) = _
  rw [hread]
  rfl

/-- The bytes are a record that promises `identity` at `height`. -/
def Promises (height : Nat) (identity : FinalityIdentity) (bytes : List UInt8) : Prop :=
  ∃ record, ConsensusSigningRecord.decode bytes = .ok record ∧
    record.finalityVotes.lookup height = some identity

theorem promises_encode (h : Bincode.RoundTrip) {record : ConsensusSigningRecord} {height : Nat}
    {identity : FinalityIdentity} (hrecord : record.finalityVotes.lookup height = some identity) :
    Promises height identity record.encode := by
  obtain ⟨record', hdecode, hsame⟩ := ConsensusSigningRecord.decode_encode h record
  refine ⟨record', hdecode, ?_⟩
  rw [hsame.finality height, hrecord]

end Format

/-! ## An executable codec -/

namespace Concrete

def reasonCodec : Codec AbsenceReason :=
  Codec.nat.via (fun _ => 0) (fun _ => some .noBlock) (fun reason => by cases reason; rfl)

/-- A record is the triple of its fields. -/
def recordCodec : Codec ConsensusSigningRecord :=
  (((Codec.nat.assocMap (hashCodec.assocMap reasonCodec)).pair
      (Codec.nat.assocMap (hashCodec.pair (hashCodec.pair hashCodec)))).pair Codec.nat.option).via
    (fun record => ((record.skippedRounds, record.finalityVotes), record.lastAppliedRound))
    (fun fields => some ⟨fields.1.1, fields.1.2, fields.2⟩) (fun _ => rfl)

end Concrete

/-- An executable payload codec; it writes no legacy files, so it reads none. -/
def concreteBincode : Bincode where
  serialize := Concrete.recordCodec.encode
  deserialize bytes :=
    match Concrete.recordCodec.decode bytes with
    | some (record, []) => .ok record
    | _ => .error "malformed record"
  deserializeLegacy _ := .error "malformed record"

theorem concreteBincode_roundTrip : @Bincode.RoundTrip concreteBincode := by
  intro record
  have hread := Concrete.recordCodec.decode_encode record []
  rw [List.append_nil] at hread
  refine ⟨record, ?_, fun _ _ => rfl, fun _ => rfl, rfl⟩
  show (match Concrete.recordCodec.decode (Concrete.recordCodec.encode record) with
    | some (record, []) => Except.ok record
    | _ => Except.error "malformed record") = _
  rw [hread]

end ArcChain
