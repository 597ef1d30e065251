/-
An executable instance of the third-party parts of native inference.  Rows
are written with self-delimiting codecs, so every row is read back.
-/
import ArcChain.Native.Db
import ArcChain.State.Concrete

namespace ArcChain

namespace Concrete

/-- A byte. -/
def byteCodec : Codec UInt8 :=
  .fixed 1 (fun b => [b]) List.head? (fun _ => rfl) (fun _ => rfl)

def bytesCodec : Codec Bytes := byteCodec.list

/-- A signature: its scheme, then its parts. -/
def signatureCodec : Codec Signature :=
  (Codec.nat.pair (bytesCodec.pair bytesCodec)).via
    (fun
      | .ed25519 publicKey signature => (0, publicKey, signature)
      | .secp256k1 signature => (1, [], signature)
      | .mlDsa65 publicKey signature => (2, publicKey, signature)
      | .falcon512 publicKey signature => (3, publicKey, signature))
    (fun
      | (0, publicKey, signature) => some (.ed25519 publicKey signature)
      | (1, _, signature) => some (.secp256k1 signature)
      | (2, publicKey, signature) => some (.mlDsa65 publicKey signature)
      | (3, publicKey, signature) => some (.falcon512 publicKey signature)
      | _ => none)
    (by rintro (_ | _ | _ | _) <;> rfl)

def domainCodec : Codec InferenceDomain :=
  (hashCodec.pair (Codec.binary.pair hashCodec)).via
    (fun d => (d.chainGenesis, d.recoveryEpoch, d.validatorSetHash))
    (fun p => some ⟨p.1, p.2.1, p.2.2⟩) (fun _ => rfl)

/-- The hashes of a job, then its numbers. -/
def jobCodec : Codec InferenceJob :=
  (domainCodec.pair (((hashCodec.pair (hashCodec.pair hashCodec)).pair
      (hashCodec.pair (hashCodec.pair hashCodec))).pair
    (((Codec.binary.pair Codec.binary).pair (Codec.binary.pair Codec.binary)).pair
      (Codec.binary.pair (Codec.binary.pair Codec.binary))))).via
    (fun j => (j.domain, ((j.requester, j.modelHash, j.profileHash),
        (j.inputHash, j.generationHash, j.assignmentHash)),
      (((j.version, j.nonce), (j.maxTokens, j.maxOutputBytes)),
        (j.executionPrice, j.reservedMaxPayment, j.expiresAt))))
    (fun p => some ⟨p.2.2.1.1.1, p.1, p.2.1.1.1, p.2.2.1.1.2, p.2.1.1.2.1, p.2.1.1.2.2,
      p.2.1.2.1, p.2.1.2.2.1, p.2.1.2.2.2, p.2.2.1.2.1, p.2.2.1.2.2, p.2.2.2.1, p.2.2.2.2.1,
      p.2.2.2.2.2⟩) (fun _ => rfl)

def requestCodec : Codec InferenceRequest :=
  (jobCodec.pair signatureCodec).via (fun r => (r.job, r.requesterSignature))
    (fun p => some ⟨p.1, p.2⟩) (fun _ => rfl)

def voteCodec : Codec InferenceVote :=
  (hashCodec.pair (hashCodec.pair signatureCodec)).via
    (fun v => (v.validator, v.outputHash, v.signature)) (fun p => some ⟨p.1, p.2.1, p.2.2⟩)
    (fun _ => rfl)

def certificateCodec : Codec InferenceCertificate :=
  (bytesCodec.pair voteCodec.list).via (fun c => (c.output, c.votes)) (fun p => some ⟨p.1, p.2⟩)
    (fun _ => rfl)

def creditCodec : Codec SettlementCredit :=
  (hashCodec.pair Codec.binary).via (fun c => (c.payee, c.amount)) (fun p => some ⟨p.1, p.2⟩)
    (fun _ => rfl)

def statusCodec : Codec InferenceTransitionStatus :=
  Codec.nat.via (fun | .pending => 0 | .finalized => 1 | .refunded => 2)
    (fun | 0 => some .pending | 1 => some .finalized | 2 => some .refunded | _ => none)
    (by rintro (_ | _ | _) <;> rfl)

def metadataCodec : Codec InferenceMetadata :=
  ((hashCodec.pair (requestCodec.pair (bytesCodec.pair statusCodec))).pair
    (bytesCodec.pair (hashCodec.option.pair (certificateCodec.option.pair creditCodec.list)))).via
    (fun m => ((m.contextCommitment, m.request, m.inputBlob, m.status),
      (m.output, m.outputHash, m.certificate, m.credits)))
    (fun p => some ⟨p.1.1, p.1.2.1, p.1.2.2.1, p.1.2.2.2, p.2.1, p.2.2.1, p.2.2.2.1, p.2.2.2.2⟩)
    (fun _ => rfl)

def memberCodec : Codec ValidatorMember :=
  (hashCodec.pair Codec.binary).via (fun m => (m.address, m.stake)) (fun p => some ⟨p.1, p.2⟩)
    (fun _ => rfl)

def executionCodec : Codec AllowedExecution :=
  ((hashCodec.pair hashCodec).pair (hashCodec.pair hashCodec)).via
    (fun e => ((e.modelHash, e.profileHash), (e.generationHash, e.assignmentHash)))
    (fun p => some ⟨p.1.1, p.1.2, p.2.1, p.2.2⟩) (fun _ => rfl)

def legacyContextCodec : Codec LegacyAdmissionContext :=
  (domainCodec.pair (memberCodec.list.pair executionCodec.list)).via
    (fun c => (c.domain, c.members, c.allowedExecutions)) (fun p => some ⟨p.1, p.2.1, p.2.2⟩)
    (fun _ => rfl)

def ruleCodec : Codec NativeSelectionRule :=
  Codec.nat.via (fun | .countEveryCandidateV1 => 0 | .skipUsedNoncesV2 => 1)
    (fun | 0 => some .countEveryCandidateV1 | 1 => some .skipUsedNoncesV2 | _ => none)
    (by rintro (_ | _) <;> rfl)

/-- The longer layout is the shorter one followed by the rule. -/
def contextCodec : Codec InferenceAdmissionContext :=
  (legacyContextCodec.pair ruleCodec).via
    (fun c => (⟨c.domain, c.members, c.allowedExecutions⟩, c.selectionRule))
    (fun p => some ⟨p.1.domain, p.1.members, p.1.allowedExecutions, p.2⟩) (fun _ => rfl)

def migrationCodec : Codec NativeMigrationRecord :=
  (hashCodec.pair (Codec.binary.pair (Codec.binary.pair (Codec.binary.pair hashCodec)))).via
    (fun r => (r.chainGenesis, r.recoveryEpoch, r.validatorSetId, r.activationHeight,
      r.contextCommitment))
    (fun p => some ⟨p.1, p.2.1, p.2.2.1, p.2.2.2.1, p.2.2.2.2⟩) (fun _ => rfl)

/-- Read a whole row. -/
def read {α : Type} (c : Codec α) (bytes : Bytes) : Except String α :=
  match c.exact bytes with
  | some a => .ok a
  | none => .error "malformed row"

theorem read_encode {α : Type} (c : Codec α) (a : α) : read c (c.encode a) = .ok a := by
  unfold read
  rw [c.exact_encode]

/-- The shorter layout ends where the rule of the longer one is read. -/
theorem read_short (c : LegacyAdmissionContext) :
    read contextCodec (legacyContextCodec.encode c) = .error "malformed row" := by
  have hread := legacyContextCodec.decode_encode c []
  rw [List.append_nil] at hread
  have hdecode : contextCodec.decode (legacyContextCodec.encode c) = none := by
    show ((((legacyContextCodec.decode (legacyContextCodec.encode c)).bind fun p =>
      (ruleCodec.decode p.2).map fun q => ((p.1, q.1), q.2))).bind _) = none
    rw [hread]
    rfl
  unfold read Codec.exact
  rw [hdecode]

end Concrete

open Concrete in
/-- The executable instance. -/
def concreteNative : NativeExternals where
  toExternals := concreteExternals
  serializeMetadata m := .ok (metadataCodec.encode m)
  deserializeMetadata := read metadataCodec
  serializeRecord r := .ok (metadataCodec.encode r.metadata)
  serializeContext c := .ok (contextCodec.encode c)
  deserializeContext := read contextCodec
  serializeLegacyContext c := .ok (legacyContextCodec.encode c)
  deserializeLegacyContext := read legacyContextCodec
  serializeMigration r := .ok (migrationCodec.encode r)
  deserializeMigration := read migrationCodec
  jmtStateRoot _ := .zero
  inclusionProof _ _ := none
  deserialize_metadata m bytes h _ := by
    cases h
    exact read_encode metadataCodec m
  deserialize_context c bytes h _ := by
    cases h
    exact read_encode contextCodec c
  deserialize_legacyContext c bytes h _ := by
    cases h
    exact read_encode legacyContextCodec c
  deserialize_migration r bytes h _ := by
    cases h
    exact read_encode migrationCodec r
  deserialize_short c bytes h := by
    cases h
    exact ⟨_, read_short c⟩

end ArcChain
