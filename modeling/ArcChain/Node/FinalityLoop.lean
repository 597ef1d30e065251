/-
The commit loop of a validator as far as it concerns finality votes: block
production, the local commit record, bounded retention, the attestation
with its persist-then-sign order, and the file system calls of
`persist_signing_record` one by one.  The process may die and the power may
fail between any two of these steps.

`Node.Safe` says what makes the order sufficient: a vote that was emitted
for a height that can still be produced again is promised by every record a
power cut can leave on disk, and by the record in memory.  Every step keeps
it, so no height is ever voted on twice with different contents.
-/
import ArcChain.Lib.AtomicFile
import ArcChain.Lib.Run
import ArcChain.Node.SigningRecord

namespace ArcChain

open ConsensusSigningRecord List Option

/-- A canonical block as the attestation reads it. -/
structure CanonicalBlock where
  height : Nat
  identity : FinalityIdentity
deriving DecidableEq, Repr

/-- The file system calls of `persist_signing_record`, in order. -/
inductive FileCall where
  | create
  | write
  | sync
  | rename
  | openDirectory
  | syncDirectory
deriving DecidableEq, Repr

namespace FileCall

def next : FileCall → Option FileCall
  | create => some write
  | write => some sync
  | sync => some rename
  | rename => some openDirectory
  | openDirectory => some syncDirectory
  | syncDirectory => none

/-- The effect of a call that succeeds. -/
def run (bytes : List UInt8) : FileCall → AtomicFile → AtomicFile
  | create, file => file.create
  | write, file => file.write bytes
  | sync, file => file.sync
  | rename, file => file.rename
  | openDirectory, file => file
  | syncDirectory, file => file.syncDirectory

/-- The effect of a call that fails: a failed write leaves some bytes behind. -/
def fail (left : List UInt8) : FileCall → AtomicFile → AtomicFile
  | write, file => file.write left
  | _, file => file

end FileCall

section Model

variable [Crypto]

variable {call : FileCall}

/-- What the attestation signs with: the certificate domain, the frozen validator-set hash
    and the local key. -/
structure Signer where
  domain : ConsensusDomain
  validatorSetHash : Hash256
  keypair : Crypto.KeyPair

/-- Where in the loop the record is persisted. -/
inductive PersistCaller where
  | reofferedAnchor
  | absence
  | checkpoint
  | commitRecord (block : CanonicalBlock)
  | finalityVote (block : CanonicalBlock) (signer : Signer)

/-- Where the loop stands. -/
inductive LoopPoint where
  /-- between two committed blocks -/
  | idle
  /-- inside `persist_signing_record`, before a file system call -/
  | persist (record : ConsensusSigningRecord) (call : FileCall) (caller : PersistCaller)
  /-- before bounded retention -/
  | retention (block : CanonicalBlock)
  /-- before the finality attestation -/
  | attestation (block : CanonicalBlock)
  /-- the promise is durable, the vote not yet signed -/
  | sign (block : CanonicalBlock) (signer : Signer)
  /-- signed, not yet handed to the network and the local collector -/
  | emit (vote : FinalityVote)

/-- The memory of a running node: lost whenever the process ends. -/
structure Process where
  /-- the record inside `skip_tracker` -/
  tracker : Option ConsensusSigningRecord
  finalitySignedHeights : List Nat
  point : LoopPoint

def Process.start : Process := { tracker := none, finalitySignedHeights := [], point := .idle }

/-- A validator: its process if it runs, its state height, its record file and, as history,
    the votes it emitted and the highest height it produced a block at. -/
structure Node where
  hasRecordPath : Bool
  process : Option Process
  height : Nat
  file : AtomicFile
  emitted : List FinalityVote
  highestReached : Nat

/-- What the environment decides at each step. -/
inductive NodeEvent where
  /-- the process starts, its state restored at `height` -/
  | restart (height : Nat)
  /-- `skip_tracker` is built from the record on disk -/
  | loadTracker
  /-- an absence is attested or adopted -/
  | recordAbsence (round : Nat) (member : Address) (reason : AbsenceReason)
  /-- a verified checkpoint is adopted -/
  | adoptCheckpoint (height round : Nat)
  /-- a committed anchor was already applied -/
  | reofferAnchor (round : Nat)
  /-- a committed block is executed -/
  | produce (identity : FinalityIdentity) (round : Nat)
  /-- the next file system call succeeds -/
  | callSucceeds
  /-- the next file system call fails -/
  | callFails (left : List UInt8)
  /-- bounded retention -/
  | retain (absenceFloor : Nat)
  /-- the finality attestation, with what there is to sign with -/
  | attest (signer : Option Signer)
  | sign
  | emit
  /-- the process dies -/
  | crash
  /-- the power fails -/
  | powerCut (lost : Nat) (torn : List UInt8) (temporary : Option FileImage)

variable [Bincode]

namespace Node

/-- `load_signing_record`; a record that does not parse is fatal. -/
def loadSigningRecord (n : Node) : Option ConsensusSigningRecord :=
  if n.hasRecordPath then
    match n.file.read with
    | some bytes => (ConsensusSigningRecord.decode bytes).toOption
    | none => some .empty
  else some .empty

/-- The loop goes on with this memory. -/
def run (n : Node) (p : Process) : Node := { n with process := some p }

/-- The process ends. -/
def stop (n : Node) : Node := { n with process := none }

/-- Where `persist_signing_record` returns to. -/
def finishPersist (n : Node) (p : Process) (persisted : Bool) : PersistCaller → Node
  | .reofferedAnchor => n.run { p with point := .idle }
  | .absence => n.run { p with point := .idle }
  | .checkpoint =>
    -- an adopted checkpoint whose commit record is not durable is fatal
    if ¬ persisted ∧ n.hasRecordPath then n.stop else n.run { p with point := .idle }
  | .commitRecord block => n.run { p with point := .retention block }
  | .finalityVote block signer =>
    if persisted then n.run { p with point := .sign block signer }
    else
      n.run { p with
        finalitySignedHeights := p.finalitySignedHeights.erase block.height
        point := .idle }

/-- The call of `persist_signing_record`; without a path it fails at once. -/
def startPersist (n : Node) (p : Process) (record : ConsensusSigningRecord)
    (caller : PersistCaller) : Node :=
  if n.hasRecordPath then n.run { p with point := .persist record .create caller }
  else n.finishPersist p false caller

/-- Change the tracker's record and persist it. -/
def updateAndPersist (n : Node) (p : Process) (record : ConsensusSigningRecord)
    (caller : PersistCaller) : Node :=
  n.startPersist { p with tracker := some record } record caller

/-- A file system call of `persist_signing_record`. -/
def fileCall (n : Node) (p : Process) (record : ConsensusSigningRecord) (call : FileCall)
    (caller : PersistCaller) : Node :=
  let n := { n with file := call.run record.encode n.file }
  match call.next with
  | some following => n.run { p with point := .persist record following caller }
  | none => n.finishPersist p true caller

/-- Bounded retention after `block`. -/
def retain (n : Node) (p : Process) (block : CanonicalBlock) (absenceFloor : Nat) : Node :=
  if 0 < block.height ∧ block.height % recordPruneEvery = 0 then
    let finalityFloor := block.height - finalityRecordMargin
    n.run { p with
      tracker := p.tracker.map (·.prune finalityFloor absenceFloor)
      finalitySignedHeights := p.finalitySignedHeights.filter (finalityFloor ≤ ·)
      point := .attestation block }
  else n.run { p with point := .attestation block }

/-- The finality attestation of `block`, up to the call that persists the promise. -/
def attest (n : Node) (p : Process) (block : CanonicalBlock) (record : ConsensusSigningRecord)
    (signer : Signer) : Node :=
  if block.height ∈ p.finalitySignedHeights then n.run { p with point := .idle }
  else
    let p := { p with finalitySignedHeights := block.height :: p.finalitySignedHeights }
    let promise :=
      n.updateAndPersist p (record.noteFinalityVote block.height block.identity)
        (.finalityVote block signer)
    match record.finalityVotes.lookup block.height with
    | some existing =>
      -- a second, different transcript for one height is refused
      if existing ≠ block.identity then n.run { p with point := .idle } else promise
    | none => promise

/-- A step of the running process. -/
def processStep (n : Node) (p : Process) : LoopPoint → NodeEvent → Option Node
  | .idle, .loadTracker =>
    match p.tracker, n.loadSigningRecord with
    | some _, _ => none
    | none, some record => some (n.run { p with tracker := some record, point := .idle })
    | none, none => some n.stop
  | .idle, .recordAbsence round member reason =>
    p.tracker.map fun record =>
      n.updateAndPersist p (record.noteAbsence round member reason) .absence
  | .idle, .adoptCheckpoint height round =>
    if n.height < height then
      let n := { n with height := height }
      match p.tracker with
      | some record =>
        some (n.updateAndPersist p (record.noteDurableCommitRound round) .checkpoint)
      | none =>
        match n.loadSigningRecord with
        | some record =>
          some (n.startPersist p (record.noteDurableCommitRound round) .checkpoint)
        | none => some n.stop
    else none
  | .idle, .reofferAnchor round =>
    match p.tracker with
    | some record =>
      some (n.updateAndPersist p (record.noteDurableCommitRound round) .reofferedAnchor)
    | none => some (n.run { p with point := .idle })
  | .idle, .produce identity round =>
    let block : CanonicalBlock := { height := n.height + 1, identity }
    let n := { n with
      height := block.height
      highestReached := max n.highestReached block.height }
    match p.tracker with
    | some record =>
      some (n.updateAndPersist p (record.noteDurableCommitRound round) (.commitRecord block))
    | none => some (n.run { p with point := .retention block })
  | .persist record call caller, .callSucceeds => some (n.fileCall p record call caller)
  | .persist _ call caller, .callFails left =>
    some ({ n with file := call.fail left n.file }.finishPersist p false caller)
  | .retention block, .retain absenceFloor => some (n.retain p block absenceFloor)
  | .attestation block, .attest signer =>
    match signer, p.tracker with
    | some signer, some record => some (n.attest p block record signer)
    | _, _ => some (n.run { p with point := .idle })
  | .sign block signer, .sign =>
    match FinalityVote.sign signer.domain signer.validatorSetHash block.height
      block.identity.1 block.identity.2.1 block.identity.2.2 signer.keypair with
    | .ok vote => some (n.run { p with point := .emit vote })
    | .error _ => some (n.run { p with point := .idle })
  | .emit vote, .emit =>
    some ({ n with emitted := vote :: n.emitted }.run { p with point := .idle })
  | _, _ => none

/-- A step of the node: starts, ends and power cuts at any point, else the process's own. -/
def step (n : Node) : NodeEvent → Option Node
  | .restart height =>
    match n.process with
    | none => some ({ n with height := height }.run .start)
    | some _ => none
  | .crash => some n.stop
  | .powerCut lost torn temporary =>
    some { n.stop with file := n.file.powerCut lost torn temporary }
  | event => n.process.bind fun p => n.processStep p p.point event

end Node

/-! ## The invariant -/

namespace FileCall

/-- What the file looks like before each call when `bytes` are being persisted. -/
def Ready (bytes : List UInt8) (file : AtomicFile) : FileCall → Prop
  | create => True
  | write => True
  | sync => file.temporary = some ⟨bytes, false⟩
  | rename => file.temporary = some ⟨bytes, true⟩
  | openDirectory => file.renamed.head? = some ⟨bytes, true⟩
  | syncDirectory => file.renamed.head? = some ⟨bytes, true⟩

variable {file : AtomicFile} {bytes : List UInt8}

omit [Crypto] [Bincode] in
/-- A call that succeeds prepares the next one. -/
theorem Ready.run {following : FileCall}
    (h : call.Ready bytes file) (hnext : call.next = some following) :
    following.Ready bytes (call.run bytes file) := by
  cases call with
  | create =>
    obtain rfl := some.inj hnext
    trivial
  | write =>
    obtain rfl := some.inj hnext
    rfl
  | sync =>
    obtain rfl := some.inj hnext
    have htemp : file.temporary = some ⟨bytes, false⟩ := h
    show file.sync.temporary = _
    rw [AtomicFile.sync, htemp]
    rfl
  | rename =>
    obtain rfl := some.inj hnext
    have htemp : file.temporary = some ⟨bytes, true⟩ := h
    show file.rename.renamed.head? = _
    rw [AtomicFile.rename, htemp]
    rfl
  | openDirectory =>
    obtain rfl := some.inj hnext
    exact h
  | syncDirectory => cases hnext

variable {P : List UInt8 → Prop}

omit [Crypto] [Bincode] in
/-- A call keeps what every surviving file satisfies, if the new contents do too. -/
theorem holds_run (hready : call.Ready bytes file) (hP : P bytes) (h : file.Holds P) :
    (call.run bytes file).Holds P := by
  cases call with
  | create | write | sync => exact h.congr rfl rfl
  | rename => exact h.rename hready hP
  | openDirectory => exact h
  | syncDirectory => exact h.syncDirectory

omit [Crypto] [Bincode] in
theorem holds_fail {left : List UInt8} (h : file.Holds P) : (call.fail left file).Holds P := by
  cases call with
  | write => exact h.congr rfl rfl
  | create | sync | rename | openDirectory | syncDirectory => exact h

omit [Crypto] [Bincode] in
/-- The last call makes the contents durable. -/
theorem holds_run_last (hready : call.Ready bytes file) (hlast : call.next = none) (hP : P bytes) :
    (call.run bytes file).Holds P := by
  cases call with
  | syncDirectory => exact AtomicFile.holds_syncDirectory_of_renamed hready hP
  | create | write | sync | rename | openDirectory => exact absurd hlast (some_ne_none _)

end FileCall

namespace Node

variable {record : ConsensusSigningRecord} {caller : PersistCaller} {block : CanonicalBlock}

/-- A height at which the node may still produce a block. -/
def Live (n : Node) (height : Nat) : Prop := n.highestReached ≤ height + finalityRecordMargin

/-- The record promises every vote that was emitted for a live height. -/
def Remembers (n : Node) (record : ConsensusSigningRecord) : Prop :=
  ∀ v ∈ n.emitted, n.Live v.height → record.finalityVotes.lookup v.height = some v.statement

/-- What holds whether or not the process runs. -/
structure Sound (n : Node) : Prop where
  once : ∀ v ∈ n.emitted, ∀ w ∈ n.emitted, v.height = w.height → v.statement = w.statement
  path : ∀ v ∈ n.emitted, n.hasRecordPath = true
  durable : ∀ v ∈ n.emitted, n.Live v.height → n.file.Holds (Promises v.height v.statement)

/-- The height is promised in memory and on disk, whatever survives. -/
def Promised (n : Node) (p : Process) (height : Nat) (identity : FinalityIdentity) : Prop :=
  n.hasRecordPath = true ∧ n.Live height ∧
    (∃ record, p.tracker = some record ∧ record.finalityVotes.lookup height = some identity) ∧
    n.file.Holds (Promises height identity)

/-- What a block being processed satisfies. -/
def Current (n : Node) (block : CanonicalBlock) : Prop :=
  n.Live block.height ∧ block.height ≤ n.highestReached

/-- What holds at the call site that will continue after a persist. -/
def CallerSafe (n : Node) (p : Process) (record : ConsensusSigningRecord) :
    PersistCaller → Prop
  | .commitRecord block => n.Current block
  | .finalityVote block _ => n.Current block ∧ p.tracker = some record ∧
      record.finalityVotes.lookup block.height = some block.identity
  | .reofferedAnchor | .absence | .checkpoint => True

/-- What holds at each point of the loop. -/
def PointSafe (n : Node) (p : Process) : LoopPoint → Prop
  | .idle => True
  | .persist record call caller => n.hasRecordPath = true ∧ n.Remembers record ∧
      call.Ready record.encode n.file ∧ n.CallerSafe p record caller
  | .retention block => n.Current block
  | .attestation block => n.Current block
  | .sign block _ => n.Promised p block.height block.identity
  | .emit vote => n.Promised p vote.height vote.statement

/-- What holds of the memory of a running process at every point. -/
structure MemorySafe (n : Node) (tracker : Option ConsensusSigningRecord) : Prop where
  resume : n.highestReached ≤ n.height + 1 + finalityRecordMargin
  remembers : ∀ record, tracker = some record → n.Remembers record

/-- What holds of a running process. -/
structure ProcessSafe (n : Node) (p : Process) : Prop where
  memory : n.MemorySafe p.tracker
  point : n.PointSafe p p.point

/-- The invariant of the node. -/
structure Safe (n : Node) : Prop where
  sound : n.Sound
  running : ∀ p, n.process = some p → n.ProcessSafe p

variable {n : Node} {p : Process}

section

variable (h : n.Sound)
include h

theorem safe_stop : n.stop.Safe where
  sound := ⟨h.once, h.path, h.durable⟩
  running p hp := by cases hp

theorem safe_run (hp : n.ProcessSafe p) : (n.run p).Safe where
  sound := ⟨h.once, h.path, h.durable⟩
  running p' hp' := by
    obtain rfl := some.inj hp'
    exact ⟨⟨hp.memory.resume, hp.memory.remembers⟩, hp.point⟩

section

variable (hmemory : n.MemorySafe p.tracker)
include hmemory

/-- Returning from a persist that did not make the promise durable. -/
theorem safe_finishPersist_false
    (hcaller : n.CallerSafe p record caller) : (n.finishPersist p false caller).Safe := by
  cases caller with
  | reofferedAnchor | absence => exact safe_run h ⟨hmemory, trivial⟩
  | checkpoint =>
    rw [finishPersist]
    split
    · exact safe_stop h
    · exact safe_run h ⟨hmemory, trivial⟩
  | commitRecord block => exact safe_run h ⟨hmemory, hcaller⟩
  | finalityVote block signer => exact safe_run h ⟨hmemory, trivial⟩

/-- Returning from a persist that made the record durable. -/
theorem safe_finishPersist_true (hpath : n.hasRecordPath = true) (record : ConsensusSigningRecord)
    (hcaller : n.CallerSafe p record caller)
    (hdurable : ∀ height identity, record.finalityVotes.lookup height = some identity →
      n.file.Holds (Promises height identity)) : (n.finishPersist p true caller).Safe := by
  cases caller with
  | reofferedAnchor | absence => exact safe_run h ⟨hmemory, trivial⟩
  | checkpoint =>
    exact safe_run h ⟨hmemory, trivial⟩
  | commitRecord block => exact safe_run h ⟨hmemory, hcaller⟩
  | finalityVote block signer =>
    obtain ⟨hcurrent, htracker, hlookup⟩ := hcaller
    exact safe_run h ⟨hmemory, hpath, hcurrent.1, ⟨record, htracker, hlookup⟩, hdurable _ _ hlookup⟩

/-- Starting to persist a record that remembers every live vote. -/
theorem safe_startPersist (hrecord : n.Remembers record) (hcaller : n.CallerSafe p record caller) :
    (n.startPersist p record caller).Safe := by
  rw [startPersist]
  split
  · rename_i hpath
    exact safe_run h ⟨⟨hmemory.resume, hmemory.remembers⟩, hpath, hrecord, trivial, hcaller⟩
  · exact safe_finishPersist_false h hmemory hcaller

end

/-- The same when the record being persisted is the tracker's. -/
theorem safe_updateAndPersist (hresume : n.highestReached ≤ n.height + 1 + finalityRecordMargin)
    (hrecord : n.Remembers record)
    (hcaller : n.CallerSafe { p with tracker := some record } record caller) :
    (n.updateAndPersist p record caller).Safe := by
  refine safe_startPersist h ⟨hresume, ?_⟩ hrecord hcaller
  intro record' heq
  obtain rfl := some.inj heq
  exact hrecord

/-! ### One step -/

end

omit [Bincode] in
theorem Remembers.congr {record' : ConsensusSigningRecord} (h : n.Remembers record)
    (heq : record'.finalityVotes = record.finalityVotes) : n.Remembers record' := by
  intro v hv hlive
  rw [heq]
  exact h v hv hlive

/-- What is read back from disk remembers every live vote. -/
theorem Sound.remembers_load (h : n.Sound) (hload : n.loadSigningRecord = some record) :
    n.Remembers record := by
  intro v hv hlive
  obtain ⟨bytes, hread, record', hdecode, hlookup⟩ := (h.durable v hv hlive).read
  rw [loadSigningRecord, if_pos (h.path v hv), hread] at hload
  have heq : (ConsensusSigningRecord.decode bytes).toOption = some record := hload
  rw [hdecode] at heq
  obtain rfl := some.inj heq
  exact hlookup

/-- The node moves up: fewer heights are live. -/
def reach (n : Node) (height highest : Nat) : Node :=
  { n with height := height, highestReached := highest }

theorem Sound.reach (h : n.Sound) {height highest : Nat} (hle : n.highestReached ≤ highest) :
    (n.reach height highest).Sound where
  once := h.once
  path := h.path
  durable v hv hlive := h.durable v hv (le_trans hle hlive)

omit [Bincode] in
theorem Remembers.reach (h : n.Remembers record) {height highest : Nat}
    (hle : n.highestReached ≤ highest) :
    (n.reach height highest).Remembers record :=
  fun v hv hlive => h v hv (le_trans hle hlive)

/-- A file system call that succeeds. -/
theorem safe_fileCall (hcodec : Bincode.RoundTrip) (h : n.Sound) (hmemory : n.MemorySafe p.tracker)
    (hpoint : n.PointSafe p (.persist record call caller)) :
    (n.fileCall p record call caller).Safe := by
  obtain ⟨hpath, hrecord, hready, hcaller⟩ := hpoint
  have hsound : ({ n with file := call.run record.encode n.file } : Node).Sound :=
    { once := h.once
      path := h.path
      durable := fun v hv hlive =>
        FileCall.holds_run hready (promises_encode hcodec (hrecord v hv hlive))
          (h.durable v hv hlive) }
  rw [fileCall]
  split
  · rename_i following hnext
    exact safe_run hsound
      ⟨⟨hmemory.resume, hmemory.remembers⟩, hpath, hrecord, hready.run hnext, hcaller⟩
  · rename_i hlast
    refine safe_finishPersist_true hsound ⟨hmemory.resume, hmemory.remembers⟩ hpath
      record hcaller ?_
    intro height identity hlookup
    exact FileCall.holds_run_last hready hlast (promises_encode hcodec hlookup)

/-- A file system call that fails. -/
theorem safe_callFails (h : n.Sound) (hmemory : n.MemorySafe p.tracker)
    (hpoint : n.PointSafe p (.persist record call caller)) (left : List UInt8) :
    ({ n with file := call.fail left n.file }.finishPersist p false caller).Safe := by
  have hsound : ({ n with file := call.fail left n.file } : Node).Sound :=
    { once := h.once
      path := h.path
      durable := fun v hv hlive => FileCall.holds_fail (h.durable v hv hlive) }
  have hcaller : ({ n with file := call.fail left n.file } : Node).CallerSafe p record caller :=
    hpoint.2.2.2
  exact safe_finishPersist_false hsound ⟨hmemory.resume, hmemory.remembers⟩ hcaller

omit [Bincode] in
/-- Retention forgets no vote at a live height: its floor is the margin below a height the
    node has reached. -/
theorem Remembers.prune (h : n.Remembers record) (hblock : n.Current block) (absenceFloor : Nat) :
    n.Remembers (record.prune (block.height - finalityRecordMargin) absenceFloor) := by
  intro v hv hlive
  have hreached : block.height ≤ n.highestReached := hblock.2
  have hle : n.highestReached ≤ v.height + finalityRecordMargin := hlive
  have hfloor : block.height - finalityRecordMargin ≤ v.height := by omega
  exact lookup_prune.mpr ⟨h v hv hlive, hfloor⟩

theorem safe_retain (h : n.Sound) (hmemory : n.MemorySafe p.tracker) (hblock : n.Current block)
    (absenceFloor : Nat) : (n.retain p block absenceFloor).Safe := by
  rw [retain]
  split
  · refine safe_run h ⟨⟨hmemory.resume, ?_⟩, hblock⟩
    intro record' heq
    obtain ⟨record, htracker, rfl⟩ := map_eq_some_iff.mp heq
    exact (hmemory.remembers record htracker).prune hblock absenceFloor
  · exact safe_run h ⟨hmemory, hblock⟩

omit [Bincode] in
/-- Noting a vote that does not contradict the record. -/
theorem Remembers.noteFinalityVote (h : n.Remembers record) (hagree : ∀ existing,
      record.finalityVotes.lookup block.height = some existing → existing = block.identity) :
    n.Remembers (record.noteFinalityVote block.height block.identity) := by
  intro v hv hlive
  have hlookup := h v hv hlive
  rw [lookup_noteFinalityVote]
  split
  · rename_i hheight
    rw [hheight] at hlookup
    rw [hagree _ hlookup]
  · exact hlookup

theorem safe_attest (h : n.Sound) (hmemory : n.MemorySafe p.tracker) (hblock : n.Current block)
    (htracker : p.tracker = some record) (signer : Signer) :
    (n.attest p block record signer).Safe := by
  have hrecord := hmemory.remembers record htracker
  -- both ways into the promise: no earlier one, or the same one
  have hpromise : ∀ signed : List Nat, (∀ existing,
      record.finalityVotes.lookup block.height = some existing → existing = block.identity) →
      (n.updateAndPersist { p with finalitySignedHeights := signed }
        (record.noteFinalityVote block.height block.identity)
        (.finalityVote block signer)).Safe := by
    intro signed hagree
    refine safe_updateAndPersist h hmemory.resume (hrecord.noteFinalityVote hagree)
      ⟨hblock, rfl, ?_⟩
    rw [lookup_noteFinalityVote, if_pos rfl]
  rw [attest]
  split
  · exact safe_run h ⟨hmemory, trivial⟩
  split
  · rename_i existing hlookup
    split
    · exact safe_run h ⟨hmemory, trivial⟩
    rename_i hsame
    apply hpromise
    intro existing' hexisting
    rw [hlookup] at hexisting
    rw [← some.inj hexisting]
    exact Decidable.not_not.mp hsame
  · rename_i hlookup
    apply hpromise
    intro existing hexisting
    rw [hlookup] at hexisting
    cases hexisting

omit [Bincode] in
/-- The vote that was signed says what was promised. -/
theorem sign_eq_ok {signer : Signer} {vote : FinalityVote}
    (h : FinalityVote.sign signer.domain signer.validatorSetHash block.height
      block.identity.1 block.identity.2.1 block.identity.2.2 signer.keypair = .ok vote) :
    vote.height = block.height ∧ vote.statement = block.identity := by
  rw [FinalityVote.sign] at h
  obtain ⟨signature, -, rfl⟩ : ∃ signature, _ ∧ _ = vote := by
    cases hsign : Crypto.sign signer.keypair _ with
    | error e => rw [hsign] at h; cases h
    | ok signature => rw [hsign] at h; exact ⟨signature, trivial, Except.ok.inj h⟩
  exact ⟨rfl, rfl⟩

/-- A promised vote agrees with every vote emitted before. -/
theorem safe_emit (h : n.Sound) (hmemory : n.MemorySafe p.tracker) {vote : FinalityVote}
    (hvote : n.Promised p vote.height vote.statement) :
    ({ n with emitted := vote :: n.emitted }.run { p with point := .idle }).Safe := by
  obtain ⟨hpath, hlive, ⟨record, htracker, hlookup⟩, hdurable⟩ := hvote
  have hagree : ∀ v ∈ n.emitted, v.height = vote.height → v.statement = vote.statement := by
    intro v hv hheight
    have hv' := hmemory.remembers record htracker v hv (by rw [hheight]; exact hlive)
    rw [hheight, hlookup] at hv'
    exact (some.inj hv').symm
  have hsound : ({ n with emitted := vote :: n.emitted } : Node).Sound := by
    refine ⟨?_, ?_, ?_⟩
    · intro v hv w hw hheight
      rcases mem_cons.mp hv with hv' | hv' <;> rcases mem_cons.mp hw with hw' | hw'
      · rw [hv', hw']
      · rw [hv'] at hheight ⊢
        exact (hagree w hw' hheight.symm).symm
      · rw [hw'] at hheight ⊢
        exact hagree v hv' hheight
      · exact h.once v hv' w hw' hheight
    · intro _ _
      exact hpath
    · intro v hv hlive'
      rcases mem_cons.mp hv with rfl | hv
      · exact hdurable
      · exact h.durable v hv hlive'
  refine safe_run hsound ⟨⟨hmemory.resume, ?_⟩, trivial⟩
  intro record' hrecord' v hv hlive'
  have heq : record' = record := some.inj (hrecord'.symm.trans htracker)
  rcases mem_cons.mp hv with rfl | hv
  · rw [heq]
    exact hlookup
  · exact hmemory.remembers record' hrecord' v hv hlive'

variable {n' : Node}

/-- Producing a block: its height is live, and so is every height above it. -/
theorem safe_produce (h : n.Sound) (hmemory : n.MemorySafe p.tracker)
    (identity : FinalityIdentity) (round : Nat)
    (hstep : n.processStep p .idle (.produce identity round) = some n') : n'.Safe := by
  have hresume := hmemory.resume
  have hle : n.highestReached ≤ max n.highestReached (n.height + 1) := le_max_left _ _
  have hsound : (n.reach (n.height + 1) (max n.highestReached (n.height + 1))).Sound := h.reach hle
  have hcurrent : (n.reach (n.height + 1) (max n.highestReached (n.height + 1))).Current
      { height := n.height + 1, identity } := by
    refine ⟨?_, Nat.le_max_right _ _⟩
    show max n.highestReached (n.height + 1) ≤ n.height + 1 + finalityRecordMargin
    omega
  have hresume' : max n.highestReached (n.height + 1) ≤
      n.height + 1 + 1 + finalityRecordMargin := by omega
  rw [processStep.eq_def] at hstep
  dsimp only at hstep
  split at hstep
  · rename_i record htracker
    obtain rfl := some.inj hstep
    have hrecord : (n.reach (n.height + 1) (max n.highestReached (n.height + 1))).Remembers
        (record.noteDurableCommitRound round) :=
      ((hmemory.remembers record htracker).congr
        (finalityVotes_noteDurableCommitRound record round)).reach hle
    exact safe_updateAndPersist hsound hresume' hrecord hcurrent
  · rename_i htracker
    obtain rfl := some.inj hstep
    refine safe_run hsound ⟨⟨hresume', ?_⟩, hcurrent⟩
    intro record heq
    rw [show p.tracker = none from htracker] at heq
    cases heq

/-- Adopting a checkpoint moves the height up. -/
theorem safe_adoptCheckpoint (h : n.Sound) (hmemory : n.MemorySafe p.tracker) (height round : Nat)
    (hstep : n.processStep p .idle (.adoptCheckpoint height round) = some n') : n'.Safe := by
  have hresume := hmemory.resume
  rw [processStep.eq_def] at hstep
  dsimp only at hstep
  split at hstep
  · have hsound : (n.reach height n.highestReached).Sound := h.reach (le_refl _)
    have hresume' : n.highestReached ≤ height + 1 + finalityRecordMargin := by omega
    have hkeep : ∀ record, n.Remembers record →
        (n.reach height n.highestReached).Remembers (record.noteDurableCommitRound round) :=
      fun record hrecord => (hrecord.congr
        (finalityVotes_noteDurableCommitRound record round)).reach
        (le_refl _)
    split at hstep
    · rename_i record htracker
      obtain rfl := some.inj hstep
      exact safe_updateAndPersist hsound hresume' (hkeep _ (hmemory.remembers record htracker))
        trivial
    · rename_i htracker
      split at hstep
      · rename_i record hload
        obtain rfl := some.inj hstep
        refine safe_startPersist hsound ⟨hresume', ?_⟩ (hkeep _ (h.remembers_load hload)) trivial
        intro record' heq
        rw [htracker] at heq
        cases heq
      · obtain rfl := some.inj hstep
        exact safe_stop hsound
  · cases hstep

/-- Every step of the running process keeps the invariant. -/
theorem processStep_safe (hcodec : Bincode.RoundTrip) (h : n.Sound) (hp : n.ProcessSafe p)
    {event : NodeEvent} (hstep : n.processStep p p.point event = some n') :
    n'.Safe := by
  obtain ⟨hmemory, hpoint⟩ := hp
  generalize p.point = point at hstep hpoint
  rw [processStep.eq_def] at hstep
  split at hstep
  case h_1 =>
    -- the tracker is built from what is on disk
    split at hstep
    · cases hstep
    · rename_i record _ hload
      obtain rfl := some.inj hstep
      refine safe_run h ⟨⟨hmemory.resume, ?_⟩, trivial⟩
      intro record' heq
      obtain rfl := some.inj heq
      exact h.remembers_load hload
    · obtain rfl := some.inj hstep
      exact safe_stop h
  case h_2 round member reason =>
    obtain ⟨record, htracker, rfl⟩ := map_eq_some_iff.mp hstep
    have hrecord := (hmemory.remembers record htracker).congr
      (show (record.noteAbsence round member reason).finalityVotes = record.finalityVotes from rfl)
    exact safe_updateAndPersist h hmemory.resume hrecord trivial
  case h_3 height round =>
    apply safe_adoptCheckpoint h hmemory height round
    exact hstep
  case h_4 round =>
    split at hstep
    · rename_i record htracker
      obtain rfl := some.inj hstep
      have hrecord := (hmemory.remembers record htracker).congr
        (finalityVotes_noteDurableCommitRound record round)
      exact safe_updateAndPersist h hmemory.resume hrecord trivial
    · obtain rfl := some.inj hstep
      exact safe_run h ⟨hmemory, trivial⟩
  case h_5 identity round =>
    apply safe_produce h hmemory identity round
    exact hstep
  case h_6 =>
    obtain rfl := some.inj hstep
    exact safe_fileCall hcodec h hmemory hpoint
  case h_7 left =>
    obtain rfl := some.inj hstep
    exact safe_callFails h hmemory hpoint left
  case h_8 =>
    obtain rfl := some.inj hstep
    exact safe_retain h hmemory hpoint _
  case h_9 =>
    split at hstep
    · rename_i signer record htracker
      obtain rfl := some.inj hstep
      exact safe_attest h hmemory hpoint htracker signer
    · obtain rfl := some.inj hstep
      exact safe_run h ⟨hmemory, trivial⟩
  case h_10 =>
    split at hstep
    · rename_i vote hsign
      obtain rfl := some.inj hstep
      obtain ⟨hheight, hstatement⟩ := sign_eq_ok hsign
      refine safe_run h ⟨hmemory, ?_⟩
      show n.Promised p vote.height vote.statement
      rw [hheight, hstatement]
      exact hpoint
    · obtain rfl := some.inj hstep
      exact safe_run h ⟨hmemory, trivial⟩
  case h_11 =>
    obtain rfl := some.inj hstep
    exact safe_emit h hmemory hpoint
  case h_12 => cases hstep

/-- A restart resumes production at most the margin below the highest height reached. -/
def ResumesNear (n : Node) : NodeEvent → Prop
  | .restart height => n.highestReached ≤ height + 1 + finalityRecordMargin
  | _ => True

instance (n : Node) (event : NodeEvent) : Decidable (n.ResumesNear event) := by
  cases event <;> unfold ResumesNear <;> infer_instance

/-- **Step lemma.**  Starts, ends and power cuts included, every step keeps the invariant. -/
theorem step_safe (hcodec : Bincode.RoundTrip) (event : NodeEvent) (n' : Node)
    (hguard : n.ResumesNear event) (h : n.Safe) (hstep : n.step event = some n') : n'.Safe := by
  have hprocess : ∀ {event}, (n.process.bind fun p => n.processStep p p.point event) = some n' →
      n'.Safe := by
    intro event hbind
    obtain ⟨p, hp, hstep⟩ := bind_eq_some_iff.mp hbind
    exact processStep_safe hcodec h.sound (h.running p hp) hstep
  rw [step.eq_def] at hstep
  split at hstep
  case h_1 height =>
    split at hstep
    · obtain rfl := some.inj hstep
      have hsound : (n.reach height n.highestReached).Sound := h.sound.reach (le_refl _)
      refine safe_run hsound ⟨⟨hguard, ?_⟩, trivial⟩
      intro record heq
      cases heq
    · cases hstep
  case h_2 =>
    obtain rfl := some.inj hstep
    exact safe_stop h.sound
  case h_3 lost torn temporary =>
    obtain rfl := some.inj hstep
    have hsound : ({ n with file := n.file.powerCut lost torn temporary } : Node).Sound :=
      ⟨h.sound.once, h.sound.path,
        fun v hv hlive => (h.sound.durable v hv hlive).powerCut lost torn temporary⟩
    exact safe_stop hsound
  case h_4 => exact hprocess hstep

/-- A validator that never ran: nothing emitted, whatever is on disk. -/
structure Fresh (n : Node) : Prop where
  process : n.process = none
  emitted : n.emitted = []

theorem Fresh.safe (h : n.Fresh) : n.Safe := by
  have hnone : ∀ v, v ∉ n.emitted := by
    intro v hv
    rw [h.emitted] at hv
    exact not_mem_nil hv
  refine ⟨⟨?_, ?_, ?_⟩, ?_⟩
  · intro v hv
    exact absurd hv (hnone v)
  · intro v hv
    exact absurd hv (hnone v)
  · intro v hv
    exact absurd hv (hnone v)
  · intro p hp
    rw [h.process] at hp
    cases hp

end Node

/-- **One finality transcript per height across crashes.**  In every run whose restarts resume
    production at most the margin below the highest height reached, no two emitted votes of one
    height differ. -/
theorem one_finality_transcript_per_height (hcodec : Bincode.RoundTrip) {start node : Node}
    {events : List NodeEvent} (hfresh : start.Fresh)
    (hrun : Run Node.step Node.ResumesNear start events node) :
    ∀ v ∈ node.emitted, ∀ w ∈ node.emitted, v.height = w.height →
      (v.blockHash, v.stateRoot, v.txRoot) = (w.blockHash, w.stateRoot, w.txRoot) := by
  have hsafe : node.Safe :=
    hrun.invariant (fun n event n' hguard h hstep => Node.step_safe hcodec event n' hguard h hstep)
      hfresh.safe
  exact hsafe.sound.once

end Model

namespace SampleFinalityLoop

/-- A validator at height 127 without a record yet. -/
def node : letI := concreteCrypto; Node :=
  letI := concreteCrypto
  { hasRecordPath := true, process := none, height := 127, file := .missing, emitted := [],
    highestReached := 0 }

def signer : letI := concreteCrypto; Signer :=
  letI := concreteCrypto
  { domain := ⟨⟨4⟩, 1, 1⟩, validatorSetHash := ⟨7⟩, keypair := (⟨1⟩ : Hash256) }

/-- All six file system calls of one persist. -/
def persisted : letI := concreteCrypto; List NodeEvent :=
  letI := concreteCrypto
  List.replicate 6 .callSucceeds

/-- Height 128 is voted on; the power fails after the vote, with the next record renamed but
    its directory not synced; the restarted node produces another block at height 128 and
    persists its commit record before the attestation. -/
def events : letI := concreteCrypto; List NodeEvent :=
  letI := concreteCrypto
  [.restart 127, .loadTracker, .produce (⟨1⟩, ⟨2⟩, ⟨3⟩) 5] ++ persisted ++
    [.retain 0, .attest (some signer)] ++ persisted ++ [.sign, .emit, .produce (⟨4⟩, ⟨5⟩, ⟨6⟩) 6] ++
    List.replicate 4 .callSucceeds ++ [.powerCut 1 [] none, .restart 127, .loadTracker,
      .produce (⟨8⟩, ⟨9⟩, ⟨10⟩) 6] ++ persisted ++ [.retain 0, .attest (some signer)]

end SampleFinalityLoop

open SampleFinalityLoop in
/-- The sample run emits the first vote of height 128 and no other. -/
theorem one_finality_transcript_after_power_cut :
    letI := concreteCrypto
    letI := concreteBincode
    ∃ reached, Run Node.step Node.ResumesNear node events reached ∧
      reached.emitted.map (·.height) = [128] ∧ reached.highestReached = 129 ∧
      ∀ v ∈ reached.emitted, ∀ w ∈ reached.emitted, v.height = w.height →
        (v.blockHash, v.stateRoot, v.txRoot) = (w.blockHash, w.stateRoot, w.txRoot) := by
  let _ : Crypto := concreteCrypto
  let _ : Bincode := concreteBincode
  have hrun : (events.foldlM (Run.guarded Node.step Node.ResumesNear) node).map
      (fun reached => (reached.emitted.map (·.height), reached.highestReached)) =
        some ([128], 129) := by
    decide +kernel
  obtain ⟨reached, hreached, hvalues⟩ := map_eq_some_iff.mp hrun
  have hsteps : Run Node.step Node.ResumesNear node events reached := Run.of_foldlM hreached
  exact ⟨reached, hsteps, congrArg Prod.fst hvalues, congrArg Prod.snd hvalues,
    one_finality_transcript_per_height concreteBincode_roundTrip ⟨rfl, rfl⟩ hsteps⟩

end ArcChain
