/-
The skip state machine of `arc-consensus/src/view_change.rs`: what a
validator has observed of each round and member, and the votes it signs
that a member was absent.

An observation is overwritten by every later one and forgotten by pruning,
so what a signed vote promises is read off the history of calls: as long
as no round at or above the commit cursor is pruned, the entry of a round
sums up all that was ever observed of it (`Sums`).  `refused`, which no
decision reads, is left out.
-/
import ArcChain.Node.SigningRecord

namespace ArcChain

open AssocMap List

/-- `RECENT_ABSENCE_ROUNDS` -/
def recentAbsenceRounds : Nat := 3

/-- `SkipVote::sign`; signing itself may fail. -/
def SkipVote.sign [Crypto] (domain : ConsensusDomain) (setHash : Hash256) (round : Nat)
    (absentee : Address) (reason : AbsenceReason) (observedRoundStake : Nat)
    (keypair : Crypto.KeyPair) : Except String SkipVote :=
  let voter := Crypto.keyPairAddress keypair
  (Crypto.sign keypair (hashBytes
      (skipVoteBytes domain setHash round absentee voter reason observedRoundStake))).map
    fun signature =>
      { domain, validatorSetHash := setHash, round, absentee, voter, reason, observedRoundStake,
        signature }

theorem SkipVote.sign_ok [Crypto] {domain : ConsensusDomain} {setHash : Hash256} {round : Nat}
    {absentee : Address} {reason : AbsenceReason} {stake : Nat} {keypair : Crypto.KeyPair}
    {vote : SkipVote}
    (h : sign domain setHash round absentee reason stake keypair = .ok vote) :
    (vote.round, vote.absentee, vote.reason) = (round, absentee, reason) := by
  dsimp only [sign] at h
  generalize Crypto.sign keypair _ = signed at h
  cases signed with
  | error e => cases h
  | ok signature =>
    obtain rfl := Except.ok.inj h
    rfl

/-- The round, the member and the reason of a vote. -/
abbrev SkipKey := Nat × Address × AbsenceReason

inductive SkipRefusal where
  | roundBelowQuorum
  | absenteeBlockPresent
  | withinGrace
  | conflictingSkip
  | roundAlreadyPassed
deriving DecidableEq, Repr

structure RoundObservation where
  stake : Nat
  conditionBroken : Bool
  holdingSince : Option Nat
deriving DecidableEq, Repr

/-- The arguments of `observe`. -/
structure Observation where
  round : Nat
  member : Address
  reason : AbsenceReason
  distinctAuthorStake : Nat
  conditionHolds : Bool
  quorum : Nat
  nowMs : Nat

def Observation.key (o : Observation) : SkipKey := (o.round, o.member, o.reason)

/-- The entry of a round after one more observation. -/
def RoundObservation.observe (entry : RoundObservation) (o : Observation) : RoundObservation :=
  let stake := max entry.stake o.distinctAuthorStake
  let broken := entry.conditionBroken || !o.conditionHolds
  { stake
    conditionBroken := broken
    holdingSince :=
      if o.quorum ≤ stake ∧ broken = false then some (entry.holdingSince.getD o.nowMs) else none }

/-- The arguments of `sign_if_permitted`. -/
structure SignRequest [Crypto] where
  round : Nat
  absentee : Address
  reason : AbsenceReason
  commitCursor : Nat
  quorum : Nat
  nowMs : Nat
  keypair : Crypto.KeyPair

def SignRequest.key [Crypto] (q : SignRequest) : SkipKey := (q.round, q.absentee, q.reason)

structure SkipTracker where
  domain : ConsensusDomain
  validatorSetHash : Hash256
  graceMs : Nat
  recentAbsenceGraceMs : Nat
  recentAbsence : AssocMap Address Nat
  observations : AssocMap SkipKey RoundObservation
  record : ConsensusSigningRecord

namespace SkipTracker

/-- The highest `NoBlock` round known of each member, with one more. -/
def withAbsence (recent : AssocMap Address Nat) (round : Nat) (member : Address) :
    AbsenceReason → AssocMap Address Nat
  | .noBlock => AList.insert member (((recent.lookup member).map (max · round)).getD round) recent

/-- `SkipTracker::new` -/
def new (domain : ConsensusDomain) (setHash : Hash256) (graceMs : Nat)
    (record : ConsensusSigningRecord) : SkipTracker where
  domain := domain
  validatorSetHash := setHash
  graceMs := graceMs
  recentAbsenceGraceMs := graceMs
  recentAbsence := record.skippedRounds.entries.foldl (fun recent round =>
    round.2.entries.foldl (fun recent e => withAbsence recent round.1 e.1 e.2) recent) ∅
  observations := ∅
  record := record

/-- `with_recent_absence_grace` -/
def withRecentAbsenceGrace (graceMs : Nat) (t : SkipTracker) : SkipTracker :=
  { t with recentAbsenceGraceMs := min graceMs t.graceMs }

/-- `observe` -/
def observe (t : SkipTracker) (o : Observation) : SkipTracker :=
  { t with
    recentAbsence :=
      if o.reason = .noBlock ∧ o.conditionHolds = false ∧
          ∃ r ∈ t.recentAbsence.lookup o.member, r < o.round then
        t.recentAbsence.erase o.member
      else t.recentAbsence
    observations := AList.insert o.key
      (((t.observations.lookup o.key).getD ⟨0, false, none⟩).observe o) t.observations }

/-- What `sign_if_permitted` and `adopt_certificate` remember of an absence. -/
def noteAbsence (t : SkipTracker) (round : Nat) (member : Address) (reason : AbsenceReason) :
    SkipTracker :=
  { t with
    record := t.record.noteAbsence round member reason
    recentAbsence := withAbsence t.recentAbsence round member reason }

/-- The grace that applies to a member in a round. -/
def graceFor (t : SkipTracker) (round : Nat) (member : Address) (reason : AbsenceReason) : Nat :=
  if reason = .noBlock ∧ ∃ r ∈ t.recentAbsence.lookup member,
      round ≤ Word.saturatingAdd r recentAbsenceRounds then t.recentAbsenceGraceMs
  else t.graceMs

variable [Crypto]

/-- `sign_if_permitted` -/
def signIfPermitted (t : SkipTracker) (q : SignRequest) :
    Except SkipRefusal SkipVote × SkipTracker :=
  if q.round < q.commitCursor then (.error .roundAlreadyPassed, t)
  else match t.observations.lookup q.key with
    | none => (.error .roundBelowQuorum, t)
    | some observation =>
      if observation.conditionBroken then (.error .absenteeBlockPresent, t)
      else if observation.stake < q.quorum then (.error .roundBelowQuorum, t)
      else match observation.holdingSince with
        | none => (.error .roundBelowQuorum, t)
        | some since =>
          if q.nowMs - since < t.graceFor q.round q.absentee q.reason then (.error .withinGrace, t)
          else match SkipVote.sign t.domain t.validatorSetHash q.round q.absentee q.reason
              observation.stake q.keypair with
            | .error _ => (.error .conflictingSkip, t)
            | .ok vote => (.ok vote, t.noteAbsence q.round q.absentee q.reason)

inductive Call where
  | observe (o : Observation)
  | sign (q : SignRequest)
  | adopt (certificate : SkipCertificate)
  | pruneObservationsBelow (round : Nat)
  | pruneRecord (finalityFloorHeight absenceFloorRound : Nat)

/-- The tracker after a call. -/
def apply (t : SkipTracker) : Call → SkipTracker
  | .observe o => t.observe o
  | .sign q => (t.signIfPermitted q).2
  | .adopt certificate =>
    t.noteAbsence certificate.round certificate.absentee certificate.reason
  | .pruneObservationsBelow round =>
    { t with observations := AssocMap.retain (fun key _ => decide (round ≤ key.1)) t.observations }
  | .pruneRecord finalityFloorHeight absenceFloorRound =>
    { t with record := t.record.prune finalityFloorHeight absenceFloorRound }

/-- The tracker after a history of calls. -/
def run (t : SkipTracker) (calls : List Call) : SkipTracker := calls.foldl apply t

/-! ## What a call does -/

variable {t u : SkipTracker} {calls : List Call} {call : Call} {q : SignRequest} {vote : SkipVote}
  {key : SkipKey} {o : Observation}

/-- What a signed vote has passed. -/
structure Permitted (t : SkipTracker) (q : SignRequest) (o : RoundObservation) (since : Nat) :
    Prop where
  cursor : q.commitCursor ≤ q.round
  entry : t.observations.lookup q.key = some o
  unbroken : o.conditionBroken = false
  quorum : q.quorum ≤ o.stake
  holding : o.holdingSince = some since
  grace : t.graceFor q.round q.absentee q.reason ≤ q.nowMs - since

/-- **Step lemma.**  A call to sign fails and changes nothing, or signs and notes the absence. -/
theorem signIfPermitted_cases (t : SkipTracker) (q : SignRequest) :
    (∃ e, t.signIfPermitted q = (.error e, t)) ∨
      ∃ vote o since, t.Permitted q o since ∧ (vote.round, vote.absentee, vote.reason) = q.key ∧
        t.signIfPermitted q = (.ok vote, t.noteAbsence q.round q.absentee q.reason) := by
  unfold signIfPermitted
  split
  · exact .inl ⟨_, rfl⟩
  rename_i hcursor
  split
  · exact .inl ⟨_, rfl⟩
  rename_i o hlookup
  split
  · exact .inl ⟨_, rfl⟩
  rename_i hbroken
  split
  · exact .inl ⟨_, rfl⟩
  rename_i hquorum
  split
  · exact .inl ⟨_, rfl⟩
  rename_i since hsince
  split
  · exact .inl ⟨_, rfl⟩
  rename_i hgrace
  split
  · exact .inl ⟨_, rfl⟩
  rename_i vote hvote
  exact .inr ⟨vote, o, since, ⟨Nat.le_of_not_lt hcursor, hlookup,
    by simpa using hbroken, Nat.le_of_not_lt hquorum, hsince,
    Nat.le_of_not_lt hgrace⟩, SkipVote.sign_ok hvote, rfl⟩

/-- Only `observe` and `prune_observations_below` change the observations. -/
theorem observations_sign (t : SkipTracker) (q : SignRequest) :
    (t.apply (.sign q)).observations = t.observations := by
  show (t.signIfPermitted q).2.observations = _
  obtain ⟨e, h⟩ | ⟨vote, o, since, -, -, h⟩ := signIfPermitted_cases t q
  · rw [h]
  · rw [h]
    rfl

/-- No call changes the graces. -/
theorem graces_run (t : SkipTracker) (calls : List Call) : (t.run calls).graceMs = t.graceMs ∧
      (t.run calls).recentAbsenceGraceMs = t.recentAbsenceGraceMs := by
  induction calls generalizing t with
  | nil => exact ⟨rfl, rfl⟩
  | cons call calls ih =>
    have hone : (t.apply call).graceMs = t.graceMs ∧
        (t.apply call).recentAbsenceGraceMs = t.recentAbsenceGraceMs := by
      cases call with
      | sign q =>
        obtain ⟨e, h⟩ | ⟨vote, o, since, -, -, h⟩ := signIfPermitted_cases t q
        · rw [apply, h]
          exact ⟨rfl, rfl⟩
        · rw [apply, h]
          exact ⟨rfl, rfl⟩
      | _ => exact ⟨rfl, rfl⟩
    exact ⟨(ih _).1.trans hone.1, (ih _).2.trans hone.2⟩

/-- The grace is one of the two of the tracker. -/
theorem graceFor_run (t : SkipTracker) (calls : List Call) (round : Nat) (member : Address)
    (reason : AbsenceReason) :
    (t.run calls).graceFor round member reason = t.recentAbsenceGraceMs ∨
      (t.run calls).graceFor round member reason = t.graceMs := by
  obtain ⟨hfull, hrecent⟩ := graces_run t calls
  unfold graceFor
  split
  · exact .inl hrecent
  · exact .inr hfull

/-! ## What an entry says about the history -/

/-- The history has an observation of the round and member. -/
def Observed (calls : List Call) (key : SkipKey) (o : Observation) : Prop :=
  .observe o ∈ calls ∧ o.key = key

/-- An observation at this time found the stake reported so far to reach its quorum. -/
def HeldAt (calls : List Call) (key : SkipKey) (time : Nat) : Prop :=
  ∃ before o after, calls = before ++ .observe o :: after ∧ o.key = key ∧ o.nowMs = time ∧
    ∃ o', Observed (before ++ [.observe o]) key o' ∧ o.quorum ≤ o'.distinctAuthorStake

/-- The entry of a round and member sums up all that was observed of them. -/
structure Sums (calls : List Call) (key : SkipKey) (entry : RoundObservation) : Prop where
  reported : ∃ o, Observed calls key o ∧ o.distinctAuthorStake = entry.stake
  unbroken : entry.conditionBroken = false → ∀ o, Observed calls key o → o.conditionHolds = true
  held : ∀ time, entry.holdingSince = some time → HeldAt calls key time

/-- What the tracker holds about a round and member: the sum, or nothing if they were never
    observed. -/
def Tracks (calls : List Call) (key : SkipKey) : Option RoundObservation → Prop
  | some entry => Sums calls key entry
  | none => ∀ o, ¬ Observed calls key o

theorem Observed.append (h : Observed calls key o) (more : List Call) :
    Observed (calls ++ more) key o :=
  ⟨mem_append_left _ h.1, h.2⟩

theorem observed_snoc :
    Observed (calls ++ [call]) key o ↔ Observed calls key o ∨ (call = .observe o ∧ o.key = key) := by
  simp [Observed, or_and_right, eq_comm]

theorem HeldAt.append {time : Nat} (h : HeldAt calls key time) (more : List Call) :
    HeldAt (calls ++ more) key time := by
  obtain ⟨before, o, after, rfl, hrest⟩ := h
  exact ⟨before, o, after ++ more, by simp, hrest⟩

/-- A call that is no observation of the round and member adds nothing. -/
theorem Tracks.other {entry : Option RoundObservation} (h : Tracks calls key entry)
    (hcall : ∀ o, call = .observe o → o.key ≠ key) : Tracks (calls ++ [call]) key entry := by
  have hold : ∀ o, Observed (calls ++ [call]) key o → Observed calls key o := fun o ho =>
    (observed_snoc.mp ho).resolve_right fun hnow => hcall o hnow.1 hnow.2
  cases entry with
  | none => exact fun o ho => h o (hold o ho)
  | some entry =>
    obtain ⟨⟨o, ho, hstake⟩, hunbroken, hheld⟩ := h
    exact ⟨⟨o, ho.append _, hstake⟩, fun hentry o ho => hunbroken hentry o (hold o ho),
      fun time htime => (hheld time htime).append _⟩

/-- One more observation is added to the sum. -/
theorem Tracks.observe {entry : Option RoundObservation} (h : Tracks calls o.key entry) :
    Tracks (calls ++ [.observe o]) o.key (some ((entry.getD ⟨0, false, none⟩).observe o)) := by
  have hself : Observed (calls ++ [.observe o]) o.key o := ⟨by simp, rfl⟩
  have hreported : ∃ o', Observed (calls ++ [.observe o]) o.key o' ∧ o'.distinctAuthorStake =
      max (entry.getD ⟨0, false, none⟩).stake o.distinctAuthorStake := by
    cases entry with
    | none => exact ⟨o, hself, (Nat.max_eq_right (Nat.zero_le _)).symm⟩
    | some e =>
      obtain ⟨o', ho', hstake⟩ := h.reported
      rcases Nat.le_total e.stake o.distinctAuthorStake with hle | hle
      · exact ⟨o, hself, (Nat.max_eq_right hle).symm⟩
      · exact ⟨o', ho'.append _, hstake.trans (Nat.max_eq_left hle).symm⟩
  refine ⟨hreported, fun hbroken o' ho' => ?_, fun time htime => ?_⟩
  · obtain ⟨hentry, hholds⟩ := Bool.or_eq_false_iff.mp hbroken
    rcases observed_snoc.mp ho' with ho' | ⟨heq, -⟩
    · cases entry with
      | none => exact absurd ho' (h o')
      | some e => exact h.unbroken hentry o' ho'
    · obtain rfl := Call.observe.inj heq
      simpa using hholds
  · -- either the condition starts to hold now, or the entry has held it since before
    unfold RoundObservation.observe at htime
    dsimp only at htime
    split at htime
    · rename_i hheld
      obtain ⟨o', ho', hstake⟩ := hreported
      have hnow : HeldAt (calls ++ [.observe o]) o.key o.nowMs :=
        ⟨calls, o, [], rfl, rfl, rfl, o', ho', hstake ▸ hheld.1⟩
      obtain rfl := Option.some.inj htime
      rcases entry with _ | ⟨stake, broken, _ | since⟩
      · exact hnow
      · exact hnow
      · exact (h.held since rfl).append _
    · cases htime

/-- **Run lemma.**  Unless its round has been pruned, an entry sums up the whole history. -/
theorem tracks_run (hnew : t.observations = ∅)
    (hpruned : ∀ floor, .pruneObservationsBelow floor ∈ calls → floor ≤ key.1) :
    Tracks calls key ((t.run calls).observations.lookup key) := by
  induction calls using List.reverseRecOn with
  | nil =>
    rw [run, foldl_nil, hnew]
    exact fun o ho => by cases ho.1
  | append_singleton calls call ih =>
    have htracks := ih fun floor hfloor => hpruned floor (mem_append_left _ hfloor)
    rw [run, foldl_append]
    show Tracks _ key (((t.run calls).apply call).observations.lookup key)
    cases call with
    | observe o =>
      have hlookup : ((t.run calls).apply (.observe o)).observations.lookup key = if key = o.key
          then some ((((t.run calls).observations.lookup o.key).getD ⟨0, false, none⟩).observe o)
          else (t.run calls).observations.lookup key := lookup_insert _ _ _ _
      rw [hlookup]
      by_cases hkey : key = o.key
      · subst hkey
        rw [if_pos rfl]
        exact htracks.observe
      · rw [if_neg hkey]
        exact htracks.other fun o' ho' h => hkey (Call.observe.inj ho' ▸ h.symm)
    | sign q =>
      rw [observations_sign]
      exact htracks.other nofun
    | adopt | pruneRecord => exact htracks.other nofun
    | pruneObservationsBelow floor =>
      have hkept : ((t.run calls).apply (.pruneObservationsBelow floor)).observations.lookup key =
          (t.run calls).observations.lookup key := Option.ext fun e => by
        show (AssocMap.retain _ _).lookup key = some e ↔ _
        simp [lookup_retain_eq_some, hpruned floor (by simp)]
      rw [hkept]
      exact htracks.other nofun

/-! ## Honest votes -/

/-- The absence is in the record. -/
def Recorded (t : SkipTracker) (round : Nat) (member : Address) : Prop :=
  ((AssocMap.bucket t.record.skippedRounds round).lookup member).isSome = true

omit [Crypto] in
theorem recorded_noteAbsence {round round' : Nat} {member member' : Address}
    {reason : AbsenceReason} (h : t.Recorded round member ∨ round = round' ∧ member = member') :
    (t.noteAbsence round' member' reason).Recorded round member := by
  show ((AssocMap.bucket (AssocMap.insertIn _ _ _ _) round).lookup member).isSome = true
  rw [lookup_bucket_insertIn]
  split
  · rfl
  · rename_i hother
    exact h.resolve_right hother

/-- An absence stays in the record until the record is pruned above its round. -/
theorem Recorded.run {round : Nat} {member : Address} (h : t.Recorded round member)
    (hpruned : ∀ height floor, .pruneRecord height floor ∈ calls → floor ≤ round) :
    (t.run calls).Recorded round member := by
  induction calls generalizing t with
  | nil => exact h
  | cons call calls ih =>
    refine ih ?_ fun height floor hcall => hpruned height floor (mem_cons_of_mem _ hcall)
    cases call with
    | observe | pruneObservationsBelow => exact h
    | sign q =>
      show (t.signIfPermitted q).2.Recorded round member
      obtain ⟨e, heq⟩ | ⟨vote, o, since, -, -, heq⟩ := signIfPermitted_cases t q
      · rwa [heq]
      · rw [heq]
        exact recorded_noteAbsence (.inl h)
    | adopt certificate => exact recorded_noteAbsence (.inl h)
    | pruneRecord height floor =>
      have hkept : (AssocMap.retain (fun round _ => decide (floor ≤ round))
          t.record.skippedRounds).lookup round = t.record.skippedRounds.lookup round :=
        Option.ext fun e => by
          simp [lookup_retain_eq_some, hpruned height floor mem_cons_self]
      show ((AssocMap.bucket (AssocMap.retain _ _) round).lookup member).isSome = true
      rw [AssocMap.bucket, hkept]
      exact h

/-- Calls in order: the clock does not go back, and no round at or above a later commit cursor is
    pruned. -/
def Orderly : Call → Call → Prop
  | .observe o, .sign q => o.nowMs ≤ q.nowMs
  | .pruneObservationsBelow floor, .sign q => floor ≤ q.commitCursor
  | _, _ => True

/-- **Absence attestations are honest.**  A vote is signed only if the observations of its round
    and member reported a quorum, none of them saw the member's block, and the grace has elapsed
    since the condition held.  The vote is in the record when it is returned, and stays there until
    the record is pruned above its round. -/
theorem skip_votes_honest {domain : ConsensusDomain} {setHash : Hash256} {graceMs recentMs : Nat}
    {record : ConsensusSigningRecord}
    (ht : t = (SkipTracker.new domain setHash graceMs record).withRecentAbsenceGrace recentMs)
    (horder : ∀ call ∈ calls, Orderly call (.sign q))
    (hsign : (t.run calls).signIfPermitted q = (.ok vote, u)) :
    (vote.round, vote.absentee, vote.reason) = q.key ∧
      (∃ o, Observed calls q.key o ∧ q.quorum ≤ o.distinctAuthorStake) ∧
      (∀ o, Observed calls q.key o → o.conditionHolds = true) ∧
      (∃ since grace, HeldAt calls q.key since ∧ since + grace ≤ q.nowMs ∧
        grace = (t.run calls).graceFor q.round q.absentee q.reason ∧
        t.recentAbsenceGraceMs ≤ grace ∧ grace ≤ t.graceMs) ∧
      ∀ later, (∀ height floor, .pruneRecord height floor ∈ later → floor ≤ q.round) →
        (u.run later).Recorded q.round q.absentee := by
  obtain ⟨e, heq⟩ | ⟨vote', o, since, hpermitted, hvote, heq⟩ := signIfPermitted_cases (t.run calls) q
  · rw [heq] at hsign
    cases hsign
  · rw [heq] at hsign
    obtain ⟨hok, rfl⟩ := Prod.mk.inj hsign
    obtain rfl := Except.ok.inj hok
    have hsums : Sums calls q.key o := by
      have htracks : Tracks calls q.key ((t.run calls).observations.lookup q.key) :=
        tracks_run (ht ▸ rfl) fun floor hfloor => (horder _ hfloor).trans hpermitted.cursor
      rwa [hpermitted.entry] at htracks
    obtain ⟨o', ho', hstake⟩ := hsums.reported
    have hheld := hsums.held since hpermitted.holding
    have hclock : since ≤ q.nowMs := by
      obtain ⟨before, o'', after, hcalls, -, rfl, -⟩ := hheld
      exact horder (.observe o'') (by simp [hcalls])
    have hclamped : t.recentAbsenceGraceMs ≤ t.graceMs := by
      rw [ht]
      exact Nat.min_le_right _ _
    have hgraces := graceFor_run t calls q.round q.absentee q.reason
    have hgrace := hpermitted.grace
    refine ⟨hvote, ⟨o', ho', hstake ▸ hpermitted.quorum⟩, hsums.unbroken hpermitted.unbroken,
      ⟨since, _, hheld, by omega, rfl, by omega, by omega⟩, fun later hlater => ?_⟩
    · exact (recorded_noteAbsence (.inr ⟨rfl, rfl⟩)).run hlater

end SkipTracker

namespace SampleSkip

/-- A tracker with a grace of 500 ms, and of 100 ms after a recent absence. -/
def tracker : SkipTracker :=
  (SkipTracker.new ⟨⟨7⟩, 2, 0⟩ ⟨5⟩ 500 .empty).withRecentAbsenceGrace 100

/-- At 1000 ms a quorum has built on round 4 and member 9 has not. -/
def absent : Observation := ⟨4, ⟨9⟩, .noBlock, 70, true, 67, 1000⟩

def request : letI := concreteCrypto; SignRequest :=
  letI := concreteCrypto
  ⟨4, ⟨9⟩, .noBlock, 3, 67, 1500, ⟨1⟩⟩

end SampleSkip

/-- A vote signed half a second after the absence was observed is recorded. -/
theorem skip_votes_honest_after_grace :
    letI := concreteCrypto
    let signed := (SampleSkip.tracker.run [.observe SampleSkip.absent]).signIfPermitted
      SampleSkip.request
    signed.1.isOk = true ∧ signed.2.Recorded 4 ⟨9⟩ := by
  let _ : Crypto := concreteCrypto
  have hok : ((SampleSkip.tracker.run [.observe SampleSkip.absent]).signIfPermitted
      SampleSkip.request).1.isOk = true := by decide +kernel
  refine ⟨hok, ?_⟩
  rcases hsign : (SampleSkip.tracker.run [.observe SampleSkip.absent]).signIfPermitted
    SampleSkip.request with ⟨_ | vote, u⟩
  · rw [hsign] at hok
    cases hok
  · have horder : ∀ call ∈ [SkipTracker.Call.observe SampleSkip.absent],
        SkipTracker.Orderly call (.sign SampleSkip.request) := by
      intro call hcall
      obtain rfl := mem_singleton.mp hcall
      show (1000 : Nat) ≤ 1500
      decide
    exact (SkipTracker.skip_votes_honest rfl horder hsign).2.2.2.2 [] nofun

end ArcChain
