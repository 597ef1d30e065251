/-
The vote collectors of `arc-consensus/src/view_change.rs`: votes are
bucketed by the statement they make, and a certificate is assembled as
soon as the voters of one bucket carry a quorum of the caller's set.

The two collectors treat old votes differently.  The finality collector
counts and assembles only votes whose domain, validator set and roots are
those of the vote just added, so what it returns always verifies.  The
skip collector counts and assembles the whole bucket: a vote stored under
another domain or validator set ends up in the certificate, and the
certificate verifies exactly when no such vote is stored
(`SkipVoteCollector.offer_verifies_iff`).
-/
import ArcChain.Consensus.ViewChange

namespace ArcChain

open Word StakeQuorum AssocMap List ValidatorSet

/-- One turn of the collectors' count: a member adds its stake, saturating. -/
def signingStep (set : ValidatorSet) (signing : Nat) (voter : Address) : Nat :=
  match set.getValidator voter with
  | some validator => saturatingAdd signing validator.stake
  | none => signing

def signingStake (set : ValidatorSet) (voters : List Address) : Nat :=
  voters.foldl (signingStep set) 0

theorem signingStep_eq {set : ValidatorSet} {signing : Nat} {voter : Address}
    (h : signing ≤ u64Max) :
    signingStep set signing voter = saturatingAdd signing (set.stakeOf voter) := by
  unfold signingStep ValidatorSet.stakeOf
  cases set.getValidator voter with
  | none =>
    show signing = min (signing + 0) u64Max
    omega
  | some v => rfl

variable {voters : List Address}

theorem foldl_signingStep_eq {set : ValidatorSet} {start : Nat} (hstart : start ≤ u64Max) :
    voters.foldl (signingStep set) start = saturatingAdd start (voters.map set.stakeOf).sum := by
  induction voters generalizing start with
  | nil =>
    show start = min (start + 0) u64Max
    omega
  | cons a rest ih =>
    rw [foldl_cons, signingStep_eq hstart, ih (saturatingAdd_le_max _ _), map_cons, sum_cons]
    unfold saturatingAdd
    omega

/-- On a valid set nothing saturates: distinct voters weigh what they hold. -/
theorem signingStake_eq_weight {set : ValidatorSet} (hset : set.Valid) (hnd : voters.Nodup) :
    signingStake set voters = weight set.stakeOf voters.toFinset := by
  have hsum : (voters.map set.stakeOf).sum = weight set.stakeOf voters.toFinset :=
    (sum_toFinset _ hnd).symm
  have hle : weight set.stakeOf voters.toFinset ≤ u64Max := by
    refine Nat.le_trans (weight_le_committee (U := set.addresses) ?_ _) ?_
    · exact fun a ha => stakeOf_stranger ha
    · exact hset.weight_addresses ▸ hset.members.fits
  unfold signingStake
  rw [foldl_signingStep_eq (Nat.zero_le _)]
  show min (0 + _) u64Max = _
  omega

/-! ## Skip votes -/

/-- The bucket of a skip vote: `(round, absentee, reason)`. -/
def SkipVote.key (vote : SkipVote) : Nat × Address × AbsenceReason :=
  (vote.round, vote.absentee, vote.reason)

structure SkipVoteCollector where
  byRound : AssocMap (Nat × Address × AbsenceReason) (AssocMap Address SkipVote)

namespace SkipVoteCollector

def new : SkipVoteCollector := ⟨∅⟩

/-- `by_round.entry(key).or_default()`. -/
def bucket (c : SkipVoteCollector) (key : Nat × Address × AbsenceReason) :
    AssocMap Address SkipVote :=
  AssocMap.bucket c.byRound key

/-- The collector after `vote` was inserted into its bucket. -/
def store (c : SkipVoteCollector) (vote : SkipVote) : SkipVoteCollector :=
  ⟨AssocMap.insertIn c.byRound vote.key vote.voter vote⟩

theorem lookup_store (c : SkipVoteCollector) (vote : SkipVote)
    (key : Nat × Address × AbsenceReason) (a : Address) :
    ((c.store vote).bucket key).lookup a =
      if key = vote.key ∧ a = vote.voter then some vote else (c.bucket key).lookup a :=
  lookup_bucket_insertIn _ _ _ _ _ _

theorem bucket_store_self (c : SkipVoteCollector) (vote : SkipVote) :
    (c.store vote).bucket vote.key = (c.bucket vote.key).insert vote.voter vote := by
  unfold store bucket AssocMap.bucket AssocMap.insertIn
  rw [lookup_insert, if_pos rfl]
  rfl

variable [Crypto]

/-- The certificate assembled from the whole bucket, once it carries a quorum. -/
def offer (c : SkipVoteCollector) (vote : SkipVote) (expected : ConsensusDomain)
    (set : ValidatorSet) : Option SkipCertificate :=
  let roundVotes := (c.bucket vote.key).insert vote.voter vote
  if signingStake set roundVotes.keys ≥ set.quorum then
    some
      { domain := expected
        validatorSetHash := validatorSetHash set
        round := vote.round
        absentee := vote.absentee
        reason := vote.reason
        votes := AssocMap.values roundVotes }
  else none

def add (c : SkipVoteCollector) (vote : SkipVote) (expected : ConsensusDomain)
    (set : ValidatorSet) :
    Except CertificateError (Option SkipCertificate) × SkipVoteCollector :=
  if vote.domain ≠ expected then (.error (.wrongDomain expected vote.domain), c)
  else if vote.validatorSetHash ≠ validatorSetHash set then (.error .wrongValidatorSet, c)
  else if vote.observedRoundStake < set.quorum then (.error (.inconsistentVote 0), c)
  else
    match vote.verifyAgainst set with
    | .error e => (.error e, c)
    | .ok _ => (.ok (c.offer vote expected set), c.store vote)

end SkipVoteCollector

/-! ## Finality votes -/

/-- The part of a finality vote that the bucket key leaves out. -/
def FinalityVote.header (vote : FinalityVote) :
    Hash256 × Hash256 × ConsensusDomain × Hash256 :=
  (vote.stateRoot, vote.txRoot, vote.domain, vote.validatorSetHash)

/-- The bucket of a finality vote: `(height, block_hash)`. -/
def FinalityVote.key (vote : FinalityVote) : Nat × Hash256 := (vote.height, vote.blockHash)

structure FinalityVoteCollector where
  byBlock : AssocMap (Nat × Hash256) (AssocMap Address FinalityVote)

namespace FinalityVoteCollector

def new : FinalityVoteCollector := ⟨∅⟩

/-- `by_block.entry(key).or_default()`. -/
def bucket (c : FinalityVoteCollector) (key : Nat × Hash256) : AssocMap Address FinalityVote :=
  AssocMap.bucket c.byBlock key

def store (c : FinalityVoteCollector) (vote : FinalityVote) : FinalityVoteCollector :=
  ⟨AssocMap.insertIn c.byBlock vote.key vote.voter vote⟩

theorem lookup_store (c : FinalityVoteCollector) (vote : FinalityVote)
    (key : Nat × Hash256) (a : Address) :
    ((c.store vote).bucket key).lookup a =
      if key = vote.key ∧ a = vote.voter then some vote else (c.bucket key).lookup a :=
  lookup_bucket_insertIn _ _ _ _ _ _

/-- The stored votes with the header of `vote`, by members of `set`. -/
def counted (c : FinalityVoteCollector) (vote : FinalityVote) (set : ValidatorSet) :
    AssocMap Address FinalityVote :=
  AssocMap.retain (fun voter stored => decide (stored.header = vote.header) && set.isValidator voter)
    ((c.bucket vote.key).insert vote.voter vote)

/-- A stored statement by the same voter about the same block with other roots. -/
def equivocates (c : FinalityVoteCollector) (vote : FinalityVote) : Bool :=
  match (c.bucket vote.key).lookup vote.voter with
  | some existing =>
    decide ((existing.stateRoot, existing.txRoot) ≠ (vote.stateRoot, vote.txRoot))
  | none => false

variable [Crypto]

def offer (c : FinalityVoteCollector) (vote : FinalityVote) (expected : ConsensusDomain)
    (set : ValidatorSet) : Option FinalityCertificate :=
  let votes := c.counted vote set
  if signingStake set votes.keys ≥ set.quorum then
    some
      { domain := expected
        validatorSetHash := validatorSetHash set
        height := vote.height
        blockHash := vote.blockHash
        stateRoot := vote.stateRoot
        txRoot := vote.txRoot
        votes := AssocMap.values votes }
  else none

def add (c : FinalityVoteCollector) (vote : FinalityVote) (expected : ConsensusDomain)
    (set : ValidatorSet) :
    Except CertificateError (Option FinalityCertificate) × FinalityVoteCollector :=
  if vote.domain ≠ expected then (.error (.wrongDomain expected vote.domain), c)
  else if vote.validatorSetHash ≠ validatorSetHash set then (.error .wrongValidatorSet, c)
  else
    match vote.verifyAgainst set with
    | .error e => (.error e, c)
    | .ok _ =>
      if c.equivocates vote then (.error (.inconsistentVote 0), c)
      else (.ok (c.offer vote expected set), c.store vote)

end FinalityVoteCollector

section Proofs

variable [Crypto]

/-! ## What the skip collector stores and returns -/

namespace SkipVoteCollector

variable {c : SkipVoteCollector} {expected : ConsensusDomain} {set : ValidatorSet}
  {key : Nat × Address × AbsenceReason}

/-- The checks a skip vote passes on its own before it is stored. -/
structure Accepts (vote : SkipVote) (expected : ConsensusDomain) (set : ValidatorSet) :
    Prop where
  domain : vote.domain = expected
  setHash : vote.validatorSetHash = validatorSetHash set
  observed : set.quorum ≤ vote.observedRoundStake
  valid : ValidVote set vote.voter vote.transcript vote.signature

/-- **Step lemma.**  A call either stores the vote and answers from the bucket, or
    fails and changes nothing. -/
theorem add_cases (c : SkipVoteCollector) (vote : SkipVote) (expected : ConsensusDomain)
    (set : ValidatorSet) :
    (Accepts vote expected set ∧
        c.add vote expected set = (.ok (c.offer vote expected set), c.store vote)) ∨
      ∃ e, c.add vote expected set = (.error e, c) := by
  unfold add
  split
  · exact .inr ⟨_, rfl⟩
  rename_i hdomain
  split
  · exact .inr ⟨_, rfl⟩
  rename_i hset
  split
  · exact .inr ⟨_, rfl⟩
  rename_i hobs
  split
  · exact .inr ⟨_, rfl⟩
  · next stake hv =>
      exact .inl ⟨⟨not_not.mp hdomain, not_not.mp hset, Nat.le_of_not_lt hobs,
        (verifyAgainst_eq_ok.mp hv).1⟩, rfl⟩

/-- Every stored vote stands in its own bucket, under its own voter, and carries a
    signature that verifies. -/
def Stored (c : SkipVoteCollector) : Prop :=
  ∀ key a w, (c.bucket key).lookup a = some w →
    w.key = key ∧ w.voter = a ∧ Crypto.verify w.signature w.transcript w.voter = true

theorem stored_new : Stored new := by
  intro key a w h
  cases h

variable {vote : SkipVote}

theorem Stored.store (h : Stored c)
    (hverify : Crypto.verify vote.signature vote.transcript vote.voter = true) :
    Stored (c.store vote) := by
  intro key a w hw
  rw [lookup_store] at hw
  split at hw
  · next hplace =>
      cases hw
      exact ⟨hplace.1.symm, hplace.2.symm, hverify⟩
  · exact h key a w hw

theorem Stored.add (h : Stored c) (vote : SkipVote) (expected : ConsensusDomain)
    (set : ValidatorSet) :
    Stored (c.add vote expected set).2 := by
  rcases add_cases c vote expected set with ⟨hacc, heq⟩ | ⟨e, heq⟩
  · rw [heq]
    exact h.store hacc.valid.2
  · rw [heq]
    exact h

/-- A vote that the caller's domain and set would accept today. -/
structure Current (w : SkipVote) (expected : ConsensusDomain) (set : ValidatorSet) : Prop where
  domain : w.domain = expected
  setHash : w.validatorSetHash = validatorSetHash set
  observed : set.quorum ≤ w.observedRoundStake
  member : w.voter ∈ set.addresses

theorem Accepts.current (h : Accepts vote expected set) : Current vote expected set :=
  ⟨h.domain, h.setHash, h.observed, h.valid.1⟩

/-- The voters of the assembled votes are the keys of the bucket. -/
theorem Stored.values_voters (h : Stored c) (key : Nat × Address × AbsenceReason) :
    (values (c.bucket key)).map (·.voter) = (c.bucket key).keys :=
  values_map_eq_keys fun a w hw => (h key a w hw).2.1

/-- A bucket of current votes passes the loop over the votes of the certificate that
    is assembled from it. -/
theorem Stored.countedVotes (h : Stored c) {round : Nat} {absentee : Address}
    {reason : AbsenceReason} (hcur : ∀ w ∈ values (c.bucket (round, absentee, reason)),
      Current w expected set) (votes : List SkipVote) :
    CountedVotes (SkipCertificate.consistent
        { domain := expected, validatorSetHash := validatorSetHash set, round, absentee, reason,
          votes } set)
      (fun w : SkipVote => w.voter) (fun w => ValidVote set w.voter w.transcript w.signature)
      (values (c.bucket (round, absentee, reason))) := by
  have hown : ∀ w ∈ values (c.bucket (round, absentee, reason)), w.key = (round, absentee, reason) ∧
        Crypto.verify w.signature w.transcript w.voter = true := by
    intro w hw
    obtain ⟨a, ha⟩ := mem_values_iff.mp hw
    obtain ⟨hkey, -, hverify⟩ := h _ a w ha
    exact ⟨hkey, hverify⟩
  refine ⟨?_, ?_, ?_⟩
  · intro w hw
    have hkey := (hown w hw).1
    simp only [SkipVote.key, Prod.mk.injEq] at hkey
    simp only [SkipCertificate.consistent, decide_eq_true_eq]
    exact ⟨(hcur w hw).domain, (hcur w hw).setHash, hkey.1, hkey.2.1, hkey.2.2,
      (hcur w hw).observed⟩
  · exact h.values_voters _ ▸ AList.keys_nodup _
  · intro w hw
    exact ⟨(hcur w hw).member, (hown w hw).2⟩

/-- **When an assembled certificate verifies**: exactly when every vote that other
    members left in the bucket is one the caller would accept today. -/
theorem offer_verifies_iff (hc : Stored c) (hset : set.Valid)
    (hacc : Accepts vote expected set) {cert : SkipCertificate}
    (hoffer : c.offer vote expected set = some cert) :
    (∃ total, cert.verify expected set = .ok total) ↔
      ∀ a w, (c.bucket vote.key).lookup a = some w → a ≠ vote.voter → Current w expected set := by
  have hstored : Stored (c.store vote) := hc.store hacc.valid.2
  unfold offer at hoffer
  dsimp only at hoffer
  rw [← bucket_store_self] at hoffer
  split at hoffer
  case isFalse => cases hoffer
  case isTrue hquorum =>
    cases hoffer
    rw [signingStake_eq_weight hset (AList.keys_nodup _)] at hquorum
    simp only [SkipCertificate.verify, SkipVote.verifyAgainst,
      verifyVotes_eq_ok (fun _ _ => verifyAgainst_eq_ok)]
    constructor
    · rintro ⟨total, -, -, -, hcount, -, -⟩ a w hw hne
      have hmem : w ∈ values ((c.store vote).bucket vote.key) := by
        apply mem_values_iff.mpr
        exact ⟨a, by rw [lookup_store, if_neg (fun h => hne h.2)]; exact hw⟩
      have hagree := hcount.agree w hmem
      simp only [SkipCertificate.consistent, decide_eq_true_eq] at hagree
      exact ⟨hagree.1, hagree.2.1, hagree.2.2.2.2.2, (hcount.valid w hmem).1⟩
    · intro hcurrent
      -- the new vote is current because it was accepted, the others by assumption
      have hall : ∀ w ∈ values ((c.store vote).bucket vote.key), Current w expected set := by
        intro w hw
        obtain ⟨a, ha⟩ := mem_values_iff.mp hw
        rw [lookup_store] at ha
        split at ha
        · cases ha
          exact hacc.current
        · next hother => exact hcurrent a w ha (fun h => hother ⟨rfl, h⟩)
      have hcount := hstored.countedVotes hall (values ((c.store vote).bucket vote.key))
      refine ⟨_, trivial, trivial, ?_, hcount, rfl, ?_⟩
      · intro hnil
        have hmem : vote ∈ values ((c.store vote).bucket vote.key) := by
          apply mem_values_iff.mpr
          exact ⟨vote.voter, by rw [lookup_store, if_pos ⟨rfl, rfl⟩]⟩
        rw [hnil] at hmem
        cases hmem
      · have hsum : ((values ((c.store vote).bucket vote.key)).map
            fun v => set.stakeOf v.voter).sum = weight set.stakeOf _ := hcount.sum_eq_weight
        rw [hsum, hstored.values_voters]
        exact hquorum

/-- One call of `add`. -/
structure Call where
  vote : SkipVote
  domain : ConsensusDomain
  set : ValidatorSet

/-- The collector after a sequence of calls. -/
def run (c : SkipVoteCollector) (calls : List Call) : SkipVoteCollector :=
  calls.foldl (fun c call => (c.add call.vote call.domain call.set).2) c

theorem Stored.run (h : Stored c) (calls : List Call) : Stored (c.run calls) :=
  foldlRecOn calls _ h fun _ hc call _ => hc.add call.vote call.domain call.set

/-- The voters whose votes for `key` the calls accept, starting from `c`. -/
def acceptedVoters (c : SkipVoteCollector) (key : Nat × Address × AbsenceReason) :
    List Call → List Address
  | [] => []
  | call :: rest =>
    let r := c.add call.vote call.domain call.set
    (if r.1.isOk ∧ call.vote.key = key then [call.vote.voter] else []) ++
      acceptedVoters r.2 key rest

omit [Crypto] in
theorem mem_bucket_store {a : Address} (h : a ∈ c.bucket key) (vote : SkipVote) :
    a ∈ (c.store vote).bucket key := by
  rw [mem_iff_lookup] at h ⊢
  rw [lookup_store]
  split
  · exact ⟨_, rfl⟩
  · exact h

/-- No call removes a voter from a bucket. -/
theorem mem_bucket_run {a : Address} (h : a ∈ c.bucket key) (calls : List Call) :
    a ∈ (c.run calls).bucket key := by
  induction calls generalizing c with
  | nil => exact h
  | cons call rest ih =>
    apply ih
    show a ∈ (c.add call.vote call.domain call.set).2.bucket key
    rcases add_cases c call.vote call.domain call.set with ⟨-, heq⟩ | ⟨e, heq⟩
    · rw [heq]
      exact mem_bucket_store h call.vote
    · rw [heq]
      exact h

omit [Crypto] in
theorem mem_bucket_store_self (c : SkipVoteCollector) (vote : SkipVote) :
    vote.voter ∈ (c.store vote).bucket vote.key := by
  rw [mem_iff_lookup]
  exact ⟨vote, by rw [lookup_store, if_pos ⟨rfl, rfl⟩]⟩

/-- An accepted voter is in the bucket when the calls are over. -/
theorem mem_bucket_of_accepted {a : Address} {calls : List Call}
    (h : a ∈ c.acceptedVoters key calls) : a ∈ (c.run calls).bucket key := by
  induction calls generalizing c with
  | nil => cases h
  | cons call rest ih =>
    rcases mem_append.mp h with hnow | hlater
    · split at hnow
      · next hacc =>
          rw [mem_singleton] at hnow
          subst hnow
          show call.vote.voter ∈ (run (c.add call.vote call.domain call.set).2 rest).bucket key
          apply mem_bucket_run
          rcases add_cases c call.vote call.domain call.set with ⟨-, heq⟩ | ⟨e, heq⟩
          · rw [heq, ← hacc.2]
            exact mem_bucket_store_self c call.vote
          · rw [heq] at hacc
            exact absurd hacc.1 (by simp [Except.toBool])
      · cases hnow
    · exact ih hlater

/-- Once the accepted voters of a statement carry a quorum, the accepting call
    answers with a certificate. -/
theorem add_complete {calls : List Call} (hset : set.Valid)
    {answer : Option SkipCertificate} (hadd : ((c.run calls).add vote expected set).1 = .ok answer)
    (hquorum : set.quorum ≤
      weight set.stakeOf (vote.voter :: c.acceptedVoters vote.key calls).toFinset) :
    answer.isSome = true := by
  rcases add_cases (c.run calls) vote expected set with ⟨-, heq⟩ | ⟨e, heq⟩
  · rw [heq] at hadd
    cases hadd
    have hsub : (vote.voter :: c.acceptedVoters vote.key calls).toFinset ⊆
        (((c.run calls).store vote).bucket vote.key).keys.toFinset := by
      intro a ha
      rw [mem_toFinset]
      rcases mem_cons.mp (mem_toFinset.mp ha) with rfl | hmem
      · exact mem_bucket_store_self _ vote
      · exact mem_bucket_store (mem_bucket_of_accepted hmem) vote
    unfold offer
    dsimp only
    rw [← bucket_store_self, signingStake_eq_weight hset (AList.keys_nodup _),
      if_pos (le_trans hquorum (weight_mono hsub))]
    rfl
  · rw [heq] at hadd
    cases hadd

end SkipVoteCollector

/-! ## What the finality collector stores and returns -/

namespace FinalityVoteCollector

variable {c : FinalityVoteCollector} {vote : FinalityVote}

/-- The checks a finality vote passes on its own before it is stored. -/
structure Accepts (vote : FinalityVote) (expected : ConsensusDomain) (set : ValidatorSet) :
    Prop where
  domain : vote.domain = expected
  setHash : vote.validatorSetHash = validatorSetHash set
  valid : ValidVote set vote.voter vote.transcript vote.signature

/-- **Step lemma.**  A call either stores a vote that repeats or starts its voter's
    statement, or fails and changes nothing. -/
theorem add_cases (c : FinalityVoteCollector) (vote : FinalityVote)
    (expected : ConsensusDomain) (set : ValidatorSet) :
    (Accepts vote expected set ∧ c.equivocates vote = false ∧
        c.add vote expected set = (.ok (c.offer vote expected set), c.store vote)) ∨
      ∃ e, c.add vote expected set = (.error e, c) := by
  unfold add
  split
  · exact .inr ⟨_, rfl⟩
  rename_i hdomain
  split
  · exact .inr ⟨_, rfl⟩
  rename_i hset
  split
  · exact .inr ⟨_, rfl⟩
  rename_i stake hv
  split
  · exact .inr ⟨_, rfl⟩
  · next hequiv =>
      exact .inl ⟨⟨not_not.mp hdomain, not_not.mp hset,
        (verifyAgainst_eq_ok.mp hv).1⟩, by simpa using hequiv, rfl⟩

/-- Every stored vote stands in its own bucket, under its own voter, and carries a
    signature that verifies. -/
def Stored (c : FinalityVoteCollector) : Prop :=
  ∀ key a w, (c.bucket key).lookup a = some w →
    w.key = key ∧ w.voter = a ∧ Crypto.verify w.signature w.transcript w.voter = true

theorem stored_new : Stored new := by
  intro key a w h
  cases h

theorem Stored.store (h : Stored c)
    (hverify : Crypto.verify vote.signature vote.transcript vote.voter = true) :
    Stored (c.store vote) := by
  intro key a w hw
  rw [lookup_store] at hw
  split at hw
  · next hplace =>
      cases hw
      exact ⟨hplace.1.symm, hplace.2.symm, hverify⟩
  · exact h key a w hw

theorem Stored.add (h : Stored c) (vote : FinalityVote) (expected : ConsensusDomain)
    (set : ValidatorSet) :
    Stored (c.add vote expected set).2 := by
  rcases add_cases c vote expected set with ⟨hacc, -, heq⟩ | ⟨e, heq⟩
  · rw [heq]
    exact h.store hacc.valid.2
  · rw [heq]
    exact h

omit [Crypto] in
/-- A counted vote is a stored one, with the header of the vote just added, by a
    member of the caller's set. -/
theorem lookup_counted {w : FinalityVote} {set : ValidatorSet} {a : Address} :
    (c.counted vote set).lookup a = some w ↔
      ((c.store vote).bucket vote.key).lookup a = some w ∧ w.header = vote.header ∧
        a ∈ set.addresses := by
  unfold counted
  rw [lookup_retain_eq_some, lookup_insert, lookup_store, ← isValidator_iff]
  simp

variable {expected : ConsensusDomain}

/-- **The finality collector's certificates always verify.** -/
theorem offer_verifies (hc : Stored c) {set : ValidatorSet}
    (hset : set.Valid) (hacc : Accepts vote expected set) {cert : FinalityCertificate}
    (hoffer : c.offer vote expected set = some cert) :
    ∃ total, cert.verify expected set = .ok total := by
  have hstored : Stored (c.store vote) := hc.store hacc.valid.2
  have hown : ∀ a w, (c.counted vote set).lookup a = some w →
      w.key = vote.key ∧ w.voter = a ∧ w.header = vote.header ∧
        ValidVote set w.voter w.transcript w.signature := by
    intro a w hw
    obtain ⟨hw, hheader, hmem⟩ := lookup_counted.mp hw
    obtain ⟨hkey, hvoter, hverify⟩ := hstored vote.key a w hw
    exact ⟨hkey, hvoter, hheader, hvoter.symm ▸ hmem, hverify⟩
  have hvoters : (values (c.counted vote set)).map (·.voter) = (c.counted vote set).keys :=
    values_map_eq_keys fun a w hw => (hown a w hw).2.1
  unfold offer at hoffer
  dsimp only at hoffer
  split at hoffer
  case isFalse => cases hoffer
  case isTrue hquorum =>
    cases hoffer
    rw [signingStake_eq_weight hset (AList.keys_nodup _)] at hquorum
    simp only [FinalityCertificate.verify, FinalityVote.verifyAgainst,
      verifyVotes_eq_ok (fun _ _ => verifyAgainst_eq_ok)]
    have hcount : CountedVotes (FinalityCertificate.consistent
          { domain := expected, validatorSetHash := validatorSetHash set,
            height := vote.height, blockHash := vote.blockHash,
            stateRoot := vote.stateRoot, txRoot := vote.txRoot,
            votes := values (c.counted vote set) })
        (fun w : FinalityVote => w.voter)
        (fun w => ValidVote set w.voter w.transcript w.signature)
        (values (c.counted vote set)) := by
      refine ⟨?_, hvoters ▸ AList.keys_nodup _, ?_⟩
      · intro w hw
        obtain ⟨a, ha⟩ := mem_values_iff.mp hw
        obtain ⟨hkey, -, hheader, -⟩ := hown a w ha
        simp only [FinalityVote.key, FinalityVote.header, Prod.mk.injEq] at hkey hheader
        simp only [FinalityCertificate.consistent, decide_eq_true_eq]
        exact ⟨hheader.2.2.1.trans hacc.domain, hheader.2.2.2.trans hacc.setHash, hkey.1, hkey.2,
          hheader.1, hheader.2.1⟩
      · intro w hw
        obtain ⟨a, ha⟩ := mem_values_iff.mp hw
        exact (hown a w ha).2.2.2
    have hsum : ((values (c.counted vote set)).map
        fun w => set.stakeOf w.voter).sum = weight set.stakeOf _ := hcount.sum_eq_weight
    refine ⟨_, trivial, trivial, ?_, hcount, rfl, ?_⟩
    · -- an empty certificate would carry no stake, but a quorum is positive
      intro hnil
      rw [← hvoters, hnil] at hquorum
      have hpos := hset.quorum_pos
      simp [weight] at hquorum
      omega
    · rw [hsum, hvoters]
      exact hquorum

/-- One call of `add`. -/
structure Call where
  vote : FinalityVote
  domain : ConsensusDomain
  set : ValidatorSet

/-- The collector after a sequence of calls. -/
def run (c : FinalityVoteCollector) (calls : List Call) : FinalityVoteCollector :=
  calls.foldl (fun c call => (c.add call.vote call.domain call.set).2) c

theorem Stored.run (h : Stored c) (calls : List Call) : Stored (c.run calls) :=
  foldlRecOn calls _ h fun _ hc call _ => hc.add call.vote call.domain call.set

/-- The voters whose votes for the statement `(key, header)` the calls accept. -/
def acceptedVoters (c : FinalityVoteCollector) (key : Nat × Hash256)
    (header : Hash256 × Hash256 × ConsensusDomain × Hash256) : List Call → List Address
  | [] => []
  | call :: rest =>
    let r := c.add call.vote call.domain call.set
    (if r.1.isOk ∧ call.vote.key = key ∧ call.vote.header = header then [call.vote.voter]
      else []) ++
      acceptedVoters r.2 key header rest

/-- `a`'s stored vote in the bucket makes the statement. -/
def Holds (c : FinalityVoteCollector) (key : Nat × Hash256)
    (header : Hash256 × Hash256 × ConsensusDomain × Hash256) (a : Address) : Prop :=
  ∃ w, (c.bucket key).lookup a = some w ∧ w.header = header

omit [Crypto] in
theorem holds_store_self (c : FinalityVoteCollector) (vote : FinalityVote) :
    (c.store vote).Holds vote.key vote.header vote.voter :=
  ⟨vote, by rw [lookup_store, if_pos ⟨rfl, rfl⟩], rfl⟩

/-- A stored statement survives every call under its own domain and set: a vote that
    replaces it repeats its roots. -/
theorem Holds.add {key : Nat × Hash256} {stateRoot txRoot : Hash256}
    {set : ValidatorSet} {a : Address}
    (h : c.Holds key (stateRoot, txRoot, expected, validatorSetHash set) a) (vote : FinalityVote) :
    (c.add vote expected set).2.Holds key
      (stateRoot, txRoot, expected, validatorSetHash set) a := by
  rcases add_cases c vote expected set with ⟨hacc, hequiv, heq⟩ | ⟨e, heq⟩
  · rw [heq]
    obtain ⟨w, hw, hheader⟩ := h
    by_cases hplace : key = vote.key ∧ a = vote.voter
    · refine ⟨vote, by rw [lookup_store, if_pos hplace], ?_⟩
      rw [hplace.1, hplace.2] at hw
      unfold equivocates at hequiv
      rw [hw] at hequiv
      simp only [decide_not, Bool.not_eq_false', decide_eq_true_eq, Prod.mk.injEq] at hequiv
      simp only [FinalityVote.header, Prod.mk.injEq] at hheader ⊢
      exact ⟨hequiv.1.symm.trans hheader.1, hequiv.2.symm.trans hheader.2.1, hacc.domain,
        hacc.setHash⟩
    · exact ⟨w, by rw [lookup_store, if_neg hplace]; exact hw, hheader⟩
  · rw [heq]
    exact h

section Complete

variable {key : Nat × Hash256} {stateRoot txRoot : Hash256} {expected : ConsensusDomain}
  {set : ValidatorSet} {a : Address} {calls : List Call}

theorem Holds.run (h : c.Holds key (stateRoot, txRoot, expected, validatorSetHash set) a)
    (hcalls : ∀ call ∈ calls, call.domain = expected ∧ call.set = set) :
    (c.run calls).Holds key (stateRoot, txRoot, expected, validatorSetHash set) a := by
  induction calls generalizing c with
  | nil => exact h
  | cons call rest ih =>
    obtain ⟨⟨hdomain, hset⟩, hrest⟩ := forall_mem_cons.mp hcalls
    refine ih ?_ hrest
    show (c.add call.vote call.domain call.set).2.Holds _ _ _
    rw [hdomain, hset]
    exact h.add call.vote

/-- An accepted statement is in the bucket when the calls are over. -/
theorem holds_of_accepted (hcalls : ∀ call ∈ calls, call.domain = expected ∧ call.set = set)
    (h : a ∈ c.acceptedVoters key (stateRoot, txRoot, expected, validatorSetHash set) calls) :
    (c.run calls).Holds key (stateRoot, txRoot, expected, validatorSetHash set) a := by
  induction calls generalizing c with
  | nil => cases h
  | cons call rest ih =>
    have hrest := (forall_mem_cons.mp hcalls).2
    rcases mem_append.mp h with hnow | hlater
    · split at hnow
      · next hacc =>
          rw [mem_singleton] at hnow
          subst hnow
          apply Holds.run (c := (c.add call.vote call.domain call.set).2) ?_ hrest
          rcases add_cases c call.vote call.domain call.set with ⟨-, -, heq⟩ | ⟨e, heq⟩
          · rw [heq, ← hacc.2.1, ← hacc.2.2]
            exact holds_store_self c call.vote
          · rw [heq] at hacc
            exact absurd hacc.1 (by simp [Except.toBool])
      · cases hnow
    · exact ih hrest hlater

/-- Once the accepted voters of a statement carry a quorum, the accepting call
    answers with a certificate. -/
theorem add_complete (hset : set.Valid)
    (hcalls : ∀ call ∈ calls, call.domain = expected ∧ call.set = set)
    {answer : Option FinalityCertificate}
    (hadd : ((c.run calls).add vote expected set).1 = .ok answer)
    (hquorum : set.quorum ≤ weight set.stakeOf
      (vote.voter :: c.acceptedVoters vote.key vote.header calls).toFinset) :
    answer.isSome = true := by
  rcases add_cases (c.run calls) vote expected set with ⟨hacc, -, heq⟩ | ⟨e, heq⟩
  · have hheader : vote.header = (vote.stateRoot, vote.txRoot, expected, validatorSetHash set) := by
      rw [FinalityVote.header, hacc.domain, hacc.setHash]
    -- every accepted voter still makes the statement after the last store
    have hholds : ∀ a ∈ vote.voter :: c.acceptedVoters vote.key vote.header calls,
        ((c.run calls).store vote).Holds vote.key vote.header a := by
      intro a ha
      rcases mem_cons.mp ha with rfl | hmem
      · exact holds_store_self _ vote
      · rw [hheader] at hmem ⊢
        have hkept := (holds_of_accepted hcalls hmem).add vote
        rwa [heq] at hkept
    have hsub : (vote.voter :: c.acceptedVoters vote.key vote.header calls).toFinset ∩
        set.addresses ⊆ ((c.run calls).counted vote set).keys.toFinset := by
      intro a ha
      obtain ⟨ha, hmember⟩ := Finset.mem_inter.mp ha
      obtain ⟨w, hw, hwheader⟩ := hholds a (mem_toFinset.mp ha)
      rw [mem_toFinset, ← AList.mem_keys, mem_iff_lookup]
      exact ⟨w, lookup_counted.mpr ⟨hw, hwheader, hmember⟩⟩
    have hweight := weight_mono (w := set.stakeOf) hsub
    rw [weight_inter_committee fun a ha => stakeOf_stranger ha] at hweight
    rw [heq] at hadd
    cases hadd
    unfold offer
    dsimp only
    rw [signingStake_eq_weight hset (AList.keys_nodup _), if_pos (le_trans hquorum hweight)]
    rfl
  · rw [heq] at hadd
    cases hadd

end Complete

end FinalityVoteCollector

/-! ## Collected certificates -/

/-- **Collected certificates.**  Over every sequence of calls, with domain and set
    free to change between them:

    * what the finality collector returns verifies against the domain and set of the
      call that returned it;
    * what the skip collector returns verifies exactly when every vote that other
      members left in the bucket fits the domain, the set and the quorum of the call;
    * either collector answers with a certificate as soon as the votes accepted under
      one unchanged domain and set for one statement carry a quorum. -/
theorem collected_certificates :
    (∀ (calls : List FinalityVoteCollector.Call) (vote : FinalityVote)
        (expected : ConsensusDomain) (set : ValidatorSet) (cert : FinalityCertificate),
      set.Valid →
      ((FinalityVoteCollector.new.run calls).add vote expected set).1 = .ok (some cert) →
        ∃ total, cert.verify expected set = .ok total) ∧
    (∀ (calls : List SkipVoteCollector.Call) (vote : SkipVote)
        (expected : ConsensusDomain) (set : ValidatorSet) (cert : SkipCertificate),
      set.Valid →
      ((SkipVoteCollector.new.run calls).add vote expected set).1 = .ok (some cert) →
        ((∃ total, cert.verify expected set = .ok total) ↔
          ∀ a w, ((SkipVoteCollector.new.run calls).bucket vote.key).lookup a = some w →
            a ≠ vote.voter → SkipVoteCollector.Current w expected set)) ∧
    (∀ (before calls : List FinalityVoteCollector.Call) (vote : FinalityVote)
        (expected : ConsensusDomain) (set : ValidatorSet) (answer : Option FinalityCertificate),
      set.Valid → (∀ call ∈ calls, call.domain = expected ∧ call.set = set) →
      (((FinalityVoteCollector.new.run before).run calls).add vote expected set).1 =
        .ok answer →
      set.quorum ≤ weight set.stakeOf (vote.voter ::
        (FinalityVoteCollector.new.run before).acceptedVoters vote.key vote.header
          calls).toFinset →
        answer.isSome = true) ∧
    (∀ (before calls : List SkipVoteCollector.Call) (vote : SkipVote)
        (expected : ConsensusDomain) (set : ValidatorSet) (answer : Option SkipCertificate),
      set.Valid → (∀ call ∈ calls, call.domain = expected ∧ call.set = set) →
      (((SkipVoteCollector.new.run before).run calls).add vote expected set).1 = .ok answer →
      set.quorum ≤ weight set.stakeOf (vote.voter ::
        (SkipVoteCollector.new.run before).acceptedVoters vote.key calls).toFinset →
        answer.isSome = true) := by
  refine ⟨?_, ?_, ?_, ?_⟩
  · intro calls vote expected set cert hset hadd
    rcases FinalityVoteCollector.add_cases (FinalityVoteCollector.new.run calls) vote
      expected set with ⟨hacc, -, heq⟩ | ⟨e, heq⟩
    · rw [heq] at hadd
      exact FinalityVoteCollector.offer_verifies
        (FinalityVoteCollector.stored_new.run calls) hset hacc (Except.ok.inj hadd)
    · rw [heq] at hadd
      cases hadd
  · intro calls vote expected set cert hset hadd
    rcases SkipVoteCollector.add_cases (SkipVoteCollector.new.run calls) vote
      expected set with ⟨hacc, heq⟩ | ⟨e, heq⟩
    · rw [heq] at hadd
      exact SkipVoteCollector.offer_verifies_iff
        (SkipVoteCollector.stored_new.run calls) hset hacc (Except.ok.inj hadd)
    · rw [heq] at hadd
      cases hadd
  · intro before calls vote expected set answer hset hcalls hadd hquorum
    exact FinalityVoteCollector.add_complete hset hcalls hadd hquorum
  · intro before calls vote expected set answer hset _ hadd hquorum
    exact SkipVoteCollector.add_complete hset hadd hquorum

end Proofs

/-! ## Concrete votes -/

theorem exists_ok_of_isOk {ε α : Type} {x : Except ε α} (h : x.isOk = true) : ∃ a, x = .ok a := by
  cases x with
  | error e => cases h
  | ok a => exact ⟨a, rfl⟩

namespace SampleVotes

/-- Three members of equal stake: a quorum is all three. -/
def members : List Validator :=
  [⟨⟨1⟩, 5000000, .arc, 0⟩, ⟨⟨2⟩, 5000000, .arc, 0⟩, ⟨⟨3⟩, 5000000, .arc, 0⟩]

def set : ValidatorSet := ⟨members, 15000000, 0, 10000001, 0, []⟩

theorem set_valid : set.Valid := ⟨⟨by decide, by decide, by decide, by decide⟩, by decide⟩

/-- The recovery domain with recovery epoch `epoch`. -/
def domain (epoch : Nat) : ConsensusDomain := ⟨⟨7⟩, epoch, 0⟩

/-- `voter`'s signed vote, under recovery epoch `epoch`, that member 9 is absent. -/
def skip (epoch : Nat) (voter : Address) : SkipVote :=
  letI := concreteCrypto
  let unsigned : SkipVote :=
    { domain := domain epoch, validatorSetHash := validatorSetHash set, round := 4,
      absentee := ⟨9⟩, voter, reason := .noBlock, observedRoundStake := 10000001,
      signature := .secp256k1 [] }
  { unsigned with signature := Concrete.signature voter unsigned.transcript }

/-- `voter`'s signed finality vote for one block at height 6. -/
def finality (epoch : Nat) (voter : Address) : FinalityVote :=
  letI := concreteCrypto
  let unsigned : FinalityVote :=
    { domain := domain epoch, validatorSetHash := validatorSetHash set, height := 6,
      blockHash := ⟨11⟩, stateRoot := ⟨12⟩, txRoot := ⟨13⟩, voter, signature := .secp256k1 [] }
  { unsigned with signature := Concrete.signature voter unsigned.transcript }

end SampleVotes

open SampleVotes in
/-- Votes of one epoch: both collectors' certificates verify, and both collectors
    answer the call that completes a quorum. -/
theorem collected_certificates_one_epoch :
    letI := concreteCrypto
    (∃ cert total, ((FinalityVoteCollector.new.run
        [⟨finality 2 ⟨1⟩, domain 2, set⟩, ⟨finality 2 ⟨2⟩, domain 2, set⟩]).add
          (finality 2 ⟨3⟩) (domain 2) set).1 = .ok (some cert) ∧
        cert.verify (domain 2) set = .ok total) ∧
      (∃ cert total, ((SkipVoteCollector.new.run
        [⟨skip 2 ⟨1⟩, domain 2, set⟩, ⟨skip 2 ⟨2⟩, domain 2, set⟩]).add
          (skip 2 ⟨3⟩) (domain 2) set).1 = .ok (some cert) ∧
        cert.verify (domain 2) set = .ok total) := by
  let _ : Crypto := concreteCrypto
  obtain ⟨hfin, hskip, hfinComplete, hskipComplete⟩ := collected_certificates
  refine ⟨?_, ?_⟩
  · obtain ⟨answer, hadd⟩ := exists_ok_of_isOk (x := (((FinalityVoteCollector.new.run []).run
        [⟨finality 2 ⟨1⟩, domain 2, set⟩, ⟨finality 2 ⟨2⟩, domain 2, set⟩]).add
          (finality 2 ⟨3⟩) (domain 2) set).1) (by decide +kernel)
    have hsome := hfinComplete [] _ _ _ _ answer set_valid (by decide +kernel) hadd
      (by decide +kernel)
    obtain ⟨cert, rfl⟩ := Option.isSome_iff_exists.mp hsome
    obtain ⟨total, htotal⟩ := hfin _ _ _ _ cert set_valid hadd
    exact ⟨cert, total, hadd, htotal⟩
  · obtain ⟨answer, hadd⟩ := exists_ok_of_isOk (x := (((SkipVoteCollector.new.run []).run
        [⟨skip 2 ⟨1⟩, domain 2, set⟩, ⟨skip 2 ⟨2⟩, domain 2, set⟩]).add
          (skip 2 ⟨3⟩) (domain 2) set).1) (by decide +kernel)
    have hsome := hskipComplete [] _ _ _ _ answer set_valid (by decide +kernel) hadd
      (by decide +kernel)
    obtain ⟨cert, rfl⟩ := Option.isSome_iff_exists.mp hsome
    obtain ⟨total, htotal⟩ := (hskip _ _ _ _ cert set_valid hadd).mpr (by
      intro a w hw _
      have hall : ∀ v ∈ values ((SkipVoteCollector.new.run
          [⟨skip 2 ⟨1⟩, domain 2, set⟩, ⟨skip 2 ⟨2⟩, domain 2, set⟩]).bucket (skip 2 ⟨3⟩).key),
          v.domain = domain 2 ∧ v.validatorSetHash = validatorSetHash set ∧
            set.quorum ≤ v.observedRoundStake ∧ v.voter ∈ set.addresses := by
        decide +kernel
      obtain ⟨h1, h2, h3, h4⟩ := hall w (mem_values_iff.mpr ⟨a, hw⟩)
      exact ⟨h1, h2, h3, h4⟩)
    exact ⟨cert, total, hadd, htotal⟩

open SampleVotes in
/-- Member 1 votes in recovery epoch 1; the epoch changes; members 2 and 3 vote in
    epoch 2.  The last call counts all three, and returns a certificate that fails
    against the domain and set of that very call. -/
theorem skip_collector_returns_stale_certificate :
    letI := concreteCrypto
    ∃ cert, ((SkipVoteCollector.new.run
        [⟨skip 1 ⟨1⟩, domain 1, set⟩, ⟨skip 2 ⟨2⟩, domain 2, set⟩]).add
          (skip 2 ⟨3⟩) (domain 2) set).1 = .ok (some cert) ∧
      ∃ index, cert.verify (domain 2) set = .error (.inconsistentVote index) := by
  let _ : Crypto := concreteCrypto
  refine ⟨⟨domain 2, validatorSetHash set, 4, ⟨9⟩, .noBlock,
    [skip 2 ⟨3⟩, skip 2 ⟨2⟩, skip 1 ⟨1⟩]⟩, ?_, 2, ?_⟩
  · decide +kernel
  · decide +kernel

end ArcChain
