/-
The validator-set invariant: over every sequence of membership changes,
slashes, epoch changes and received blocks, the active and the frozen set
stay valid (`ValidatorSet.Valid`), no operation but `freeze_epoch` can
panic, and a refused operation leaves both sets as they were.

Each operation has one lemma, in terms of what it does to the pair of
sets; the run theorem is the invariant rule over them.
-/
import ArcChain.Lib.Run
import ArcChain.Consensus.Membership

namespace ArcChain

open Word List ValidatorSet Option

/-! ## Member lists -/

section Members

variable {l : List Validator} {t : Nat} {v : Validator}

/-- A new address with a correct tier joins checked members. -/
theorem CheckedMembers.append (h : CheckedMembers l t)
    (hnew : v.address ∉ l.map (·.address)) (htier : StakeTier.fromStake v.stake = some v.tier)
    (hfits : t + v.stake ≤ u64Max) : CheckedMembers (l ++ [v]) (t + v.stake) where
  nodup := by
    rw [map_append, map_singleton, nodup_append]
    refine ⟨h.nodup, nodup_singleton _, ?_⟩
    intro a ha b hb heq
    rw [mem_singleton] at hb
    exact hnew (hb ▸ heq ▸ ha)
  tier := by
    intro w hw
    rcases mem_append.mp hw with hw | hw
    · exact h.tier w hw
    · rw [mem_singleton] at hw
      exact hw ▸ htier
  sum := by
    rw [map_append, sum_append, h.sum, map_singleton, sum_singleton]
  fits := hfits

open ConsensusEngine in
theorem restake_addresses (address : Address) (newStake : Nat) (l : List Validator) :
    (restake address newStake l).map (·.address) = l.map (·.address) := by
  induction l with
  | nil => rfl
  | cons v rest ih =>
    rw [restake]
    split
    · rfl
    · rw [map_cons, map_cons, ih]

open ConsensusEngine in
theorem mem_restake {address : Address} {newStake : Nat} {w : Validator}
    (hw : w ∈ restake address newStake l) :
    w ∈ l ∨ (w.stake = newStake ∧ w.tier = (StakeTier.fromStake newStake).getD .spark) := by
  induction l with
  | nil => cases hw
  | cons v rest ih =>
    rw [restake] at hw
    split at hw
    · rcases mem_cons.mp hw with rfl | hw
      · exact .inr ⟨rfl, rfl⟩
      · exact .inl (mem_cons_of_mem _ hw)
    · rcases mem_cons.mp hw with rfl | hw
      · exact .inl mem_cons_self
      · exact (ih hw).imp_left (mem_cons_of_mem _)

open ConsensusEngine in
/-- Restaking the first member with the address trades its old stake for the new. -/
theorem restake_sum {address : Address}
    (hfind : l.find? (fun v => v.address = address) = some v) (newStake : Nat) :
    ((restake address newStake l).map (·.stake)).sum + v.stake =
      (l.map (·.stake)).sum + newStake := by
  induction l with
  | nil => cases hfind
  | cons w rest ih =>
    rw [restake]
    by_cases hw : w.address = address
    · rw [List.find?_cons_of_pos (by simpa using hw)] at hfind
      cases hfind
      rw [if_pos hw, map_cons, map_cons, sum_cons, sum_cons]
      show newStake + _ + v.stake = v.stake + _ + newStake
      omega
    · rw [List.find?_cons_of_neg (by simpa using hw)] at hfind
      rw [if_neg hw, map_cons, map_cons, sum_cons, sum_cons]
      have hrest := ih hfind
      omega

end Members

namespace ConsensusEngine

variable [Crypto]

/-- Both sets of the engine are valid. -/
structure SetsValid (e : ConsensusEngine) : Prop where
  active : e.validatorSet.Valid
  frozen : e.frozenValidatorSet.Valid

/-- The engine's sets are as in `e`. -/
def SameSets (e e' : ConsensusEngine) : Prop :=
  e'.validatorSet = e.validatorSet ∧ e'.frozenValidatorSet = e.frozenValidatorSet

theorem SameSets.refl (e : ConsensusEngine) : SameSets e e := ⟨rfl, rfl⟩

variable {e : ConsensusEngine}

theorem SetsValid.of_same {e' : ConsensusEngine} (h : e.SetsValid) (hsame : SameSets e e') :
    e'.SetsValid :=
  ⟨hsame.1 ▸ h.active, hsame.2 ▸ h.frozen⟩

/-! ## One lemma for each operation -/

/-- What an operation may do to the sets: keep them valid, and change nothing if it
    is refused. -/
def KeepsSets {α : Type} (e : ConsensusEngine)
    (r : Except ConsensusError α × ConsensusEngine) : Prop :=
  r.2.SetsValid ∧ ∀ err, r.1 = .error err → SameSets e r.2

section Ops

variable {α : Type} {e e' : ConsensusEngine}

/-- A refused operation. -/
theorem KeepsSets.refused (h : e.SetsValid) (err : ConsensusError) :
    e.KeepsSets ((.error err, e) : Except ConsensusError α × ConsensusEngine) :=
  ⟨h, fun _ _ => .refl e⟩

/-- An accepted operation that leaves valid sets. -/
theorem KeepsSets.accepted (a : α) (h : e'.SetsValid) : e.KeepsSets (.ok a, e') := ⟨h, nofun⟩

section

variable (h : e.SetsValid)
include h

theorem joinValidator_keeps (address : Address) (stake : Nat) (pubkey : List UInt8) (shard : Nat) :
    e.KeepsSets (e.joinValidator address stake pubkey shard) := by
  rw [joinValidator]
  split
  · exact .refused h _
  split
  · exact .refused h _
  rename_i hnew
  split
  · exact .refused h _
  split
  · exact .refused h _
  rename_i validator hv
  split
  · exact .refused h _
  rename_i total htotal
  -- the tier is the stake's own, the address is new, the sum is checked
  obtain ⟨tier, htier, rfl⟩ := map_eq_some_iff.mp hv
  obtain ⟨hsum, hfits⟩ := checkedAdd_eq_some.mp htotal
  have hfresh : address ∉ e.validatorSet.validators.map (·.address) := by
    intro hmem
    apply hnew
    exact isValidator_iff.mpr (mem_toFinset.mpr hmem)
  subst hsum
  have hmembers : CheckedMembers (e.validatorSet.validators ++ [⟨address, stake, tier, shard⟩])
      (e.validatorSet.totalStake + stake) :=
    h.active.members.append hfresh htier hfits
  exact ⟨⟨⟨hmembers, rfl⟩, h.frozen⟩, nofun⟩

theorem leaveValidator_keeps (address : Address) : e.KeepsSets (e.leaveValidator address) := by
  rw [leaveValidator]
  split
  · exact .refused h _
  have hrest := h.active.members.filter fun v => decide (v.address ≠ address)
  dsimp only
  rw [checkedValidatorTotalStake_eq_ok.mpr hrest]
  exact ⟨⟨⟨hrest, rfl⟩, h.frozen⟩, by rintro _ ⟨⟩⟩

theorem updateValidatorStake_keeps (address : Address) (newStake : Nat) :
    e.KeepsSets (e.updateValidatorStake address newStake) := by
  rw [updateValidatorStake]
  split
  · exact .refused h _
  rename_i htier
  split
  · exact .refused h _
  rename_i validator hget
  split
  · exact .refused h _
  rename_i total htotal
  obtain ⟨remaining, hsub, hadd⟩ := bind_eq_some_iff.mp htotal
  obtain ⟨hsub, hle⟩ := checkedSub_eq_some.mp hsub
  obtain ⟨hadd, hfits⟩ := checkedAdd_eq_some.mp hadd
  have hsum := restake_sum hget newStake
  refine ⟨⟨⟨⟨?_, ?_, ?_, hfits⟩, rfl⟩, h.frozen⟩, nofun⟩
  · show ((restake address newStake e.validatorSet.validators).map (·.address)).Nodup
    rw [restake_addresses]
    exact h.active.members.nodup
  · intro w hw
    rcases mem_restake hw with hw | ⟨hstake, hwtier⟩
    · exact h.active.members.tier w hw
    · rw [hstake, hwtier]
      cases hfrom : StakeTier.fromStake newStake with
      | none => simp [hfrom] at htier
      | some tier => rfl
  · show ((restake address newStake e.validatorSet.validators).map (·.stake)).sum = total
    have hold := h.active.members.sum
    omega

theorem updateValidatorSet_keeps (newSet : ValidatorSet) :
    e.KeepsSets (e.updateValidatorSet newSet) := by
  rw [updateValidatorSet]
  split
  · exact .refused h _
  rename_i total htotal
  split
  · exact .refused h _
  rename_i hcanon
  rw [not_or, not_not, not_not] at hcanon
  refine ⟨⟨⟨?_, ?_⟩, h.frozen⟩, nofun⟩
  · show CheckedMembers newSet.validators newSet.totalStake
    rw [hcanon.1]
    exact checkedValidatorTotalStake_eq_ok.mp htotal
  · show newSet.quorum = strictSupermajorityThreshold newSet.totalStake
    rw [hcanon.2, hcanon.1]

theorem epochTransition_keeps : ∃ r, e.epochTransition = some r ∧ r.2.SetsValid := by
  rw [epochTransition, checkedValidatorTotalStake_eq_ok.mpr h.active.members]
  exact ⟨_, rfl, ⟨h.active.members, rfl⟩, h.frozen⟩

end

theorem freezeEpoch_keeps (hfreeze : e.freezeEpoch = some e') : e'.SetsValid := by
  rw [freezeEpoch] at hfreeze
  split at hfreeze
  · cases hfreeze
  · obtain ⟨newSet, hnew, rfl⟩ := map_eq_some_iff.mp hfreeze
    exact ⟨new_valid hnew, new_valid hnew⟩

section

variable (h : e.SetsValid)
include h

theorem reportOffense_keeps (offender : Address) (offense : SlashableOffense)
    (evidence : Hash256) (round timestamp : Nat) :
    e.KeepsSets (e.reportOffense offender offense evidence round timestamp) := by
  obtain ⟨total, history, hset⟩ := reportOffense_members e.validatorSet offender
    offense evidence round timestamp
  refine ⟨⟨?_, h.frozen⟩, ?_⟩
  · show ValidatorSet.Valid (e.validatorSet.reportOffense offender offense evidence round
      timestamp).2
    rw [hset]
    exact ⟨h.active.members, h.active.quorum⟩
  · intro err herr
    refine ⟨?_, rfl⟩
    exact reportOffense_err (Prod.ext herr rfl)

theorem submitFraudProof_keeps (proposer : Address)
    (claimedRoot actualRoot : Hash256) (round now : Nat) :
    ∃ r, e.submitFraudProof proposer claimedRoot actualRoot round now = some r ∧ e.KeepsSets r := by
  obtain ⟨r, vs, hpunish, hlow, hsame⟩ := punish_spec h.active proposer
    .invalidBlockProposal (hashPair claimedRoot actualRoot) round now
  rw [submitFraudProof, hpunish]
  exact ⟨_, rfl, ⟨hlow.valid, h.frozen⟩, fun err herr => ⟨hsame err herr, rfl⟩⟩

theorem enforceSlash_keeps (offender : Address) (amount : Nat) :
    ∃ r, e.enforceSlash offender amount = some r ∧ r.2.SetsValid := by
  rw [enforceSlash]
  split
  · exact ⟨_, rfl, h⟩
  · obtain ⟨vs, hslash, hlow⟩ := applySlash_spec h.active offender amount
    rw [hslash]
    exact ⟨_, rfl, hlow.valid, h.frozen⟩

theorem noteAuthor_keeps (block : DagBlock) :
    ∃ e', e.noteAuthor block = some e' ∧ e'.SetsValid := by
  rw [noteAuthor]
  split
  · split
    · exact ⟨e, rfl, h⟩
    · next equivocation _ _ =>
        -- outside a recovery domain the equivocator is slashed
        obtain ⟨r, vs, hpunish, hlow, -⟩ := punish_spec h.active block.author
          .equivocationDAG (hashPair equivocation.block1Hash equivocation.block2Hash) block.round
          block.timestamp
        dsimp only
        rw [hpunish]
        exact ⟨_, rfl, hlow.valid, h.frozen⟩
  · split
    · exact ⟨e, rfl, h⟩
    · exact ⟨_, rfl, h.active, h.frozen⟩

end

theorem sameSets_pruneSecurityHistory (e : ConsensusEngine) (round : Nat) :
    SameSets e (e.pruneSecurityHistory round) := by
  rw [pruneSecurityHistory]
  split
  · exact .refl e
  · split
    · exact .refl e
    · exact ⟨rfl, rfl⟩

theorem receiveBlock_keeps (h : e.SetsValid) (block : DagBlock) :
    ∃ r, e.receiveBlock block = some r ∧ e.KeepsSets r := by
  rw [receiveBlock, receiveBlockInner]
  split
  · exact ⟨_, rfl, .refused h _⟩
  obtain ⟨e1, hnote, h1⟩ := noteAuthor_keeps h block
  rw [acceptBlock, hnote]
  exact ⟨_, rfl, h1.of_same (sameSets_pruneSecurityHistory _ _), nofun⟩

end Ops

/-! ## Sequences of operations -/

/-- The operations that touch a validator set. -/
inductive MembershipOp where
  | queueValidator (validator : Validator)
  | freezeEpoch
  | joinValidator (address : Address) (stake : Nat) (pubkey : List UInt8) (shard : Nat)
  | leaveValidator (address : Address)
  | updateValidatorStake (address : Address) (newStake : Nat)
  | epochTransition
  | updateValidatorSet (newSet : ValidatorSet)
  | applySlash (offender : Address) (amount : Nat)
  | enforceSlash (offender : Address) (amount : Nat)
  | reportOffense (offender : Address) (offense : SlashableOffense) (evidence : Hash256)
      (round timestamp : Nat)
  | receiveBlock (block : DagBlock)
  | submitFraudProof (proposer : Address) (claimedRoot actualRoot : Hash256) (round now : Nat)

/-- Forget the value of a result; what matters is whether it is an error. -/
def forget {α : Type} (r : Except ConsensusError α × ConsensusEngine) :
    Except ConsensusError Unit × ConsensusEngine :=
  (r.1.map fun _ => (), r.2)

/-- One operation; `none` is a panic. -/
def MembershipOp.apply (e : ConsensusEngine) :
    MembershipOp → Option (Except ConsensusError Unit × ConsensusEngine)
  | .queueValidator validator => some (.ok (), e.queueValidator validator)
  | .freezeEpoch => e.freezeEpoch.map fun e => (.ok (), e)
  | .joinValidator address stake pubkey shard => some (e.joinValidator address stake pubkey shard)
  | .leaveValidator address => some (forget (e.leaveValidator address))
  | .updateValidatorStake address newStake => some (e.updateValidatorStake address newStake)
  | .epochTransition => e.epochTransition.map fun r => (.ok (), r.2)
  | .updateValidatorSet newSet => some (e.updateValidatorSet newSet)
  | .applySlash offender amount =>
    (e.validatorSet.applySlash offender amount).map fun vs =>
      (.ok (), { e with validatorSet := vs })
  | .enforceSlash offender amount => (e.enforceSlash offender amount).map fun r => (.ok (), r.2)
  | .reportOffense offender offense evidence round timestamp =>
    some (forget (e.reportOffense offender offense evidence round timestamp))
  | .receiveBlock block => e.receiveBlock block
  | .submitFraudProof proposer claimedRoot actualRoot round now =>
    (e.submitFraudProof proposer claimedRoot actualRoot round now).map forget

theorem KeepsSets.forget {α : Type}
    {r : Except ConsensusError α × ConsensusEngine} (h : e.KeepsSets r) :
    e.KeepsSets (forget r) := by
  refine ⟨h.1, ?_⟩
  intro err herr
  rw [ConsensusEngine.forget] at herr
  cases hr : r.1 with
  | error err' => exact h.2 err' hr
  | ok a =>
    rw [hr] at herr
    cases herr

/-- **Step lemma.**  From valid sets, whatever an operation returns keeps them valid and
    an error means unchanged sets; only `freeze_epoch` can panic. -/
theorem MembershipOp.apply_keeps (h : e.SetsValid) (op : MembershipOp) :
    (∀ r, op.apply e = some r → e.KeepsSets r) ∧
      (op ≠ .freezeEpoch → ∃ r, op.apply e = some r) := by
  have total : ∀ {r : Except ConsensusError Unit × ConsensusEngine}, op.apply e = some r →
      e.KeepsSets r →
      (∀ r, op.apply e = some r → e.KeepsSets r) ∧
        (op ≠ .freezeEpoch → ∃ r, op.apply e = some r) := by
    intro r hr hkeeps
    refine ⟨fun r' hr' => ?_, fun _ => ⟨r, hr⟩⟩
    rw [hr] at hr'
    exact Option.some.inj hr' ▸ hkeeps
  cases op with
  | queueValidator validator =>
    refine total rfl (.accepted () ?_)
    rw [ConsensusEngine.queueValidator]
    split
    · exact h
    · exact ⟨h.active, h.frozen⟩
  | freezeEpoch =>
    refine ⟨fun r hr => ?_, fun hne => absurd rfl hne⟩
    obtain ⟨e', hfreeze, rfl⟩ := map_eq_some_iff.mp hr
    exact .accepted () (freezeEpoch_keeps hfreeze)
  | joinValidator address stake pubkey shard =>
    exact total rfl (joinValidator_keeps h address stake pubkey shard)
  | leaveValidator address => exact total rfl (leaveValidator_keeps h address).forget
  | updateValidatorStake address newStake =>
    exact total rfl (updateValidatorStake_keeps h address newStake)
  | epochTransition =>
    obtain ⟨r, hr, hvalid⟩ := epochTransition_keeps h
    exact total (r := (.ok (), r.2)) (by rw [MembershipOp.apply, hr]; rfl) (.accepted () hvalid)
  | updateValidatorSet newSet => exact total rfl (updateValidatorSet_keeps h newSet)
  | applySlash offender amount =>
    obtain ⟨vs, hslash, hlow⟩ := applySlash_spec h.active offender amount
    exact total (r := (.ok (), { e with validatorSet := vs }))
      (by rw [MembershipOp.apply, hslash]; rfl) (.accepted () ⟨hlow.valid, h.frozen⟩)
  | enforceSlash offender amount =>
    obtain ⟨r, hr, hvalid⟩ := enforceSlash_keeps h offender amount
    exact total (r := (.ok (), r.2)) (by rw [MembershipOp.apply, hr]; rfl) (.accepted () hvalid)
  | reportOffense offender offense evidence round timestamp =>
    exact total rfl (reportOffense_keeps h offender offense evidence round timestamp).forget
  | receiveBlock block =>
    obtain ⟨r, hr, hkeeps⟩ := receiveBlock_keeps h block
    exact total hr hkeeps
  | submitFraudProof proposer claimedRoot actualRoot round now =>
    obtain ⟨r, hr, hkeeps⟩ := submitFraudProof_keeps h proposer claimedRoot actualRoot round now
    exact total (by rw [MembershipOp.apply, hr]; rfl) hkeeps.forget

/-- The engine after one operation that did not panic. -/
def membershipStep (e : ConsensusEngine) (op : MembershipOp) : Option ConsensusEngine :=
  (op.apply e).map (·.2)

/-- **Validator-set invariant.**  In every state that a sequence of operations reaches
    from valid sets, both sets have distinct addresses, tiers by stake, the exact total
    and its supermajority; the next operation does not panic unless it is
    `freeze_epoch`, and if it returns an error both sets are unchanged. -/
theorem validator_sets_stay_valid {start reached : ConsensusEngine} {ops : List MembershipOp}
    (hstart : start.SetsValid)
    (hrun : Run membershipStep (fun _ _ => True) start ops reached) :
    reached.SetsValid ∧
      ∀ op : MembershipOp,
        (op ≠ .freezeEpoch → ∃ r, op.apply reached = some r) ∧
          ∀ err e', op.apply reached = some (.error err, e') → SameSets reached e' := by
  have hvalid : reached.SetsValid := by
    refine Run.invariant (I := SetsValid) ?_ hrun hstart
    intro e op e' _ he hstep
    obtain ⟨r, hr, rfl⟩ := map_eq_some_iff.mp hstep
    exact ((op.apply_keeps he).1 r hr).1
  refine ⟨hvalid, fun op => ⟨(op.apply_keeps hvalid).2, ?_⟩⟩
  intro err e' happly
  exact ((op.apply_keeps hvalid).1 _ happly).2 err rfl

end ConsensusEngine

namespace SampleMembership

/-- One core and one arc validator. -/
def set : ValidatorSet :=
  ⟨[⟨⟨1⟩, 50000000, .core, 0⟩, ⟨⟨2⟩, 5000000, .arc, 0⟩], 55000000, 1, 36666667, 0, []⟩

theorem set_valid : set.Valid := ⟨⟨by decide, by decide, by decide, by decide⟩, by decide⟩

/-- A third validator joins and restakes, the first is slashed below its tier, the
    second reports twice and leaves, and the epoch is frozen. -/
def ops : List ConsensusEngine.MembershipOp :=
  [.joinValidator ⟨3⟩ 600000 [] 0, .updateValidatorStake ⟨3⟩ 7000000,
    .reportOffense ⟨1⟩ .doubleSigning ⟨0⟩ 4 0, .applySlash ⟨1⟩ 15000000,
    .joinValidator ⟨3⟩ 600000 [] 0, .leaveValidator ⟨2⟩, .freezeEpoch, .epochTransition]

end SampleMembership

open SampleMembership ConsensusEngine in
/-- The sample sequence runs, changes the total, and keeps both sets valid. -/
theorem validator_sets_stay_valid_sample :
    letI := concreteCrypto
    ∃ reached, Run membershipStep (fun _ _ => True) (.new set ⟨1⟩ none) ops reached ∧
      reached.validatorSet.totalStake = 42000000 ∧ reached.SetsValid := by
  let _ : Crypto := concreteCrypto
  have hrun : (ops.foldlM (Run.guarded membershipStep fun _ _ => True)
      (ConsensusEngine.new set ⟨1⟩ none)).map (·.validatorSet.totalStake) = some 42000000 := by
    decide +kernel
  obtain ⟨reached, hreached, htotal⟩ := map_eq_some_iff.mp hrun
  have hsteps : Run membershipStep (fun _ _ => True) _ ops reached := .of_foldlM hreached
  have hstart : (ConsensusEngine.new set ⟨1⟩ none).SetsValid := ⟨set_valid, set_valid⟩
  exact ⟨reached, hsteps, htotal, (validator_sets_stay_valid hstart hsteps).1⟩

end ArcChain
