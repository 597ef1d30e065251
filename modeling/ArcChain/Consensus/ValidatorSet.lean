/-
Validators, stake tiers and the validator set of the consensus engine
(`arc-consensus/src/lib.rs`), with the slashing operations on a set.

A set caches its total stake and its quorum; `ValidatorSet.Valid` is the
relation of the caches to the members, and the lemmas here show that
slashing keeps it.  A call that panics in the source (`expect`, `panic!`)
has the value `none`.

The engine counts the stake of distinct authors in many loops.  All of
them are `tally`, which remembers only members, or `tallyAuthors`, which
remembers every author it meets; both add up to the weight of the set of
authors (`tally_snd`, `tallyAuthors_snd`), so the general quorum facts
apply.
-/
import ArcChain.Crypto.Hash
import ArcChain.Lib.StakeQuorum

namespace ArcChain

open Word StakeQuorum List

inductive ConsensusError where
  | invalidBlock (why : String)
  | missingParents (hash : Hash256) (missing : Nat)
  | roundTooFarAhead (round current : Nat)
  | insufficientParents
  | invalidRound
  | notValidator
  | duplicateBlock
  | invalidSignature
  | crossShardLockNotFound (why : String)
  | crossShardLockAlreadyExists (why : String)
  | crossShardLockFailed (why : String)
  | slashError (why : String)
  | mevOrderingViolation (why : String)
  | crossShardLockExpired (why : String)
  | historyPersistence (why : String)
deriving DecidableEq, Repr

/-! ## Stake tiers and validators -/

/-- Votes, produces no blocks. -/
def stakeSpark : Nat := 500000

/-- Produces blocks. -/
def stakeArc : Nat := 5000000

/-- Priority producer. -/
def stakeCore : Nat := 50000000

inductive StakeTier where
  | spark
  | arc
  | core
deriving DecidableEq, Repr

namespace StakeTier

def fromStake (stake : Nat) : Option StakeTier :=
  if stake ≥ stakeCore then some .core
  else if stake ≥ stakeArc then some .arc
  else if stake ≥ stakeSpark then some .spark
  else none

def canProduceBlocks : StakeTier → Bool
  | .arc | .core => true
  | .spark => false

theorem fromStake_eq_none {stake : Nat} : fromStake stake = none ↔ stake < stakeSpark := by
  unfold fromStake stakeCore stakeArc stakeSpark
  split
  · simp; omega
  split
  · simp; omega
  · split
    · simp; omega
    · simp; omega

end StakeTier

inductive SlashableOffense where
  | doubleSigning
  | livenessFault
  | invalidBlockProposal
  | equivocationDAG
deriving DecidableEq, Repr

structure SlashRecord where
  offense : SlashableOffense
  offender : Address
  evidence : Hash256
  round : Nat
  timestamp : Nat
  slashAmount : Nat
deriving DecidableEq, Repr

structure Validator where
  address : Address
  stake : Nat
  tier : StakeTier
  shardAssignment : Nat
deriving DecidableEq, Repr

/-- The tier follows from the stake. -/
def Validator.new (address : Address) (stake shardAssignment : Nat) : Option Validator :=
  (StakeTier.fromStake stake).map fun tier => { address, stake, tier, shardAssignment }

/-- The loop of `checked_validator_total_stake`: `seen` holds the addresses met so
    far, `total` their stake. -/
def checkedTotalFrom (seen : List Address) (total : Nat) :
    List Validator → Except ConsensusError Nat
  | [] => .ok total
  | v :: rest =>
    if StakeTier.fromStake v.stake ≠ some v.tier then
      .error (.invalidBlock
        s!"validator {v.address.display} has invalid stake/tier metadata")
    else if v.address ∈ seen then
      .error (.invalidBlock "duplicate validator address in validator set")
    else
      match checkedAdd total v.stake with
      | none => .error (.invalidBlock "total validator stake exceeds u64::MAX")
      | some total' => checkedTotalFrom (v.address :: seen) total' rest

def checkedValidatorTotalStake (validators : List Validator) : Except ConsensusError Nat :=
  checkedTotalFrom [] 0 validators

/-- What `checked_validator_total_stake` checks, member by member. -/
structure CheckedMembers (validators : List Validator) (total : Nat) : Prop where
  nodup : (validators.map (·.address)).Nodup
  tier : ∀ v ∈ validators, StakeTier.fromStake v.stake = some v.tier
  sum : (validators.map (·.stake)).sum = total
  fits : total ≤ u64Max

/-- Dropping members keeps the rest checked, with their own total. -/
theorem CheckedMembers.filter {l : List Validator} {t : Nat} (h : CheckedMembers l t)
    (p : Validator → Bool) :
    CheckedMembers (l.filter p) ((l.filter p).map (·.stake)).sum where
  nodup := h.nodup.sublist (filter_sublist.map _)
  tier v hv := h.tier v (mem_filter.mp hv).1
  sum := rfl
  fits := by
    have hle : ((l.filter p).map (·.stake)).sum ≤ (l.map (·.stake)).sum :=
      (filter_sublist.map _).sum_le_sum (fun _ _ => Nat.zero_le _)
    have hfits := h.fits
    rw [h.sum] at hle
    omega

/-- The loop succeeds exactly on distinct, correctly tiered members that are new to
    `seen` and whose stake fits on top of `total`. -/
theorem checkedTotalFrom_eq_ok {seen : List Address} {total t : Nat} {vs : List Validator}
    (hfit : total ≤ u64Max) :
    checkedTotalFrom seen total vs = .ok t ↔
      (vs.map (·.address)).Nodup ∧ (∀ v ∈ vs, StakeTier.fromStake v.stake = some v.tier) ∧
        (∀ v ∈ vs, v.address ∉ seen) ∧ total + (vs.map (·.stake)).sum = t ∧ t ≤ u64Max := by
  induction vs generalizing seen total with
  | nil =>
    simp only [checkedTotalFrom, Except.ok.injEq, map_nil, nodup_nil,
      not_mem_nil, false_implies, implies_true, true_and]
    exact ⟨fun h => ⟨h, h ▸ hfit⟩, fun h => h.1⟩
  | cons v rest ih =>
    unfold checkedTotalFrom
    by_cases htier : StakeTier.fromStake v.stake = some v.tier
    · rw [if_neg (not_not.mpr htier)]
      by_cases hseen : v.address ∈ seen
      · rw [if_pos hseen]
        simp only [reduceCtorEq, false_iff]
        intro h
        exact h.2.2.1 v mem_cons_self hseen
      · rw [if_neg hseen]
        cases hadd : checkedAdd total v.stake with
        | none =>
          -- the running total already overflows, so the exact sum does too
          simp only [reduceCtorEq, false_iff]
          rintro ⟨-, -, -, hsum, ht⟩
          have hsome : checkedAdd total v.stake = some (total + v.stake) :=
            checkedAdd_eq_some.mpr ⟨rfl, by
              simp only [map_cons, sum_cons] at hsum
              omega⟩
          rw [hadd] at hsome
          cases hsome
        | some total' =>
          obtain ⟨hsum, hfit'⟩ := checkedAdd_eq_some.mp hadd
          show checkedTotalFrom (v.address :: seen) total' rest = .ok t ↔ _
          rw [ih hfit']
          rw [forall_mem_cons, forall_mem_cons]
          simp only [map_cons, nodup_cons, mem_map, mem_cons, not_or, sum_cons]
          constructor
          · rintro ⟨hnd, ht, hs, hsum, hle⟩
            refine ⟨⟨?_, hnd⟩, ⟨htier, ht⟩, ⟨hseen, fun w hw => (hs w hw).2⟩, by omega, hle⟩
            rintro ⟨w, hw, heq⟩
            exact (hs w hw).1 heq
          · rintro ⟨⟨hnotin, hnd⟩, ⟨-, ht⟩, ⟨-, hs⟩, hsum, hle⟩
            exact ⟨hnd, ht, fun w hw => ⟨fun heq => hnotin ⟨w, hw, heq⟩, hs w hw⟩, by omega, hle⟩
    · rw [if_pos htier]
      simp only [reduceCtorEq, false_iff]
      intro h
      exact htier (h.2.1 v mem_cons_self)

/-- `checked_validator_total_stake` returns `total` exactly on checked members. -/
theorem checkedValidatorTotalStake_eq_ok {vs : List Validator} {t : Nat} :
    checkedValidatorTotalStake vs = .ok t ↔ CheckedMembers vs t := by
  unfold checkedValidatorTotalStake
  rw [checkedTotalFrom_eq_ok (Nat.zero_le _)]
  constructor
  · rintro ⟨hnd, ht, -, hsum, hle⟩
    exact ⟨hnd, ht, by omega, hle⟩
  · rintro ⟨hnd, ht, hsum, hle⟩
    exact ⟨hnd, ht, by simp, by omega, hle⟩

/-! ## The validator set -/

structure ValidatorSet where
  validators : List Validator
  totalStake : Nat
  epoch : Nat
  quorum : Nat
  slashedTotal : Nat
  slashHistory : List SlashRecord
deriving DecidableEq, Repr

/-- The least stake strictly above two thirds. -/
def strictSupermajorityThreshold (totalStake : Nat) : Nat := supermajority totalStake

/-- `SLASH_RATE_SPARK`, `SLASH_RATE_ARC`, `SLASH_RATE_CORE` by tier, in percent
    (`ValidatorSet::slash_rate`). -/
def slashRate : StakeTier → Nat
  | .spark => 10
  | .arc => 20
  | .core => 30

namespace ValidatorSet

variable {a : Address}

/-- `ValidatorSet::new` panics on members that do not check. -/
def new (validators : List Validator) (epoch : Nat) : Option ValidatorSet :=
  match checkedValidatorTotalStake validators with
  | .error _ => none
  | .ok totalStake =>
    some
      { validators, totalStake, epoch
        quorum := strictSupermajorityThreshold totalStake
        slashedTotal := 0
        slashHistory := [] }

def getValidator (vs : ValidatorSet) (address : Address) : Option Validator :=
  vs.validators.find? fun v => v.address = address

def isValidator (vs : ValidatorSet) (address : Address) : Bool :=
  (vs.getValidator address).isSome

/-- A member of tier Arc or Core. -/
def canProduceBlocks (vs : ValidatorSet) (address : Address) : Bool :=
  ((vs.getValidator address).map fun v => v.tier.canProduceBlocks).getD false

/-- `report_offense` records an offense and its penalty; the stake itself is
    reduced by `apply_slash`. -/
def reportOffense (vs : ValidatorSet) (offender : Address) (offense : SlashableOffense)
    (evidence : Hash256) (round timestamp : Nat) :
    Except ConsensusError SlashRecord × ValidatorSet :=
  match vs.getValidator offender with
  | none => (.error (.slashError s!"validator {offender.debug} not found"), vs)
  | some validator =>
    let slashAmount := validator.stake * slashRate validator.tier / 100 % 2 ^ 64
    match checkedAdd vs.slashedTotal slashAmount with
    | none => (.error (.slashError "cumulative slashed stake exceeds u64::MAX"), vs)
    | some slashedTotal =>
      let record := { offense, offender, evidence, round, timestamp, slashAmount }
      (.ok record, { vs with slashedTotal, slashHistory := vs.slashHistory ++ [record] })

/-- The member update of `apply_slash`: the first member with the offender's address
    loses stake, and the flag says that it fell below the minimum. -/
def slashFirst (offender : Address) (slashAmount : Nat) :
    List Validator → List Validator × Bool
  | [] => ([], false)
  | v :: rest =>
    if v.address = offender then
      let stake := v.stake - slashAmount
      if stake < stakeSpark then ({ v with stake } :: rest, true)
      else ({ v with stake, tier := (StakeTier.fromStake stake).getD .spark } :: rest, false)
    else
      let r := slashFirst offender slashAmount rest
      (v :: r.1, r.2)

/-- The members after `apply_slash`: an offender below the minimum is removed. -/
def slashMembers (offender : Address) (slashAmount : Nat) (members : List Validator) :
    List Validator :=
  let r := slashFirst offender slashAmount members
  if r.2 then r.1.filter fun v => v.address ≠ offender else r.1

/-- `apply_slash`; the recomputation of the total is an `expect`. -/
def applySlash (vs : ValidatorSet) (offender : Address) (slashAmount : Nat) :
    Option ValidatorSet :=
  let validators := slashMembers offender slashAmount vs.validators
  match checkedValidatorTotalStake validators with
  | .error _ => none
  | .ok totalStake =>
    some { vs with validators, totalStake, quorum := strictSupermajorityThreshold totalStake }

/-- Report an offense and, if it was recorded, apply the slash: the sequence that every
    slashing path of the engine runs. -/
def punish (vs : ValidatorSet) (offender : Address) (offense : SlashableOffense)
    (evidence : Hash256) (round timestamp : Nat) :
    Option (Except ConsensusError SlashRecord × ValidatorSet) :=
  match vs.reportOffense offender offense evidence round timestamp with
  | (.error err, vs) => some (.error err, vs)
  | (.ok record, vs) =>
    (vs.applySlash offender record.slashAmount).map fun vs => (.ok record, vs)

/-- The caches of a set agree with its members: distinct addresses, tiers by stake,
    the exact total (which fits in 64 bits) and its supermajority. -/
structure Valid (vs : ValidatorSet) : Prop where
  members : CheckedMembers vs.validators vs.totalStake
  quorum : vs.quorum = strictSupermajorityThreshold vs.totalStake

variable {vs : ValidatorSet}

theorem new_valid {validators : List Validator} {epoch : Nat}
    (h : new validators epoch = some vs) : vs.Valid := by
  unfold new at h
  split at h
  · cases h
  · next t ht =>
      cases h
      exact ⟨checkedValidatorTotalStake_eq_ok.mp ht, rfl⟩

/-! ## Looking members up -/

/-- The stake of an address; strangers have none. -/
def stakeOf (vs : ValidatorSet) (a : Address) : Nat :=
  ((vs.getValidator a).map (·.stake)).getD 0

/-- The committee: the addresses of the members. -/
def addresses (vs : ValidatorSet) : Finset Address :=
  (vs.validators.map (·.address)).toFinset

variable {v : Validator}

theorem getValidator_mem (h : vs.getValidator a = some v) : v ∈ vs.validators ∧ v.address = a :=
  ⟨mem_of_find?_eq_some h, by simpa using List.find?_some h⟩

/-- Among distinct addresses a lookup finds every member. -/
theorem getValidator_eq_some (hnd : (vs.validators.map (·.address)).Nodup) :
    vs.getValidator a = some v ↔ v ∈ vs.validators ∧ v.address = a := by
  refine ⟨getValidator_mem, ?_⟩
  rintro ⟨hv, hva⟩
  cases hget : vs.getValidator a with
  | none =>
    have hno := List.find?_eq_none.mp hget v hv
    simp [hva] at hno
  | some w =>
    obtain ⟨hw, hwa⟩ := getValidator_mem hget
    rw [inj_on_of_nodup_map hnd hw hv (hwa.trans hva.symm)]

theorem isValidator_iff : vs.isValidator a = true ↔ a ∈ vs.addresses := by
  simp [isValidator, getValidator, addresses]

theorem stakeOf_stranger (h : a ∉ vs.addresses) : vs.stakeOf a = 0 := by
  have hnone : vs.getValidator a = none := by
    rw [← Option.not_isSome_iff_eq_none]
    exact fun hs => h (isValidator_iff.mp hs)
  simp [stakeOf, hnone]

theorem stakeOf_eq (hnd : (vs.validators.map (·.address)).Nodup) (hv : v ∈ vs.validators) :
    vs.stakeOf v.address = v.stake := by
  simp [stakeOf, (getValidator_eq_some hnd).mpr ⟨hv, rfl⟩]

/-- The committee weighs exactly the cached total. -/
theorem Valid.weight_addresses (h : vs.Valid) : weight vs.stakeOf vs.addresses = vs.totalStake := by
  unfold weight addresses
  rw [sum_toFinset _ h.members.nodup, map_map, ← h.members.sum]
  congr 1
  apply map_congr_left
  intro v hv
  exact stakeOf_eq h.members.nodup hv

theorem Valid.quorum_pos (h : vs.Valid) : 0 < vs.quorum := h.quorum ▸ supermajority_pos _

/-! ## Slashing keeps a set valid -/

section Slash

variable {offender : Address} {amount : Nat} {l : List Validator}

theorem slashFirst_addresses (offender : Address) (amount : Nat) (l : List Validator) :
    (slashFirst offender amount l).1.map (·.address) = l.map (·.address) := by
  induction l with
  | nil => rfl
  | cons v rest ih =>
    unfold slashFirst
    split
    · dsimp only
      split <;> rfl
    · simp [ih]

variable {w : Validator}

/-- Members other than the offender are not touched. -/
theorem mem_slashFirst_of_ne (hne : w.address ≠ offender) :
    w ∈ (slashFirst offender amount l).1 ↔ w ∈ l := by
  induction l with
  | nil => rfl
  | cons v rest ih =>
    unfold slashFirst
    split
    · next hv =>
        have hwv : w ≠ v := fun h => hne (h ▸ hv)
        dsimp only
        split
        · have : w ≠ { v with stake := v.stake - amount } := fun h => hne (h ▸ hv)
          simp [this, hwv]
        have : w ≠ { v with
            stake := v.stake - amount
            tier := (StakeTier.fromStake (v.stake - amount)).getD .spark } :=
          fun h => hne (h ▸ hv)
        simp [this, hwv]
    · simp [ih]

/-- The offender loses stake, and keeps a correct tier unless it is removed. -/
theorem mem_slashFirst_offender (hnd : (l.map (·.address)).Nodup)
    (hw : w ∈ (slashFirst offender amount l).1) (hoff : w.address = offender) :
    ∃ v ∈ l, v.address = offender ∧ w.stake ≤ v.stake ∧ ((slashFirst offender amount l).2 = false →
        StakeTier.fromStake w.stake = some w.tier) := by
  induction l with
  | nil => cases hw
  | cons v rest ih =>
    rw [map_cons, nodup_cons] at hnd
    unfold slashFirst at hw ⊢
    by_cases hv : v.address = offender
    · -- the offender is here, so no later member has its address
      have hrest : w ∉ rest := fun h =>
        hnd.1 (mem_map.mpr ⟨w, h, hoff.trans hv.symm⟩)
      refine ⟨v, mem_cons_self, hv, ?_⟩
      simp only [hv] at hw ⊢
      by_cases hlow : v.stake - amount < stakeSpark
      · simp only [hlow] at hw ⊢
        have hwv := (mem_cons.mp hw).resolve_right hrest
        exact ⟨by rw [hwv]; exact Nat.sub_le _ _, nofun⟩
      · simp only [hlow] at hw ⊢
        have hwv := (mem_cons.mp hw).resolve_right hrest
        cases htier : StakeTier.fromStake (v.stake - amount) with
        | none => exact absurd (StakeTier.fromStake_eq_none.mp htier) hlow
        | some tier => rw [hwv]; simp [htier]
    · simp only [hv] at hw ⊢
      have hwv : w ≠ v := fun h => hv (h ▸ hoff)
      obtain ⟨u, hu, huo, hle, htier⟩ := ih hnd.2 ((mem_cons.mp hw).resolve_left hwv)
      exact ⟨u, mem_cons_of_mem _ hu, huo, hle, htier⟩

theorem slashFirst_sum_le (offender : Address) (amount : Nat) (l : List Validator) :
    ((slashFirst offender amount l).1.map (·.stake)).sum ≤ (l.map (·.stake)).sum := by
  induction l with
  | nil => exact le_refl _
  | cons v rest ih =>
    unfold slashFirst
    split
    · dsimp only
      split
      · simp only [map_cons, sum_cons]; omega
      · simp only [map_cons, sum_cons]; omega
    · simp only [map_cons, sum_cons]; omega

theorem slashMembers_sublist_addresses :
    ((slashMembers offender amount l).map (·.address)).Sublist (l.map (·.address)) := by
  unfold slashMembers
  dsimp only
  split
  · have h : ((slashFirst offender amount l).1.filter fun v => v.address ≠ offender).Sublist
        (slashFirst offender amount l).1 := filter_sublist
    exact slashFirst_addresses offender amount l ▸ h.map (·.address)
  · rw [slashFirst_addresses]

theorem mem_slashMembers_of_ne (hne : w.address ≠ offender) :
    w ∈ slashMembers offender amount l ↔ w ∈ l := by
  unfold slashMembers
  dsimp only
  split
  · simp [mem_slashFirst_of_ne hne, hne]
  · exact mem_slashFirst_of_ne hne

theorem mem_slashMembers_offender (hnd : (l.map (·.address)).Nodup)
    (hw : w ∈ slashMembers offender amount l) (hoff : w.address = offender) :
    ∃ v ∈ l, v.address = offender ∧ w.stake ≤ v.stake ∧
      StakeTier.fromStake w.stake = some w.tier := by
  unfold slashMembers at hw
  dsimp only at hw
  split at hw
  · simp [hoff] at hw
  · next hkeep =>
      obtain ⟨v, hv, hvo, hle, htier⟩ := mem_slashFirst_offender hnd hw hoff
      exact ⟨v, hv, hvo, hle, htier (by simpa using hkeep)⟩

theorem slashMembers_sum_le :
    ((slashMembers offender amount l).map (·.stake)).sum ≤ (l.map (·.stake)).sum := by
  refine le_trans ?_ (slashFirst_sum_le offender amount l)
  unfold slashMembers
  dsimp only
  split
  · exact (filter_sublist.map _).sum_le_sum (fun _ _ => Nat.zero_le _)
  · exact le_refl _

/-- Slashed members still check, with a total that did not grow. -/
theorem slashMembers_checked {t : Nat} (h : CheckedMembers l t) (offender : Address)
    (amount : Nat) :
    CheckedMembers (slashMembers offender amount l)
      ((slashMembers offender amount l).map (·.stake)).sum where
  nodup := h.nodup.sublist slashMembers_sublist_addresses
  tier := by
    intro w hw
    by_cases hoff : w.address = offender
    · obtain ⟨v, -, -, -, htier⟩ := mem_slashMembers_offender h.nodup hw hoff
      exact htier
    · exact h.tier w ((mem_slashMembers_of_ne hoff).mp hw)
  sum := rfl
  fits := le_trans slashMembers_sum_le (h.sum ▸ h.fits)

/-- `vs'` is `vs` after `offender`, and nobody else, may have lost stake. -/
structure Lowered (offender : Address) (vs vs' : ValidatorSet) : Prop where
  valid : vs'.Valid
  others : ∀ a, a ≠ offender → vs'.getValidator a = vs.getValidator a
  offender_le : vs'.stakeOf offender ≤ vs.stakeOf offender
  total_le : vs'.totalStake ≤ vs.totalStake
  epoch : vs'.epoch = vs.epoch

/-- `apply_slash` on a valid set never panics and lowers the offender only. -/
theorem applySlash_spec {vs : ValidatorSet} (h : vs.Valid) (offender : Address)
    (amount : Nat) : ∃ vs', vs.applySlash offender amount = some vs' ∧ Lowered offender vs vs' := by
  have hchecked := slashMembers_checked h.members offender amount
  have hstep : vs.applySlash offender amount = some { vs with
      validators := slashMembers offender amount vs.validators
      totalStake := ((slashMembers offender amount vs.validators).map (·.stake)).sum
      quorum := strictSupermajorityThreshold
        ((slashMembers offender amount vs.validators).map (·.stake)).sum } := by
    simp only [applySlash, checkedValidatorTotalStake_eq_ok.mpr hchecked]
  refine ⟨_, hstep, ⟨hchecked, rfl⟩, ?_, ?_, ?_, rfl⟩
  · intro a hne
    apply Option.ext
    intro v
    rw [getValidator_eq_some hchecked.nodup, getValidator_eq_some h.members.nodup]
    constructor
    · rintro ⟨hv, rfl⟩
      exact ⟨(mem_slashMembers_of_ne hne).mp hv, rfl⟩
    · rintro ⟨hv, rfl⟩
      exact ⟨(mem_slashMembers_of_ne hne).mpr hv, rfl⟩
  · -- a removed offender has no stake left; a kept one has less than before
    rw [stakeOf]
    cases hget : getValidator _ offender with
    | none => exact Nat.zero_le _
    | some w =>
      obtain ⟨hmem, hoff⟩ := getValidator_mem hget
      obtain ⟨v, hv, hvo, hle, -⟩ := mem_slashMembers_offender h.members.nodup hmem hoff
      rw [← hvo, stakeOf_eq h.members.nodup hv]
      exact hle
  · exact h.members.sum ▸ slashMembers_sum_le

end Slash

theorem Lowered.refl (h : vs.Valid) (offender : Address) : Lowered offender vs vs where
  valid := h
  others _ _ := rfl
  offender_le := le_refl _
  total_le := le_refl _
  epoch := rfl

theorem reportOffense_err {vs vs' : ValidatorSet} {offender : Address}
    {offense : SlashableOffense} {evidence : Hash256} {round timestamp : Nat}
    {e : ConsensusError}
    (h : vs.reportOffense offender offense evidence round timestamp = (.error e, vs')) :
    vs' = vs := by
  unfold reportOffense at h
  split at h
  · cases h; rfl
  dsimp only at h
  split at h
  · cases h; rfl
  · cases h

/-- Recording an offense leaves the members and the caches alone. -/
theorem reportOffense_members (vs : ValidatorSet) (offender : Address)
    (offense : SlashableOffense) (evidence : Hash256) (round timestamp : Nat) :
    ∃ slashedTotal slashHistory, (vs.reportOffense offender offense evidence round timestamp).2 =
        { vs with slashedTotal, slashHistory } := by
  unfold reportOffense
  split
  · exact ⟨_, _, rfl⟩
  dsimp only
  split <;> exact ⟨_, _, rfl⟩

/-- **Spec of a slash.**  On a valid set a slash never panics; it lowers the offender and
    nobody else, and a refused one changes nothing. -/
theorem punish_spec (h : vs.Valid) (offender : Address)
    (offense : SlashableOffense) (evidence : Hash256) (round timestamp : Nat) :
    ∃ r vs', vs.punish offender offense evidence round timestamp = some (r, vs') ∧
      Lowered offender vs vs' ∧ (∀ err, r = .error err → vs' = vs) := by
  obtain ⟨total, history, hreport⟩ :=
    reportOffense_members vs offender offense evidence round timestamp
  rw [punish]
  cases hres : vs.reportOffense offender offense evidence round timestamp with
  | mk r vs1 =>
    cases r with
    | error err =>
      have hsame : vs1 = vs := reportOffense_err hres
      exact ⟨.error err, vs1, rfl, hsame ▸ Lowered.refl h offender, fun _ _ => hsame⟩
    | ok record =>
      rw [hres] at hreport
      subst hreport
      -- the record is in; the members and caches are still those of the old set
      have hvalid : Valid { vs with slashedTotal := total, slashHistory := history } :=
        ⟨h.members, h.quorum⟩
      obtain ⟨vs2, hslash, hlow⟩ := applySlash_spec hvalid offender record.slashAmount
      refine ⟨.ok record, vs2, ?_, ?_, nofun⟩
      · simp only [hslash, Option.map_some]
      · exact ⟨hlow.valid, hlow.others, hlow.offender_le, hlow.total_le, hlow.epoch⟩

/-! ## Counting the stake of distinct authors -/

/-- One turn of a loop that looks the author up first: a member that was not counted
    before is counted. -/
def tallyStep (vs : ValidatorSet) (acc : List Address × Nat) (author : Address) :
    List Address × Nat :=
  match vs.getValidator author with
  | some v => if author ∈ acc.1 then acc else (author :: acc.1, acc.2 + v.stake)
  | none => acc

/-- The distinct members among `authors`, and their stake. -/
def tally (vs : ValidatorSet) (authors : List Address) : List Address × Nat :=
  authors.foldl vs.tallyStep ([], 0)

/-- One turn of a loop that remembers the author first, member or not. -/
def tallyAuthorsStep (vs : ValidatorSet) (acc : List Address × Nat) (author : Address) :
    List Address × Nat :=
  if author ∈ acc.1 then acc
  else
    match vs.getValidator author with
    | some v => (author :: acc.1, acc.2 + v.stake)
    | none => (author :: acc.1, acc.2)

/-- The distinct authors, and the stake of the members among them. -/
def tallyAuthors (vs : ValidatorSet) (authors : List Address) : List Address × Nat :=
  authors.foldl vs.tallyAuthorsStep ([], 0)

section Tally

variable {vs : ValidatorSet} {authors : List Address}

variable {acc : List Address × Nat}

theorem tallyStep_eq (acc : List Address × Nat) (a : Address) : vs.tallyStep acc a =
      if a ∈ vs.addresses ∧ a ∉ acc.1 then (a :: acc.1, acc.2 + vs.stakeOf a) else acc := by
  unfold tallyStep
  cases hget : vs.getValidator a with
  | none =>
    have hstranger : a ∉ vs.addresses := by
      rw [← isValidator_iff, isValidator, hget]
      nofun
    simp [hstranger]
  | some v =>
    have hmem : a ∈ vs.addresses := by
      rw [← isValidator_iff, isValidator, hget]
      rfl
    by_cases ha : a ∈ acc.1
    · simp [ha]
    · simp [hmem, stakeOf, hget]

theorem tallyAuthorsStep_eq (acc : List Address × Nat) (a : Address) : vs.tallyAuthorsStep acc a =
      if a ∈ acc.1 then acc else (a :: acc.1, acc.2 + vs.stakeOf a) := by
  unfold tallyAuthorsStep stakeOf
  split
  · rfl
  · cases vs.getValidator a <;> rfl

/-- The count so far is the weight of the authors remembered so far. -/
def TallyInv (vs : ValidatorSet) (acc : List Address × Nat) : Prop :=
  acc.2 = weight vs.stakeOf acc.1.toFinset

theorem TallyInv.cons (h : vs.TallyInv acc) (ha : a ∉ acc.1) :
    vs.TallyInv (a :: acc.1, acc.2 + vs.stakeOf a) := by
  unfold TallyInv weight at *
  rw [toFinset_cons, Finset.sum_insert (by simpa using ha), h, add_comm]

/-- Both loops: a step that either keeps the accumulator or adds a new author with
    its stake keeps the count right. -/
theorem TallyInv.foldl {step : List Address × Nat → Address → List Address × Nat}
    (hstep : ∀ acc a, vs.TallyInv acc → vs.TallyInv (step acc a)) (h : vs.TallyInv acc)
    (authors : List Address) :
    vs.TallyInv (authors.foldl step acc) := by
  induction authors generalizing acc with
  | nil => exact h
  | cons a rest ih => exact ih (hstep acc a h)

theorem tally_snd : (vs.tally authors).2 = weight vs.stakeOf (vs.tally authors).1.toFinset := by
  refine TallyInv.foldl (fun acc a h => ?_) (by simp [TallyInv, weight]) authors
  rw [tallyStep_eq]
  split
  · next hnew => exact h.cons hnew.2
  · exact h

theorem tallyAuthors_snd :
    (vs.tallyAuthors authors).2 = weight vs.stakeOf (vs.tallyAuthors authors).1.toFinset := by
  refine TallyInv.foldl (fun acc a h => ?_) (by simp [TallyInv, weight]) authors
  rw [tallyAuthorsStep_eq]
  split
  · exact h
  · next hnew => exact h.cons hnew

theorem mem_foldl_tallyStep :
    a ∈ (authors.foldl vs.tallyStep acc).1 ↔ a ∈ acc.1 ∨ a ∈ authors ∧ a ∈ vs.addresses := by
  induction authors generalizing acc with
  | nil => simp
  | cons b rest ih =>
    rw [foldl_cons, ih, tallyStep_eq]
    by_cases hb : b ∈ vs.addresses ∧ b ∉ acc.1
    · rw [if_pos hb]
      by_cases hab : a = b
      · subst hab; simp [hb.1]
      · simp [hab]
    · rw [if_neg hb]
      by_cases hab : a = b
      · subst hab
        have hacc : a ∈ vs.addresses → a ∈ acc.1 := fun h =>
          Classical.byContradiction fun hn => hb ⟨h, hn⟩
        simp only [mem_cons, true_or, true_and]
        exact ⟨fun h => h.imp_right (·.2), fun h => h.elim .inl fun hm => .inl (hacc hm)⟩
      · simp [hab]

/-- `tally` counts exactly the members among the authors. -/
theorem mem_tally : a ∈ (vs.tally authors).1 ↔ a ∈ authors ∧ a ∈ vs.addresses := by
  unfold tally
  rw [mem_foldl_tallyStep]
  simp

/-- The stake that a tally counts is carried by the authors it was given. -/
theorem tally_le : (vs.tally authors).2 ≤ weight vs.stakeOf authors.toFinset := by
  rw [tally_snd]
  apply weight_mono
  intro a ha
  rw [mem_toFinset] at ha ⊢
  exact (mem_tally.mp ha).1

theorem mem_foldl_tallyAuthorsStep :
    a ∈ (authors.foldl vs.tallyAuthorsStep acc).1 ↔ a ∈ acc.1 ∨ a ∈ authors := by
  induction authors generalizing acc with
  | nil => simp
  | cons b rest ih =>
    rw [foldl_cons, ih, tallyAuthorsStep_eq]
    split
    · next hb =>
        by_cases hab : a = b
        · subst hab; simp [hb]
        · simp [hab]
    · simp only [mem_cons]; tauto

/-- `tallyAuthors` remembers exactly the authors. -/
theorem mem_tallyAuthors : a ∈ (vs.tallyAuthors authors).1 ↔ a ∈ authors := by
  unfold tallyAuthors
  rw [mem_foldl_tallyAuthorsStep]
  simp

end Tally

end ValidatorSet

/-! ## Byzantine stake -/

/-- The stake outside the honest validators is at most what a quorum may miss. -/
def ByzantineBound (set : ValidatorSet) (honest : Address → Prop) [DecidablePred honest] :
    Prop :=
  weight set.stakeOf (set.addresses.filter fun a => ¬ honest a) ≤ set.totalStake - set.quorum

/-- Two quorums of a valid set share an honest member. -/
theorem ByzantineBound.exists_common {set : ValidatorSet} {honest : Address → Prop}
    [DecidablePred honest] (hbyz : ByzantineBound set honest) (hset : set.Valid)
    {A B : Finset Address} (hA : set.quorum ≤ weight set.stakeOf A)
    (hB : set.quorum ≤ weight set.stakeOf B) : ∃ a, a ∈ A ∧ a ∈ B ∧ honest a := by
  have hstranger : ∀ a, a ∉ set.addresses → set.stakeOf a = 0 :=
    fun a ha => ValidatorSet.stakeOf_stranger ha
  have htotal := hset.weight_addresses
  have hle := weight_le_committee hstranger A
  have hhonest := le_honest_weight_add hstranger honest A
  have hpos := hset.quorum_pos
  have hspec : supermajority set.totalStake ≤ set.totalStake ∧
      3 * (set.totalStake - supermajority set.totalStake) < set.totalStake :=
    supermajority_spec (by omega)
  have hquorum : set.quorum = supermajority set.totalStake := hset.quorum
  rw [ByzantineBound] at hbyz
  apply exists_honest_mem_inter hstranger honest
  omega

end ArcChain
