/-
Quorums of address lists (`ValidatorSet::stake_for_addresses`,
`has_quorum`, `fault_tolerance_stake` in `arc-consensus/src/lib.rs`).

A list may repeat addresses and name strangers; the loop skips both, so it
adds up to the weight of the set of addresses (`stakeForAddresses_eq`) and
its checked addition never fails.  From there the two facts the protocol
rests on are the general ones of `Lib.StakeQuorum`: two quorums share more
stake than the fault tolerance, and the members outside a tolerated
Byzantine subset are a quorum on their own.
-/
import ArcChain.Consensus.ValidatorSet

namespace ArcChain

open Word StakeQuorum List

namespace ValidatorSet

/-! ## The stake of an address list -/

/-- The stake a quorum may miss. -/
def faultToleranceStake (vs : ValidatorSet) : Nat := vs.totalStake - vs.quorum

/-- The loop of `stake_for_addresses`: `seen` holds the addresses met so far, `total`
    the stake of the members among them.  `none` is the `expect` that fails. -/
def stakeForAddressesFrom (vs : ValidatorSet) (seen : List Address) (total : Nat) :
    List Address → Option Nat
  | [] => some total
  | a :: rest =>
    if a ∈ seen then vs.stakeForAddressesFrom seen total rest
    else
      match vs.getValidator a with
      | none => vs.stakeForAddressesFrom (a :: seen) total rest
      | some v =>
        match checkedAdd total v.stake with
        | none => none
        | some total' => vs.stakeForAddressesFrom (a :: seen) total' rest

/-- Unknown and repeated addresses are skipped. -/
def stakeForAddresses (vs : ValidatorSet) (addresses : List Address) : Option Nat :=
  vs.stakeForAddressesFrom [] 0 addresses

def hasQuorum (vs : ValidatorSet) (addresses : List Address) : Option Bool :=
  (vs.stakeForAddresses addresses).map fun stake => decide (vs.quorum ≤ stake)

/-! ## Sets with exact caches -/

/-- What the quorum arithmetic needs of a set: distinct addresses, the exact total,
    which fits in 64 bits, and its supermajority.  Stakes and tiers are arbitrary. -/
structure Counted (vs : ValidatorSet) : Prop where
  nodup : (vs.validators.map (·.address)).Nodup
  sum : (vs.validators.map (·.stake)).sum = vs.totalStake
  fits : vs.totalStake ≤ u64Max
  quorum : vs.quorum = strictSupermajorityThreshold vs.totalStake

section Counted

variable {vs : ValidatorSet}

/-- Some members, as a set of addresses, weigh the sum of their stakes. -/
theorem Counted.weight_sublist (h : vs.Counted) {l : List Validator}
    (hl : l.Sublist vs.validators) :
    weight vs.stakeOf (l.map (·.address)).toFinset = (l.map (·.stake)).sum := by
  have hnodup : (l.map (·.address)).Nodup := h.nodup.sublist (hl.map _)
  have hstake : ∀ v ∈ l, vs.stakeOf v.address = v.stake :=
    fun v hv => stakeOf_eq h.nodup (hl.subset hv)
  unfold weight
  rw [sum_toFinset _ hnodup, map_map]
  exact congrArg List.sum (map_congr_left hstake)

theorem Counted.weight_members (h : vs.Counted) :
    weight vs.stakeOf vs.addresses = vs.totalStake := by
  rw [← h.sum]
  exact h.weight_sublist (List.Sublist.refl _)

theorem Counted.weight_le (h : vs.Counted) (A : Finset Address) :
    weight vs.stakeOf A ≤ vs.totalStake := by
  rw [← h.weight_members]
  exact weight_le_committee (fun a ha => stakeOf_stranger ha) A

/-- The loop adds the weight of the addresses it has not met yet. -/
theorem stakeForAddressesFrom_eq {seen addresses : List Address} {total : Nat}
    (hfit : total + weight vs.stakeOf (addresses.toFinset \ seen.toFinset) ≤ u64Max) :
    vs.stakeForAddressesFrom seen total addresses =
      some (total + weight vs.stakeOf (addresses.toFinset \ seen.toFinset)) := by
  induction addresses generalizing seen total with
  | nil => simp [stakeForAddressesFrom, weight]
  | cons a rest ih =>
    unfold stakeForAddressesFrom
    by_cases hseen : a ∈ seen
    · have hskip : (a :: rest).toFinset \ seen.toFinset = rest.toFinset \ seen.toFinset := by
        rw [toFinset_cons, Finset.insert_sdiff_of_mem _ (mem_toFinset.mpr hseen)]
      rw [if_pos hseen, hskip]
      rw [hskip] at hfit
      exact ih hfit
    · -- a new address: it leaves the rest and weighs its own stake
      have hsplit : (a :: rest).toFinset \ seen.toFinset =
          insert a (rest.toFinset \ (a :: seen).toFinset) := by
        ext b
        by_cases hb : b = a
        · subst hb
          simp [hseen]
        · simp [hb]
      have hnew : a ∉ rest.toFinset \ (a :: seen).toFinset := by simp
      have hweight : weight vs.stakeOf ((a :: rest).toFinset \ seen.toFinset) =
          vs.stakeOf a + weight vs.stakeOf (rest.toFinset \ (a :: seen).toFinset) := by
        rw [hsplit]
        exact Finset.sum_insert hnew
      rw [if_neg hseen, hweight]
      rw [hweight] at hfit
      cases hget : vs.getValidator a with
      | none =>
        have hzero : vs.stakeOf a = 0 := by simp [stakeOf, hget]
        rw [hzero, Nat.zero_add] at hfit ⊢
        exact ih hfit
      | some v =>
        have hstake : vs.stakeOf a = v.stake := by simp [stakeOf, hget]
        rw [hstake] at hfit ⊢
        have hadd : checkedAdd total v.stake = some (total + v.stake) :=
          checkedAdd_eq_some.mpr ⟨rfl, by omega⟩
        simp only [hadd]
        rw [ih (by omega), Nat.add_assoc]

/-- `stake_for_addresses` is the weight of the set of addresses; its `expect` holds. -/
theorem Counted.stakeForAddresses_eq (h : vs.Counted) (addresses : List Address) :
    vs.stakeForAddresses addresses = some (weight vs.stakeOf addresses.toFinset) := by
  have hle := h.weight_le addresses.toFinset
  have hfits := h.fits
  have hloop : vs.stakeForAddressesFrom [] 0 addresses =
      some (0 + weight vs.stakeOf (addresses.toFinset \ [].toFinset)) :=
    stakeForAddressesFrom_eq (by simp; omega)
  simpa [stakeForAddresses] using hloop

theorem Counted.hasQuorum_iff (h : vs.Counted) {addresses : List Address} :
    vs.hasQuorum addresses = some true ↔
      supermajority vs.totalStake ≤ weight vs.stakeOf addresses.toFinset := by
  have hquorum : vs.quorum = supermajority vs.totalStake := h.quorum
  simp [hasQuorum, h.stakeForAddresses_eq, hquorum]

end Counted

/-! ## Intersection and availability -/

/-- **Stake quorum intersection.**  In a set with a positive total, the members that
    occur in two quorum lists hold more stake than the fault tolerance; and whatever
    members of at most that stake are Byzantine, the others form a quorum. -/
theorem quorums_intersect_beyond_fault_tolerance (vs : ValidatorSet) (h : vs.Counted)
    (hpos : 0 < vs.totalStake) :
    (∀ first second : List Address,
      vs.hasQuorum first = some true → vs.hasQuorum second = some true →
        vs.faultToleranceStake <
          ((vs.validators.filter fun v => v.address ∈ first ∧ v.address ∈ second).map
            (·.stake)).sum) ∧
    ∀ byzantine : Validator → Bool,
      ((vs.validators.filter byzantine).map (·.stake)).sum ≤ vs.faultToleranceStake →
        vs.hasQuorum ((vs.validators.filter fun v => !byzantine v).map (·.address)) =
          some true := by
  have hstranger : ∀ a, a ∉ vs.addresses → vs.stakeOf a = 0 := fun a ha => stakeOf_stranger ha
  have htotal := h.weight_members
  have hquorum : vs.quorum = supermajority vs.totalStake := h.quorum
  constructor
  · intro first second hfirst hsecond
    rw [h.hasQuorum_iff, ← htotal] at hfirst hsecond
    have hcommon := slack_lt_weight_inter hstranger (htotal.symm ▸ hpos) hfirst hsecond
    -- strangers in both lists weigh nothing, so only members remain
    have hmembers : first.toFinset ∩ second.toFinset ∩ vs.addresses =
        ((vs.validators.filter fun v => v.address ∈ first ∧ v.address ∈ second).map
          (·.address)).toFinset := by
      ext a
      simp only [addresses, Finset.mem_inter, mem_toFinset, mem_map, mem_filter, decide_eq_true_eq]
      constructor
      · rintro ⟨⟨ha, hb⟩, v, hv, rfl⟩
        exact ⟨v, ⟨hv, ha, hb⟩, rfl⟩
      · rintro ⟨v, ⟨hv, ha, hb⟩, rfl⟩
        exact ⟨⟨ha, hb⟩, v, hv, rfl⟩
    rw [htotal, ← weight_inter_committee hstranger (_ ∩ _), hmembers,
      h.weight_sublist filter_sublist, ← hquorum] at hcommon
    exact hcommon
  · intro byzantine hbyz
    rw [h.hasQuorum_iff, h.weight_sublist filter_sublist]
    have hsplit : ((vs.validators.filter byzantine).map (·.stake)).sum +
        ((vs.validators.filter fun v => !byzantine v).map (·.stake)).sum = vs.totalStake := by
      rw [← h.sum]
      have hparts := sum_map_filter_add_sum_map_filter_not
        (fun v => byzantine v = true) (·.stake) vs.validators
      simpa using hparts
    have hspec := supermajority_spec hpos
    rw [faultToleranceStake] at hbyz
    omega

end ValidatorSet

namespace Sample

/-- Four members of stake 1, a total congruent to 1 modulo 3. -/
def committeeOfFour : ValidatorSet :=
  { validators := [1, 2, 3, 4].map fun n =>
      { address := ⟨BitVec.ofNat 256 n⟩, stake := 1, tier := .spark, shardAssignment := 0 }
    totalStake := 4
    epoch := 0
    quorum := 3
    slashedTotal := 0
    slashHistory := [] }

theorem committeeOfFour_counted : committeeOfFour.Counted := ⟨by decide, rfl, by decide, by decide⟩

/-- Two lists of three members, one with a repetition and one with a stranger. -/
theorem committeeOfFour_quorums_intersect :
    committeeOfFour.hasQuorum [⟨1⟩, ⟨1⟩, ⟨2⟩, ⟨3⟩] = some true ∧
      committeeOfFour.hasQuorum [⟨9⟩, ⟨2⟩, ⟨3⟩, ⟨4⟩] = some true ∧
      committeeOfFour.faultToleranceStake = 1 ∧
      1 < ((committeeOfFour.validators.filter fun v =>
        v.address ∈ [(⟨1⟩ : Address), ⟨1⟩, ⟨2⟩, ⟨3⟩] ∧
          v.address ∈ [(⟨9⟩ : Address), ⟨2⟩, ⟨3⟩, ⟨4⟩]).map (·.stake)).sum ∧
      committeeOfFour.hasQuorum ((committeeOfFour.validators.filter fun v =>
        !decide (v.address = ⟨4⟩)).map (·.address)) = some true := by
  have hintersect := ValidatorSet.quorums_intersect_beyond_fault_tolerance committeeOfFour
    committeeOfFour_counted (by decide)
  exact ⟨by decide, by decide, rfl, hintersect.1 _ _ (by decide) (by decide),
    hintersect.2 (fun v => decide (v.address = ⟨4⟩)) (by decide)⟩

end Sample

end ArcChain
