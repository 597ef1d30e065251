/-
What the parts of the commit rule compute, one specification each: the
causal history walk decides reachability over the held blocks
(`causalHistoryContains_iff`), a two-round certificate is a held child with
a quorum of held certifiers (`exists_certificate`), and a decided round is
decided by its only certified anchor or from the history of a later one
(`decideRound_cases`).
-/
import ArcChain.Consensus.Scan

namespace ArcChain

open StakeQuorum List

namespace ConsensusEngine

variable [Crypto] {e : ConsensusEngine} {scanEnd round : Nat} {hash : Hash256} {b : DagBlock}

/-! ## Causal history -/

theorem mem_historyStep {floor : Nat} {p : Hash256} : p ∈ e.historyStep floor hash ↔
      ∃ b, e.getBlock hash = some b ∧ floor ≤ b.round ∧ p ∈ b.parents := by
  rw [historyStep]
  cases e.getBlock hash with
  | none => simp
  | some b =>
    by_cases hlt : b.round < floor
    · simp [hlt]
    · simp [not_lt.mp hlt]

/-- The parents of held blocks fit the walk's fuel, with one to spare for the start. -/
theorem card_historyNodes_le (start : Hash256) :
    (insert start ((AssocMap.values e.dag).flatMap (·.parents)).toFinset).card ≤ e.historyFuel := by
  refine le_trans (Finset.card_insert_le _ _) ?_
  exact Nat.succ_le_succ (toFinset_card_le _)

/-- **The history walk decides reachability** along the parents of held blocks that lie on
    or above the floor. -/
theorem causalHistoryContains_iff {start target : Hash256} {floor : Nat} :
    e.causalHistoryContains start target floor = true ↔
      Relation.ReflTransGen (Worklist.Edge (e.historyStep floor)) start target := by
  have hnodes : ∀ x, ∀ y ∈ e.historyStep floor x,
      y ∈ insert start ((AssocMap.values e.dag).flatMap (·.parents)).toFinset := by
    intro x y hy
    obtain ⟨b, hb, -, hparent⟩ := mem_historyStep.mp hy
    apply Finset.mem_insert_of_mem
    rw [mem_toFinset, mem_flatMap]
    exact ⟨b, AssocMap.mem_values_iff.mpr ⟨x, hb⟩, hparent⟩
  rw [causalHistoryContains, Bool.or_eq_true, decide_eq_true_iff,
    Worklist.search_iff _ hnodes (Finset.mem_insert_self _ _) (card_historyNodes_le start),
    Relation.reflTransGen_iff_eq_or_transGen, eq_comm]

/-! ## Certificates -/

theorem mem_certifiersOf {child : Hash256} {a : Address} (h : a ∈ e.certifiersOf child round) :
    ∃ hash ∈ e.blocksInRound (round + 2), ∃ d, e.getBlock hash = some d ∧ d.author = a ∧
      child ∈ d.parents := by
  obtain ⟨hash, hmem, hauthor⟩ := mem_filterMap.mp h
  obtain ⟨d, hd, rfl⟩ := Option.map_eq_some_iff.mp hauthor
  obtain ⟨hround, hnames⟩ := mem_filter.mp hmem
  rw [hd] at hnames
  exact ⟨hash, hround, d, hd, rfl, of_decide_eq_true hnames⟩

/-- A two-round certificate: a held child, named by held blocks of authors with a quorum. -/
theorem exists_certificate {vs : ValidatorSet}
    (h : (e.twoRoundCommitSupport hash round vs).isSome = true) :
    ∃ child ∈ e.blocksInRound (round + 1), ∃ c, e.getBlock child = some c ∧ hash ∈ c.parents ∧
      ∃ Q : Finset Address, vs.quorum ≤ weight vs.stakeOf Q ∧
        ∀ a ∈ Q, ∃ certifier ∈ e.blocksInRound (round + 2), ∃ d,
          e.getBlock certifier = some d ∧ d.author = a ∧ child ∈ d.parents := by
  obtain ⟨stake, hstake⟩ := Option.isSome_iff_exists.mp h
  obtain ⟨child, hchild, hfound⟩ := exists_of_findSome?_eq_some hstake
  split at hfound
  · cases hfound
  rename_i c hc
  split at hfound
  · rename_i hparent
    dsimp only at hfound
    split at hfound
    · rename_i hquorum
      refine ⟨child, hchild, c, hc, hparent, (e.certifiersOf child round).toFinset, ?_, ?_⟩
      · exact le_trans hquorum ValidatorSet.tally_le
      · intro a ha
        exact mem_certifiersOf (mem_toFinset.mp ha)
    · cases hfound
  · cases hfound

/-! ## Decisions -/

/-- A decider is the only certified anchor of its round. -/
theorem findDecider_eq_some {rounds : List Nat} {r : Nat}
    (h : e.findDecider rounds = some (r, hash)) :
    r ∈ rounds ∧ e.certifiedAnchors r = [hash] := by
  induction rounds with
  | nil => cases h
  | cons first rest ih =>
    rw [findDecider] at h
    split at h
    · cases h
    split at h
    · obtain ⟨hmem, hcertified⟩ := ih h
      exact ⟨mem_cons_of_mem _ hmem, hcertified⟩
    · rename_i hash' hcertified
      obtain ⟨rfl, rfl⟩ := Prod.mk.inj (Option.some.inj h)
      exact ⟨mem_cons_self, hcertified⟩
    · cases h

/-- How a passed round is decided. -/
inductive Decides (e : ConsensusEngine) (scanEnd round : Nat) : RoundDecision → Prop
  | direct {hash : Hash256} (hcertified : e.certifiedAnchors round = [hash]) :
      Decides e scanEnd round (.direct hash)
  | later {deciderRound : Nat} {decider : Hash256} (hnone : e.certifiedAnchors round = [])
      (hfind : e.findDecider (List.range' (round + 3) (scanEnd + 1 - (round + 3))) =
        some (deciderRound, decider)) :
      Decides e scanEnd round (e.decideFrom round decider)

/-- **Inversion of a decision.**  A passed round has at most one anchor inside a domain. -/
theorem decideRound_cases (h : e.decideRound scanEnd round ≠ .stop) :
    (e.consensusDomain.isSome = true → (e.anchorsOf round).length ≤ 1) ∧
      Decides e scanEnd round (e.decideRound scanEnd round) := by
  revert h
  rw [decideRound]
  split
  · exact fun h => absurd rfl h
  split
  · exact fun h => absurd rfl h
  rename_i hfence
  have hsingle : e.consensusDomain.isSome = true → (e.anchorsOf round).length ≤ 1 :=
    fun hdomain => not_lt.mp fun hlt => hfence ⟨hdomain, hlt⟩
  split
  · rename_i hash hcertified
    exact fun _ => ⟨hsingle, .direct hcertified⟩
  · exact fun h => absurd rfl h
  · rename_i hnone
    split
    · exact fun h => absurd rfl h
    · rename_i decider hfind
      exact fun _ => ⟨hsingle, .later hnone hfind⟩

/-- A round is decided directly by its only certified anchor. -/
theorem certifiedAnchors_of_direct (h : e.decideRound scanEnd round = .direct hash) :
    e.certifiedAnchors round = [hash] := by
  have hpass : e.decideRound scanEnd round ≠ .stop := by
    rw [h]
    exact nofun
  have hdecides := (decideRound_cases hpass).2
  generalize e.decideRound scanEnd round = decision at h hdecides
  cases hdecides with
  | direct hcertified =>
    obtain rfl := RoundDecision.direct.inj h
    exact hcertified
  | later hnone hfind =>
    rw [decideFrom] at h
    split at h <;> cases h

/-- What the retroactive rule reads from a decider: its anchors of the round, if at most
    one. -/
theorem decideFrom_cases {decider : Hash256} (h : e.decideFrom round decider ≠ .stop) :
    ∀ hash ∈ e.anchorsOf round, (e.decideFrom round decider).committedHash = some hash ↔
        e.causalHistoryContains decider hash round = true := by
  intro hash hmem
  revert h
  rw [decideFrom]
  have hfilter : e.causalHistoryContains decider hash round = true ↔
      hash ∈ (e.anchorsOf round).filter fun hash => e.causalHistoryContains decider hash round := by
    rw [mem_filter]
    exact ⟨fun hcontains => ⟨hmem, hcontains⟩, fun hcontains => hcontains.2⟩
  rw [hfilter]
  split
  · rename_i hnil
    rw [hnil]
    simp [RoundDecision.committedHash]
  · rename_i hash' hone
    rw [hone]
    simp [RoundDecision.committedHash, eq_comm]
  · exact fun h => absurd rfl h

end ConsensusEngine

end ArcChain
