/-
When the decisions of two honest engines agree.

The commit rule decides a round by its only certified anchor or, later, from
the history of the first later anchor that is certified in the local view.
Two views may certify different blocks of an equivocating leader, and they
may read an uncertified round from different deciders.  `Decisive` is the
condition on a view that rules both out; in every run whose `try_commit`
calls meet it, honest engines commit the same blocks in the same order
(`commit_agreement`).

`equivocating_leader_forks` is a run that does not meet it: with one
equivocating leader of four, two honest engines commit different blocks of
round 0.
-/
import ArcChain.Consensus.Agreement

namespace ArcChain

open StakeQuorum ConsensusEngine List Option

section Model

variable [Crypto]

namespace ConsensusEngine

/-- The view decides `round` as every other view will: if it certifies a leader block of
    the round, every held leader block in the history of a block two rounds up is
    certified; if it certifies none, every held leader block from three rounds up to the
    decider has the same leader blocks of the round in its history. -/
def Decisive (e : ConsensusEngine) (round : Nat) : Prop :=
  (e.certifiedAnchors round ≠ [] → ∀ hash ∈ e.anchorsOf round,
    ∀ d ∈ e.blocksInRound (round + 2), e.causalHistoryContains d hash round = true →
      hash ∈ e.certifiedAnchors round) ∧
  (e.certifiedAnchors round = [] → ∀ decider ∈ e.findDecider
      (List.range' (round + 3) (e.currentRound - 2 + 1 - (round + 3))),
    ∀ r ∈ List.range' (round + 3) (decider.1 + 1 - (round + 3)), ∀ anchor ∈ e.anchorsOf r,
      ∀ hash ∈ e.anchorsOf round, e.causalHistoryContains anchor hash round =
        e.causalHistoryContains decider.2 hash round)

instance (e : ConsensusEngine) (round : Nat) : Decidable (e.Decisive round) :=
  inferInstanceAs (Decidable (_ ∧ _))

/-- The decision of `try_commit` for a round. -/
def decision (e : ConsensusEngine) (round : Nat) : RoundDecision :=
  e.decideRound (e.currentRound - 2) round

variable {e : ConsensusEngine} {round : Nat}

/-- A passed round with a certified anchor is decided by it. -/
theorem decision_direct (hpass : e.decision round ≠ .stop) (hsome : e.certifiedAnchors round ≠ []) :
    ∃ hash, e.certifiedAnchors round = [hash] ∧ (e.decision round).committedHash = some hash := by
  have hdecides : Decides e (e.currentRound - 2) round (e.decision round) :=
    (decideRound_cases hpass).2
  generalize e.decision round = decision at hdecides
  cases hdecides with
  | @direct hash hcertified => exact ⟨hash, hcertified, rfl⟩
  | later hnone hfind => exact absurd hnone hsome

/-- A passed round without one is read from the history of its decider. -/
theorem decision_later (hpass : e.decision round ≠ .stop) (hnone : e.certifiedAnchors round = []) :
    ∃ deciderRound decider, e.findDecider
        (List.range' (round + 3) (e.currentRound - 2 + 1 - (round + 3))) =
          some (deciderRound, decider) ∧
      ∀ hash, (e.decision round).committedHash = some hash ↔
        hash ∈ e.anchorsOf round ∧ e.causalHistoryContains decider hash round = true := by
  have hanchor : ∀ hash, (e.decision round).committedHash = some hash →
      hash ∈ e.anchorsOf round := fun hash hdecided => mem_anchorsOf_of_decideRound hdecided
  have hdecides : Decides e (e.currentRound - 2) round (e.decision round) :=
    (decideRound_cases hpass).2
  generalize e.decision round = decision at hpass hanchor hdecides
  cases hdecides with
  | direct hcertified =>
    rw [hnone] at hcertified
    cases hcertified
  | @later deciderRound decider _ hfind =>
    refine ⟨deciderRound, decider, hfind, fun hash => ⟨fun hdecided => ?_, fun hdecided => ?_⟩⟩
    · have hmem := hanchor hash hdecided
      exact ⟨hmem, (decideFrom_cases hpass hash hmem).mp hdecided⟩
    · exact (decideFrom_cases hpass hash hdecided.1).mpr hdecided.2

end ConsensusEngine

namespace Committee

variable {C : Committee} {G G' : Set DagBlock} {proposed : Address → List DagBlock}
  {e e' : ConsensusEngine} {round : Nat} {hash hash' : Hash256} {x : DagBlock}

/-! ## Two views of one round -/

section

variable (hs : C.Sound G proposed) (h : C.View G e) (h' : C.View G e')

include hs h h'

/-- Two direct decisions: the common certifier shows each view the other's block. -/
theorem View.direct_agree (hcursor : e.lastCommittedRound ≤ round) (hdecisive : e.Decisive round)
    (hcertified : e.certifiedAnchors round = [hash])
    (hcertified' : e'.certifiedAnchors round = [hash']) : hash = hash' := by
  have hmem : hash ∈ e.certifiedAnchors round := hcertified ▸ mem_singleton.mpr rfl
  have hmem' : hash' ∈ e'.certifiedAnchors round := hcertified' ▸ mem_singleton.mpr rfl
  obtain ⟨b, c, Q, hin⟩ := h.certifiedAnchor hs hmem
  obtain ⟨b', c', Q', hin'⟩ := h'.certifiedAnchor hs hmem'
  obtain ⟨d, hd, hcontains, -⟩ := hin.exists_common h hin' hcursor
  have hanchor := h.anchors_of_two_certified hs h' hcursor hmem hmem'
  have hboth : hash' ∈ e.certifiedAnchors round :=
    hdecisive.1 (ne_nil_of_mem hmem) hash' hanchor d hd hcontains
  rw [hcertified, mem_singleton] at hboth
  exact hboth.symm

/-- A direct decision is what every decider of another view reads. -/
theorem View.direct_later_agree (hcursor : e'.lastCommittedRound ≤ round)
    (hcertified : e.certifiedAnchors round = [hash])
    (hpass' : e'.decision round ≠ .stop) (hnone' : e'.certifiedAnchors round = []) :
    (e'.decision round).committedHash = some hash := by
  have hmem : hash ∈ e.certifiedAnchors round := hcertified ▸ mem_singleton.mpr rfl
  obtain ⟨b, c, Q, hin⟩ := h.certifiedAnchor hs hmem
  obtain ⟨deciderRound, decider, hfind, hdecided⟩ := decision_later hpass' hnone'
  obtain ⟨hle, -, -, x, hx, rfl⟩ := h'.decider hfind
  have hcontains := (hin.contains h' hx hle (h'.ancestryRetained hcursor decider)).1
  exact (hdecided hash).mpr ⟨h'.anchor_of_pass hs h hcursor hpass' hmem, hcontains⟩

variable {r' r : Nat}

/-- An anchor certified in one view, up to the decider of another view, is held there: by
    the history of the decider's certifiers, or as a second certified block of its round. -/
theorem View.holds_earlier_decider (hle : r ≤ r') (hcursor : e'.lastCommittedRound ≤ r)
    (hmem : hash ∈ e.certifiedAnchors r) (hmem' : hash' ∈ e'.certifiedAnchors r') :
    hash ∈ e'.anchorsOf r := by
  obtain ⟨b, c, Q, hin⟩ := h.certifiedAnchor hs hmem
  obtain ⟨b', c', Q', hin'⟩ := h'.certifiedAnchor hs hmem'
  rcases Nat.lt_or_eq_of_le hle with hlt | rfl
  · -- a certifier of the decider lies three rounds above the earlier anchor
    have hhonest := hin'.honest_outweighs
    have hquorum := hin'.quorum_le
    obtain ⟨a, ha⟩ := nonempty_of_weight_pos
      (show 0 < weight C.set.stakeOf (Q'.filter C.honest) by omega)
    obtain ⟨certifier, d, hd, -, hdround, -⟩ := hin'.certifiers a (Finset.mem_filter.mp ha).1
    obtain ⟨-, y, hy, -⟩ := hin.contains h' hd (by omega) (h'.ancestryRetained hcursor certifier)
    exact h.mem_anchorsOf hs h' (mem_certifiedAnchors.mp hmem).1 hy
  · exact h'.anchors_of_two_certified hs h hcursor hmem' hmem

/-- Both views read the same from an anchor that both hold. -/
theorem View.reads_same (hcursor' : e'.lastCommittedRound ≤ round) {decider : Hash256}
    (hdecider : decider ∈ e.anchorsOf r) (hdecider' : decider ∈ e'.anchorsOf r')
    (hanchor : hash ∈ e.anchorsOf round)
    (hcontains : e.causalHistoryContains decider hash round = true) :
    hash ∈ e'.anchorsOf round ∧ e'.causalHistoryContains decider hash round = true := by
  obtain ⟨-, x, -, hx, -⟩ := ConsensusEngine.mem_anchorsOf.mp hdecider
  obtain ⟨-, x', -, hx', -⟩ := ConsensusEngine.mem_anchorsOf.mp hdecider'
  obtain ⟨hlisted, y, -, hy, -⟩ := ConsensusEngine.mem_anchorsOf.mp hanchor
  obtain ⟨y', hy', hround⟩ := h.indexed.held round hash hlisted
  obtain rfl := Option.some.inj (hy'.symm.trans hy)
  have hcontent : x'.content = x.content :=
    h'.content_eq hs hx' (h.known decider x hx) (h.indexed.keyed decider x hx)
  have hreach : hs.dag.Reaches x'.content y'.content := by
    rw [hcontent]
    exact h.reaches_of_contains hs hx hy hcontains
  have hfound := h'.contains_of_reaches hs hx' (h'.ancestryRetained hcursor' decider) hreach
    (le_of_eq hround.symm)
  have hkey : y'.content.hash = hash := h.indexed.keyed hash y' hy
  rw [hkey] at hfound
  obtain ⟨hcontains', z, hz, -⟩ := hfound
  exact ⟨h.mem_anchorsOf hs h' hanchor hz, hcontains'⟩

/-- Two later decisions, the second by an anchor at least as high. -/
theorem View.later_agree (hcursor : e.lastCommittedRound ≤ round)
    (hcursor' : e'.lastCommittedRound ≤ round)
    (hdecisive' : e'.Decisive round) (hnone' : e'.certifiedAnchors round = [])
    {decider decider' : Hash256} (hle : r ≤ r')
    (hfind : e.findDecider
      (List.range' (round + 3) (e.currentRound - 2 + 1 - (round + 3))) = some (r, decider))
    (hfind' : e'.findDecider
      (List.range' (round + 3) (e'.currentRound - 2 + 1 - (round + 3))) = some (r', decider')) :
    (hash ∈ e.anchorsOf round ∧ e.causalHistoryContains decider hash round = true) ↔
      hash ∈ e'.anchorsOf round ∧ e'.causalHistoryContains decider' hash round = true := by
  obtain ⟨hr, hanchor, hsupport, -⟩ := h.decider hfind
  obtain ⟨hr', hanchor', hsupport', -⟩ := h'.decider hfind'
  have hmem : decider ∈ e.certifiedAnchors r := mem_certifiedAnchors.mpr ⟨hanchor, hsupport⟩
  have hmem' : decider' ∈ e'.certifiedAnchors r' := mem_certifiedAnchors.mpr ⟨hanchor', hsupport'⟩
  -- the lower decider is an anchor of the other view too, which reads the same from both
  have hearlier : decider ∈ e'.anchorsOf r :=
    h.holds_earlier_decider hs h' hle (by omega) hmem hmem'
  have hsame : ∀ hash ∈ e'.anchorsOf round, e'.causalHistoryContains decider hash round =
      e'.causalHistoryContains decider' hash round :=
    hdecisive'.2 hnone' (r', decider') hfind' r (mem_range'_1.mpr ⟨hr, by omega⟩) decider hearlier
  constructor
  · rintro ⟨hmem, hcontains⟩
    obtain ⟨hmem', hcontains'⟩ := h.reads_same hs h' hcursor' hanchor hearlier hmem hcontains
    exact ⟨hmem', hsame hash hmem' ▸ hcontains'⟩
  · rintro ⟨hmem', hcontains'⟩
    exact h'.reads_same hs h hcursor hearlier hanchor hmem' (hsame hash hmem' ▸ hcontains')

/-- **Two views agree on a round** that both decide. -/
theorem View.agree (hcursor : e.lastCommittedRound ≤ round)
    (hcursor' : e'.lastCommittedRound ≤ round)
    (hdecisive : e.Decisive round) (hdecisive' : e'.Decisive round)
    (hpass : e.decision round ≠ .stop) (hpass' : e'.decision round ≠ .stop) :
    (e.decision round).committedHash = (e'.decision round).committedHash := by
  by_cases hnone : e.certifiedAnchors round = []
  · by_cases hnone' : e'.certifiedAnchors round = []
    · obtain ⟨r, decider, hfind, hdecided⟩ := decision_later hpass hnone
      obtain ⟨r', decider', hfind', hdecided'⟩ := decision_later hpass' hnone'
      apply Option.ext
      intro hash
      rw [hdecided, hdecided']
      rcases le_total r r' with hle | hle
      · exact h.later_agree hs h' hcursor hcursor' hdecisive' hnone' hle hfind hfind'
      · exact (h'.later_agree hs h hcursor' hcursor hdecisive hnone hle hfind' hfind).symm
    · obtain ⟨hash', hcertified', hdecided'⟩ := decision_direct hpass' hnone'
      rw [hdecided']
      exact h'.direct_later_agree hs h hcursor hcertified' hpass hnone
  · obtain ⟨hash, hcertified, hdecided⟩ := decision_direct hpass hnone
    rw [hdecided]
    by_cases hnone' : e'.certifiedAnchors round = []
    · exact (h.direct_later_agree hs h' hcursor' hcertified hpass' hnone').symm
    · obtain ⟨hash', hcertified', hdecided'⟩ := decision_direct hpass' hnone'
      rw [hdecided', h.direct_agree hs h' hcursor hdecisive hcertified hcertified']

end

/-! ## Outputs -/

/-- Some view, with its cursor not past `round`, decided `round` this way. -/
def Settled (C : Committee) (G : Set DagBlock) (round : Nat) (result : Option DagBlock) : Prop :=
  ∃ e, C.View G e ∧ e.lastCommittedRound ≤ round ∧ e.Decisive round ∧ e.decision round ≠ .stop ∧
    result.map (·.hash) = (e.decision round).committedHash ∧ ∀ b, result = some b → b.round = round

theorem Settled.mono {result : Option DagBlock} (h : C.Settled G round result) (hsub : G ⊆ G') :
    C.Settled G' round result := by
  obtain ⟨e, hview, hrest⟩ := h
  exact ⟨e, hview.mono hsub, hrest⟩

theorem Settled.agree (hs : C.Sound G proposed) {result result' : Option DagBlock}
    (h : C.Settled G round result) (h' : C.Settled G round result') :
    result.map (·.hash) = result'.map (·.hash) := by
  obtain ⟨e, hview, hcursor, hdecisive, hpass, hhash, -⟩ := h
  obtain ⟨e', hview', hcursor', hdecisive', hpass', hhash', -⟩ := h'
  rw [hhash, hhash']
  exact hview.agree hs hview' hcursor hcursor' hdecisive hdecisive' hpass hpass'

/-- The output of an engine is what was settled, round by round, up to its cursor. -/
structure Outputs (C : Committee) (G : Set DagBlock) (e : ConsensusEngine) (out : List DagBlock) :
    Prop where
  recorded : ∀ hash ∈ e.committed, ∃ b ∈ out, b.hash = hash
  kept : ∀ b ∈ out, b.content ∈ G ∧ b.round < e.lastCommittedRound
  settled : ∃ g : Nat → Option DagBlock,
    out = (List.range' C.base (e.lastCommittedRound - C.base)).filterMap g ∧
      ∀ r, C.base ≤ r → r < e.lastCommittedRound → C.Settled G r (g r)

variable {out : List DagBlock}

theorem Outputs.mono (h : C.Outputs G e out) (hsub : G ⊆ G') : C.Outputs G' e out := by
  obtain ⟨g, hout, hsettled⟩ := h.settled
  exact ⟨h.recorded, fun b hb => ⟨hsub (h.kept b hb).1, (h.kept b hb).2⟩,
    g, hout, fun r hbase hr => (hsettled r hbase hr).mono hsub⟩

/-- Between commits; pruning may forget committed hashes. -/
theorem Outputs.of_same (h : C.Outputs G e out)
    (hcursor : e'.lastCommittedRound = e.lastCommittedRound)
    (hcommitted : ∀ hash ∈ e'.committed, hash ∈ e.committed) : C.Outputs G e' out := by
  refine ⟨fun hash hmem => h.recorded hash (hcommitted hash hmem), ?_, ?_⟩
  · rw [hcursor]
    exact h.kept
  · rw [hcursor]
    exact h.settled

/-- A decided block is not among the committed ones: those lie below the cursor. -/
theorem Outputs.decidedBlock_hash (hs : C.Sound G proposed) (hv : C.View G e)
    (h : C.Outputs G e out) (hcursor : e.lastCommittedRound ≤ round) :
    (e.decidedBlock (e.currentRound - 2) round).map (·.hash) = (e.decision round).committedHash ∧
      ∀ b, e.decidedBlock (e.currentRound - 2) round = some b → b.round = round := by
  show ((e.decision round).committedHash.bind _).map _ = _ ∧
    ∀ b, (e.decision round).committedHash.bind _ = some b → _
  cases hdecision : (e.decision round).committedHash with
  | none => exact ⟨rfl, by rintro _ ⟨⟩⟩
  | some hash =>
    obtain ⟨hlisted, -⟩ := mem_anchorsOf.mp (mem_anchorsOf_of_decideRound hdecision)
    obtain ⟨b, hb, hround⟩ := hv.indexed.held round hash hlisted
    have hkey := hv.indexed.keyed hash b hb
    have hnew : hash ∉ e.committed := by
      intro hmem
      obtain ⟨b₀, hb₀, hhash⟩ := h.recorded hash hmem
      obtain ⟨hG, hlt⟩ := h.kept b₀ hb₀
      have hcontent : b.content = b₀.content := hv.content_eq hs hb hG hhash
      obtain ⟨-, hrounds, -⟩ := DagBlock.eq_of_content_eq hcontent
      omega
    rw [bind_some, if_neg hnew, hb]
    refine ⟨congrArg some hkey, ?_⟩
    intro b' heq
    rw [← Option.some.inj heq]
    exact hround

/-- **The scan** appends what its rounds settle. -/
theorem Outputs.scanned (hs : C.Sound G proposed) (hv : C.View G e) (h : C.Outputs G e out)
    (hbase : C.base ≤ e.lastCommittedRound) (hround : 2 ≤ e.currentRound)
    (hdecisive : ∀ r, e.lastCommittedRound ≤ r → r + 2 ≤ e.currentRound → e.Decisive r) :
    C.Outputs G (e.recordScan (e.scan none)) (out ++ (e.scan none).1) := by
  obtain ⟨hscanned, hscan⟩ := scan_eq e
  have hstart := hscanned.start
  have hbound := hscanned.bound
  have hblock := fun r (hr : e.lastCommittedRound ≤ r) => h.decidedBlock_hash hs hv hr
  refine ⟨?_, ?_, ?_⟩
  · intro hash hmem
    rcases mem_appendCommitted hmem with hold | ⟨b, hb, hhash⟩
    · obtain ⟨b, hb, hhash⟩ := h.recorded hash hold
      exact ⟨b, mem_append_left _ hb, hhash⟩
    · exact ⟨b, mem_append_right _ hb, hhash⟩
  · intro b hb
    rcases mem_append.mp hb with hb | hb
    · exact ⟨(h.kept b hb).1, lt_of_lt_of_le (h.kept b hb).2 hstart⟩
    · obtain ⟨_, hash, -, -, -, -, hget⟩ := mem_scan hb
      exact ⟨hv.known hash b hget, (hv.indexed.mem_scan_round hb).2.1⟩
  · obtain ⟨g, hout, hsettled⟩ := h.settled
    -- what was settled before stays, from the cursor on the scan settles
    refine ⟨fun r => if r < e.lastCommittedRound then g r else
      e.decidedBlock (e.currentRound - 2) r, ?_, ?_⟩
    · have hsplit : List.range' C.base ((e.scan none).2 - C.base) =
          List.range' C.base (e.lastCommittedRound - C.base) ++
            List.range' e.lastCommittedRound ((e.scan none).2 - e.lastCommittedRound) := by
        have happend := range'_append_1 (s := C.base) (m := e.lastCommittedRound - C.base)
          (n := (e.scan none).2 - e.lastCommittedRound)
        rw [Nat.add_sub_cancel' hbase] at happend
        rw [happend]
        congr 1
        omega
      show out ++ (e.scan none).1 = (List.range' C.base ((e.scan none).2 - C.base)).filterMap _
      rw [hsplit, filterMap_append, hout, hscan]
      congr 1
      · apply filterMap_congr
        intro r hr
        have hr' := mem_range'_1.mp hr
        rw [if_pos (by omega)]
      · apply filterMap_congr
        intro r hr
        have hr' := mem_range'_1.mp hr
        rw [if_neg (by omega)]
    · intro r hbase' hr
      have hr' : r < (e.scan none).2 := hr
      dsimp only
      by_cases hlt : r < e.lastCommittedRound
      · rw [if_pos hlt]
        exact hsettled r hbase' hlt
      · have hle : e.lastCommittedRound ≤ r := not_lt.mp hlt
        rw [if_neg hlt]
        exact ⟨e, hv, hle, hdecisive r hle (by omega), hscanned.passed r hle hr', hblock r hle⟩

end Committee

/-! ## Runs -/

namespace ConsensusEngine

/-- The other basic operations commit nothing. -/
theorem EngineOp.Basic.same {e : ConsensusEngine} {op : EngineOp} {r : OpResult} (hop : op.Basic)
    (hcommit : op ≠ .tryCommit) (hstep : op.apply e = some r) :
    r.committed = [] ∧ r.engine.lastCommittedRound = e.lastCommittedRound ∧
      r.engine.committed = e.committed := by
  have hinserts : ∀ {block e'}, e.Inserts block e' →
      e'.lastCommittedRound = e.lastCommittedRound ∧ e'.committed = e.committed := by
    intro block e' hins
    rw [hins.frame]
    exact ⟨rfl, rfl⟩
  cases op with
  | proposeBlock transactions timestamp =>
    rcases proposed_cases hstep with ⟨-, hfailed⟩ | ⟨_, _, block, -, hproposal, rfl⟩
    · rw [hfailed transactions timestamp rfl]
      exact ⟨rfl, rfl, rfl⟩
    · exact ⟨rfl, hinserts (recordProposal_inserts (proposal_eq_ok hproposal))⟩
  | receiveBlock block =>
    obtain ⟨⟨res, e₁⟩, hreceive, rfl⟩ := map_eq_some_iff.mp hstep
    rcases receiveBlock_cases hreceive with rfl | haccept
    · exact ⟨rfl, rfl, rfl⟩
    · rw [Effect.apply] at haccept
      split at haccept
      · exact ⟨rfl, hinserts (acceptBlock_inserts haccept)⟩
      · cases haccept
  | advanceRound =>
    obtain rfl := Option.some.inj hstep
    rcases advanceRound_cases (e := e) with heq | hadvance
    · rw [heq]
      exact ⟨rfl, rfl, rfl⟩
    · obtain ⟨-, -, heq⟩ := advance_apply hadvance
      rw [heq]
      exact ⟨rfl, rfl, rfl⟩
  | tryCommit => exact absurd rfl hcommit
  | importHistory | forceAdvanceRound | pruneOldRounds | pruneBelowRound | rebaseTo | config =>
    exact absurd hop id

/-- Maintenance only forgets committed hashes. -/
theorem Maintenance.committed_subset {e e' : ConsensusEngine} {out : List DagBlock}
    (h : Effects (Maintenance out) e e') : ∀ hash ∈ e'.committed, hash ∈ e.committed := by
  obtain ⟨l, hl⟩ := h
  refine hl.invariant (I := fun e₁ => ∀ hash ∈ e₁.committed, hash ∈ e.committed) ?_
    fun _ hmem => hmem
  intro e₁ effect e₂ hmaintenance hsubset hstep hash hmem
  rcases Maintenance.cases hmaintenance with ⟨_, rfl⟩ | ⟨below, rfl, -⟩ | ⟨_, rfl⟩
  · obtain ⟨vs, rfl⟩ := slashWithholders_eq hstep
    exact hsubset hash hmem
  · obtain rfl := Option.some.inj hstep
    apply hsubset
    have hmem' : hash ∈ if (e₁.hashesToPrune below).length > 0 then
        e₁.committed.filter _ else e₁.committed := hmem
    split at hmem'
    · exact (mem_filter.mp hmem').1
    · exact hmem'
  · obtain rfl := Option.some.inj hstep
    exact hsubset hash hmem

end ConsensusEngine

namespace Committee

/-- An allowed basic step; `try_commit` is called where the view is decisive for every round
    it may scan. -/
def Agreeable (C : Committee) (s : Network) (event : NetworkEvent) : Prop :=
  C.Allows s event ∧ event.op.Basic ∧ (event.op = .tryCommit →
    ∀ r, (s.engine event.node).lastCommittedRound ≤ r →
      r + 2 ≤ (s.engine event.node).currentRound → (s.engine event.node).Decisive r)

/-- The rounds that `try_commit` may scan are finitely many. -/
theorem decisive_iff_forall_range {e : ConsensusEngine} :
    (∀ r ∈ List.range' e.lastCommittedRound (e.currentRound - 1 - e.lastCommittedRound),
      e.Decisive r) ↔
      ∀ r, e.lastCommittedRound ≤ r → r + 2 ≤ e.currentRound → e.Decisive r := by
  refine ⟨fun h r hle hround => h r (mem_range'_1.mpr ⟨hle, by omega⟩), fun h r hr => ?_⟩
  have hr' := mem_range'_1.mp hr
  exact h r hr'.1 (by omega)

/-- Whether an operation is not a `try_commit`, or the view is decisive for it. -/
def decideDecisive (e : ConsensusEngine) : (op : EngineOp) → Decidable (op = .tryCommit →
    ∀ r, e.lastCommittedRound ≤ r → r + 2 ≤ e.currentRound → e.Decisive r)
  | .tryCommit => decidable_of_iff _ (decisive_iff_forall_range.trans (imp_iff_right rfl).symm)
  | .proposeBlock _ _ | .receiveBlock _ | .advanceRound | .importHistory _ _ _
  | .forceAdvanceRound | .pruneOldRounds | .pruneBelowRound _ | .rebaseTo _ | .config _ =>
    .isTrue nofun

instance (C : Committee) [DecidablePred (· ∈ C.blocks)] (s : Network) (event : NetworkEvent) :
    Decidable (C.Agreeable s event) :=
  haveI := decideDecisive (s.engine event.node) event.op
  decidable_of_iff ((C.Allows s event ∧ event.op.Basic) ∧ _) and_assoc

variable {C : Committee} {G G' : Set DagBlock} {proposed : Address → List DagBlock}
  {a a' : Address} {e e' : ConsensusEngine} {out out' : List DagBlock}

/-- **Step lemma.**  A basic operation extends the output by what it settles. -/
theorem Outputs.op (hs : C.Sound G proposed) (hnode : C.Node G proposed a e)
    (h : C.Outputs G e out) {op : EngineOp} {r : OpResult} (hop : op.Basic)
    (hdecisive : op = .tryCommit → ∀ r, e.lastCommittedRound ≤ r → r + 2 ≤ e.currentRound →
      e.Decisive r)
    (hstep : op.apply e = some r) : C.Outputs G r.engine (out ++ r.committed) := by
  by_cases hcommit : op = .tryCommit
  · subst hcommit
    obtain ⟨⟨newly, e₁⟩, htry, rfl⟩ := map_eq_some_iff.mp hstep
    rcases tryCommit_cases htry with ⟨rfl, rfl⟩ | ⟨-, hround, rfl, heffects⟩
    · rw [append_nil]
      exact h
    · have hscan := h.scanned hs hnode.view hnode.started hround (hdecisive rfl)
      exact hscan.of_same heffects.lastCommittedRound_eq (Maintenance.committed_subset heffects)
  · obtain ⟨hnone, hcursor, hcommitted⟩ := hop.same hcommit hstep
    rw [hnone, append_nil]
    exact h.of_same hcursor fun hash hmem => hcommitted ▸ hmem

theorem Starts.outputs (h : C.Starts a e) : C.Outputs G e [] := by
  refine ⟨?_, nofun, fun _ => none, ?_, ?_⟩
  · rw [h.committed]
    exact nofun
  · rw [h.cursor, Nat.sub_self]
    rfl
  · intro r hbase hr
    rw [h.cursor] at hr
    omega

/-- The hashes that an output has for a round. -/
def committedAt (out : List DagBlock) (round : Nat) : List Hash256 :=
  (out.filter fun b => b.round = round).map (·.hash)

variable {g : Nat → Option DagBlock}

omit [Crypto] in
/-- Among results that lie at their own rounds, one round selects its own. -/
theorem filter_filterMap_round {l : List Nat} {round : Nat}
    (hg : ∀ r ∈ l, ∀ b, g r = some b → b.round = r) (hl : l.Nodup) :
    (l.filterMap g).filter (fun b => b.round = round) =
      if round ∈ l then (g round).toList else [] := by
  induction l with
  | nil => rfl
  | cons r rest ih =>
    have hrest := ih (fun r' hr' => hg r' (mem_cons_of_mem _ hr')) (nodup_cons.mp hl).2
    have hnot := (nodup_cons.mp hl).1
    by_cases heq : round = r
    · subst heq
      rw [if_neg hnot] at hrest
      rw [if_pos mem_cons_self]
      cases hb : g round with
      | none => rw [filterMap_cons_none hb, hrest]; rfl
      | some b =>
        rw [filterMap_cons_some hb, filter_cons_of_pos, hrest]
        · rfl
        · exact decide_eq_true (hg round mem_cons_self b hb)
    · have hmem : round ∈ r :: rest ↔ round ∈ rest := by simp [heq]
      simp only [hmem]
      rw [← hrest]
      cases hb : g r with
      | none => rw [filterMap_cons_none hb]
      | some b =>
        rw [filterMap_cons_some hb, filter_cons_of_neg]
        have hround := hg r mem_cons_self b hb
        simp only [decide_eq_true_eq]
        omega

omit [Crypto] in
theorem committedAt_filterMap {base n round : Nat}
    (hg : ∀ r ∈ List.range' base n, ∀ b, g r = some b → b.round = r) :
    committedAt ((List.range' base n).filterMap g) round =
      if round ∈ List.range' base n then ((g round).map (·.hash)).toList else [] := by
  rw [committedAt, filter_filterMap_round hg nodup_range']
  split
  · cases g round <;> rfl
  · rfl

/-- Outputs agree round by round below both cursors. -/
theorem Outputs.committedAt_agree (hs : C.Sound G proposed) (h : C.Outputs G e out)
    (h' : C.Outputs G e' out') {round : Nat} (hround : round < e.lastCommittedRound)
    (hround' : round < e'.lastCommittedRound) : committedAt out round = committedAt out' round := by
  have hrounds : ∀ {e₁ : ConsensusEngine} {g : Nat → Option DagBlock},
      (∀ r, C.base ≤ r → r < e₁.lastCommittedRound → C.Settled G r (g r)) →
      ∀ r ∈ List.range' C.base (e₁.lastCommittedRound - C.base), ∀ b, g r = some b → b.round = r := by
    intro e₁ g hsettled r hr
    have hr' := mem_range'_1.mp hr
    obtain ⟨_, -, -, -, -, -, hround⟩ := hsettled r hr'.1 (by omega)
    exact hround
  obtain ⟨g, rfl, hsettled⟩ := h.settled
  obtain ⟨g', rfl, hsettled'⟩ := h'.settled
  rw [committedAt_filterMap (hrounds hsettled), committedAt_filterMap (hrounds hsettled')]
  by_cases hbase : C.base ≤ round
  · rw [if_pos (mem_range'_1.mpr ⟨hbase, by omega⟩), if_pos (mem_range'_1.mpr ⟨hbase, by omega⟩),
      (hsettled round hbase hround).agree hs (hsettled' round hbase hround')]
  · rw [if_neg fun hmem => hbase (mem_range'_1.mp hmem).1,
      if_neg fun hmem => hbase (mem_range'_1.mp hmem).1]

/-- The output of the engine that is behind is a prefix. -/
theorem Outputs.hashes_extend (hs : C.Sound G proposed) (h : C.Outputs G e out)
    (h' : C.Outputs G e' out') (hle : e.lastCommittedRound ≤ e'.lastCommittedRound) :
    out.map (·.hash) <+: out'.map (·.hash) := by
  obtain ⟨g, rfl, hsettled⟩ := h.settled
  obtain ⟨g', rfl, hsettled'⟩ := h'.settled
  rw [map_filterMap, map_filterMap]
  have hsame : (List.range' C.base (e.lastCommittedRound - C.base)).filterMap
        (fun r => (g r).map (·.hash)) =
      (List.range' C.base (e.lastCommittedRound - C.base)).filterMap
        (fun r => (g' r).map (·.hash)) := by
    apply filterMap_congr
    intro r hr
    have hr' := mem_range'_1.mp hr
    exact (hsettled r hr'.1 (by omega)).agree hs (hsettled' r hr'.1 (by omega))
  rw [hsame]
  apply List.IsPrefix.filterMap
  refine ⟨List.range' (C.base + (e.lastCommittedRound - C.base))
    (e'.lastCommittedRound - C.base - (e.lastCommittedRound - C.base)), ?_⟩
  rw [range'_append_1]
  congr 1
  omega

end Committee

namespace Network

variable {C : Committee} {start s : Network} {events : List NetworkEvent} {a a' : Address}

/-- **Commit agreement.**  In every run whose `try_commit` calls are made in decisive views,
    two honest engines have committed the same hash, or both none, for every round below
    both cursors, and one output is a prefix of the other. -/
theorem commit_agreement (hstart : Starts C start) (hrun : Run step C.Agreeable start events s)
    (ha : C.honest a) (ha' : C.honest a') :
    (∀ r, r < (s.engine a).lastCommittedRound → r < (s.engine a').lastCommittedRound →
      Committee.committedAt (s.output a) r = Committee.committedAt (s.output a') r) ∧
    ((s.output a).map (·.hash) <+: (s.output a').map (·.hash) ∨
      (s.output a').map (·.hash) <+: (s.output a).map (·.hash)) := by
  have hinv : ∃ G, Holds C G s ∧ ∀ a, C.honest a → C.Outputs G (s.engine a) (s.output a) := by
    refine hrun.invariant (I := fun s => ∃ G, Holds C G s ∧
      ∀ a, C.honest a → C.Outputs G (s.engine a) (s.output a)) ?_ ⟨∅, hstart.holds, ?_⟩
    · rintro s event s' ⟨hallows, hbasic, hdecisive⟩ ⟨G, hholds, houtputs⟩ hstep
      obtain ⟨G', hsub, hholds'⟩ := hholds.step hallows hstep
      refine ⟨G', hholds', ?_⟩
      obtain ⟨r, hr, rfl⟩ := map_eq_some_iff.mp hstep
      intro a ha
      dsimp only
      by_cases hne : a = event.node
      · subst hne
        rw [Function.update_self, Function.update_self]
        exact ((houtputs _ ha).op hholds.sound (hholds.nodes _ ha) hbasic hdecisive hr).mono hsub
      · rw [Function.update_of_ne hne, Function.update_of_ne hne]
        exact (houtputs a ha).mono hsub
    · intro a ha
      rw [(hstart a ha).2.2]
      exact (hstart a ha).1.outputs
  obtain ⟨G, hholds, houtputs⟩ := hinv
  refine ⟨fun r hr hr' => (houtputs a ha).committedAt_agree hholds.sound (houtputs a' ha') hr hr', ?_⟩
  rcases le_total (s.engine a).lastCommittedRound (s.engine a').lastCommittedRound with hle | hle
  · exact .inl ((houtputs a ha).hashes_extend hholds.sound (houtputs a' ha') hle)
  · exact .inr ((houtputs a' ha').hashes_extend hholds.sound (houtputs a ha) hle)

end Network

end Model

namespace SampleFork

open SampleNetwork

-- The leader of round 0 signs two blocks and sends one to validator 2, the other to
-- validator 3.
def B₁ : DagBlock := block none ⟨1⟩ 0 0 []
def B₂ : DagBlock := block none ⟨1⟩ 0 1 []
def first (author : Address) : DagBlock := block none author 0 0 []
def firsts : List DagBlock := [first ⟨2⟩, first ⟨3⟩, first ⟨4⟩]
def second (author : Address) (anchor : List DagBlock) : DagBlock :=
  block none author 1 0 (anchor ++ firsts)
def C₁ : DagBlock := second ⟨1⟩ []
def C₂ : DagBlock := second ⟨2⟩ [B₁]
def C₃ : DagBlock := second ⟨3⟩ [B₂]
def C₄ : DagBlock := second ⟨4⟩ []
-- The certifiers of each block are three of four: two of them certify both.
def D₁ : DagBlock := block none ⟨1⟩ 2 0 [C₁, C₃, C₄]
def D₂ : DagBlock := block none ⟨2⟩ 2 0 [C₂, C₃, C₄]
def D₃ : DagBlock := block none ⟨3⟩ 2 0 [C₂, C₃, C₄]
def D₄ : DagBlock := block none ⟨4⟩ 2 0 [C₁, C₂, C₄]

def blocks : Universe where
  domain := none
  blocks := [B₁, B₂] ++ firsts ++ [C₁, C₂, C₃, C₄, D₁, D₂, D₃, D₄]
  fits := by decide +kernel
  distinct := by decide +kernel

def events : letI := concreteCrypto; List NetworkEvent :=
  letI := concreteCrypto
  each (.proposeBlock [] 0) ++ deliver ⟨2⟩ (B₁ :: firsts) ++ deliver ⟨3⟩ (B₂ :: firsts) ++
    deliver ⟨4⟩ firsts ++
  each .advanceRound ++ each (.proposeBlock [] 0) ++ deliver ⟨2⟩ [B₂, C₃, C₄] ++
    deliver ⟨3⟩ [B₁, C₂, C₄] ++ deliver ⟨4⟩ [C₁, B₁, C₂] ++
  each .advanceRound ++ each (.proposeBlock [] 0) ++ deliver ⟨2⟩ [C₁, D₃, D₄] ++
    deliver ⟨3⟩ [C₁, D₁, D₂] ++ [⟨⟨2⟩, .tryCommit⟩, ⟨⟨3⟩, .tryCommit⟩]

end SampleFork

open SampleNetwork SampleFork Network in
/-- **A fork.**  The leader of round 0 equivocates, no other validator is Byzantine, and two
    honest engines commit different blocks of round 0. -/
theorem equivocating_leader_forks :
    letI := concreteCrypto
    ∃ s, Starts (committee blocks) (start blocks.domain) ∧
      Run step (fun s event => (committee blocks).Allows s event ∧ event.op.Basic)
        (start blocks.domain) events s ∧
      honest ⟨2⟩ ∧ honest ⟨3⟩ ∧ (s.engine ⟨2⟩).lastCommittedRound = 1 ∧
      (s.engine ⟨3⟩).lastCommittedRound = 1 ∧
      Committee.committedAt (s.output ⟨2⟩) 0 = [B₁.hash] ∧
      Committee.committedAt (s.output ⟨3⟩) 0 = [B₂.hash] ∧ B₁.hash ≠ B₂.hash := by
  let _ : Crypto := concreteCrypto
  have hrun : (execute blocks events).map (fun s =>
      ((s.engine ⟨2⟩).lastCommittedRound, (s.engine ⟨3⟩).lastCommittedRound,
        Committee.committedAt (s.output ⟨2⟩) 0, Committee.committedAt (s.output ⟨3⟩) 0)) =
      some (1, 1, [B₁.hash], [B₂.hash]) := by
    decide +kernel
  obtain ⟨s, hs, hvalues⟩ := map_eq_some_iff.mp hrun
  obtain ⟨hcursor₂, hcursor₃, hout₂, hout₃⟩ :=
    Prod.mk.inj hvalues |>.imp_right fun h => Prod.mk.inj h |>.imp_right Prod.mk.inj
  exact ⟨s, starts blocks, Run.of_foldlM hs, by decide, by decide, hcursor₂, hcursor₃, hout₂,
    hout₃, by decide +kernel⟩

namespace SampleAgreement

open SampleNetwork SampleFork

-- The leader of round 0 signs one block and sends it to everyone.
def seconds : List DagBlock := [second ⟨2⟩ [B₁], second ⟨3⟩ [B₁], second ⟨4⟩ [B₁]]
def third (author : Address) : DagBlock := block none author 2 0 seconds
def thirds : List DagBlock := [third ⟨2⟩, third ⟨3⟩, third ⟨4⟩]

def blocks : Universe where
  domain := none
  blocks := [B₁] ++ firsts ++ seconds ++ thirds
  fits := by decide +kernel
  distinct := by decide +kernel

/-- Validators 2 and 3 commit; validator 4 has not yet. -/
def events : letI := concreteCrypto; List NetworkEvent :=
  letI := concreteCrypto
  each (.proposeBlock [] 0) ++ deliver ⟨2⟩ (B₁ :: firsts) ++ deliver ⟨3⟩ (B₁ :: firsts) ++
    deliver ⟨4⟩ (B₁ :: firsts) ++
  each .advanceRound ++ each (.proposeBlock [] 0) ++ deliver ⟨2⟩ seconds ++ deliver ⟨3⟩ seconds ++
    deliver ⟨4⟩ seconds ++
  each .advanceRound ++ each (.proposeBlock [] 0) ++ deliver ⟨2⟩ thirds ++ deliver ⟨3⟩ thirds ++
    [⟨⟨2⟩, .tryCommit⟩, ⟨⟨3⟩, .tryCommit⟩]

end SampleAgreement

open SampleNetwork SampleFork Network in
/-- The block that everyone certifies is committed by both engines that commit. -/
theorem commit_agreement_one_leader_block :
    letI := concreteCrypto
    ∃ s, Starts (committee SampleAgreement.blocks) (start none) ∧
      Run step (committee SampleAgreement.blocks).Agreeable (start none) SampleAgreement.events s ∧
      (s.engine ⟨2⟩).lastCommittedRound = 1 ∧ (s.engine ⟨3⟩).lastCommittedRound = 1 ∧
      Committee.committedAt (s.output ⟨2⟩) 0 = [B₁.hash] ∧
      Committee.committedAt (s.output ⟨3⟩) 0 = [B₁.hash] := by
  let _ : Crypto := concreteCrypto
  have hrun : (SampleAgreement.events.foldlM (Run.guarded step
      (committee SampleAgreement.blocks).Agreeable) (start none)).map (fun s =>
      ((s.engine ⟨2⟩).lastCommittedRound, (s.engine ⟨3⟩).lastCommittedRound,
        Committee.committedAt (s.output ⟨2⟩) 0)) = some (1, 1, [B₁.hash]) := by
    decide +kernel
  obtain ⟨s, hs, hvalues⟩ := map_eq_some_iff.mp hrun
  obtain ⟨hcursor₂, hcursor₃, hout₂⟩ := Prod.mk.inj hvalues |>.imp_right Prod.mk.inj
  have hsteps : Run step (committee SampleAgreement.blocks).Agreeable (start none)
      SampleAgreement.events s := Run.of_foldlM hs
  have hstart := starts SampleAgreement.blocks
  obtain ⟨hagree, -⟩ := commit_agreement hstart hsteps (show honest ⟨2⟩ by decide)
    (show honest ⟨3⟩ by decide)
  refine ⟨s, hstart, hsteps, hcursor₂, hcursor₃, hout₂, ?_⟩
  rw [← hagree 0 (by omega) (by omega)]
  exact hout₂

end ArcChain
