/-
Agreement of honest engines on the commit rule.

The contents that honest engines ever held form a `QuorumDag`, and every
engine is a view of it that is closed under parents above its cursor.  So a
block certified in one view is in the history of every block three rounds
later in any other, and two certificates of one round share a certifier
that both views hold.

* `certified_in_every_history` — a certified anchor is never skipped.
* `recovery_domain_fence` — inside a recovery domain direct commits agree,
  and two certified blocks of one leader round stop every cursor there.
* `commit_agreement` — what is needed beyond that for all decisions of two
  engines to agree.
-/
import ArcChain.Consensus.NetworkSound

namespace ArcChain

open StakeQuorum ConsensusEngine List Option

section Model

variable [Crypto]

namespace ConsensusEngine

/-- Above `floor` no parent is missing from the history of `hash`. -/
def AncestryRetained (e : ConsensusEngine) (hash : Hash256) (floor : Nat) : Prop :=
  ∀ h b, Relation.ReflTransGen (Worklist.Edge (e.historyStep floor)) hash h →
    e.getBlock h = some b → floor < b.round → ∀ p ∈ b.parents, ∃ c, e.getBlock p = some c

end ConsensusEngine

namespace Committee

variable {C : Committee} {G : Set DagBlock} {proposed : Address → List DagBlock}
  {e e' : ConsensusEngine} {x y b c : DagBlock} {round : Nat} {hash hash' : Hash256}

/-! ## The DAG of all blocks -/

/-- A parent lies one round down. -/
theorem Sound.parent_round (hs : C.Sound G proposed) (hx : x ∈ G) (hy : y ∈ G)
    (hparent : y.hash ∈ x.parents) : y.round + 1 = x.round := by
  obtain ⟨z, hz, hhash, hround⟩ := hs.linked x hx y.hash hparent
  have heq : z = y := (hs.genuine z hz).eq_of_hash_eq (hs.genuine y hy) hhash
  rw [← heq]
  exact hround

/-- Honest authors have one content per round. -/
theorem Sound.honest_unique (hs : C.Sound G proposed) (hx : x ∈ G) (hy : y ∈ G)
    (hhonest : C.honest x.author) (hauthor : x.author = y.author) (hround : x.round = y.round) :
    x = y := by
  obtain ⟨p, hp, rfl⟩ := hs.authored x hx hhonest
  obtain ⟨q, hq, rfl⟩ := hs.authored y hy (hauthor ▸ hhonest)
  have hq' : q ∈ proposed p.content.author := hauthor ▸ hq
  rw [inj_on_of_nodup_map (hs.distinct _ hhonest) hp hq' hround]

/-- The contents that honest engines held, as a quorum DAG. -/
def Sound.dag (hs : C.Sound G proposed) : QuorumDag DagBlock Address where
  blocks := G
  author := DagBlock.author
  round := DagBlock.round
  parent x y := y ∈ G ∧ y.hash ∈ x.parents
  weight := C.set.stakeOf
  members := C.set.addresses
  honest := C.honest
  decHonest := C.decHonest
  quorum := C.set.quorum
  baseRound := C.base
  weight_stranger := C.stranger
  honest_unique x hx y hy hhonest hauthor hround :=
    hs.honest_unique hx hy hhonest hauthor hround
  quorum_parents x hx hround := by
    obtain ⟨S, hS, hparents⟩ := hs.heavy x hx hround
    refine ⟨S, hS, fun a ha => ?_⟩
    obtain ⟨y, hy, hauthor, hround, hparent⟩ := hparents a ha
    exact ⟨y, hy, hauthor, hround, hy, hparent⟩

/-- What is reached is a content of the DAG, at the same round or below. -/
theorem Sound.reaches_spec (hs : C.Sound G proposed) (hx : x ∈ G) (h : hs.dag.Reaches x y) :
    y ∈ G ∧ y.round ≤ x.round := by
  induction h with
  | refl => exact ⟨hx, le_refl _⟩
  | tail _ hparent ih =>
    have hround := hs.parent_round ih.1 hparent.1 hparent.2
    exact ⟨hparent.1, by omega⟩

/-! ## Views -/

/-- Two copies of one hash, in whatever views, have one content. -/
theorem View.content_eq (hs : C.Sound G proposed) (h : C.View G e) (hb : e.getBlock hash = some b)
    (hy : y ∈ G) (hhash : y.hash = hash) : b.content = y := by
  have hkey : b.content.hash = y.hash := (h.indexed.keyed hash b hb).trans hhash.symm
  exact (hs.genuine _ (h.known hash b hb)).eq_of_hash_eq (hs.genuine y hy) hkey

/-- Above its cursor a view misses no ancestor. -/
theorem View.ancestryRetained (h : C.View G e) (hcursor : e.lastCommittedRound ≤ round)
    (hash : Hash256) : e.AncestryRetained hash round := by
  intro h' b _ hb hround p hp
  obtain ⟨c, hc, -⟩ := h.closed h' b hb (lt_of_le_of_lt hcursor hround) p hp
  exact ⟨c, hc⟩

/-- **The walk finds what the DAG reaches**, as far as the ancestry is retained. -/
theorem View.contains_of_reaches (hs : C.Sound G proposed) (h : C.View G e)
    (hb : e.getBlock hash = some b) (hretained : e.AncestryRetained hash round)
    (hreach : hs.dag.Reaches b.content y) (hround : round ≤ y.round) :
    e.causalHistoryContains hash y.hash round = true ∧
      ∃ c, e.getBlock y.hash = some c ∧ c.content = y := by
  rw [causalHistoryContains_iff]
  -- from the start: every content on the path is held, and the walk gets to it
  suffices hpath : ∀ x, hs.dag.Reaches b.content x → round ≤ x.round →
      Relation.ReflTransGen (Worklist.Edge (e.historyStep round)) hash x.hash ∧
        ∃ c, e.getBlock x.hash = some c ∧ c.content = x from hpath y hreach hround
  intro x hx hle
  have hkey : b.content.hash = hash := h.indexed.keyed hash b hb
  induction hx with
  | refl =>
    rw [hkey]
    exact ⟨.refl, b, hb, rfl⟩
  | @tail u v hu hparent ih =>
    have huG := (hs.reaches_spec (h.known hash b hb) hu).1
    have hstep := hs.parent_round huG hparent.1 hparent.2
    obtain ⟨hwalk, c, hc, rfl⟩ := ih (by omega)
    obtain ⟨c', hc'⟩ := hretained _ c hwalk hc (show round < c.content.round by omega) v.hash
      hparent.2
    refine ⟨hwalk.tail (mem_historyStep.mpr ⟨c, hc, ?_, hparent.2⟩), c', hc',
      h.content_eq hs hc' hparent.1 rfl⟩
    show round ≤ c.content.round
    omega

/-- What the walk finds and the view holds, the DAG reaches. -/
theorem View.reaches_of_contains (hs : C.Sound G proposed) (h : C.View G e)
    (hb : e.getBlock hash = some b) (hc : e.getBlock hash' = some c)
    (hcontains : e.causalHistoryContains hash hash' round = true) :
    hs.dag.Reaches b.content c.content := by
  rw [causalHistoryContains_iff] at hcontains
  induction hcontains using Relation.ReflTransGen.head_induction_on generalizing b with
  | refl =>
    obtain rfl := some.inj (hb.symm.trans hc)
    exact .refl
  | @head u v hedge hrest ih =>
    obtain ⟨b', hb', -, hparent⟩ := mem_historyStep.mp hedge
    obtain rfl := some.inj (hb'.symm.trans hb)
    -- the next block is held: it is the target, or the walk goes on from it
    have hheld : ∃ d, e.getBlock v = some d := by
      rcases hrest.cases_head with rfl | ⟨w, hnext, -⟩
      · exact ⟨c, hc⟩
      · obtain ⟨d, hd, -⟩ := mem_historyStep.mp hnext
        exact ⟨d, hd⟩
    obtain ⟨d, hd⟩ := hheld
    refine .head ⟨h.known v d hd, ?_⟩ (ih hd)
    show d.hash ∈ b'.parents
    rw [h.indexed.keyed v d hd]
    exact hparent

/-! ## Certificates across views -/

theorem View.leaderOf_eq (h : C.View G e) (h' : C.View G e') (round : Nat) :
    e'.leaderOf round = e.leaderOf round := by
  rw [ConsensusEngine.leaderOf, ConsensusEngine.leaderOf, frozenLeaders, frozenLeaders, h.frozen,
    h'.frozen]

/-- A held copy of another view's anchor is an anchor. -/
theorem View.mem_anchorsOf (hs : C.Sound G proposed) (h : C.View G e) (h' : C.View G e')
    (hanchor : hash ∈ e.anchorsOf round) (hc : e'.getBlock hash = some c) :
    hash ∈ e'.anchorsOf round := by
  obtain ⟨hmem, b, leader, hb, hleader, hauthor⟩ := ConsensusEngine.mem_anchorsOf.mp hanchor
  obtain ⟨b', hb', hround⟩ := h.indexed.held round hash hmem
  obtain rfl := some.inj (hb'.symm.trans hb)
  have hcontent : c.content = b'.content :=
    h'.content_eq hs hc (h.known hash b' hb) (h.indexed.keyed hash b' hb)
  obtain ⟨hcauthor, hcround, -⟩ := DagBlock.eq_of_content_eq hcontent
  have hlisted := h'.indexed.listed hash c hc
  rw [hcround, hround] at hlisted
  refine ConsensusEngine.mem_anchorsOf.mpr ⟨hlisted, c, leader, hc, ?_, hcauthor.trans hauthor⟩
  rw [h.leaderOf_eq h' round]
  exact hleader

/-- A certificate of a view, in the DAG of all blocks and in the view itself. -/
structure CertifiedIn (hs : C.Sound G proposed) (e : ConsensusEngine) (hash : Hash256)
    (round : Nat) (b c : DagBlock) (Q : Finset Address) : Prop where
  block : b ∈ G
  hash_eq : b.hash = hash
  round_eq : b.round = round
  child : c ∈ G
  certifies : hs.dag.Certifies b c round Q
  certifiers : ∀ a ∈ Q, ∃ certifier d, e.getBlock certifier = some d ∧ d.author = a ∧
    d.round = round + 2 ∧ c.hash ∈ d.parents

theorem View.certifiedIn (hs : C.Sound G proposed) (h : C.View G e)
    (hsupport : (e.twoRoundCommitSupport hash round e.frozenValidatorSet).isSome = true) :
    ∃ b c Q, CertifiedIn hs e hash round b c Q := by
  rw [h.frozen] at hsupport
  obtain ⟨child, hchild, c, hc, hparent, Q, hQ, hcertifiers⟩ := exists_certificate hsupport
  obtain ⟨c', hc', hcround⟩ := h.indexed.held _ child hchild
  obtain rfl := some.inj (hc'.symm.trans hc)
  have hcG := h.known child c' hc
  have hckey : c'.hash = child := h.indexed.keyed child c' hc
  obtain ⟨b, hb, hbhash, hbround⟩ := hs.linked c'.content hcG hash hparent
  have hheld : ∀ a ∈ Q, ∃ certifier d, e.getBlock certifier = some d ∧ d.author = a ∧
      d.round = round + 2 ∧ c'.content.hash ∈ d.parents := by
    intro a ha
    obtain ⟨certifier, hlisted, d, hd, hauthor, hnames⟩ := hcertifiers a ha
    obtain ⟨d', hd', hdround⟩ := h.indexed.held _ certifier hlisted
    obtain rfl := some.inj (hd'.symm.trans hd)
    exact ⟨certifier, d', hd, hauthor, hdround, hckey.symm ▸ hnames⟩
  have hround : b.round = round := by
    have hc'' : c'.content.round = round + 1 := hcround
    omega
  refine ⟨b, c'.content, Q, hb, hbhash, hround, hcG, ⟨⟨hb, hbhash.symm ▸ hparent⟩, hQ, ?_⟩, hheld⟩
  intro a ha
  obtain ⟨certifier, d, hd, hauthor, hdround, hnames⟩ := hheld a ha
  exact ⟨d.content, h.known certifier d hd, hauthor, hdround, hcG, hnames⟩

variable {hs : C.Sound G proposed} {Q Q' : Finset Address} {b' c' : DagBlock}

section

variable (h : CertifiedIn hs e hash round b c Q)

include h

/-- The honest part of a certifier quorum outweighs what a quorum may miss. -/
theorem CertifiedIn.honest_outweighs : weight C.set.stakeOf C.set.addresses <
      weight C.set.stakeOf (Q.filter C.honest) + C.set.quorum :=
  (Active.initial C).honest_outweighs h.certifies.heavy

theorem CertifiedIn.quorum_le : C.set.quorum ≤ weight C.set.stakeOf C.set.addresses :=
  le_trans h.certifies.heavy (weight_le_committee C.stranger Q)

/-- An honest certifier: certificates reach no deeper than two rounds below the start. -/
theorem CertifiedIn.base_le : C.base ≤ round + 2 := by
  have hhonest := h.honest_outweighs
  have hquorum := h.quorum_le
  obtain ⟨a, ha⟩ := nonempty_of_weight_pos
    (show 0 < weight C.set.stakeOf (Q.filter C.honest) by omega)
  obtain ⟨haQ, ha⟩ := Finset.mem_filter.mp ha
  obtain ⟨d, hd, rfl, hround, -⟩ := h.certifies.named a haQ
  obtain ⟨p, hp, hcontent⟩ := hs.authored d hd ha
  have hbase := (hs.published _ ha p hp).2.2
  have hpround : p.content.round = d.round := congrArg _ hcontent
  have hround' : d.round = round + 2 := hround
  have hbase' : C.base ≤ p.content.round := hbase
  omega

/-- **A certified block is in every later history.** -/
theorem CertifiedIn.reaches (hx : x ∈ G) (hround : round + 3 ≤ x.round) : hs.dag.Reaches x b :=
  QuorumDag.reaches_of_certified ⟨c, Q, h.certifies⟩ h.base_le h.quorum_le hx hround

end

/-- **Two certificates of one round** meet in a certifier that the first view holds: it names
    the child of the second, so the view holds the second block too. -/
theorem CertifiedIn.exists_common (hv : C.View G e) (h : CertifiedIn hs e hash round b c Q)
    (h' : CertifiedIn hs e' hash' round b' c' Q') (hcursor : e.lastCommittedRound ≤ round) :
    ∃ certifier ∈ e.blocksInRound (round + 2),
      e.causalHistoryContains certifier hash' round = true ∧
        ∃ x, e.getBlock hash' = some x ∧ x.content = b' := by
  obtain ⟨d, hd, hdQ, hdround, hhonest, -, hparent⟩ :=
    QuorumDag.exists_common_certifier h.honest_outweighs h.certifies h'.certifies
  obtain ⟨certifier, d₁, hd₁, hauthor, hround₁, -⟩ := h.certifiers _ hdQ
  -- one honest author, one round: the common certifier is the one held here
  have heq : d₁.content = d :=
    hs.honest_unique (hv.known certifier d₁ hd₁) hd (show C.honest d₁.author from hauthor ▸ hhonest)
      hauthor (show d₁.round = d.round from hround₁.trans hdround.symm)
  have hreach : hs.dag.Reaches d₁.content b' := by
    rw [heq]
    exact .head hparent (.single h'.certifies.child)
  have hlisted := hv.indexed.listed certifier d₁ hd₁
  rw [hround₁] at hlisted
  have hfound := hv.contains_of_reaches hs hd₁ (hv.ancestryRetained hcursor certifier) hreach
    (le_of_eq h'.round_eq.symm)
  rw [h'.hash_eq] at hfound
  exact ⟨certifier, hlisted, hfound⟩

/-- A later block of a view leads to a certified block, which the view then holds. -/
theorem CertifiedIn.contains (h : CertifiedIn hs e hash round b c Q) (hv : C.View G e')
    (hx : e'.getBlock hash' = some x) (hround : round + 3 ≤ x.round)
    (hretained : e'.AncestryRetained hash' round) :
    e'.causalHistoryContains hash' hash round = true ∧
      ∃ y, e'.getBlock hash = some y ∧ y.content = b := by
  have hreach : hs.dag.Reaches x.content b := h.reaches (hv.known hash' x hx) hround
  have hfound := hv.contains_of_reaches hs hx hretained hreach (le_of_eq h.round_eq.symm)
  rw [h.hash_eq] at hfound
  exact hfound

/-! ## Anchors and deciders -/

variable {scanEnd deciderRound : Nat}

/-- A decider is a held, certified anchor at least three rounds up. -/
theorem View.decider (h : C.View G e) {decider : Hash256}
    (hfind : e.findDecider (List.range' (round + 3) (scanEnd + 1 - (round + 3))) =
      some (deciderRound, decider)) :
    round + 3 ≤ deciderRound ∧ decider ∈ e.anchorsOf deciderRound ∧
      (e.twoRoundCommitSupport decider deciderRound e.frozenValidatorSet).isSome = true ∧
      ∃ x, e.getBlock decider = some x ∧ x.round = deciderRound := by
  obtain ⟨hmem, hcertified⟩ := findDecider_eq_some hfind
  obtain ⟨hanchor, hsupport⟩ :=
    mem_certifiedAnchors.mp (hcertified ▸ mem_singleton.mpr (rfl : decider = decider))
  obtain ⟨hlisted, -⟩ := ConsensusEngine.mem_anchorsOf.mp hanchor
  exact ⟨(mem_range'_1.mp hmem).1, hanchor, hsupport, h.indexed.held _ _ hlisted⟩

/-- A certified anchor that is held is what every later decision commits. -/
theorem CertifiedIn.decided (h : CertifiedIn hs e hash round b c Q) (hv : C.View G e')
    (hcursor : e'.lastCommittedRound ≤ round) (hanchor : hash ∈ e'.anchorsOf round)
    {decider : Hash256}
    (hfind : e'.findDecider (List.range' (round + 3) (scanEnd + 1 - (round + 3))) =
      some (deciderRound, decider))
    (hpass : e'.decideFrom round decider ≠ .stop) :
    (e'.decideFrom round decider).committedHash = some hash := by
  obtain ⟨hle, -, -, x, hx, rfl⟩ := hv.decider hfind
  have hcontains := (h.contains hv hx hle (hv.ancestryRetained hcursor decider)).1
  exact (decideFrom_cases hpass hash hanchor).mpr hcontains

theorem View.certifiedAnchor (hs : C.Sound G proposed) (h : C.View G e)
    (hmem : hash ∈ e.certifiedAnchors round) : ∃ b c Q, CertifiedIn hs e hash round b c Q :=
  h.certifiedIn hs (mem_certifiedAnchors.mp hmem).2

/-- A view that certifies an anchor holds every other anchor certified anywhere. -/
theorem View.anchors_of_two_certified (hs : C.Sound G proposed) (h : C.View G e)
    (h' : C.View G e') (hcursor : e.lastCommittedRound ≤ round)
    (hmem : hash ∈ e.certifiedAnchors round) (hmem' : hash' ∈ e'.certifiedAnchors round) :
    hash' ∈ e.anchorsOf round := by
  obtain ⟨b, c, Q, hcertified⟩ := h.certifiedAnchor hs hmem
  obtain ⟨b', c', Q', hcertified'⟩ := h'.certifiedAnchor hs hmem'
  obtain ⟨-, -, -, x, hx, -⟩ := hcertified.exists_common h hcertified' hcursor
  exact h'.mem_anchorsOf hs h (mem_certifiedAnchors.mp hmem').1 hx

/-- A view that decides a round holds every anchor of it that is certified anywhere. -/
theorem View.anchor_of_pass (hs : C.Sound G proposed) (h : C.View G e) (h' : C.View G e')
    (hcursor : e.lastCommittedRound ≤ round)
    (hpass : e.decideRound scanEnd round ≠ .stop) (hmem' : hash' ∈ e'.certifiedAnchors round) :
    hash' ∈ e.anchorsOf round := by
  have hdecides := (decideRound_cases hpass).2
  generalize e.decideRound scanEnd round = decision at hdecides
  cases hdecides with
  | @direct hash hcertified =>
    have hmem : hash ∈ e.certifiedAnchors round := by
      rw [hcertified]
      exact mem_singleton.mpr rfl
    exact h.anchors_of_two_certified hs h' hcursor hmem hmem'
  | later hnone hfind =>
    obtain ⟨hle, -, -, x, hx, rfl⟩ := h.decider hfind
    obtain ⟨b', c', Q', hcertified'⟩ := h'.certifiedAnchor hs hmem'
    obtain ⟨-, y, hy, -⟩ := hcertified'.contains h hx hle (h.ancestryRetained hcursor _)
    exact h'.mem_anchorsOf hs h (mem_certifiedAnchors.mp hmem').1 hy

/-- Inside a domain, two certified anchors of one round stop every view there. -/
theorem View.fenced {e₁ e₂ : ConsensusEngine} (hs : C.Sound G proposed) (h : C.View G e)
    (h₁ : C.View G e₁) (h₂ : C.View G e₂) (hdomain : C.domain.isSome = true)
    (hcursor : e.lastCommittedRound ≤ round) (hmem₁ : hash ∈ e₁.certifiedAnchors round)
    (hmem₂ : hash' ∈ e₂.certifiedAnchors round) (hne : hash ≠ hash') (scanEnd : Nat) :
    e.decideRound scanEnd round = .stop := by
  by_contra hpass
  have hone := (decideRound_cases hpass).1 (h.domain ▸ hdomain)
  have hanchor₁ := h.anchor_of_pass hs h₁ hcursor hpass hmem₁
  have hanchor₂ := h.anchor_of_pass hs h₂ hcursor hpass hmem₂
  cases hanchors : e.anchorsOf round with
  | nil =>
    rw [hanchors] at hanchor₁
    exact absurd hanchor₁ not_mem_nil
  | cons only rest =>
    rw [hanchors, length_cons] at hone
    have hrest : rest = [] := length_eq_zero_iff.mp (by omega)
    rw [hanchors, hrest, mem_singleton] at hanchor₁ hanchor₂
    exact hne (hanchor₁.trans hanchor₂.symm)

end Committee

/-! ## A certified anchor is never skipped -/

namespace Network

variable {C : Committee} {start s : Network} {events : List NetworkEvent} {a a' : Address}
  {e e' : ConsensusEngine}

/-- **A certified anchor is never skipped.**  A block certified in the view of one honest
    engine, at any point of a run, is in the history of every block three rounds later in
    any honest view, as far as that history is retained; and no honest engine that holds it
    as an anchor takes the skip branch for its round. -/
theorem certified_in_every_history (hstart : Starts C start)
    (hrun : Run step C.Allows start events s) (ha : C.honest a) (ha' : C.honest a')
    (he : Visits C.Allows start events a e) (he' : Visits C.Allows start events a' e')
    {B : Hash256} {r : Nat}
    (hcertified : (e.twoRoundCommitSupport B r e.frozenValidatorSet).isSome = true) :
    (∀ X x, e'.getBlock X = some x → r + 3 ≤ x.round → e'.AncestryRetained X r →
      e'.causalHistoryContains X B r = true) ∧
    (e'.lastCommittedRound ≤ r → B ∈ e'.anchorsOf r →
      e'.decideRound (e'.currentRound - 2) r ≠ .skip) := by
  obtain ⟨G, hholds, hviews⟩ := exists_views hstart (fun _ _ h => h) hrun
  have hview' := hviews a' e' ha' he'
  obtain ⟨b, c, Q, h⟩ := (hviews a e ha he).certifiedIn hholds.sound hcertified
  refine ⟨fun X x hx hround hretained => (h.contains hview' hx hround hretained).1, ?_⟩
  intro hcursor hanchor hskip
  have hpass : e'.decideRound (e'.currentRound - 2) r ≠ .stop := by
    rw [hskip]
    exact nofun
  have hdecides := (decideRound_cases hpass).2
  generalize e'.decideRound (e'.currentRound - 2) r = decision at hskip hdecides
  -- a skip is read from a later decider, whose history has the block
  cases hdecides with
  | direct => cases hskip
  | later hnone hfind =>
    have hsome := h.decided hview' hcursor hanchor hfind (hskip ▸ nofun)
    rw [hskip] at hsome
    cases hsome

/-! ## The recovery-domain fence -/

/-- **Recovery-domain fence.**  Inside a recovery domain two honest engines never commit
    different blocks of a round directly.  If two blocks of one leader round are certified in
    honest views, every honest engine that certifies one of them holds both as anchors, and
    `try_commit` moves no honest cursor past the round. -/
theorem recovery_domain_fence (hdomain : C.domain.isSome = true) (hstart : Starts C start)
    (hrun : Run step C.Allows start events s) (ha : C.honest a) (ha' : C.honest a')
    (he : Visits C.Allows start events a e) (he' : Visits C.Allows start events a' e')
    {B B' : Hash256} {r : Nat} :
    (e.lastCommittedRound ≤ r → e'.lastCommittedRound ≤ r →
      e.decideRound (e.currentRound - 2) r = .direct B →
      e'.decideRound (e'.currentRound - 2) r = .direct B' → B = B') ∧
    (B ∈ e.certifiedAnchors r → B' ∈ e'.certifiedAnchors r → B ≠ B' →
      ∀ a'' e'', C.honest a'' → Visits C.Allows start events a'' e'' →
        e''.lastCommittedRound ≤ r →
        (B ∈ e''.certifiedAnchors r ∨ B' ∈ e''.certifiedAnchors r →
          B ∈ e''.anchorsOf r ∧ B' ∈ e''.anchorsOf r) ∧
        ∀ out e₁, e''.tryCommit = some (out, e₁) → e₁.lastCommittedRound ≤ r) := by
  obtain ⟨G, hholds, hviews⟩ := exists_views hstart (fun _ _ h => h) hrun
  have hs := hholds.sound
  have h := hviews a e ha he
  have h' := hviews a' e' ha' he'
  refine ⟨?_, ?_⟩
  · intro hcursor _ hdirect hdirect'
    by_contra hne
    have hmem : B ∈ e.certifiedAnchors r := by
      rw [certifiedAnchors_of_direct hdirect]
      exact mem_singleton.mpr rfl
    have hmem' : B' ∈ e'.certifiedAnchors r := by
      rw [certifiedAnchors_of_direct hdirect']
      exact mem_singleton.mpr rfl
    have hstop := h.fenced hs h h' hdomain hcursor hmem hmem' hne (e.currentRound - 2)
    rw [hdirect] at hstop
    cases hstop
  · intro hB hB' hne a'' e'' ha'' he'' hcursor
    have h'' := hviews a'' e'' ha'' he''
    refine ⟨?_, fun out e₁ hcommit => cursor_le_of_stop hcursor
      (h''.fenced hs h h' hdomain hcursor hB hB' hne _) hcommit⟩
    rintro (hmem | hmem)
    · exact ⟨(mem_certifiedAnchors.mp hmem).1, h''.anchors_of_two_certified hs h' hcursor hmem hB'⟩
    · exact ⟨h''.anchors_of_two_certified hs h hcursor hmem hB, (mem_certifiedAnchors.mp hmem).1⟩

end Network

end Model

namespace SampleNetwork

open Network

/-- Four core validators; a quorum is three of them. -/
def set : ValidatorSet :=
  ⟨[⟨⟨1⟩, 50000000, .core, 0⟩, ⟨⟨2⟩, 50000000, .core, 0⟩, ⟨⟨3⟩, 50000000, .core, 0⟩,
    ⟨⟨4⟩, 50000000, .core, 0⟩], 200000000, 1, 133333334, 0, []⟩

theorem set_valid : set.Valid := ⟨⟨by decide, by decide, by decide, by decide⟩, by decide⟩

/-- Validator 1, the leader of round 0, is Byzantine. -/
abbrev honest (a : Address) : Prop := a ≠ ⟨1⟩

theorem byzantine : ByzantineBound set honest := by
  rw [ByzantineBound]
  decide +kernel

/-- A signed block without transactions. -/
def block (domain : Option ConsensusDomain) (author : Address) (round timestamp : Nat)
    (parents : List DagBlock) : DagBlock :=
  letI := concreteCrypto
  let block : DagBlock :=
    { author, round, parents := DagBlock.sortHashes (parents.map (·.hash)), transactions := [],
      timestamp, hash := Hash256.zero, signature := [],
      orderingCommitment := DagBlock.computeOrderingCommitment [] }
  let block := { block with hash := block.hashFor domain }
  { block with signature := Concrete.encode (Concrete.signature author block.hash) }

/-- A block universe that `committee` can be built over. -/
structure Universe where
  domain : Option ConsensusDomain
  blocks : List DagBlock
  fits : ∀ b ∈ blocks, b.round < 2 ^ 64 ∧ b.timestamp < 2 ^ 64 ∧ b.transactions = []
  distinct : letI := concreteCrypto; (blocks.map (·.hashFor domain)).Nodup

def committee (U : Universe) : letI := concreteCrypto; Committee :=
  letI := concreteCrypto
  { set := set, honest := honest, decHonest := inferInstance, domain := U.domain,
    bootstrap := none, blocks := {b | b ∈ U.blocks}, valid := set_valid, byzantine := byzantine
    collisionFree :=
      { fits := fun b hb => ⟨(U.fits b hb).1, (U.fits b hb).2.1⟩
        content := fun b hb c hc heq => by
          rw [List.inj_on_of_nodup_map U.distinct hb hc heq]
        ordering := fun b hb c hc _ => by
          rw [(U.fits b hb).2.2, (U.fits c hc).2.2] } }

instance (U : Universe) : letI := concreteCrypto; DecidablePred (· ∈ (committee U).blocks) :=
  fun b => inferInstanceAs (Decidable (b ∈ U.blocks))

def start (domain : Option ConsensusDomain) : letI := concreteCrypto; Network :=
  letI := concreteCrypto
  { engine := fun a => { fresh a set (some a) 4096 with consensusDomain := domain }
    proposed := fun _ => []
    output := fun _ => [] }

theorem starts (U : Universe) : letI := concreteCrypto; Starts (committee U) (start U.domain) := by
  let _ : Crypto := concreteCrypto
  exact fun a _ => ⟨⟨rfl, rfl, rfl, rfl, rfl, rfl, rfl, rfl, rfl, rfl, rfl, rfl, rfl, rfl, rfl,
    show 1 ≤ max 4096 pruneDepth by decide⟩, rfl, rfl⟩

/-- Each of the honest validators does something. -/
def each (op : letI := concreteCrypto; EngineOp) : letI := concreteCrypto; List NetworkEvent :=
  letI := concreteCrypto
  [⟨⟨2⟩, op⟩, ⟨⟨3⟩, op⟩, ⟨⟨4⟩, op⟩]

def deliver (node : Address) (blocks : List DagBlock) :
    letI := concreteCrypto; List NetworkEvent :=
  letI := concreteCrypto
  blocks.map fun b => ⟨node, .receiveBlock b⟩

/-- Evaluating the basic operations one after another. -/
def execute (U : Universe) (events : letI := concreteCrypto; List NetworkEvent) :
    letI := concreteCrypto; Option Network :=
  letI := concreteCrypto
  events.foldlM (Run.guarded step fun s event => (committee U).Allows s event ∧ event.op.Basic)
    (start U.domain)

end SampleNetwork

namespace SampleFence

open SampleNetwork

def domain : ConsensusDomain := ⟨⟨7⟩, 1, 0⟩

-- The leader of round 0 signs two blocks, each of which reaches some of the others first.
def B₁ : DagBlock := block domain ⟨1⟩ 0 0 []
def B₂ : DagBlock := block domain ⟨1⟩ 0 1 []
def first (author : Address) : DagBlock := block domain author 0 0 []
def second (author : Address) (anchor : DagBlock) : DagBlock :=
  block domain author 1 0 [anchor, first ⟨2⟩, first ⟨3⟩, first ⟨4⟩]
def seconds : List DagBlock := [second ⟨1⟩ B₁, second ⟨2⟩ B₁, second ⟨3⟩ B₂, second ⟨4⟩ B₁]
def third (author : Address) : DagBlock := block domain author 2 0 seconds
def thirds : List DagBlock := [third ⟨1⟩, third ⟨2⟩, third ⟨3⟩, third ⟨4⟩]
def fourth : DagBlock := block domain ⟨3⟩ 3 0 thirds

def blocks : Universe where
  domain := domain
  blocks := [B₁, B₂, first ⟨2⟩, first ⟨3⟩, first ⟨4⟩] ++ seconds ++ thirds ++ [fourth]
  fits := by decide +kernel
  distinct := by decide +kernel

def events : letI := concreteCrypto; List NetworkEvent :=
  letI := concreteCrypto
  each (.proposeBlock [] 0) ++ deliver ⟨2⟩ [B₁, first ⟨3⟩, first ⟨4⟩] ++
    deliver ⟨3⟩ [B₂, first ⟨2⟩, first ⟨4⟩] ++ deliver ⟨4⟩ [B₁, first ⟨2⟩, first ⟨3⟩] ++
  each .advanceRound ++ each (.proposeBlock [] 0) ++ deliver ⟨2⟩ (B₂ :: seconds) ++
    deliver ⟨3⟩ (B₁ :: seconds) ++ deliver ⟨4⟩ (B₂ :: seconds) ++
  each .advanceRound ++ each (.proposeBlock [] 0) ++ deliver ⟨2⟩ thirds ++ deliver ⟨3⟩ thirds ++
    deliver ⟨4⟩ thirds ++
  each .advanceRound ++ [⟨⟨3⟩, .proposeBlock [] 0⟩] ++ deliver ⟨4⟩ [fourth]

end SampleFence

open SampleNetwork SampleFence Network in
/-- Both blocks of the leader are certified; the block of round 3 has the first one in its
    history, and its round is not skipped. -/
theorem certified_in_every_history_fourth :
    letI := concreteCrypto
    ∃ s, Starts (committee blocks) (start blocks.domain) ∧
      Run step (committee blocks).Allows (start blocks.domain) events s ∧
      ((s.engine ⟨2⟩).twoRoundCommitSupport B₁.hash 0
        (s.engine ⟨2⟩).frozenValidatorSet).isSome = true ∧
      (s.engine ⟨4⟩).getBlock fourth.hash = some fourth ∧
      (s.engine ⟨4⟩).causalHistoryContains fourth.hash B₁.hash 0 = true ∧
      (s.engine ⟨4⟩).decideRound ((s.engine ⟨4⟩).currentRound - 2) 0 ≠ .skip := by
  let _ : Crypto := concreteCrypto
  have hrun : (execute blocks events).map (fun s =>
      (((s.engine ⟨2⟩).twoRoundCommitSupport B₁.hash 0 (s.engine ⟨2⟩).frozenValidatorSet).isSome,
        (s.engine ⟨4⟩).getBlock fourth.hash, (s.engine ⟨4⟩).lastCommittedRound,
        decide (B₁.hash ∈ (s.engine ⟨4⟩).anchorsOf 0))) =
      some (true, some fourth, 0, true) := by
    decide +kernel
  obtain ⟨s, hs, hvalues⟩ := map_eq_some_iff.mp hrun
  obtain ⟨hcertified, hheld, hcursor, hanchor⟩ :=
    Prod.mk.inj hvalues |>.imp_right fun h => Prod.mk.inj h |>.imp_right Prod.mk.inj
  have hallows : Run step (committee blocks).Allows (start blocks.domain) events s :=
    (Run.of_foldlM hs).mono fun _ _ h => h.1
  have hvisits : ∀ a, Visits (committee blocks).Allows (start blocks.domain) events a
      (s.engine a) := fun a => ⟨events, [], s, (append_nil _).symm, hallows, rfl⟩
  obtain ⟨G, -, hviews⟩ := exists_views (starts blocks) (fun _ _ h => h) hallows
  have hview := hviews ⟨4⟩ _ (show honest ⟨4⟩ by decide) (hvisits ⟨4⟩)
  obtain ⟨hhistory, hnoskip⟩ := certified_in_every_history (starts blocks) hallows
    (show honest ⟨2⟩ by decide) (show honest ⟨4⟩ by decide) (hvisits ⟨2⟩) (hvisits ⟨4⟩) hcertified
  refine ⟨s, starts blocks, hallows, hcertified, hheld, ?_, ?_⟩
  · exact hhistory _ _ hheld (by decide) (hview.ancestryRetained (le_of_eq hcursor) _)
  · exact hnoskip (le_of_eq hcursor) (of_decide_eq_true hanchor)

open SampleNetwork SampleFence Network in
/-- Both blocks of the leader are certified in two honest views, and the cursor of the third
    honest engine, which holds both, stays at round 0. -/
theorem recovery_domain_fence_equivocation :
    letI := concreteCrypto
    ∃ s, Starts (committee blocks) (start blocks.domain) ∧
      Run step (committee blocks).Allows (start blocks.domain) events s ∧
      B₁.hash ∈ (s.engine ⟨2⟩).certifiedAnchors 0 ∧ B₂.hash ∈ (s.engine ⟨3⟩).certifiedAnchors 0 ∧
      B₁.hash ∈ (s.engine ⟨4⟩).anchorsOf 0 ∧ B₂.hash ∈ (s.engine ⟨4⟩).anchorsOf 0 ∧
      ∀ out e₁, (s.engine ⟨4⟩).tryCommit = some (out, e₁) → e₁.lastCommittedRound ≤ 0 := by
  let _ : Crypto := concreteCrypto
  have hrun : (execute blocks events).map (fun s =>
      (decide (B₁.hash ∈ (s.engine ⟨2⟩).certifiedAnchors 0),
        decide (B₂.hash ∈ (s.engine ⟨3⟩).certifiedAnchors 0),
        decide (B₁.hash ∈ (s.engine ⟨4⟩).certifiedAnchors 0), (s.engine ⟨4⟩).lastCommittedRound)) =
      some (true, true, true, 0) := by
    decide +kernel
  obtain ⟨s, hs, hvalues⟩ := map_eq_some_iff.mp hrun
  obtain ⟨hfirst, hsecond, hthird, hcursor⟩ :=
    Prod.mk.inj hvalues |>.imp_right fun h => Prod.mk.inj h |>.imp_right Prod.mk.inj
  have hallows : Run step (committee blocks).Allows (start blocks.domain) events s :=
    (Run.of_foldlM hs).mono fun _ _ h => h.1
  have hvisits : ∀ a, Visits (committee blocks).Allows (start blocks.domain) events a
      (s.engine a) := fun a => ⟨events, [], s, (append_nil _).symm, hallows, rfl⟩
  have hne : B₁.hash ≠ B₂.hash := by decide +kernel
  obtain ⟨hanchors, hstays⟩ := (recovery_domain_fence rfl (starts blocks) hallows
    (show honest ⟨2⟩ by decide) (show honest ⟨3⟩ by decide) (hvisits ⟨2⟩) (hvisits ⟨3⟩)).2 (of_decide_eq_true hfirst)
      (of_decide_eq_true hsecond) hne ⟨4⟩ _ (show honest ⟨4⟩ by decide) (hvisits ⟨4⟩) (le_of_eq hcursor)
  obtain ⟨hB₁, hB₂⟩ := hanchors (.inl (of_decide_eq_true hthird))
  exact ⟨s, starts blocks, hallows, of_decide_eq_true hfirst, of_decide_eq_true hsecond, hB₁, hB₂,
    hstays⟩

end ArcChain
