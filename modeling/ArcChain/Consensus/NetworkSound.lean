/-
What holds in every run of the network.

`Node` is what holds of each honest engine and `Sound` what holds of all
blocks that honest engines ever held; `Node.view` is the part of it that
agreement rests on.  All engines that a run visits are views of one sound
collection (`exists_views`).
-/
import ArcChain.Consensus.CommitRule
import ArcChain.Consensus.DagClosure
import ArcChain.Consensus.Network
import ArcChain.Lib.QuorumDag

namespace ArcChain

open Word StakeQuorum ConsensusEngine List ValidatorSet DagBlock AssocMap

/-- A block without its signature: what its hash determines. -/
def DagBlock.content (b : DagBlock) : DagBlock := { b with signature := [] }

theorem DagBlock.eq_of_content_eq {b c : DagBlock} (h : b.content = c.content) :
    b.author = c.author ∧ b.round = c.round ∧ b.parents = c.parents ∧ b.hash = c.hash ∧
      b.transactions = c.transactions := by
  have hauthor : b.content.author = c.content.author := congrArg _ h
  have hround : b.content.round = c.content.round := congrArg _ h
  have hparents : b.content.parents = c.content.parents := congrArg _ h
  have hhash : b.content.hash = c.content.hash := congrArg _ h
  have htransactions : b.content.transactions = c.content.transactions := congrArg _ h
  exact ⟨hauthor, hround, hparents, hhash, htransactions⟩
section Model

variable [Crypto]

/-! ## Signatures, slashes and the detector -/

namespace ConsensusEngine

variable {e e' : ConsensusEngine} {block : DagBlock}

/-- An engine with a key accepts signed blocks only. -/
theorem signed_of_checkSignature (h : e.checkSignature block = .ok ())
    (hkey : e.localKeypair.isSome = true) : block.Signed := by
  rw [checkSignature] at h
  split at h
  · split at h
    · cases h
    · rename_i sig hsig
      split at h
      · cases h
      · rename_i hverify
        exact ⟨sig, hsig, Bool.of_not_eq_false hverify⟩
  · cases h

/-- A received block changes the active set only by a slash of an equivocating author. -/
theorem acceptBlock_validatorSet (h : e.acceptBlock block = some e') :
    e'.validatorSet = e.validatorSet ∨ ∃ existing evidence r,
      e.authorRoundBlocks.lookup (block.author, block.round) = some existing ∧
        existing ≠ block.hash ∧
        e.validatorSet.punish block.author .equivocationDAG evidence block.round block.timestamp =
          some r ∧ e'.validatorSet = r.2 := by
  obtain ⟨e₁, hnote, rfl⟩ := Option.map_eq_some_iff.mp h
  rw [pruneSecurityHistory_eq]
  show e₁.validatorSet = _ ∨ ∃ existing evidence r, _ ∧ _ ∧ _ ∧ e₁.validatorSet = _
  rw [noteAuthor] at hnote
  split at hnote
  · rename_i equivocation hequiv
    split at hnote
    · obtain rfl := Option.some.inj hnote
      exact .inl rfl
    obtain ⟨r, hr, rfl⟩ := Option.map_eq_some_iff.mp hnote
    rw [detectEquivocation] at hequiv
    split at hequiv
    · rename_i existing hexisting
      split at hequiv
      · rename_i hne
        exact .inr ⟨existing, _, r, hexisting, hne, hr, rfl⟩
      · cases hequiv
    · cases hequiv
  · left
    split at hnote
    · obtain rfl := Option.some.inj hnote
      rfl
    · obtain rfl := Option.some.inj hnote
      rfl

theorem pruneSecurityHistory_met (h : e.withholdingDetector.Met) (round : Nat) :
    (e.pruneSecurityHistory round).withholdingDetector.Met := by
  rw [pruneSecurityHistory]
  split
  · exact h
  · split
    · exact h
    · exact h.prune _

theorem acceptBlock_met (h : e.acceptBlock block = some e') (hmet : e.withholdingDetector.Met) :
    e'.withholdingDetector.Met := by
  obtain ⟨e₁, hnote, rfl⟩ := Option.map_eq_some_iff.mp h
  apply pruneSecurityHistory_met
  have hframe := (noteAuthor_spec hnote).1
  show (e₁.withholdingDetector.reportReceived block.author block.round).Met
  rw [hframe]
  exact hmet.reportReceived _ _

theorem recordProposal_met (hmet : e.withholdingDetector.Met) :
    (e.recordProposal block).withholdingDetector.Met :=
  pruneSecurityHistory_met (hmet.reportBoth _ _) _

/-- Nobody is slashed for withholding where every expectation is met. -/
theorem slashWithholders_of_met {maxRound : Nat} (hmet : e.withholdingDetector.Met)
    (h : e.slashWithholders maxRound = some e') : e' = e := by
  rw [slashWithholders, hmet.detectWithholding] at h
  exact (Option.some.inj h).symm

end ConsensusEngine
/-! ## Blocks in play -/

namespace Committee

variable {C : Committee} {x y b : DagBlock}

variable {proposed' : Address → List DagBlock}

/-- The content of a well-formed block of the universe. -/
def Genuine (C : Committee) (x : DagBlock) : Prop :=
  ∃ b ∈ C.blocks, b.WellFormed C.domain ∧ b.content = x

/-- A hash determines a genuine content. -/
theorem Genuine.eq_of_hash_eq (hx : C.Genuine x) (hy : C.Genuine y) (h : x.hash = y.hash) :
    x = y := by
  obtain ⟨b, hb, hbw, rfl⟩ := hx
  obtain ⟨c, hc, hcw, rfl⟩ := hy
  have heq := C.collisionFree.eq_of_hash_eq hb hc hbw hcw h
  rw [heq]
  rfl

/-- The active set of an honest engine: only dishonest members may have lost stake. -/
structure Active (C : Committee) (vs : ValidatorSet) : Prop where
  valid : vs.Valid
  lowers : Lowers C.honest C.set.stakeOf vs.stakeOf

theorem Active.initial (C : Committee) : C.Active C.set :=
  ⟨C.valid, fun _ _ => rfl, fun _ => le_refl _⟩

theorem stranger (C : Committee) : ∀ a, a ∉ C.set.addresses → C.set.stakeOf a = 0 :=
  fun _ ha => stakeOf_stranger ha

/-- The Byzantine bound in terms of the committee's weight. -/
theorem byzantine_weight (C : Committee) :
    weight C.set.stakeOf (C.set.addresses.filter fun a => ¬ C.honest a) ≤
      weight C.set.stakeOf C.set.addresses -
        supermajority (weight C.set.stakeOf C.set.addresses) := by
  have hbyz := C.byzantine
  have hquorum : C.set.quorum = supermajority C.set.totalStake := C.valid.quorum
  rw [ByzantineBound, hquorum] at hbyz
  rw [C.valid.weight_addresses]
  exact hbyz

/-- A quorum of an active set holds more honest stake than a quorum of the committee may
    miss. -/
theorem Active.honest_outweighs {vs : ValidatorSet} (h : C.Active vs) {A : Finset Address}
    (hA : vs.quorum ≤ weight vs.stakeOf A) :
    weight C.set.stakeOf C.set.addresses <
      weight C.set.stakeOf (A.filter C.honest) + C.set.quorum := by
  have hquorum : C.set.quorum = supermajority C.set.totalStake := C.valid.quorum
  have hquorum' : vs.quorum = supermajority vs.totalStake := h.valid.quorum
  rw [hquorum', ← h.valid.weight_addresses] at hA
  rw [hquorum, ← C.valid.weight_addresses]
  exact h.lowers.honest_outweighs C.stranger (fun _ ha => stakeOf_stranger ha) C.byzantine_weight hA

/-- More than the slack of an active set includes an honest member. -/
theorem Active.exists_honest {vs : ValidatorSet} (h : C.Active vs) {A : Finset Address}
    (hA : oneHonest vs ≤ weight vs.stakeOf A) : ∃ a ∈ A, C.honest a := by
  have hquorum : vs.quorum = supermajority vs.totalStake := h.valid.quorum
  have hfits := h.valid.members.fits
  have hpos := supermajority_pos vs.totalStake
  have hmax : 1 ≤ u64Max := by decide
  rw [oneHonest, saturatingAdd] at hA
  refine h.lowers.exists_honest C.stranger (fun _ ha => stakeOf_stranger ha) C.byzantine_weight ?_
  rw [h.valid.weight_addresses]
  omega

/-- A slash of a dishonest member. -/
theorem Active.lowered {vs vs' : ValidatorSet} (h : C.Active vs) {offender : Address}
    (hoffender : ¬ C.honest offender) (hlow : ValidatorSet.Lowered offender vs vs') :
    C.Active vs' := by
  have hother : ∀ a, a ≠ offender → vs'.stakeOf a = vs.stakeOf a := by
    intro a hne
    rw [ValidatorSet.stakeOf, ValidatorSet.stakeOf, hlow.others a hne]
  refine ⟨hlow.valid, ?_, ?_⟩
  · intro a ha
    have hne : a ≠ offender := fun heq => hoffender (heq ▸ ha)
    rw [hother a hne]
    exact h.lowers.honest_eq a ha
  · intro a
    by_cases hne : a = offender
    · rw [hne]
      exact le_trans hlow.offender_le (h.lowers.le offender)
    · rw [hother a hne]
      exact h.lowers.le a

/-! ## Invariants -/

/-- What agreement rests on in the view of an honest engine: its index is exact, its blocks
    are among `G`, and above its cursor parents are held. -/
structure View (C : Committee) (G : Set DagBlock) (e : ConsensusEngine) : Prop where
  indexed : e.Indexed
  frozen : e.frozenValidatorSet = C.set
  domain : e.consensusDomain = C.domain
  made : ∀ hash b, e.getBlock hash = some b → b ∈ C.blocks
  known : ∀ hash b, e.getBlock hash = some b → b.content ∈ G
  closed : ∀ hash b, e.getBlock hash = some b → e.lastCommittedRound < b.round →
    ∀ p ∈ b.parents, ∃ c, e.getBlock p = some c ∧ c.round + 1 = b.round

/-- What holds of the engine of the honest node `a`. -/
structure Node (C : Committee) (G : Set DagBlock) (proposed : Address → List DagBlock)
    (a : Address) (e : ConsensusEngine) : Prop where
  view : C.View G e
  address : e.localAddress = a
  keyed : e.localKeypair.isSome = true
  bootstrap : e.recoveryBootstrapRound = C.bootstrap
  replay : e.localRecoveryReplayActive = false
  started : C.base ≤ e.lastCommittedRound
  behind : e.lastCommittedRound ≤ e.currentRound
  restart : ∀ round, e.restartBaseRound = some round → round ≤ e.lastCommittedRound
  active : C.Active e.validatorSet
  met : e.withholdingDetector.Met
  entries : ∀ author round hash, C.honest author →
    e.authorRoundBlocks.lookup (author, round) = some hash →
      ∃ p ∈ proposed author, p.round = round ∧ p.hash = hash
  once : OneProposal e (proposed a)

/-- What holds of the contents that honest engines ever held. -/
structure Sound (C : Committee) (G : Set DagBlock) (proposed : Address → List DagBlock) :
    Prop where
  genuine : ∀ x ∈ G, C.Genuine x
  authored : ∀ x ∈ G, C.honest x.author → ∃ p ∈ proposed x.author, p.content = x
  linked : ∀ x ∈ G, ∀ h ∈ x.parents, ∃ y ∈ G, y.hash = h ∧ y.round + 1 = x.round
  heavy : ∀ x ∈ G, C.base < x.round → ∃ S : Finset Address,
    weight C.set.stakeOf C.set.addresses <
        weight C.set.stakeOf (S.filter C.honest) + C.set.quorum ∧
      ∀ a ∈ S, ∃ y ∈ G, y.author = a ∧ y.round + 1 = x.round ∧ y.hash ∈ x.parents
  published : ∀ a, C.honest a → ∀ p ∈ proposed a, p.content ∈ G ∧ p.author = a ∧ C.base ≤ p.round
  distinct : ∀ a, C.honest a → ((proposed a).map (·.round)).Nodup

variable {G G' : Set DagBlock} {proposed : Address → List DagBlock} {a : Address}
  {e e' : ConsensusEngine}

theorem View.mono (h : C.View G e) (hsub : G ⊆ G') : C.View G' e :=
  { h with known := fun hash b hb => hsub (h.known hash b hb) }

theorem Node.mono (h : C.Node G proposed a e) (hsub : G ⊆ G') : C.Node G' proposed a e :=
  { h with view := h.view.mono hsub }

/-- An engine at its start. -/
theorem Starts.node (h : C.Starts a e) (hproposed : proposed a = []) : C.Node G proposed a e := by
  have hempty : ∀ hash b, e.getBlock hash ≠ some b := by
    intro hash b hb
    rw [getBlock, h.dag] at hb
    cases hb
  refine ⟨⟨indexed_of_empty h.dag h.rounds, h.frozen, h.domain,
      fun hash b hb => absurd hb (hempty hash b), fun hash b hb => absurd hb (hempty hash b),
      fun hash b hb => absurd hb (hempty hash b)⟩,
    h.address, h.keyed, h.bootstrap, h.replay, le_of_eq h.cursor.symm, ?_, ?_, ?_, ?_, ?_, ?_⟩
  · rw [h.cursor, h.current]
  · intro round hround
    rw [h.restart] at hround
    cases hround
  · rw [h.active]
    exact .initial C
  · rw [h.detector]
    exact WithholdingDetector.met_new
  · intro author round hash _ hentry
    rw [h.entries] at hentry
    cases hentry
  · rw [hproposed]
    exact ⟨by simp, by simp, nodup_nil, fun hash b hb => absurd hb (hempty hash b), h.retained⟩

/-! ## A block enters -/

variable {block : DagBlock}

/-- A view with one more block, which brings its parents if it lies above the cursor. -/
theorem View.inserted (h : C.View G e) (hins : e.Inserts block e') (hindexed : e'.Indexed)
    (hmade : block ∈ C.blocks) (hnew : e.getBlock block.hash = none)
    (hparents : e.lastCommittedRound < block.round → ∀ p ∈ block.parents,
      ∃ c, e.getBlock p = some c ∧ c.round + 1 = block.round) :
    C.View (insert block.content G) e' := by
  have hkeeps : ∀ hash c, e.getBlock hash = some c → e'.getBlock hash = some c := by
    intro hash c hc
    rw [hins.getBlock, if_neg]
    · exact hc
    · rintro rfl
      rw [hnew] at hc
      cases hc
  have hconfig := hins.sameConfig
  refine ⟨hindexed, hconfig.frozen.trans h.frozen, hconfig.domain.trans h.domain, ?_, ?_, ?_⟩
  · intro hash b hb
    rcases hins.getBlock_cases hb with ⟨-, rfl⟩ | hb
    · exact hmade
    · exact h.made hash b hb
  · intro hash b hb
    rcases hins.getBlock_cases hb with ⟨-, rfl⟩ | hb
    · exact Set.mem_insert _ _
    · exact Set.mem_insert_of_mem _ (h.known hash b hb)
  · intro hash b hb hround p hp
    rw [hins.sameBase.committed] at hround
    have hheld : ∃ c, e.getBlock p = some c ∧ c.round + 1 = b.round := by
      rcases hins.getBlock_cases hb with ⟨-, rfl⟩ | hb
      · exact hparents hround p hp
      · exact h.closed hash b hb hround p hp
    obtain ⟨c, hc, hcr⟩ := hheld
    exact ⟨c, hkeeps p c hc, hcr⟩

/-- The links of a content that enters `G`. -/
def Linked (C : Committee) (G : Set DagBlock) (x : DagBlock) : Prop :=
  (∀ h ∈ x.parents, ∃ y ∈ G, y.hash = h ∧ y.round + 1 = x.round) ∧
    (C.base < x.round → ∃ S : Finset Address,
      weight C.set.stakeOf C.set.addresses <
          weight C.set.stakeOf (S.filter C.honest) + C.set.quorum ∧
        ∀ a ∈ S, ∃ y ∈ G, y.author = a ∧ y.round + 1 = x.round ∧ y.hash ∈ x.parents)

/-- One more content; it may be a new proposal. -/
theorem Sound.inserted (h : C.Sound G proposed) (hgenuine : C.Genuine x) (hlinked : C.Linked G x)
    (hauthored : C.honest x.author → ∃ p ∈ proposed' x.author, p.content = x)
    (hmore : ∀ a, ∀ p ∈ proposed a, p ∈ proposed' a) (hnew : ∀ a, C.honest a → ∀ p ∈ proposed' a,
      p ∈ proposed a ∨ p.content = x ∧ p.author = a ∧ C.base ≤ p.round)
    (hdistinct : ∀ a, C.honest a → ((proposed' a).map (·.round)).Nodup) :
    C.Sound (insert x G) proposed' := by
  refine ⟨?_, ?_, ?_, ?_, ?_, hdistinct⟩
  · rintro y (rfl | hy)
    · exact hgenuine
    · exact h.genuine y hy
  · rintro y (rfl | hy) hhonest
    · exact hauthored hhonest
    · obtain ⟨p, hp, hcontent⟩ := h.authored y hy hhonest
      exact ⟨p, hmore _ p hp, hcontent⟩
  · intro y hy p hp
    have hlink : ∃ z ∈ G, z.hash = p ∧ z.round + 1 = y.round := by
      rcases hy with rfl | hy
      · exact hlinked.1 p hp
      · exact h.linked y hy p hp
    obtain ⟨z, hz, hhash, hround⟩ := hlink
    exact ⟨z, Set.mem_insert_of_mem _ hz, hhash, hround⟩
  · intro y hy hround
    have hheavy := hy.elim (fun heq => heq ▸ hlinked.2 (heq ▸ hround)) fun hy => h.heavy y hy hround
    obtain ⟨S, hS, hpar⟩ := hheavy
    refine ⟨S, hS, fun a ha => ?_⟩
    obtain ⟨z, hz, hlink⟩ := hpar a ha
    exact ⟨z, Set.mem_insert_of_mem _ hz, hlink⟩
  · intro a ha p hp
    rcases hnew a ha p hp with hold | ⟨rfl, hauthor, hbase⟩
    · obtain ⟨hmem, hrest⟩ := h.published a ha p hold
      exact ⟨Set.mem_insert_of_mem _ hmem, hrest⟩
    · exact ⟨Set.mem_insert _ _, hauthor, hbase⟩

/-- A block without parents starts the DAG. -/
theorem Node.linked_of_bootstraps (h : C.Node G proposed a e) (hboot : e.Bootstraps block.round)
    (hnone : block.parents = []) : C.Linked G block.content := by
  refine ⟨?_, ?_⟩
  · intro p hp
    have hp' : p ∈ block.parents := hp
    rw [hnone] at hp'
    exact absurd hp' not_mem_nil
  · intro hround
    have hround' : C.base < block.round := hround
    rcases hboot with hzero | hrecovery
    · omega
    · rw [isRecoveryBootstrapRound, h.bootstrap, beq_iff_eq] at hrecovery
      have hbase : C.base = block.round := by
        rw [base, hrecovery]
        rfl
      omega

/-- A parent quorum of an honest engine links its block. -/
theorem Node.linked_of_parentQuorum (h : C.Node G proposed a e) (hq : e.ParentQuorum block) :
    C.Linked G block.content := by
  have hheld : ∀ p ∈ block.parents, ∀ c, e.getBlock p = some c →
      c.content ∈ G ∧ c.content.hash = p ∧ c.content.round + 1 = block.round := by
    intro p hp c hc
    obtain ⟨c', hc', hround⟩ := hq.held p hp
    obtain rfl := Option.some.inj (hc'.symm.trans hc)
    exact ⟨h.view.known p c' hc, h.view.indexed.keyed p c' hc, hround⟩
  refine ⟨?_, ?_⟩
  · intro p hp
    obtain ⟨c, hc, -⟩ := hq.held p hp
    exact ⟨c.content, hheld p hp c hc⟩
  · intro _
    refine ⟨(e.authorsOf block.parents).toFinset, h.active.honest_outweighs hq.quorum, ?_⟩
    intro author hauthor
    obtain ⟨p, hp, c, hc, rfl⟩ := mem_authorsOf.mp (mem_toFinset.mp hauthor)
    obtain ⟨hmem, hhash, hround⟩ := hheld p hp c hc
    exact ⟨c.content, hmem, rfl, hround, hhash.symm ▸ hp⟩

/-- A delivered block of an honest author is one of its proposals. -/
theorem Sound.proposed_of_delivers (h : C.Sound G proposed) (hdelivers : C.Delivers proposed block)
    (hsigned : block.Signed) (hgenuine : C.Genuine block.content)
    (hhonest : C.honest block.author) :
    ∃ p ∈ proposed block.author, p.content = block.content := by
  obtain ⟨p, hp, hhash⟩ := hdelivers.2 hhonest hsigned
  have hmem := (h.published _ hhonest p hp).1
  exact ⟨p, hp, (h.genuine _ hmem).eq_of_hash_eq hgenuine hhash⟩

/-! ## One effect of one node -/

/-- The effects of a node's operations other than proposals; a block taken by the restart
    base exception has been accepted before, by some honest engine. -/
def Quiet (C : Committee) (G : Set DagBlock) (proposed : Address → List DagBlock)
    (e : ConsensusEngine) : Effect → Prop
  | .accept block baseException => C.Delivers proposed block ∧
      (baseException = true → ∃ y ∈ G, y.hash = block.hash)
  | .prune below => below ≤ e.lastCommittedRound
  | .scan limit => limit = none ∧ 2 ≤ e.currentRound
  | .advance | .forceAdvance | .slashWithholders _ | .forgetSkips _ | .rebase _ => True
  | .config (.registerSkipCertificate _) | .config (.registerFinalityCertificate _) => True
  | .propose _ _ | .config _ => False

/-- Whatever leaves the DAG alone and moves no cursor down keeps the view. -/
theorem View.kept (h : C.View G e) (hdag : e.SameDag e') (hconfig : e.SameConfig e')
    (hcursor : e.lastCommittedRound ≤ e'.lastCommittedRound) : C.View G e' := by
  refine ⟨h.indexed.of_sameDag hdag, hconfig.frozen.trans h.frozen,
    hconfig.domain.trans h.domain, ?_, ?_, ?_⟩
  · intro hash b hb
    rw [hdag.getBlock] at hb
    exact h.made hash b hb
  · intro hash b hb
    rw [hdag.getBlock] at hb
    exact h.known hash b hb
  · intro hash b hb hround p hp
    rw [hdag.getBlock] at hb ⊢
    exact h.closed hash b hb (lt_of_le_of_lt hcursor hround) p hp

section

variable (h : C.Node G proposed a e)
include h

theorem Node.kept (hdag : e.SameDag e') (hconfig : e.SameConfig e')
    (hbase : e.SameBase e') (hset : e'.validatorSet = e.validatorSet)
    (hdetector : e'.withholdingDetector = e.withholdingDetector)
    (hround : e.currentRound ≤ e'.currentRound) (honce : OneProposal e' (proposed a)) :
    C.Node G proposed a e' where
  view := h.view.kept hdag hconfig (le_of_eq hbase.committed.symm)
  address := hconfig.address.trans h.address
  keyed := by
    rw [hconfig.keypair]
    exact h.keyed
  bootstrap := hconfig.bootstrap.trans h.bootstrap
  replay := hconfig.replay.trans h.replay
  started := by
    rw [hbase.committed]
    exact h.started
  behind := by
    rw [hbase.committed]
    exact le_trans h.behind hround
  restart := by
    rw [hbase.base, hbase.committed]
    exact h.restart
  active := by
    rw [hset]
    exact h.active
  met := by
    rw [hdetector]
    exact h.met
  entries := by
    rw [hdag.authors]
    exact h.entries
  once := honce

/-- Pruning behind the cursor. -/
theorem Node.pruned {below : Nat} (hle : below ≤ e.lastCommittedRound) :
    C.Node G proposed a (e.pruneRounds below) := by
  have hget := h.view.indexed.getBlock_pruneRounds below
  have hbehind := h.behind
  have hview : C.View G (e.pruneRounds below) := by
    refine ⟨h.view.indexed.prune below, h.view.frozen, h.view.domain, ?_, ?_, ?_⟩
    · exact fun hash b hb => h.view.made hash b ((hget hash b).mp hb).1
    · exact fun hash b hb => h.view.known hash b ((hget hash b).mp hb).1
    · intro hash b hb hround p hp
      have hround' : e.lastCommittedRound < b.round := hround
      obtain ⟨c, hc, hcr⟩ := h.view.closed hash b ((hget hash b).mp hb).1 hround p hp
      exact ⟨c, (hget p c).mpr ⟨hc, by omega⟩, hcr⟩
  have honce : OneProposal (e.pruneRounds below) (proposed a) :=
    h.once.effect (.prune below) (le_trans hle hbehind) rfl
  refine ⟨hview, h.address, h.keyed, h.bootstrap, h.replay, h.started, hbehind, h.restart,
    h.active, h.met, ?_, honce⟩
  intro author round hash hhonest hentry
  exact h.entries author round hash hhonest (lookup_retain_eq_some.mp hentry).1

/-- A rebase of a node. -/
theorem Node.rebased {anchorRound cursor : Nat} (hcheck : e.checkRebase anchorRound = .ok cursor) :
    C.Node G proposed a (e.rebaseAt cursor) := by
  obtain ⟨-, -, -, hforward⟩ := checkRebase_eq_ok hcheck
  have hstarted := h.started
  have hempty : ∀ hash b, (e.rebaseAt cursor).getBlock hash ≠ some b := by
    intro hash b hb
    cases hb
  have hview : C.View G (e.rebaseAt cursor) :=
    ⟨indexed_of_empty rfl rfl, h.view.frozen, h.view.domain,
      fun hash b hb => absurd hb (hempty hash b), fun hash b hb => absurd hb (hempty hash b),
      fun hash b hb => absurd hb (hempty hash b)⟩
  refine ⟨hview, h.address, h.keyed, h.bootstrap, h.replay, ?_, ?_, ?_, h.active, h.met, ?_,
    h.once.rebased hcheck⟩
  · show C.base ≤ cursor
    omega
  · show cursor ≤ max e.currentRound cursor
    omega
  · intro round hround
    obtain rfl := Option.some.inj hround
    exact le_refl _
  · intro author round hash _ hentry
    have hentry' : (∅ : AssocMap (Address × Nat) Hash256).lookup (author, round) = some hash :=
      hentry
    cases hentry'

/-- The scan of `try_commit`. -/
theorem Node.scanned (hround : 2 ≤ e.currentRound) :
    C.Node G proposed a (e.recordScan (e.scan none)) := by
  have hscanned := (scan_eq e).1
  have hstart := hscanned.start
  have hbound := hscanned.bound
  have hstarted := h.started
  have hbehind := h.behind
  have hview : C.View G (e.recordScan (e.scan none)) :=
    h.view.kept ⟨rfl, rfl, rfl, .inl rfl⟩ ⟨rfl, rfl, rfl, rfl, rfl, rfl, rfl, rfl, rfl⟩ hstart
  have honce : OneProposal (e.recordScan (e.scan none)) (proposed a) :=
    h.once.effect (.scan none) trivial rfl
  refine ⟨hview, h.address, h.keyed, h.bootstrap, h.replay, ?_, ?_, ?_, h.active, h.met,
    h.entries, honce⟩
  · show C.base ≤ (e.scan none).2
    omega
  · show (e.scan none).2 ≤ e.currentRound
    omega
  · intro round hbase
    exact le_trans (h.restart round hbase) hstart

/-- Registering a certificate changes nothing that the invariants speak of. -/
theorem Node.configured {op : ConfigOp}
    (hquiet : C.Quiet G proposed e (.config op)) (hstep : op.apply e = some e') :
    C.Node G proposed a e' := by
  have hcertificates : ∃ skips finality height, e' = { e with
      skipCertificates := skips
      finalityCertificates := finality
      highestFinalizedHeight := height } := by
    cases op with
    | registerSkipCertificate certificate =>
      obtain rfl := Option.some.inj hstep
      rw [ConsensusEngine.registerSkipCertificate]
      repeat' split
      all_goals exact ⟨_, _, _, rfl⟩
    | registerFinalityCertificate certificate =>
      obtain rfl := Option.some.inj hstep
      rw [ConsensusEngine.registerFinalityCertificate]
      dsimp only
      repeat' split
      all_goals exact ⟨_, _, _, rfl⟩
    | setRestartBaseRound | closeRestartBaseRound | installConsensusDomain
    | installRecoveryCursor | restoreRoundFromLocalWal | setRetainedRounds
    | registerValidatorKey | membership => exact absurd hquiet id
  obtain ⟨skips, finality, height, rfl⟩ := hcertificates
  exact h.kept ⟨rfl, rfl, rfl, .inl rfl⟩ ⟨rfl, rfl, rfl, rfl, rfl, rfl, rfl, rfl, rfl⟩ ⟨rfl, rfl⟩
    rfl rfl (le_refl _) (h.once.of_sameCursor ⟨rfl, rfl, rfl, rfl⟩
      (fun hash hentry => ⟨hash, hentry⟩) h.once.ahead)

end

section

variable (hs : C.Sound G proposed) (h : C.Node G proposed a e)

include hs h

/-- What the parent rules give for a received block: its links, and its parents in the view
    if it lies above the cursor. -/
theorem Node.parents_of_check {baseException : Bool} (hgenuine : C.Genuine block.content)
    (hbase : baseException = true → ∃ y ∈ G, y.hash = block.hash)
    (hcheck : e.checkParents block baseException = .ok ()) :
    C.Linked G block.content ∧ (e.lastCommittedRound < block.round → ∀ p ∈ block.parents,
      ∃ c, e.getBlock p = some c ∧ c.round + 1 = block.round) := by
  rcases checkParents_cases hcheck with ⟨hboot, hnone⟩ | ⟨hexception, hrestart⟩ | ⟨hreplay, -⟩ | hq
  · refine ⟨h.linked_of_bootstraps hboot hnone, fun _ p hp => ?_⟩
    rw [hnone] at hp
    exact absurd hp not_mem_nil
  · -- some honest engine has this content already; here it lies at the cursor or below
    obtain ⟨y, hy, hhash⟩ := hbase hexception
    have heq : y = block.content := (hs.genuine y hy).eq_of_hash_eq hgenuine hhash
    rw [isRestartBaseRound, Bool.and_eq_true, beq_iff_eq] at hrestart
    have hle := h.restart block.round hrestart.1
    refine ⟨⟨?_, ?_⟩, fun hlt => absurd hle (not_le.mpr hlt)⟩
    · rw [← heq]
      exact hs.linked y hy
    · rw [← heq]
      exact hs.heavy y hy
  · rw [h.replay] at hreplay
    cases hreplay
  · exact ⟨h.linked_of_parentQuorum hq, fun _ => hq.held⟩

/-- An honest author is never slashed: what it left in its round is this very block. -/
theorem Node.active_of_accept
    (hauthored : C.honest block.author → ∃ p ∈ proposed block.author, p.content = block.content)
    (haccept : e.acceptBlock block = some e') : C.Active e'.validatorSet := by
  rcases acceptBlock_validatorSet haccept with
    hsame | ⟨existing, evidence, r, hexisting, hne, hpunish, hset⟩
  · rw [hsame]
    exact h.active
  · have hbyzantine : ¬ C.honest block.author := by
      intro hhonest
      obtain ⟨p, hp, hcontent⟩ := hauthored hhonest
      obtain ⟨p', hp', hround, hhash⟩ := h.entries _ _ _ hhonest hexisting
      obtain ⟨-, hpround, -, hphash, -⟩ := eq_of_content_eq hcontent
      have heq : p = p' :=
        inj_on_of_nodup_map (hs.distinct _ hhonest) hp hp' (hpround.trans hround.symm)
      exact hne (by rw [← hhash, ← heq, hphash])
    obtain ⟨res, vs, hspec, hlow, -⟩ := punish_spec h.active.valid block.author
      .equivocationDAG evidence block.round block.timestamp
    obtain rfl := Option.some.inj (hpunish.symm.trans hspec)
    rw [hset]
    exact h.active.lowered hbyzantine hlow

/-- **A received block** keeps the invariants, with its content added to `G`. -/
theorem Node.accepted {baseException : Bool} (hdelivers : C.Delivers proposed block)
    (hbase : baseException = true → ∃ y ∈ G, y.hash = block.hash)
    (hcheck : e.checkBlock block baseException = .ok ())
    (haccept : e.acceptBlock block = some e') :
    C.Sound (insert block.content G) proposed ∧ C.Node (insert block.content G) proposed a e' := by
  obtain ⟨-, hnew, hhash, hordering, hsignature, hround, hparents⟩ := checkBlock_eq_ok hcheck
  have hins := acceptBlock_inserts haccept
  have hconfig := hins.sameConfig
  have hsame := hins.sameBase
  have hcursor := hins.sameCursor
  rw [h.view.domain] at hhash
  have hgenuine : C.Genuine block.content := ⟨block, hdelivers.1, ⟨hhash, hordering⟩, rfl⟩
  have hsigned : block.Signed := signed_of_checkSignature hsignature h.keyed
  have hauthored : C.honest block.author → ∃ p ∈ proposed block.author, p.content = block.content :=
    hs.proposed_of_delivers hdelivers hsigned hgenuine
  obtain ⟨hlinked, hheld⟩ := h.parents_of_check hs hgenuine hbase hparents
  have hindexed : e'.Indexed := h.view.indexed.inserted hins hnew (h.view.domain ▸ hhash) hordering
  refine ⟨hs.inserted hgenuine hlinked hauthored (fun _ _ hp => hp) (fun _ _ _ hp => .inl hp)
    hs.distinct, ?_⟩
  refine ⟨h.view.inserted hins hindexed hdelivers.1 hnew hheld, hconfig.address.trans h.address,
    ?_, hconfig.bootstrap.trans h.bootstrap, hconfig.replay.trans h.replay, ?_, ?_, ?_,
    h.active_of_accept hs hauthored haccept, acceptBlock_met haccept h.met, ?_,
    h.once.inserted hins hround⟩
  · rw [hconfig.keypair]
    exact h.keyed
  · rw [hsame.committed]
    exact h.started
  · rw [hsame.committed, hcursor.current]
    exact h.behind
  · rw [hsame.base, hsame.committed]
    exact h.restart
  · intro author round hash hhonest hentry
    rcases hins.entries _ _ hentry with hold | ⟨hkey, rfl⟩
    · exact h.entries author round hash hhonest hold
    · obtain ⟨rfl, rfl⟩ := Prod.mk.inj hkey
      obtain ⟨p, hp, hcontent⟩ := hauthored hhonest
      obtain ⟨-, hpround, -, hphash, -⟩ := eq_of_content_eq hcontent
      exact ⟨p, hp, hpround, hphash⟩

/-- **Step lemma.**  A quiet effect keeps the invariants, for a possibly larger `G`. -/
theorem Node.effect {effect : Effect}
    (hquiet : C.Quiet G proposed e effect) (hstep : effect.apply e = some e') :
    ∃ G', G ⊆ G' ∧ C.Sound G' proposed ∧ C.Node G' proposed a e' := by
  have hstay : C.Node G proposed a e' →
      ∃ G', G ⊆ G' ∧ C.Sound G' proposed ∧ C.Node G' proposed a e' :=
    fun hnode => ⟨G, fun _ hx => hx, hs, hnode⟩
  have hframe := Effect.frame hstep
  cases effect with
  | propose transactions timestamp => exact absurd hquiet id
  | accept block baseException =>
    rw [Effect.apply] at hstep
    split at hstep
    · rename_i hcheck
      obtain ⟨hs', h'⟩ := h.accepted hs hquiet.1 hquiet.2 hcheck hstep
      exact ⟨_, Set.subset_insert _ _, hs', h'⟩
    · cases hstep
  | advance =>
    have honce := h.once.effect .advance trivial hstep
    obtain ⟨-, -, rfl⟩ := advance_apply hstep
    exact hstay (h.kept ⟨rfl, rfl, rfl, .inl rfl⟩ hframe.1 hframe.2 rfl rfl (Nat.le_succ _) honce)
  | forceAdvance =>
    have honce := h.once.effect .forceAdvance trivial hstep
    obtain rfl := Option.some.inj hstep
    have hsame : e.SameDag e.forceAdvanceRound ∧ e.forceAdvanceRound.validatorSet = e.validatorSet ∧
        e.forceAdvanceRound.withholdingDetector = e.withholdingDetector ∧
        e.currentRound ≤ e.forceAdvanceRound.currentRound := by
      rw [forceAdvanceRound]
      split
      · exact ⟨.refl e, rfl, rfl, le_refl _⟩
      · rename_i newRound hadd
        obtain ⟨rfl, -⟩ := checkedAdd_eq_some.mp hadd
        exact ⟨⟨rfl, rfl, rfl, .inl rfl⟩, rfl, rfl, Nat.le_succ _⟩
    obtain ⟨hdag, hset, hdetector, hround⟩ := hsame
    exact hstay (h.kept hdag hframe.1 hframe.2 hset hdetector hround honce)
  | scan limit =>
    obtain ⟨rfl, hround⟩ := hquiet
    obtain rfl := Option.some.inj hstep
    exact hstay (h.scanned hround)
  | slashWithholders maxRound =>
    obtain rfl := slashWithholders_of_met h.met hstep
    exact hstay h
  | prune below =>
    obtain rfl := Option.some.inj hstep
    exact hstay (h.pruned hquiet)
  | forgetSkips below =>
    have honce := h.once.effect (.forgetSkips below) trivial hstep
    obtain rfl := Option.some.inj hstep
    exact hstay (h.kept ⟨rfl, rfl, rfl, .inl rfl⟩ hframe.1 hframe.2 rfl rfl (le_refl _) honce)
  | rebase anchorRound =>
    obtain ⟨cursor, hcheck, rfl⟩ := rebase_apply hstep
    exact hstay (h.rebased hcheck)
  | config op => exact hstay (h.configured hquiet hstep)

end

/-! ## One operation of one node -/

/-- An authentic block signed by an honest author names what its proposal names, if
    transactions are told apart from blocks. -/
theorem Sound.named_of_authentic (hs : C.Sound G proposed) (hdomain : e.consensusDomain = C.domain)
    {n : DagBlock} (hdelivers : C.Delivers proposed n) (hhonest : C.honest n.author)
    (hauthentic : e.isAuthenticCommitteeBlock n = true) {hash : Hash256} (hmem : hash ∈ n.parents)
    (htransaction : ∀ p ∈ proposed n.author, hash ∉ p.transactions) : ∃ y ∈ G, y.hash = hash := by
  rw [isAuthenticCommitteeBlock, Bool.and_eq_true, Bool.and_eq_true, Bool.and_eq_true,
    hdomain] at hauthentic
  obtain ⟨⟨⟨-, hhash⟩, -⟩, hsignature⟩ := hauthentic
  have hsigned : n.Signed := by
    split at hsignature
    · cases hsignature
    · rename_i sig hsig
      exact ⟨sig, hsig, (Bool.and_eq_true _ _ ▸ hsignature).1⟩
  obtain ⟨p, hp, hphash⟩ := hdelivers.2 hhonest hsigned
  have hpG := (hs.published _ hhonest p hp).1
  obtain ⟨b, hb, hbw, hcontent⟩ := hs.genuine _ hpG
  obtain ⟨-, -, hparents, hbhash, htransactions⟩ := eq_of_content_eq hcontent
  -- `n` hashes the bytes of the proposal, whose two lists it may split elsewhere
  have hhashes : n.hashFor C.domain = b.hashFor C.domain := by
    have hn : n.hash = n.hashFor C.domain := of_decide_eq_true hhash
    have hb' : b.hash = b.hashFor C.domain := of_decide_eq_true hbw.hash
    rw [← hn, ← hb', hbhash, hphash]
  have hfits := C.collisionFree.fits
  obtain ⟨-, -, hlinks, -⟩ := contentBytes_inj (hfits n hdelivers.1) (hfits b hb)
    (C.collisionFree.content n hdelivers.1 b hb hhashes)
  have hlink : hash ∈ p.parents ++ p.transactions := by
    rw [← hparents, ← htransactions, ← hlinks]
    exact mem_append_left _ hmem
  have hparent : hash ∈ p.parents := (mem_append.mp hlink).resolve_right (htransaction p hp)
  obtain ⟨y, hy, hyhash, -⟩ := hs.linked _ hpG hash hparent
  exact ⟨y, hy, hyhash⟩

/-- A block of the restart base round with one honest validator's worth of support has been
    accepted before, by an honest engine. -/
theorem Node.known_of_supported (hs : C.Sound G proposed) (h : C.Node G proposed a e)
    {blocks : List DagBlock} (hdelivers : ∀ b ∈ blocks, C.Delivers proposed b ∧
      ∀ author, C.honest author → ∀ p ∈ proposed author, b.hash ∉ p.transactions)
    (hmem : block ∈ blocks) (hsupported : e.SupportedBaseBlock blocks block) :
    ∃ y ∈ G, y.hash = block.hash := by
  obtain ⟨-, naming, hnaming, hstake⟩ := hsupported
  rw [tallyAuthors_snd] at hstake
  obtain ⟨author, hauthor, hhonest⟩ := h.active.exists_honest hstake
  rw [mem_toFinset, mem_tallyAuthors] at hauthor
  obtain ⟨n, hn, rfl⟩ := mem_map.mp hauthor
  obtain ⟨hnmem, -, hnames, hauthentic⟩ := hnaming n hn
  exact hs.named_of_authentic h.view.domain (hdelivers n hnmem).1 hhonest hauthentic hnames
    ((hdelivers block hmem).2 n.author hhonest)

/-- The invariants of one node, for some growth of `G`. -/
def Grows (C : Committee) (G : Set DagBlock) (proposed : Address → List DagBlock) (a : Address)
    (e : ConsensusEngine) : Prop :=
  ∃ G', G ⊆ G' ∧ C.Sound G' proposed ∧ C.Node G' proposed a e

theorem Quiet.mono {effect : Effect} (h : C.Quiet G proposed e effect) (hsub : G ⊆ G') :
    C.Quiet G' proposed e effect := by
  cases effect with
  | accept block baseException =>
    refine ⟨h.1, fun hbase => ?_⟩
    obtain ⟨y, hy, hhash⟩ := h.2 hbase
    exact ⟨y, hsub hy, hhash⟩
  | config op => cases op <;> exact h
  | propose | advance | forceAdvance | scan | slashWithholders | prune | forgetSkips | rebase =>
    exact h

theorem Grows.effect (h : C.Grows G proposed a e) (effect : Effect)
    (hquiet : C.Quiet G proposed e effect) (hstep : effect.apply e = some e') :
    C.Grows G proposed a e' := by
  obtain ⟨G₁, hsub, hs, hnode⟩ := h
  obtain ⟨G₂, hsub₂, hs₂, hnode₂⟩ := hnode.effect hs (hquiet.mono hsub) hstep
  exact ⟨G₂, hsub.trans hsub₂, hs₂, hnode₂⟩

/-- `try_commit` of a node: a scan, then pruning behind the new cursor. -/
theorem Grows.committed (h : C.Grows G proposed a e) {out : List DagBlock}
    (hcommit : e.tryCommit = some (out, e')) : C.Grows G proposed a e' := by
  rcases tryCommit_cases hcommit with ⟨-, rfl⟩ | ⟨-, hround, rfl, l, hl⟩
  · exact h
  · have hscan : C.Grows G proposed a (e.recordScan (e.scan none)) :=
      h.effect (.scan none) ⟨rfl, hround⟩ rfl
    have hout : ∀ b ∈ (e.scan none).1, b.round < (e.scan none).2 := by
      obtain ⟨_, -, -, hnode⟩ := h
      exact fun b hb => (hnode.view.indexed.mem_scan_round hb).2.1
    have hinv := hl.invariant (I := fun e₁ => C.Grows G proposed a e₁ ∧
      e₁.lastCommittedRound = (e.scan none).2) ?_ ⟨hscan, rfl⟩
    · exact hinv.1
    · intro e₁ effect e₂ hmaintenance hinv hstep
      obtain ⟨h₁, hcursor⟩ := hinv
      refine ⟨h₁.effect effect ?_ hstep, (hmaintenance.frame hstep).2.committed.trans hcursor⟩
      rcases Maintenance.cases hmaintenance with ⟨_, rfl⟩ | ⟨below, rfl, hbelow⟩ | ⟨_, rfl⟩
      · trivial
      · show below ≤ e₁.lastCommittedRound
        rcases hbelow with hle | ⟨b, hb, hle⟩
        · omega
        · have hlt := hout b hb
          omega
      · trivial

/-- **Operations other than proposals** keep the invariants of their node. -/
theorem Grows.op (hs : C.Sound G proposed) (h : C.Node G proposed a e) {op : EngineOp}
    {r : OpResult} (hop : C.Operates proposed e op)
    (hpropose : ∀ transactions timestamp, op ≠ .proposeBlock transactions timestamp)
    (hstep : op.apply e = some r) : C.Grows G proposed a r.engine := by
  have hhere : C.Grows G proposed a e := ⟨G, fun _ hx => hx, hs, h⟩
  have hinv := EngineOp.invariant (I := C.Grows G proposed a) hstep
  cases op with
  | proposeBlock transactions timestamp => exact absurd rfl (hpropose transactions timestamp)
  | receiveBlock block =>
    refine hinv (fun _ effect _ heq h₁ => h₁.effect effect ?_) hhere
    obtain rfl : effect = .accept block false := heq
    exact ⟨hop, nofun⟩
  | importHistory blocks maxRounds persist =>
    refine hinv (fun e₁ effect _ heffect h₁ => h₁.effect effect ?_) hhere
    rcases Import.cases (e := e₁) heffect with ⟨block, baseException, rfl, hmem, hbase⟩ | rfl
    · exact ⟨(hop block hmem).1, fun heq => h.known_of_supported hs hop hmem (hbase heq)⟩
    · trivial
  | advanceRound | forceAdvanceRound | rebaseTo =>
    refine hinv (fun _ effect _ heq h₁ => h₁.effect effect ?_) hhere
    obtain rfl : effect = _ := heq
    trivial
  | tryCommit =>
    obtain ⟨⟨out, e₁⟩, hcommit, rfl⟩ := Option.map_eq_some_iff.mp hstep
    exact hhere.committed hcommit
  | pruneOldRounds =>
    refine hinv (fun e₁ effect _ heffect h₁ => h₁.effect effect ?_) hhere
    rcases Maintenance.cases heffect with ⟨_, rfl⟩ | ⟨below, rfl, hle | ⟨_, hnil, -⟩⟩ | ⟨_, rfl⟩
    · trivial
    · exact hle.trans (min_le_right _ _)
    · exact absurd hnil not_mem_nil
    · trivial
  | pruneBelowRound committedRound =>
    -- the cutoff is allowed for the cursor and the depth before the first of the two effects
    obtain rfl := Option.some.inj hstep
    rcases pruneBelowRound_cases (e := e) committedRound with heq | ⟨below, e₁, hbelow, hp, hf⟩
    · show C.Grows G proposed a (e.pruneBelowRound committedRound).2
      rw [heq]
      exact hhere
    · have hle : committedRound ≤ e.lastCommittedRound + e.retainedRounds := hop
      have hpruned : C.Grows G proposed a e₁ :=
        hhere.effect (.prune below) (show below ≤ e.lastCommittedRound by omega) hp
      exact hpruned.effect (.forgetSkips below) trivial hf
  | config op =>
    refine hinv (fun _ effect _ heq h₁ => h₁.effect effect ?_) hhere
    obtain rfl : effect = .config op := heq
    cases op <;> exact hop

/-! ## Proposals -/

/-- Another node proposes: what this node knows of proposals stays. -/
theorem Node.of_more (h : C.Node G proposed a e)
    (hmore : ∀ author, ∀ p ∈ proposed author, p ∈ proposed' author)
    (hown : proposed' a = proposed a) : C.Node G proposed' a e :=
  { h with
    entries := fun author round hash hhonest hentry => by
      obtain ⟨p, hp, hrest⟩ := h.entries author round hash hhonest hentry
      exact ⟨p, hmore author p hp, hrest⟩
    once := by
      rw [hown]
      exact h.once }

/-- **A proposal** of an honest node. -/
theorem Node.proposes (hs : C.Sound G proposed) (h : C.Node G proposed a e)
    (hmade : block ∈ C.blocks) (hproposes : e.Proposes block)
    (hupdate : proposed' = Function.update proposed a (proposed a ++ [block])) :
    C.Sound (insert block.content G) proposed' ∧
      C.Node (insert block.content G) proposed' a (e.recordProposal block) := by
  have hown : proposed' a = proposed a ++ [block] := by
    rw [hupdate, Function.update_self]
  have hother : ∀ author, author ≠ a → proposed' author = proposed author := by
    intro author hne
    rw [hupdate, Function.update_of_ne hne]
  have hmem : block ∈ proposed' a := by
    rw [hown]
    exact mem_append_right _ (mem_singleton.mpr rfl)
  have hmore : ∀ author, ∀ p ∈ proposed author, p ∈ proposed' author := by
    intro author p hp
    by_cases heq : author = a
    · subst heq
      rw [hown]
      exact mem_append_left _ hp
    · rw [hother author heq]
      exact hp
  have hauthor : block.author = a := hproposes.author.trans h.address
  have hround : block.round = e.currentRound := hproposes.round
  have hbase : C.base ≤ block.round := by
    have hstarted := h.started
    have hbehind := h.behind
    omega
  have hhash : block.verifyHash C.domain = true := h.view.domain ▸ hproposes.hash
  have hgenuine : C.Genuine block.content := ⟨block, hmade, ⟨hhash, hproposes.ordering⟩, rfl⟩
  have hins := recordProposal_inserts hproposes
  have hconfig := hins.sameConfig
  have hsame := hins.sameBase
  have honce : OneProposal (e.recordProposal block) (proposed' a) := by
    rw [hown]
    exact h.once.propose hproposes
  have hfree : DagBlock.CollisionFree e.consensusDomain
      (insert block { c | ∃ hash, e.getBlock hash = some c }) := by
    rw [h.view.domain]
    apply C.collisionFree.mono
    rintro c (rfl | ⟨hash, hc⟩)
    · exact hmade
    · exact h.view.made hash c hc
  have hnew := h.view.indexed.proposal_new hproposes hfree
  have hindexed := h.view.indexed.inserted hins hnew hproposes.hash hproposes.ordering
  -- the parents are those that receivers will ask for
  have hparents : C.Linked G block.content ∧ ∀ p ∈ block.parents,
      ∃ c, e.getBlock p = some c ∧ c.round + 1 = block.round := by
    rcases hproposes.parents_cases h.view.indexed with ⟨hboot, hnone⟩ | hq
    · refine ⟨h.linked_of_bootstraps hboot hnone, fun p hp => ?_⟩
      rw [hnone] at hp
      exact absurd hp not_mem_nil
    · exact ⟨h.linked_of_parentQuorum hq, hq.held⟩
  refine ⟨hs.inserted hgenuine hparents.1 ?_ hmore ?_ ?_, ?_⟩
  · intro _
    exact ⟨block, hauthor.symm ▸ hmem, rfl⟩
  · intro author _ p hp
    by_cases heq : author = a
    · subst heq
      rw [hown] at hp
      rcases mem_append.mp hp with hp | hp
      · exact .inl hp
      · rw [mem_singleton.mp hp]
        exact .inr ⟨rfl, hauthor, hbase⟩
    · rw [hother author heq] at hp
      exact .inl hp
  · intro author hhonest
    by_cases heq : author = a
    · subst heq
      exact honce.distinct
    · rw [hother author heq]
      exact hs.distinct author hhonest
  · refine ⟨h.view.inserted hins hindexed hmade hnew fun _ => hparents.2,
      hconfig.address.trans h.address, ?_, hconfig.bootstrap.trans h.bootstrap,
      hconfig.replay.trans h.replay, ?_, ?_, ?_, ?_, recordProposal_met h.met, ?_, honce⟩
    · rw [hconfig.keypair]
      exact h.keyed
    · rw [hsame.committed]
      exact h.started
    · rw [hsame.committed, hins.sameCursor.current]
      exact h.behind
    · rw [hsame.base, hsame.committed]
      exact h.restart
    · rw [recordProposal, pruneSecurityHistory_eq]
      exact h.active
    · intro author round hash hhonest hentry
      rcases hins.entries _ _ hentry with hold | ⟨hkey, rfl⟩
      · obtain ⟨p, hp, hrest⟩ := h.entries author round hash hhonest hold
        exact ⟨p, hmore author p hp, hrest⟩
      · obtain ⟨rfl, rfl⟩ := Prod.mk.inj hkey
        exact ⟨block, hauthor.symm ▸ hmem, rfl, rfl⟩

end Committee

/-! ## Runs of the network -/

namespace Network

variable {C : Committee} {G G' : Set DagBlock} {s s' start : Network} {event : NetworkEvent}
  {events : List NetworkEvent}

/-- The invariants of all honest nodes. -/
structure Holds (C : Committee) (G : Set DagBlock) (s : Network) : Prop where
  sound : C.Sound G s.proposed
  nodes : ∀ a, C.honest a → C.Node G s.proposed a (s.engine a)

theorem Starts.holds (h : Starts C start) : Holds C ∅ start := by
  refine ⟨⟨nofun, nofun, nofun, nofun, ?_, ?_⟩, ?_⟩
  · intro a ha p hp
    rw [(h a ha).2.1] at hp
    exact absurd hp not_mem_nil
  · intro a ha
    rw [(h a ha).2.1]
    exact nodup_nil
  · exact fun a ha => (h a ha).1.node (h a ha).2.1

/-- The other nodes keep their engines, whatever one node does. -/
theorem Holds.update (h : Holds C G s) {node : Address} {e : ConsensusEngine}
    {new out : List DagBlock} (hsub : G ⊆ G')
    (hsound : C.Sound G' (Function.update s.proposed node (s.proposed node ++ new)))
    (hnode : C.Node G' (Function.update s.proposed node (s.proposed node ++ new)) node e) :
    Holds C G' ⟨Function.update s.engine node e,
      Function.update s.proposed node (s.proposed node ++ new),
      Function.update s.output node (s.output node ++ out)⟩ := by
  refine ⟨hsound, ?_⟩
  intro a ha
  by_cases hne : a = node
  · subst hne
    dsimp only
    rw [Function.update_self]
    exact hnode
  · dsimp only
    rw [Function.update_of_ne hne]
    refine ((h.nodes a ha).mono hsub).of_more ?_ (Function.update_of_ne hne _ _)
    intro author p hp
    by_cases heq : author = node
    · subst heq
      rw [Function.update_self]
      exact mem_append_left _ hp
    · rw [Function.update_of_ne heq]
      exact hp

/-- **Step lemma of the network.** -/
theorem Holds.step (h : Holds C G s) (hallows : C.Allows s event) (hstep : s.step event = some s') :
    ∃ G', G ⊆ G' ∧ Holds C G' s' := by
  obtain ⟨r, hr, rfl⟩ := Option.map_eq_some_iff.mp hstep
  obtain ⟨hhonest, hop⟩ := hallows
  have hnode := h.nodes event.node hhonest
  rcases proposed_cases hr with
    ⟨hnone, hfailed⟩ | ⟨transactions, timestamp, block, heq, hproposal, rfl⟩
  · have hsame : Function.update s.proposed event.node (s.proposed event.node ++ r.proposed) =
        s.proposed := by
      rw [hnone, append_nil, Function.update_eq_self]
    have hgrows : C.Grows G s.proposed event.node r.engine := by
      by_cases hpropose : ∃ transactions timestamp, event.op = .proposeBlock transactions timestamp
      · obtain ⟨transactions, timestamp, heq⟩ := hpropose
        rw [hfailed transactions timestamp heq]
        exact ⟨G, fun _ hx => hx, h.sound, hnode⟩
      · exact .op h.sound hnode hop (fun transactions timestamp heq =>
          hpropose ⟨transactions, timestamp, heq⟩) hr
    obtain ⟨G', hsub, hsound, hnode'⟩ := hgrows
    exact ⟨G', hsub, h.update hsub (hsame.symm ▸ hsound) (hsame.symm ▸ hnode')⟩
  · rw [heq] at hop
    obtain ⟨hsound, hnode'⟩ := hnode.proposes h.sound (hop block hproposal)
      (proposal_eq_ok hproposal) rfl
    have hsub : G ⊆ insert block.content G := Set.subset_insert _ _
    exact ⟨_, hsub, h.update hsub hsound hnode'⟩

variable {guard : Network → NetworkEvent → Prop}

theorem Visits.snoc_cases {a : Address} {e : ConsensusEngine}
    (h : Visits guard start (events ++ [event]) a e)
    (hrun : Run step guard start (events ++ [event]) s') :
    Visits guard start events a e ∨ s'.engine a = e := by
  obtain ⟨before, after, s, heq, hbefore, he⟩ := h
  rcases eq_nil_or_concat after with rfl | ⟨rest, last, rfl⟩
  · rw [append_nil] at heq
    subst heq
    obtain rfl := hbefore.deterministic hrun
    exact .inr he
  · rw [concat_eq_append, ← append_assoc] at heq
    obtain ⟨rfl, -⟩ := append_inj' heq rfl
    exact .inl ⟨before, rest, s, rfl, hbefore, he⟩

/-- **Run lemma of the network.**  All engines that a run visits are views of one sound
    collection of blocks. -/
theorem exists_views (hstart : Starts C start)
    (hguard : ∀ s event, guard s event → C.Allows s event)
    (hrun : Run step guard start events s) :
    ∃ G, Holds C G s ∧ ∀ a e, C.honest a → Visits guard start events a e → C.View G e := by
  refine hrun.history (H := fun events s => ∃ G, Holds C G s ∧
    ∀ a e, C.honest a → Visits guard start events a e → C.View G e) ?_ ?_
  · refine ⟨∅, hstart.holds, ?_⟩
    rintro a e ha ⟨before, after, s, heq, hbefore, rfl⟩
    obtain ⟨rfl, -⟩ := append_eq_nil_iff.mp heq.symm
    cases hbefore
    exact (hstart.holds.nodes a ha).view
  · rintro events s event s' hrun ⟨G, hholds, hviews⟩ hallowed hstep
    obtain ⟨G', hsub, hholds'⟩ := hholds.step (hguard s event hallowed) hstep
    refine ⟨G', hholds', ?_⟩
    intro a e ha hvisits
    rcases hvisits.snoc_cases (hrun.append (.single hallowed hstep)) with hold | rfl
    · exact (hviews a e ha hold).mono hsub
    · exact (hholds'.nodes a ha).view

end Network

end Model

end ArcChain
