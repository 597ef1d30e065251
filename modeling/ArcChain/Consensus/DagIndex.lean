/-
The representation invariant of the DAG: `rounds` and `dag` describe the
same blocks (`Indexed`), every held block passes its hash and ordering
checks, and every held block has left its author's entry for its round.

`Inserts` is what proposing and accepting a block have in common; pruning
below a round keeps exactly the blocks from that round on
(`Indexed.getBlock_pruneRounds`).  Every effect keeps the invariant, given
that a proposal's hash collides with no held block.
-/
import ArcChain.Consensus.Effects

namespace ArcChain

open AssocMap List Option

namespace ConsensusEngine

variable [Crypto] {e e' : ConsensusEngine} {block : DagBlock}

/-! ## Inserting a block -/

/-- `e'` is `e` with `block` in the DAG: besides, only the active set, the author entries
    and the withholding detector may have changed, and author entries are only added. -/
structure Inserts (e : ConsensusEngine) (block : DagBlock) (e' : ConsensusEngine) : Prop where
  frame : e' = { e.insertBlockIntoDag block with
    validatorSet := e'.validatorSet
    authorRoundBlocks := e'.authorRoundBlocks
    withholdingDetector := e'.withholdingDetector }
  keeps : ∀ key hash, e.authorRoundBlocks.lookup key = some hash →
    e'.authorRoundBlocks.lookup key = some hash
  noted : ∃ hash, e'.authorRoundBlocks.lookup (block.author, block.round) = some hash
  entries : ∀ key hash, e'.authorRoundBlocks.lookup key = some hash →
    e.authorRoundBlocks.lookup key = some hash ∨
      key = (block.author, block.round) ∧ hash = block.hash

/-- Insertions ignore how the withholding history is trimmed. -/
theorem pruneSecurityHistory_eq (e : ConsensusEngine) (round : Nat) : e.pruneSecurityHistory round =
      { e with withholdingDetector := (e.pruneSecurityHistory round).withholdingDetector } := by
  rw [pruneSecurityHistory]
  split
  · rfl
  · split <;> rfl

/-- What the checks of a proposal establish. -/
structure Proposes (e : ConsensusEngine) (block : DagBlock) : Prop where
  author : block.author = e.localAddress
  round : block.round = e.currentRound
  producer : e.validatorSet.canProduceBlocks e.localAddress = true
  vacant : e.authorRoundBlocks.lookup (e.localAddress, e.currentRound) = none
  above : ¬ (e.proposalFloor > 0 ∧ e.currentRound ≤ e.proposalFloor)
  parents : e.proposalParents e.currentRound = .ok block.parents
  hash : block.verifyHash e.consensusDomain = true
  ordering : block.verifyOrdering = true
  signed : ∀ keypair, e.localKeypair = some keypair → ∃ sig,
    Crypto.sign keypair block.hash = .ok sig ∧ block.signature = Crypto.serializeSignature sig

theorem proposal_eq_ok {transactions : List Hash256} {timestamp : Nat}
    (h : e.proposal transactions timestamp = .ok block) : e.Proposes block := by
  simp only [proposal, check_eq_ok] at h
  obtain ⟨hproducer, hvacant, habove, h⟩ := h
  split at h
  · cases h
  rename_i parents hparents
  have hordering : (e.unsignedProposal parents transactions timestamp).verifyOrdering = true := by
    rw [DagBlock.verifyOrdering, Bool.and_eq_true]
    exact ⟨DagBlock.isSorted_sortHashes _, decide_eq_true rfl⟩
  -- the hash is that of the block as it is returned, signed or not
  have hproposes : ∀ signature, (∀ keypair, e.localKeypair = some keypair → ∃ sig,
      Crypto.sign keypair (e.unsignedProposal parents transactions timestamp).hash = .ok sig ∧
        signature = Crypto.serializeSignature sig) →
      e.Proposes { e.unsignedProposal parents transactions timestamp with
        signature := signature } := by
    intro signature hsigned
    refine ⟨rfl, rfl, Bool.of_not_eq_false hproducer, not_isSome_iff_eq_none.mp hvacant,
      habove, hparents, ?_, hordering, hsigned⟩
    apply decide_eq_true
    show DagBlock.hashFor e.consensusDomain _ = DagBlock.hashFor e.consensusDomain _
    cases e.consensusDomain <;> rfl
  split at h
  · rename_i hkey
    obtain rfl := Except.ok.inj h
    apply hproposes
    intro keypair heq
    rw [hkey] at heq
    cases heq
  · rename_i keypair hkey
    split at h
    · cases h
    rename_i sig hsign
    obtain rfl := Except.ok.inj h
    apply hproposes
    intro keypair' heq
    obtain rfl := some.inj (hkey.symm.trans heq)
    exact ⟨sig, hsign, rfl⟩

theorem recordProposal_inserts (h : e.Proposes block) : e.Inserts block (e.recordProposal block) := by
  rw [recordProposal, pruneSecurityHistory_eq]
  have hvacant : e.authorRoundBlocks.lookup (block.author, block.round) = none := by
    rw [h.author, h.round, h.vacant]
  exact ⟨rfl, fun _ _ => lookup_insert_of_vacant hvacant,
    ⟨block.hash, AList.lookup_insert _⟩, fun _ _ hkey => (lookup_insert_cases hkey).symm⟩

/-- The author's entry after a received block. -/
theorem noteAuthor_spec {e₁ : ConsensusEngine} (h : e.noteAuthor block = some e₁) :
    e₁ = { e with validatorSet := e₁.validatorSet, authorRoundBlocks := e₁.authorRoundBlocks } ∧
      (∀ key hash, e.authorRoundBlocks.lookup key = some hash →
        e₁.authorRoundBlocks.lookup key = some hash) ∧
      (∃ hash, e₁.authorRoundBlocks.lookup (block.author, block.round) = some hash) ∧
      ∀ key hash, e₁.authorRoundBlocks.lookup key = some hash →
        e.authorRoundBlocks.lookup key = some hash ∨
          key = (block.author, block.round) ∧ hash = block.hash := by
  rw [noteAuthor] at h
  split at h
  · rename_i equivocation hequiv
    have hsome : ∃ hash, e.authorRoundBlocks.lookup (block.author, block.round) = some hash := by
      rw [detectEquivocation] at hequiv
      split at hequiv
      · rename_i existing hexisting
        exact ⟨existing, hexisting⟩
      · cases hequiv
    split at h
    · obtain rfl := some.inj h
      exact ⟨rfl, fun _ _ hkey => hkey, hsome, fun _ _ hkey => .inl hkey⟩
    · obtain ⟨r, -, rfl⟩ := map_eq_some_iff.mp h
      exact ⟨rfl, fun _ _ hkey => hkey, hsome, fun _ _ hkey => .inl hkey⟩
  · split at h
    · rename_i existing hexisting
      obtain rfl := some.inj h
      exact ⟨rfl, fun _ _ hkey => hkey, ⟨existing, hexisting⟩, fun _ _ hkey => .inl hkey⟩
    · rename_i hvacant
      obtain rfl := some.inj h
      exact ⟨rfl, fun _ _ => lookup_insert_of_vacant hvacant, ⟨block.hash, AList.lookup_insert _⟩,
        fun _ _ hkey => (lookup_insert_cases hkey).symm⟩

theorem acceptBlock_inserts (h : e.acceptBlock block = some e') : e.Inserts block e' := by
  obtain ⟨e₁, hnote, rfl⟩ := map_eq_some_iff.mp h
  obtain ⟨hframe, hkeeps, hnoted, hentries⟩ := noteAuthor_spec hnote
  rw [pruneSecurityHistory_eq]
  refine ⟨?_, hkeeps, hnoted, hentries⟩
  rw [hframe]
  rfl

/-! ## The representation invariant -/

/-- `dag` and `rounds` describe the same blocks, each under its own hash and round; held
    blocks passed their checks and left their author's entry. -/
structure Indexed (e : ConsensusEngine) : Prop where
  keyed : ∀ hash b, e.getBlock hash = some b → b.hash = hash
  listed : ∀ hash b, e.getBlock hash = some b → hash ∈ e.blocksInRound b.round
  held : ∀ round, ∀ hash ∈ e.blocksInRound round, ∃ b, e.getBlock hash = some b ∧ b.round = round
  nodup : ∀ round, (e.blocksInRound round).Nodup
  hashes : ∀ hash b, e.getBlock hash = some b → b.verifyHash e.consensusDomain = true
  ordering : ∀ hash b, e.getBlock hash = some b → b.verifyOrdering = true
  authored : ∀ hash b, e.getBlock hash = some b →
    ∃ entry, e.authorRoundBlocks.lookup (b.author, b.round) = some entry

/-- `e'` has the DAG of `e`; a consensus domain may have been bound while it was empty. -/
structure SameDag (e e' : ConsensusEngine) : Prop where
  dag : e'.dag = e.dag
  rounds : e'.rounds = e.rounds
  authors : e'.authorRoundBlocks = e.authorRoundBlocks
  domain : e'.consensusDomain = e.consensusDomain ∨ e.dag = ∅

theorem SameDag.refl (e : ConsensusEngine) : e.SameDag e := ⟨rfl, rfl, rfl, .inl rfl⟩

theorem SameDag.getBlock (h : e.SameDag e') (hash : Hash256) :
    e'.getBlock hash = e.getBlock hash := by
  rw [ConsensusEngine.getBlock, h.dag]
  rfl

theorem SameDag.blocksInRound (h : e.SameDag e') (round : Nat) :
    e'.blocksInRound round = e.blocksInRound round := by
  rw [ConsensusEngine.blocksInRound, h.rounds]
  rfl

theorem Indexed.of_sameDag (h : e.Indexed) (hsame : e.SameDag e') : e'.Indexed where
  keyed hash b hb := h.keyed hash b (hsame.getBlock hash ▸ hb)
  listed hash b hb := by
    rw [hsame.blocksInRound]
    exact h.listed hash b (hsame.getBlock hash ▸ hb)
  held round hash hmem := by
    rw [hsame.getBlock]
    exact h.held round hash (hsame.blocksInRound round ▸ hmem)
  nodup round := by
    rw [hsame.blocksInRound]
    exact h.nodup round
  hashes hash b hb := by
    rw [hsame.getBlock] at hb
    rcases hsame.domain with hdomain | hempty
    · rw [hdomain]
      exact h.hashes hash b hb
    · rw [ConsensusEngine.getBlock, hempty] at hb
      cases hb
  ordering hash b hb := h.ordering hash b (hsame.getBlock hash ▸ hb)
  authored hash b hb := by
    rw [hsame.authors]
    exact h.authored hash b (hsame.getBlock hash ▸ hb)

/-- An engine without blocks and without round lists. -/
theorem indexed_of_empty (hdag : e.dag = ∅) (hrounds : e.rounds = ∅) : e.Indexed := by
  have hblock : ∀ {P : Hash256 → DagBlock → Prop} hash b, e.getBlock hash = some b → P hash b := by
    intro P hash b hb
    rw [getBlock, hdag] at hb
    cases hb
  have hround : ∀ round, e.blocksInRound round = [] := by
    intro round
    rw [blocksInRound, hrounds]
    rfl
  refine ⟨hblock, hblock, ?_, ?_, hblock, hblock, hblock⟩
  · intro round hash hmem
    rw [hround] at hmem
    exact absurd hmem not_mem_nil
  · intro round
    rw [hround]
    exact nodup_nil

/-! ## Insertion -/

theorem Inserts.getBlock (h : e.Inserts block e') (hash : Hash256) :
    e'.getBlock hash = if hash = block.hash then some block else e.getBlock hash := by
  rw [h.frame]
  exact lookup_insert _ _ _ _

theorem Inserts.blocksInRound (h : e.Inserts block e') (round : Nat) : e'.blocksInRound round =
      if round = block.round then e.blocksInRound round ++ [block.hash]
      else e.blocksInRound round := by
  rw [h.frame]
  show ((AList.insert block.round (e.blocksInRound block.round ++ [block.hash])
    e.rounds).lookup round).getD [] = _
  rw [lookup_insert]
  split
  · rename_i heq
    rw [heq]
    rfl
  · rfl

variable {b : DagBlock} {hash : Hash256}

theorem Inserts.getBlock_cases (h : e.Inserts block e') (hb : e'.getBlock hash = some b) :
    (hash = block.hash ∧ b = block) ∨ e.getBlock hash = some b := by
  rw [h.frame] at hb
  exact lookup_insert_cases hb

/-- A new, checked block keeps the index exact. -/
theorem Indexed.inserted (h : e.Indexed) (hins : e.Inserts block e')
    (hnew : e.getBlock block.hash = none)
    (hhash : block.verifyHash e.consensusDomain = true)
    (hordering : block.verifyOrdering = true) : e'.Indexed := by
  have hdomain : e'.consensusDomain = e.consensusDomain := by
    rw [hins.frame]
    rfl
  have hnot : ∀ round, block.hash ∉ e.blocksInRound round := by
    intro round hmem
    obtain ⟨b, hb, -⟩ := h.held round _ hmem
    rw [hnew] at hb
    cases hb
  refine ⟨?_, ?_, ?_, ?_, ?_, ?_, ?_⟩
  · intro hash b hb
    rcases hins.getBlock_cases hb with ⟨rfl, rfl⟩ | hb
    · rfl
    · exact h.keyed hash b hb
  · intro hash b hb
    rw [hins.blocksInRound]
    rcases hins.getBlock_cases hb with ⟨rfl, rfl⟩ | hb
    · rw [if_pos rfl]
      exact mem_append_right _ (mem_singleton.mpr rfl)
    · have hmem := h.listed hash b hb
      split
      · exact mem_append_left _ hmem
      · exact hmem
  · intro round hash hmem
    rw [hins.blocksInRound] at hmem
    rw [hins.getBlock]
    by_cases heq : hash = block.hash
    · rw [if_pos heq]
      split at hmem
      · rename_i hround
        exact ⟨block, rfl, hround.symm⟩
      · exact absurd (heq ▸ hmem) (hnot round)
    · rw [if_neg heq]
      apply h.held round hash
      split at hmem
      · rcases mem_append.mp hmem with hmem | hmem
        · exact hmem
        · exact absurd (mem_singleton.mp hmem) heq
      · exact hmem
  · intro round
    rw [hins.blocksInRound]
    split
    · rw [nodup_append]
      refine ⟨h.nodup round, nodup_singleton _, ?_⟩
      rintro a ha b hb rfl
      exact hnot round (mem_singleton.mp hb ▸ ha)
    · exact h.nodup round
  · intro hash b hb
    rw [hdomain]
    rcases hins.getBlock_cases hb with ⟨rfl, rfl⟩ | hb
    · exact hhash
    · exact h.hashes hash b hb
  · intro hash b hb
    rcases hins.getBlock_cases hb with ⟨rfl, rfl⟩ | hb
    · exact hordering
    · exact h.ordering hash b hb
  · intro hash b hb
    rcases hins.getBlock_cases hb with ⟨rfl, rfl⟩ | hb
    · exact hins.noted
    · obtain ⟨entry, hentry⟩ := h.authored hash b hb
      exact ⟨entry, hins.keeps _ _ hentry⟩

/-! ## Pruning -/

theorem mem_roundsToPrune {below round : Nat} :
    round ∈ e.roundsToPrune below ↔ round ∈ e.rounds ∧ round < below := by
  rw [roundsToPrune, mem_filter, decide_eq_true_iff, AList.mem_keys]

/-- A held block's round is indexed. -/
theorem Indexed.round_mem (h : e.Indexed) (hb : e.getBlock hash = some b) : b.round ∈ e.rounds := by
  have hmem := h.listed hash b hb
  rw [blocksInRound] at hmem
  cases hround : e.rounds.lookup b.round with
  | none =>
    rw [hround] at hmem
    exact absurd hmem not_mem_nil
  | some l => exact mem_iff_lookup.mpr ⟨l, hround⟩

/-- The blocks that a prune takes are those below its round. -/
theorem Indexed.mem_hashesToPrune (h : e.Indexed) (hb : e.getBlock hash = some b) (below : Nat) :
    hash ∈ e.hashesToPrune below ↔ b.round < below := by
  rw [hashesToPrune, mem_flatMap]
  constructor
  · rintro ⟨round, hround, hmem⟩
    obtain ⟨b', hb', hr⟩ := h.held round hash hmem
    have heq : b' = b := some.inj (hb'.symm.trans hb)
    rw [← heq, hr]
    exact (mem_roundsToPrune.mp hround).2
  · intro hlt
    exact ⟨b.round, mem_roundsToPrune.mpr ⟨h.round_mem hb, hlt⟩, h.listed hash b hb⟩

/-- **Pruning is exact.**  Below its round nothing stays, from it on everything. -/
theorem Indexed.getBlock_pruneRounds (h : e.Indexed) (below : Nat) (hash : Hash256) (b : DagBlock) :
    (e.pruneRounds below).getBlock hash = some b ↔ e.getBlock hash = some b ∧ below ≤ b.round := by
  have hstep : (e.pruneRounds below).getBlock hash = some b ↔
      e.getBlock hash = some b ∧ decide (hash ∉ e.hashesToPrune below) = true :=
    lookup_retain_eq_some
  rw [hstep, decide_eq_true_iff]
  constructor
  · rintro ⟨hb, hnot⟩
    rw [h.mem_hashesToPrune hb] at hnot
    exact ⟨hb, Nat.not_lt.mp hnot⟩
  · rintro ⟨hb, hle⟩
    rw [h.mem_hashesToPrune hb]
    exact ⟨hb, Nat.not_lt.mpr hle⟩

theorem blocksInRound_pruneRounds (below round : Nat) : (e.pruneRounds below).blocksInRound round =
      if round ∈ e.roundsToPrune below then [] else e.blocksInRound round := by
  have hstep : ∀ l, (e.pruneRounds below).rounds.lookup round = some l ↔
      e.rounds.lookup round = some l ∧ decide (round ∉ e.roundsToPrune below) = true :=
    fun l => lookup_retain_eq_some
  rw [blocksInRound, blocksInRound]
  cases hround : (e.pruneRounds below).rounds.lookup round with
  | some l =>
    obtain ⟨hl, hnot⟩ := (hstep l).mp hround
    rw [if_neg (of_decide_eq_true hnot), hl]
  | none =>
    split
    · rfl
    rename_i hnot
    cases hold : e.rounds.lookup round with
    | none => rfl
    | some l =>
      have hsome := (hstep l).mpr ⟨hold, decide_eq_true hnot⟩
      rw [hround] at hsome
      cases hsome

theorem Indexed.prune (h : e.Indexed) (below : Nat) : (e.pruneRounds below).Indexed := by
  have hb := h.getBlock_pruneRounds below
  have hnot : ∀ hash b, (e.pruneRounds below).getBlock hash = some b →
      b.round ∉ e.roundsToPrune below := by
    intro hash b hget hmem
    have hlt := (mem_roundsToPrune.mp hmem).2
    have hle := ((hb hash b).mp hget).2
    omega
  refine ⟨?_, ?_, ?_, ?_, ?_, ?_, ?_⟩
  · exact fun hash b hget => h.keyed hash b ((hb hash b).mp hget).1
  · intro hash b hget
    rw [blocksInRound_pruneRounds, if_neg (hnot hash b hget)]
    exact h.listed hash b ((hb hash b).mp hget).1
  · intro round hash hmem
    rw [blocksInRound_pruneRounds] at hmem
    split at hmem
    · exact absurd hmem not_mem_nil
    rename_i hkept
    obtain ⟨b, hget, rfl⟩ := h.held round hash hmem
    refine ⟨b, (hb hash b).mpr ⟨hget, ?_⟩, rfl⟩
    rw [mem_roundsToPrune] at hkept
    exact Nat.not_lt.mp fun hlt => hkept ⟨h.round_mem hget, hlt⟩
  · intro round
    rw [blocksInRound_pruneRounds]
    split
    · exact nodup_nil
    · exact h.nodup round
  · exact fun hash b hget => h.hashes hash b ((hb hash b).mp hget).1
  · exact fun hash b hget => h.ordering hash b ((hb hash b).mp hget).1
  · intro hash b hget
    obtain ⟨entry, hentry⟩ := h.authored hash b ((hb hash b).mp hget).1
    exact ⟨entry, lookup_retain_eq_some.mpr ⟨hentry, decide_eq_true (hnot hash b hget)⟩⟩

/-! ## Every effect keeps the index -/

/-- Membership changes leave the DAG alone, whatever they return. -/
theorem MembershipOp.sameDag {op : MembershipOp} {r : Except ConsensusError Unit × ConsensusEngine}
    (hop : ∀ b, op ≠ .receiveBlock b) (h : op.apply e = some r) : e.SameDag r.2 := by
  have hsame : ∀ vs frozen pending keys, e.SameDag { e with
      validatorSet := vs, frozenValidatorSet := frozen, pendingValidators := pending,
      validatorKeys := keys } := fun _ _ _ _ => ⟨rfl, rfl, rfl, .inl rfl⟩
  cases op with
  | queueValidator validator =>
    obtain rfl := some.inj h
    show e.SameDag (e.queueValidator validator)
    rw [ConsensusEngine.queueValidator]
    split
    · exact .refl e
    · exact hsame _ _ _ _
  | freezeEpoch =>
    obtain ⟨e₁, hfreeze, rfl⟩ := map_eq_some_iff.mp h
    rw [ConsensusEngine.freezeEpoch] at hfreeze
    split at hfreeze
    · cases hfreeze
    · obtain ⟨newSet, -, rfl⟩ := map_eq_some_iff.mp hfreeze
      exact hsame _ _ _ _
  | joinValidator address stake pubkey shard =>
    obtain rfl := some.inj h
    rw [ConsensusEngine.joinValidator]
    repeat' split
    all_goals exact hsame _ _ _ _
  | leaveValidator address =>
    obtain rfl := some.inj h
    show e.SameDag (e.leaveValidator address).2
    rw [ConsensusEngine.leaveValidator]
    split
    · exact .refl e
    · dsimp only
      split <;> exact hsame _ _ _ _
  | updateValidatorStake address newStake =>
    obtain rfl := some.inj h
    rw [ConsensusEngine.updateValidatorStake]
    repeat' split
    all_goals exact hsame _ _ _ _
  | epochTransition =>
    obtain ⟨r₁, htransition, rfl⟩ := map_eq_some_iff.mp h
    rw [ConsensusEngine.epochTransition] at htransition
    split at htransition
    · cases htransition
    · obtain rfl := some.inj htransition
      exact hsame _ _ _ _
  | updateValidatorSet newSet =>
    obtain rfl := some.inj h
    rw [ConsensusEngine.updateValidatorSet]
    repeat' split
    all_goals exact hsame _ _ _ _
  | applySlash offender amount =>
    obtain ⟨vs, -, rfl⟩ := map_eq_some_iff.mp h
    exact hsame _ _ _ _
  | enforceSlash offender amount =>
    obtain ⟨r₁, henforce, rfl⟩ := map_eq_some_iff.mp h
    rw [ConsensusEngine.enforceSlash] at henforce
    split at henforce
    · obtain rfl := some.inj henforce
      exact .refl e
    · obtain ⟨vs, -, rfl⟩ := map_eq_some_iff.mp henforce
      exact hsame _ _ _ _
  | reportOffense offender offense evidence round timestamp =>
    obtain rfl := some.inj h
    exact hsame _ _ _ _
  | receiveBlock block => exact absurd rfl (hop block)
  | submitFraudProof proposer claimedRoot actualRoot round now =>
    obtain ⟨r₁, hsubmit, rfl⟩ := map_eq_some_iff.mp h
    obtain ⟨r₂, -, rfl⟩ := map_eq_some_iff.mp hsubmit
    exact hsame _ _ _ _

theorem installCertificateDomain_eq (e : ConsensusEngine) (domain : ConsensusDomain) :
    ∃ certificateDomain, (e.installCertificateDomain domain).2 =
      { e with certificateDomain := certificateDomain } := by
  rw [installCertificateDomain]
  split
  · split <;> exact ⟨_, rfl⟩
  · exact ⟨_, rfl⟩

theorem dag_eq_empty_of_isUntouched (h : ¬ e.isUntouched = false) : e.dag = ∅ := by
  have htouched := Bool.of_not_eq_false h
  rw [isUntouched, Bool.and_eq_true, Bool.and_eq_true] at htouched
  exact AList.ext (isEmpty_iff.mp htouched.1.1)

/-- A domain is bound only before the first block. -/
theorem installConsensusDomain_sameDag (domain : ConsensusDomain) :
    e.SameDag (e.installConsensusDomain domain).2 := by
  obtain ⟨certificateDomain, hcert⟩ := installCertificateDomain_eq e domain
  rw [installConsensusDomain]
  split
  · split
    · rw [hcert]
      exact ⟨rfl, rfl, rfl, .inl rfl⟩
    · exact .refl e
  · split
    · exact .refl e
    · rename_i huntouched
      have hempty := dag_eq_empty_of_isUntouched huntouched
      split
      · rename_i err e₁ heq
        have he₁ : e₁ = (e.installCertificateDomain domain).2 := by rw [heq]
        show e.SameDag e₁
        rw [he₁, hcert]
        exact ⟨rfl, rfl, rfl, .inl rfl⟩
      · rename_i e₁ heq
        have he₁ : e₁ = (e.installCertificateDomain domain).2 := by rw [heq]
        rw [he₁, hcert]
        exact ⟨rfl, rfl, rfl, .inr hempty⟩

/-- Configuration leaves the DAG alone. -/
theorem ConfigOp.sameDag {op : ConfigOp} (h : op.apply e = some e') : e.SameDag e' := by
  cases op with
  | setRestartBaseRound round =>
    obtain rfl := some.inj h
    rw [ConsensusEngine.setRestartBaseRound]
    split <;> exact ⟨rfl, rfl, rfl, .inl rfl⟩
  | closeRestartBaseRound | setRetainedRounds | registerValidatorKey =>
    obtain rfl := some.inj h
    exact ⟨rfl, rfl, rfl, .inl rfl⟩
  | registerSkipCertificate certificate =>
    obtain rfl := some.inj h
    rw [ConsensusEngine.registerSkipCertificate]
    repeat' split
    all_goals exact ⟨rfl, rfl, rfl, .inl rfl⟩
  | registerFinalityCertificate certificate =>
    obtain rfl := some.inj h
    rw [ConsensusEngine.registerFinalityCertificate]
    dsimp only
    split
    · exact .refl e
    · split
      · exact .refl e
      · split <;> exact ⟨rfl, rfl, rfl, .inl rfl⟩
  | installConsensusDomain domain =>
    obtain rfl := some.inj h
    exact installConsensusDomain_sameDag domain
  | installRecoveryCursor source =>
    obtain rfl := some.inj h
    rw [ConsensusEngine.installRecoveryCursor]
    repeat' split
    all_goals exact ⟨rfl, rfl, rfl, .inl rfl⟩
  | restoreRoundFromLocalWal round committed =>
    obtain rfl := some.inj h
    rw [ConsensusEngine.restoreRoundFromLocalWal]
    split
    · exact .refl e
    · dsimp only
      split <;> exact ⟨rfl, rfl, rfl, .inl rfl⟩
  | membership op =>
    cases op with
    | receiveBlock block => cases h
    | queueValidator | freezeEpoch | joinValidator | leaveValidator | updateValidatorStake
    | epochTransition | updateValidatorSet | applySlash | enforceSlash | reportOffense
    | submitFraudProof =>
      rw [ConfigOp.apply, map_eq_some_iff] at h
      · obtain ⟨r, hr, rfl⟩ := h
        exact MembershipOp.sameDag (fun _ heq => by cases heq) hr
      · intro _ heq
        cases heq

/-- A proposal's hash collides with no held block. -/
def NoCollision (e : ConsensusEngine) : Effect → Prop
  | .propose transactions timestamp => ∀ b, e.proposal transactions timestamp = .ok b →
      DagBlock.CollisionFree e.consensusDomain (insert b { c | ∃ hash, e.getBlock hash = some c })
  | _ => True

/-- A block whose author has no entry for its round is not held. -/
theorem Indexed.proposal_new (h : e.Indexed) (hb : e.Proposes block)
    (hfree : DagBlock.CollisionFree e.consensusDomain
      (insert block { c | ∃ hash, e.getBlock hash = some c })) :
    e.getBlock block.hash = none := by
  rw [eq_none_iff_forall_not_mem]
  intro c hc
  have hsame := hfree.eq_of_hash_eq (.inl rfl) (.inr ⟨_, hc⟩) ⟨hb.hash, hb.ordering⟩
    ⟨h.hashes _ c hc, h.ordering _ c hc⟩ (h.keyed _ c hc).symm
  have hauthor : c.author = e.localAddress := by
    rw [← hb.author, hsame]
  have hround : c.round = e.currentRound := by
    rw [← hb.round, hsame]
  obtain ⟨entry, hentry⟩ := h.authored _ c hc
  rw [hauthor, hround, hb.vacant] at hentry
  cases hentry

/-- What the checks of a received block establish about its contents. -/
theorem checkBlock_eq_ok {baseException : Bool} (h : e.checkBlock block baseException = .ok ()) :
    e.validatorSet.canProduceBlocks block.author = true ∧ e.getBlock block.hash = none ∧
      block.verifyHash e.consensusDomain = true ∧ block.verifyOrdering = true ∧
      e.checkSignature block = .ok () ∧ block.round ≤ e.currentRound + 1 ∧
      e.checkParents block baseException = .ok () := by
  simp only [checkBlock, check_eq_ok] at h
  obtain ⟨hproducer, hnew, hhash, hordering, h⟩ := h
  split at h
  · cases h
  rename_i hsignature
  obtain ⟨hround, h⟩ := check_eq_ok.mp h
  refine ⟨Bool.of_not_eq_false hproducer, not_isSome_iff_eq_none.mp hnew,
    Bool.of_not_eq_false hhash, Bool.of_not_eq_false hordering, hsignature, ?_, h⟩
  omega

/-- What an effect does to the DAG. -/
inductive DagChange (e : ConsensusEngine) : Effect → ConsensusEngine → Prop
  | proposed {transactions : List Hash256} {timestamp : Nat} {block : DagBlock}
      {e' : ConsensusEngine} (hproposal : e.proposal transactions timestamp = .ok block)
      (hins : e.Inserts block e') : DagChange e (.propose transactions timestamp) e'
  | accepted {block : DagBlock} {baseException : Bool} {e' : ConsensusEngine}
      (hcheck : e.checkBlock block baseException = .ok ()) (hins : e.Inserts block e') :
      DagChange e (.accept block baseException) e'
  | pruned (below : Nat) : DagChange e (.prune below) (e.pruneRounds below)
  | cleared {anchorRound cursor : Nat} (hcheck : e.checkRebase anchorRound = .ok cursor) :
      DagChange e (.rebase anchorRound) (e.rebaseAt cursor)
  | kept {effect : Effect} {e' : ConsensusEngine} (hsame : e.SameDag e') : DagChange e effect e'

theorem slashWithholders_eq {maxRound : Nat} (h : e.slashWithholders maxRound = some e') :
    ∃ vs, e' = { e with validatorSet := vs } := by
  have hfold : ∀ (l : List Address) (e₁ : ConsensusEngine), l.foldlM (fun e validator =>
        (e.validatorSet.punish validator .livenessFault (hashBytes validator.toBytes) maxRound
          0).map fun r => { e with validatorSet := r.2 }) e₁ = some e' →
      (∃ vs, e₁ = { e with validatorSet := vs }) → ∃ vs, e' = { e with validatorSet := vs } := by
    intro l
    induction l with
    | nil =>
      intro e₁ h₁ heq
      obtain rfl := some.inj h₁
      exact heq
    | cons v rest ih =>
      intro e₁ h₁ heq
      obtain ⟨e₂, hstep, hrest⟩ := bind_eq_some_iff.mp h₁
      obtain ⟨r, -, rfl⟩ := map_eq_some_iff.mp hstep
      obtain ⟨vs, rfl⟩ := heq
      exact ih _ hrest ⟨r.2, rfl⟩
  exact hfold _ e h ⟨e.validatorSet, rfl⟩

/-- **Inversion.**  What an effect does to the DAG, effect by effect. -/
theorem Effect.dagChange {effect : Effect} (h : effect.apply e = some e') :
    DagChange e effect e' := by
  cases effect with
  | propose transactions timestamp =>
    rw [Effect.apply] at h
    split at h
    · rename_i block hproposal
      obtain rfl := some.inj h
      exact .proposed hproposal (recordProposal_inserts (proposal_eq_ok hproposal))
    · cases h
  | accept block baseException =>
    rw [Effect.apply] at h
    split at h
    · rename_i hcheck
      exact .accepted hcheck (acceptBlock_inserts h)
    · cases h
  | advance =>
    obtain ⟨-, -, rfl⟩ := advance_apply h
    exact .kept ⟨rfl, rfl, rfl, .inl rfl⟩
  | forceAdvance =>
    obtain rfl := some.inj h
    apply DagChange.kept
    rw [forceAdvanceRound]
    split <;> exact ⟨rfl, rfl, rfl, .inl rfl⟩
  | scan | forgetSkips =>
    obtain rfl := some.inj h
    exact .kept ⟨rfl, rfl, rfl, .inl rfl⟩
  | slashWithholders maxRound =>
    obtain ⟨vs, rfl⟩ := slashWithholders_eq h
    exact .kept ⟨rfl, rfl, rfl, .inl rfl⟩
  | prune below =>
    obtain rfl := some.inj h
    exact .pruned below
  | rebase anchorRound =>
    obtain ⟨cursor, hcheck, rfl⟩ := rebase_apply h
    exact .cleared hcheck
  | config op => exact .kept (ConfigOp.sameDag h)

/-- **Step lemma.**  Every effect keeps the representation invariant. -/
theorem Indexed.effect {effect : Effect} (h : e.Indexed) (hfree : e.NoCollision effect)
    (hstep : effect.apply e = some e') : e'.Indexed := by
  cases Effect.dagChange hstep with
  | proposed hproposal hins =>
    have hb := proposal_eq_ok hproposal
    exact h.inserted hins (h.proposal_new hb (hfree _ hproposal)) hb.hash hb.ordering
  | accepted hcheck hins =>
    obtain ⟨-, hnew, hhash, hordering, -⟩ := checkBlock_eq_ok hcheck
    exact h.inserted hins hnew hhash hordering
  | pruned below => exact h.prune below
  | cleared hcheck => exact indexed_of_empty rfl rfl
  | kept hsame => exact h.of_sameDag hsame

/-- A held block stays, except for a prune above it and a rebase. -/
theorem Indexed.getBlock_effect (h : e.Indexed) {effect : Effect} (hfree : e.NoCollision effect)
    (hstep : effect.apply e = some e')
    (hb : e.getBlock hash = some b) (hprune : ∀ below, effect = .prune below → below ≤ b.round)
    (hrebase : ∀ anchorRound, effect ≠ .rebase anchorRound) : e'.getBlock hash = some b := by
  have hinserted : ∀ {block}, e.Inserts block e' → e.getBlock block.hash = none →
      e'.getBlock hash = some b := by
    intro block hins hnew
    rw [hins.getBlock, if_neg]
    · exact hb
    · rintro rfl
      rw [hnew] at hb
      cases hb
  cases Effect.dagChange hstep with
  | proposed hproposal hins =>
    exact hinserted hins (h.proposal_new (proposal_eq_ok hproposal) (hfree _ hproposal))
  | accepted hcheck hins => exact hinserted hins (checkBlock_eq_ok hcheck).2.1
  | pruned below => exact (h.getBlock_pruneRounds below hash b).mpr ⟨hb, hprune below rfl⟩
  | cleared hcheck => exact absurd rfl (hrebase _)
  | kept hsame =>
    rw [hsame.getBlock]
    exact hb

/-- The same for operations: only proposals can collide. -/
def EngineOp.NoCollision (e : ConsensusEngine) : EngineOp → Prop
  | .proposeBlock transactions timestamp => e.NoCollision (.propose transactions timestamp)
  | _ => True

theorem EngineOp.Performs.noCollision {op : EngineOp} {e₀ : ConsensusEngine} {effect : Effect}
    (hop : op.NoCollision e₀) (h : op.Performs e₀ e effect) : e.NoCollision effect := by
  cases effect with
  | propose transactions timestamp =>
    cases op with
    | proposeBlock transactions' timestamp' =>
      obtain ⟨rfl, heq⟩ := h
      cases heq
      exact hop
    | importHistory | pruneOldRounds => exact absurd h id
    | tryCommit =>
      rcases h with ⟨-, heq⟩ | h
      · cases heq
      · exact absurd h id
    | pruneBelowRound =>
      rcases h with ⟨_, -, heq⟩ | ⟨_, heq⟩ <;> cases heq
    | receiveBlock | advanceRound | forceAdvanceRound | rebaseTo | config => cases h
  | accept | advance | forceAdvance | scan | slashWithholders | prune | forgetSkips | rebase
  | config => trivial

/-- Every operation keeps the representation invariant. -/
theorem Indexed.op {op : EngineOp} {r : OpResult} (h : e.Indexed) (hop : op.NoCollision e)
    (hstep : op.apply e = some r) : r.engine.Indexed :=
  EngineOp.invariant (I := Indexed) hstep
    (fun _ _ _ hperforms h hstep => h.effect (hperforms.noCollision hop) hstep) h

/-! ## Frames -/

/-- What only configuration operations change. -/
structure SameConfig (e e' : ConsensusEngine) : Prop where
  frozen : e'.frozenValidatorSet = e.frozenValidatorSet
  domain : e'.consensusDomain = e.consensusDomain
  bootstrap : e'.recoveryBootstrapRound = e.recoveryBootstrapRound
  boundary : e'.localRecoveryBoundaryRound = e.localRecoveryBoundaryRound
  replay : e'.localRecoveryReplayActive = e.localRecoveryReplayActive
  address : e'.localAddress = e.localAddress
  keypair : e'.localKeypair = e.localKeypair
  keys : e'.validatorKeys = e.validatorKeys
  retained : e'.retainedRounds = e.retainedRounds

theorem SameConfig.refl (e : ConsensusEngine) : e.SameConfig e :=
  ⟨rfl, rfl, rfl, rfl, rfl, rfl, rfl, rfl, rfl⟩

theorem SameConfig.trans {e'' : ConsensusEngine} (h : e.SameConfig e') (h' : e'.SameConfig e'') :
    e.SameConfig e'' :=
  ⟨h'.frozen.trans h.frozen, h'.domain.trans h.domain, h'.bootstrap.trans h.bootstrap,
    h'.boundary.trans h.boundary, h'.replay.trans h.replay, h'.address.trans h.address,
    h'.keypair.trans h.keypair, h'.keys.trans h.keys, h'.retained.trans h.retained⟩

theorem Inserts.sameConfig (h : e.Inserts block e') : e.SameConfig e' := by
  rw [h.frame]
  exact ⟨rfl, rfl, rfl, rfl, rfl, rfl, rfl, rfl, rfl⟩

/-- The commit cursor and the restart base round move together with nothing else. -/
structure SameBase (e e' : ConsensusEngine) : Prop where
  committed : e'.lastCommittedRound = e.lastCommittedRound
  base : e'.restartBaseRound = e.restartBaseRound

theorem Inserts.sameBase (h : e.Inserts block e') : e.SameBase e' := by
  rw [h.frame]
  exact ⟨rfl, rfl⟩

/-- What an effect does to everything but the DAG. -/
theorem Effect.frame {effect : Effect} (h : effect.apply e = some e') :
    match effect with
    | .config _ => True
    | .rebase _ => e.SameConfig e'
    | .scan _ => e.SameConfig e' ∧ e'.restartBaseRound = e.restartBaseRound
    | .propose _ _ | .accept _ _ | .advance | .forceAdvance | .slashWithholders _ | .prune _
    | .forgetSkips _ => e.SameConfig e' ∧ e.SameBase e' := by
  cases effect with
  | propose transactions timestamp =>
    rw [Effect.apply] at h
    split at h
    · rename_i block hproposal
      obtain rfl := some.inj h
      have hins := recordProposal_inserts (proposal_eq_ok hproposal)
      exact ⟨hins.sameConfig, hins.sameBase⟩
    · cases h
  | accept block baseException =>
    rw [Effect.apply] at h
    split at h
    · have hins := acceptBlock_inserts h
      exact ⟨hins.sameConfig, hins.sameBase⟩
    · cases h
  | advance =>
    obtain ⟨-, -, rfl⟩ := advance_apply h
    exact ⟨⟨rfl, rfl, rfl, rfl, rfl, rfl, rfl, rfl, rfl⟩, rfl, rfl⟩
  | forceAdvance =>
    obtain rfl := some.inj h
    show e.SameConfig e.forceAdvanceRound ∧ e.SameBase e.forceAdvanceRound
    rw [forceAdvanceRound]
    split <;> exact ⟨⟨rfl, rfl, rfl, rfl, rfl, rfl, rfl, rfl, rfl⟩, rfl, rfl⟩
  | scan maximumBlocks =>
    obtain rfl := some.inj h
    exact ⟨⟨rfl, rfl, rfl, rfl, rfl, rfl, rfl, rfl, rfl⟩, rfl⟩
  | slashWithholders maxRound =>
    obtain ⟨vs, rfl⟩ := slashWithholders_eq h
    exact ⟨⟨rfl, rfl, rfl, rfl, rfl, rfl, rfl, rfl, rfl⟩, rfl, rfl⟩
  | prune | forgetSkips =>
    obtain rfl := some.inj h
    exact ⟨⟨rfl, rfl, rfl, rfl, rfl, rfl, rfl, rfl, rfl⟩, rfl, rfl⟩
  | rebase anchorRound =>
    obtain ⟨cursor, -, rfl⟩ := rebase_apply h
    exact ⟨rfl, rfl, rfl, rfl, rfl, rfl, rfl, rfl, rfl⟩
  | config op => trivial

variable {out : List DagBlock}

theorem Maintenance.frame {effect : Effect}
    (h : Maintenance out e effect) (hstep : effect.apply e = some e') :
    e.SameConfig e' ∧ e.SameBase e' := by
  have hframe := Effect.frame hstep
  rcases Maintenance.cases h with ⟨_, rfl⟩ | ⟨_, rfl, -⟩ | ⟨_, rfl⟩ <;> exact hframe

theorem Maintenance.noCollision {effect : Effect}
    (h : Maintenance out e effect) : e.NoCollision effect := by
  rcases Maintenance.cases h with ⟨_, rfl⟩ | ⟨_, rfl, -⟩ | ⟨_, rfl⟩ <;> trivial

/-- The maintenance leaves the cursor where the scan put it. -/
theorem Effects.lastCommittedRound_eq (h : Effects (Maintenance out) e e') :
    e'.lastCommittedRound = e.lastCommittedRound := by
  obtain ⟨l, hl⟩ := h
  refine hl.invariant (I := fun e₁ => e₁.lastCommittedRound = e.lastCommittedRound) ?_ rfl
  intro e₁ effect e₂ hmaintenance hcursor hstep
  exact (hmaintenance.frame hstep).2.committed.trans hcursor

end ConsensusEngine

end ArcChain
