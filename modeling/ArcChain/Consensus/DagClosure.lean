/-
The parents of held blocks.  A block above round 0 enters the DAG with its
parents held one round down and their distinct authors carrying the active
quorum (`ParentQuorum`), unless it is of the restart base round; the parents
then stay until their round is pruned or the engine rebases.

The history of a held block is told along the effects of the run that leads
to the engine (`Trace`), since `import_history` accepts many blocks in one
call.
-/
import ArcChain.Consensus.Cursor

namespace ArcChain

open Word StakeQuorum List

namespace ConsensusEngine

section Model

variable [Crypto] {e e' : ConsensusEngine} {block : DagBlock}

/-! ## The parent rules -/

/-- The parents of `b` are held one round down and their authors carry the quorum. -/
structure ParentQuorum (e : ConsensusEngine) (b : DagBlock) : Prop where
  held : ∀ p ∈ b.parents, ∃ c, e.getBlock p = some c ∧ c.round + 1 = b.round
  quorum : e.validatorSet.quorum ≤
    weight e.validatorSet.stakeOf (e.authorsOf b.parents).toFinset

/-- A round that starts without parents. -/
def Bootstraps (e : ConsensusEngine) (round : Nat) : Prop :=
  round = 0 ∨ e.isRecoveryBootstrapRound round = true

variable {hash : Hash256} {round : Nat}

theorem heldAt_eq_true :
    e.heldAt round hash = true ↔ ∃ c, e.getBlock hash = some c ∧ c.round = round := by
  rw [heldAt]
  cases e.getBlock hash with
  | none => simp
  | some c => simp

/-- Participation includes the quorum of stake. -/
theorem quorum_le_of_participation {vs : ValidatorSet} {round stake : Nat} {authors : List Address}
    (h : e.roundParticipationSatisfiesQuorum vs round authors stake = true) :
    vs.quorum ≤ stake := by
  rw [roundParticipationSatisfiesQuorum, Bool.and_eq_true] at h
  exact of_decide_eq_true h.1

/-- What the parent rules establish, rule by rule. -/
theorem checkParents_cases {baseException : Bool}
    (h : e.checkParents block baseException = .ok ()) :
    (e.Bootstraps block.round ∧ block.parents = []) ∨
      (baseException = true ∧ e.isRestartBaseRound block.round = true) ∨
      (e.localRecoveryReplayActive = true ∧ e.localRecoveryBoundaryRound = some block.round) ∨
      e.ParentQuorum block := by
  rw [checkParents] at h
  split at h
  · rename_i hbootstrap
    split at h
    · cases h
    · rename_i hnone
      exact .inl ⟨hbootstrap, Classical.not_not.mp hnone⟩
  · split at h
    · rename_i hbase
      rw [Bool.and_eq_true] at hbase
      exact .inr (.inl hbase)
    · split at h
      · rename_i hreplay
        rw [Bool.and_eq_true, beq_iff_eq] at hreplay
        exact .inr (.inr (.inl hreplay))
      · right; right; right
        dsimp only at h
        split at h
        · cases h
        split at h
        · cases h
        rename_i hparticipation
        -- nothing is missing, so the parents found are all of them
        have hlength : (block.parents.filter (e.heldAt (block.round - 1))).length =
            block.parents.length := by
          have hle := length_filter_le (e.heldAt (block.round - 1)) block.parents
          omega
        have hall := length_filter_eq_length_iff.mp hlength
        have hfound := filter_eq_self.mpr hall
        rw [hfound] at hparticipation
        refine ⟨?_, ?_⟩
        · intro p hp
          obtain ⟨c, hc, hround⟩ := heldAt_eq_true.mp (hall p hp)
          exact ⟨c, hc, by omega⟩
        · have hquorum := quorum_le_of_participation (Bool.of_not_eq_false hparticipation)
          exact Nat.le_trans hquorum ValidatorSet.tally_le

/-! ## The parents of a proposal -/

/-- The selection so far: held hashes of the list, their authors and the authors' stake. -/
structure ParentChoice.Sound (e : ConsensusEngine) (hashes : List Hash256) (acc : ParentChoice) :
    Prop where
  chosen : ∀ p ∈ acc.parents, p ∈ hashes
  authors : ∀ a ∈ acc.authors, a ∈ e.authorsOf acc.parents
  stake : e.validatorSet.TallyInv (acc.authors, acc.stake)

variable {hashes : List Hash256}

theorem mem_authorsOf {a : Address} :
    a ∈ e.authorsOf hashes ↔ ∃ hash ∈ hashes, ∃ b, e.getBlock hash = some b ∧ b.author = a := by
  rw [authorsOf, mem_filterMap]
  simp only [Option.map_eq_some_iff]

theorem selectParent_sound {acc : ParentChoice}
    (h : ParentChoice.Sound e hashes acc) (hmem : hash ∈ hashes) :
    ParentChoice.Sound e hashes (e.selectParent acc hash) := by
  rw [selectParent]
  split
  · exact h
  rename_i b hb
  split
  · exact h
  rename_i v hv
  split
  · exact h
  rename_i hnew
  refine ⟨?_, ?_, ?_⟩
  · intro p hp
    rcases mem_append.mp hp with hp | hp
    · exact h.chosen p hp
    · rw [mem_singleton.mp hp]
      exact hmem
  · intro a ha
    rw [mem_authorsOf]
    rcases mem_cons.mp ha with rfl | ha
    · exact ⟨hash, mem_append_right _ (mem_singleton.mpr rfl), b, hb, rfl⟩
    · obtain ⟨p, hp, hc⟩ := mem_authorsOf.mp (h.authors a ha)
      exact ⟨p, mem_append_left _ hp, hc⟩
  · have hstake : e.validatorSet.stakeOf b.author = v.stake := by
      rw [ValidatorSet.stakeOf, hv]
      rfl
    show e.validatorSet.TallyInv (b.author :: acc.authors, acc.stake + v.stake)
    rw [← hstake]
    exact h.stake.cons hnew

theorem selectParents_sound (hashes : List Hash256) :
    ParentChoice.Sound e hashes (e.selectParents hashes) := by
  -- over the suffix still to be folded, whose hashes all belong to the list
  have hfold : ∀ (l : List Hash256) acc, (∀ p ∈ l, p ∈ hashes) → ParentChoice.Sound e hashes acc →
      ParentChoice.Sound e hashes (l.foldl e.selectParent acc) := by
    intro l
    induction l with
    | nil => exact fun _ _ h => h
    | cons p rest ih =>
      intro acc hsub h
      exact ih _ (fun q hq => hsub q (mem_cons_of_mem _ hq))
        (selectParent_sound h (hsub p mem_cons_self))
  exact hfold hashes _ (fun _ hp => hp) ⟨nofun, nofun, by simp [ValidatorSet.TallyInv, weight]⟩

/-- A proposal's parents meet the rules that receivers check. -/
theorem Proposes.parents_cases (h : e.Indexed) (hb : e.Proposes block) :
    (e.Bootstraps block.round ∧ block.parents = []) ∨ e.ParentQuorum block := by
  have hparents := hb.parents
  rw [← hb.round, proposalParents] at hparents
  split at hparents
  · rename_i hbootstrap
    exact .inl ⟨hbootstrap, (Except.ok.inj hparents).symm⟩
  dsimp only at hparents
  split at hparents
  · rename_i hparticipation
    have heq := Except.ok.inj hparents
    have hsound := selectParents_sound (e := e)
      (DagBlock.sortHashes (e.blocksInRound (block.round - 1)))
    right
    refine ⟨?_, ?_⟩
    · intro p hp
      rw [← heq] at hp
      obtain ⟨c, hc, hround⟩ := h.held _ p (DagBlock.mem_sortHashes.mp (hsound.chosen p hp))
      exact ⟨c, hc, by omega⟩
    · refine Nat.le_trans (quorum_le_of_participation hparticipation) ?_
      have hstake : (e.selectParents _).stake = weight _ _ := hsound.stake
      rw [← heq, hstake]
      apply weight_mono
      intro a ha
      rw [mem_toFinset] at ha ⊢
      exact hsound.authors a ha
  · cases hparents

/-! ## Runs and their effects -/

/-- The operations on the DAG: all but configuration. -/
def EngineOp.Builds : EngineOp → Prop
  | .config _ => False
  | _ => True

variable {op : EngineOp}

omit [Crypto] in
theorem EngineOp.Commits.builds (hop : op.Commits) : op.Builds := by
  cases op with
  | config => exact absurd hop id
  | proposeBlock | receiveBlock | importHistory | advanceRound | forceAdvanceRound | tryCommit
  | pruneOldRounds | pruneBelowRound | rebaseTo => trivial

/-- An effect on the DAG; a proposal collides with no held block. -/
def Builds (e : ConsensusEngine) (effect : Effect) : Prop :=
  e.NoCollision effect ∧ ∀ op, effect ≠ .config op

/-- `ops` lead from one engine to the other, `effects` being what they do on the way. -/
inductive Trace : ConsensusEngine → List EngineOp → List Effect → ConsensusEngine → Prop
  | nil (e : ConsensusEngine) : Trace e [] [] e
  | cons {e e' : ConsensusEngine} {op : EngineOp} {r : OpResult} {effects rest : List Effect}
      {ops : List EngineOp} (hstep : op.apply e = some r)
      (heffects : Run Effect.apply (op.Performs e) e effects r.engine)
      (hrest : Trace r.engine ops rest e') : Trace e (op :: ops) (effects ++ rest) e'

variable {effect : Effect} {e₀ : ConsensusEngine}

theorem EngineOp.Performs.builds
    (hop : op.Builds) (hfree : op.NoCollision e₀) (h : op.Performs e₀ e effect) :
    e.Builds effect := by
  refine ⟨h.noCollision hfree, ?_⟩
  rintro c rfl
  cases op with
  | proposeBlock => cases h.2
  | receiveBlock | advanceRound | forceAdvanceRound | rebaseTo => cases h
  | importHistory | pruneOldRounds => exact absurd h id
  | tryCommit =>
    rcases h with ⟨-, heq⟩ | h
    · cases heq
    · exact absurd h id
  | pruneBelowRound => rcases h with ⟨_, -, heq⟩ | ⟨_, heq⟩ <;> cases heq
  | config => exact absurd hop id

/-- Every run of operations is a run of effects. -/
theorem exists_trace {ops : List EngineOp}
    (h : Run opStep (fun e op => op.Builds ∧ op.NoCollision e) e ops e') :
    ∃ effects, Trace e ops effects e' ∧ Run Effect.apply Builds e effects e' := by
  induction h with
  | nil e => exact ⟨[], .nil e, .nil e⟩
  | cons hguard hstep _ ih =>
    obtain ⟨r, hr, rfl⟩ := Option.map_eq_some_iff.mp hstep
    obtain ⟨effects, heffects⟩ := EngineOp.exists_effects hr
    obtain ⟨rest, htrace, hrest⟩ := ih
    refine ⟨effects ++ rest, .cons hr heffects htrace, ?_⟩
    exact (heffects.mono fun _ _ hperforms => hperforms.builds hguard.1 hguard.2).append hrest

/-! ## Blocks enter with their parents -/

/-- An engine outside recovery. -/
structure Ordinary (e : ConsensusEngine) : Prop where
  bootstrap : e.recoveryBootstrapRound = none
  replay : e.localRecoveryReplayActive = false

theorem Builds.sameConfig (h : e.Builds effect)
    (hstep : effect.apply e = some e') : e.SameConfig e' := by
  have hframe := Effect.frame hstep
  cases effect with
  | config op => exact absurd rfl (h.2 op)
  | rebase => exact hframe
  | propose | accept | advance | forceAdvance | scan | slashWithholders | prune | forgetSkips =>
    exact hframe.1

theorem Ordinary.of_sameConfig (h : e.Ordinary) (hsame : e.SameConfig e') : e'.Ordinary :=
  ⟨hsame.bootstrap.trans h.bootstrap, hsame.replay.trans h.replay⟩

theorem Ordinary.not_bootstraps (h : e.Ordinary) (hpos : 0 < round) : ¬ e.Bootstraps round := by
  rintro (hzero | hrecovery)
  · omega
  · rw [isRecoveryBootstrapRound, h.bootstrap] at hrecovery
    cases hrecovery

/-- A block outside the restart base round is accepted under its parent quorum. -/
theorem Ordinary.parentQuorum_of_checkBlock (h : e.Ordinary) {baseException : Bool}
    (hcheck : e.checkBlock block baseException = .ok ()) (hpos : 0 < block.round)
    (hbase : e.restartBaseRound ≠ some block.round) : e.ParentQuorum block := by
  obtain ⟨-, -, -, -, -, -, hparents⟩ := checkBlock_eq_ok hcheck
  rcases checkParents_cases hparents with ⟨hbootstrap, -⟩ | ⟨-, hrestart⟩ | ⟨hreplay, -⟩ | hquorum
  · exact absurd hbootstrap (h.not_bootstraps hpos)
  · rw [isRestartBaseRound, Bool.and_eq_true, beq_iff_eq] at hrestart
    exact absurd hrestart.1 hbase
  · rw [h.replay] at hreplay
    cases hreplay
  · exact hquorum

/-- `round` was indexed and fell to a prune among `effects`. -/
def PrunedIn (e : ConsensusEngine) (effects : List Effect) (round : Nat) : Prop :=
  ∃ before below after e₁, effects = before ++ .prune below :: after ∧
    Run Effect.apply Builds e before e₁ ∧ round ∈ e₁.roundsToPrune below

/-- `b` was inserted in the run from `start` to `e`, under its parent quorum; each parent is
    still held or its round was pruned since. -/
def AcceptedIn (start : ConsensusEngine) (effects : List Effect) (e : ConsensusEngine)
    (b : DagBlock) : Prop :=
  ∃ before effect after e₀ e₁, effects = before ++ effect :: after ∧
    Run Effect.apply Builds start before e₀ ∧ effect.apply e₀ = some e₁ ∧
    Run Effect.apply Builds e₁ after e ∧ e₀.Inserts b e₁ ∧ e₀.ParentQuorum b ∧
    ∀ p ∈ b.parents, (∃ c, e.getBlock p = some c ∧ c.round + 1 = b.round) ∨
      e₁.PrunedIn after (b.round - 1)

theorem PrunedIn.snoc {effects : List Effect}
    (h : e.PrunedIn effects round) : e.PrunedIn (effects ++ [effect]) round := by
  obtain ⟨before, below, after, e₁, rfl, hrun, hmem⟩ := h
  exact ⟨before, below, after ++ [effect], e₁, by simp, hrun, hmem⟩

variable {start : ConsensusEngine} {effects : List Effect} {effect : Effect} {b : DagBlock}

/-- One more effect: every held parent stays or goes with its round. -/
theorem AcceptedIn.snoc (h : AcceptedIn start effects e b) (hbuilds : e.Builds effect)
    (hstep : effect.apply e = some e')
    (hparents : ∀ p c, e.getBlock p = some c → c.round + 1 = b.round →
      e'.getBlock p = some c ∨ ∃ below, effect = .prune below ∧ c.round ∈ e.roundsToPrune below) :
    AcceptedIn start (effects ++ [effect]) e' b := by
  obtain ⟨before, inserting, after, e₀, e₁, rfl, hbefore, hinsert, hafter, hins, hquorum, hold⟩ := h
  refine ⟨before, inserting, after ++ [effect], e₀, e₁, by simp, hbefore, hinsert,
    hafter.append (.single hbuilds hstep), hins, hquorum, ?_⟩
  intro p hp
  rcases hold p hp with ⟨c, hc, hround⟩ | hpruned
  · rcases hparents p c hc hround with hkept | ⟨below, rfl, hmem⟩
    · exact .inl ⟨c, hkept, hround⟩
    · refine .inr ⟨after, below, [], e, rfl, hafter, ?_⟩
      rw [← hround]
      exact hmem
  · exact .inr hpruned.snoc

/-- The block that an effect has just inserted. -/
theorem AcceptedIn.last (hrun : Run Effect.apply Builds start effects e)
    (hstep : effect.apply e = some e') (hins : e.Inserts b e') (hquorum : e.ParentQuorum b)
    (hkeeps : ∀ p c, e.getBlock p = some c → e'.getBlock p = some c) :
    AcceptedIn start (effects ++ [effect]) e' b := by
  refine ⟨effects, effect, [], e, e', rfl, hrun, hstep, .nil e', hins, hquorum, ?_⟩
  intro p hp
  obtain ⟨c, hc, hround⟩ := hquorum.held p hp
  exact .inl ⟨c, hkeeps p c hc, hround⟩

/-! ## The invariant -/

/-- What holds after the effects of a run. -/
structure DagClosed (start : ConsensusEngine) (effects : List Effect) (e : ConsensusEngine) :
    Prop where
  indexed : e.Indexed
  ordinary : e.Ordinary
  accepted : ∀ hash b, e.getBlock hash = some b → 0 < b.round →
    e.restartBaseRound ≠ some b.round → AcceptedIn start effects e b

/-- Only a rebase moves the restart base round. -/
theorem Builds.restartBaseRound_eq (h : e.Builds effect) (hstep : effect.apply e = some e')
    (hrebase : ∀ anchorRound, effect ≠ .rebase anchorRound) :
    e'.restartBaseRound = e.restartBaseRound := by
  have hframe := Effect.frame hstep
  cases effect with
  | config op => exact absurd rfl (h.2 op)
  | rebase anchorRound => exact absurd rfl (hrebase anchorRound)
  | scan => exact hframe.2
  | propose | accept | advance | forceAdvance | slashWithholders | prune | forgetSkips =>
    exact hframe.2.base

/-- A rebase leaves no block. -/
theorem getBlock_rebaseAt (cursor : Nat) (hash : Hash256) :
    (e.rebaseAt cursor).getBlock hash = none :=
  AssocMap.lookup_empty hash

/-- Without a rebase, a held block is an old one or was inserted under its parent quorum. -/
theorem DagClosed.getBlock_cases (h : DagClosed start effects e) (hbuilds : e.Builds effect)
    (hstep : effect.apply e = some e') (hrebase : ∀ anchorRound, effect ≠ .rebase anchorRound)
    (hb : e'.getBlock hash = some b) :
    e.getBlock hash = some b ∨ (e.Inserts b e' ∧ (∀ below, effect ≠ .prune below) ∧
      (0 < b.round → e.restartBaseRound ≠ some b.round → e.ParentQuorum b)) := by
  cases Effect.dagChange hstep with
  | proposed hproposal hins =>
    rcases hins.getBlock_cases hb with ⟨-, rfl⟩ | hb
    · refine .inr ⟨hins, nofun, fun hpos _ => ?_⟩
      exact ((proposal_eq_ok hproposal).parents_cases h.indexed).resolve_left
        fun hbootstrap => h.ordinary.not_bootstraps hpos hbootstrap.1
    · exact .inl hb
  | accepted hcheck hins =>
    rcases hins.getBlock_cases hb with ⟨-, rfl⟩ | hb
    · exact .inr ⟨hins, nofun, h.ordinary.parentQuorum_of_checkBlock hcheck⟩
    · exact .inl hb
  | pruned below => exact .inl ((h.indexed.getBlock_pruneRounds below hash b).mp hb).1
  | cleared hcheck => exact absurd rfl (hrebase _)
  | kept hsame => exact .inl (hsame.getBlock hash ▸ hb)

/-- **Step lemma.** -/
theorem DagClosed.step (h : DagClosed start effects e)
    (hrun : Run Effect.apply Builds start effects e) (hbuilds : e.Builds effect)
    (hstep : effect.apply e = some e') : DagClosed start (effects ++ [effect]) e' := by
  refine ⟨h.indexed.effect hbuilds.1 hstep, h.ordinary.of_sameConfig (hbuilds.sameConfig hstep), ?_⟩
  intro hash b hb hpos hbase
  by_cases hrebase : ∃ anchorRound, effect = .rebase anchorRound
  · obtain ⟨anchorRound, rfl⟩ := hrebase
    obtain ⟨cursor, -, rfl⟩ := rebase_apply hstep
    cases hb
  · have hrebase' : ∀ anchorRound, effect ≠ .rebase anchorRound :=
      fun anchorRound heq => hrebase ⟨anchorRound, heq⟩
    rw [hbuilds.restartBaseRound_eq hstep hrebase'] at hbase
    -- a held parent stays, unless the effect prunes its round
    have hkeeps : ∀ p c, e.getBlock p = some c → e'.getBlock p = some c ∨
        ∃ below, effect = .prune below ∧ c.round ∈ e.roundsToPrune below := by
      intro p c hc
      by_cases hgone : ∃ below, effect = .prune below ∧ c.round < below
      · obtain ⟨below, heq, hlt⟩ := hgone
        exact .inr ⟨below, heq, mem_roundsToPrune.mpr ⟨h.indexed.round_mem hc, hlt⟩⟩
      · refine .inl (h.indexed.getBlock_effect hbuilds.1 hstep hc ?_ hrebase')
        intro below heq
        exact Nat.not_lt.mp fun hlt => hgone ⟨below, heq, hlt⟩
    rcases h.getBlock_cases hbuilds hstep hrebase' hb with hold | ⟨hins, hprune, hquorum⟩
    · exact (h.accepted hash b hold hpos hbase).snoc hbuilds hstep fun p c hc _ => hkeeps p c hc
    · refine .last hrun hstep hins (hquorum hpos hbase) ?_
      intro p c hc
      exact (hkeeps p c hc).resolve_right fun ⟨below, heq, _⟩ => hprune below heq

/-! ## The restart base round without commits -/

/-- The cursor has not left the restart base round. -/
def AtBase (e : ConsensusEngine) : Prop :=
  ∀ base, e.restartBaseRound = some base → e.lastCommittedRound ≤ saturatingAdd base 1

theorem AtBase.openRestartBaseRound_eq (h : e.AtBase) :
    e.openRestartBaseRound = e.restartBaseRound := by
  rw [openRestartBaseRound]
  split
  · rename_i base hbase
    rw [if_pos, hbase]
    rw [isRestartBaseRound, hbase, Bool.and_eq_true]
    exact ⟨beq_self_eq_true _, decide_eq_true (h base hbase)⟩
  · rename_i hnone
    exact hnone.symm

/-- Only a scan moves the cursor away from the base round. -/
theorem AtBase.keeps (h : e.AtBase) (hbuilds : e.Builds effect)
    (hstep : effect.apply e = some e') (hscan : ∀ limit, effect ≠ .scan limit) : e'.AtBase := by
  have hframe := Effect.frame hstep
  have hsame : e.SameBase e' → e'.AtBase := by
    intro hsame base hbase
    rw [hsame.committed]
    exact h base (hsame.base ▸ hbase)
  cases effect with
  | config op => exact absurd rfl (hbuilds.2 op)
  | scan limit => exact absurd rfl (hscan limit)
  | rebase anchorRound =>
    obtain ⟨cursor, hcheck, rfl⟩ := rebase_apply hstep
    obtain ⟨-, hmax, -, -⟩ := checkRebase_eq_ok hcheck
    intro base hbase
    obtain rfl := Option.some.inj hbase
    show cursor ≤ min (cursor + 1) u64Max
    omega
  | propose | accept | advance | forceAdvance | slashWithholders | prune | forgetSkips =>
    exact hsame hframe.2

theorem EngineOp.Performs.not_scan
    (hop : op ≠ .tryCommit) (h : op.Performs e₀ e effect) (limit : Option Nat) :
    effect ≠ .scan limit := by
  rintro rfl
  cases op with
  | proposeBlock => cases h.2
  | receiveBlock | advanceRound | forceAdvanceRound | rebaseTo | config => cases h
  | importHistory | pruneOldRounds => exact absurd h id
  | tryCommit => exact absurd rfl hop
  | pruneBelowRound => rcases h with ⟨_, -, heq⟩ | ⟨_, heq⟩ <;> cases heq

theorem AtBase.run {ops : List EngineOp}
    (hrun : Run opStep (fun e op => op.Builds ∧ op.NoCollision e) e ops e')
    (hcommit : .tryCommit ∉ ops) (h : e.AtBase) : e'.AtBase := by
  induction hrun with
  | nil e => exact h
  | cons hguard hstep _ ih =>
    obtain ⟨r, hr, rfl⟩ := Option.map_eq_some_iff.mp hstep
    refine ih (fun hmem => hcommit (mem_cons_of_mem _ hmem)) ?_
    refine EngineOp.invariant (I := AtBase) hr ?_ h
    intro e₁ effect e₂ hperforms h₁ heffect
    exact h₁.keeps (hperforms.builds hguard.1 hguard.2) heffect
      (hperforms.not_scan fun heq => hcommit (heq ▸ mem_cons_self))

/-! ## All runs -/

/-- An engine before its first block, outside recovery. -/
structure Unbuilt (e : ConsensusEngine) : Prop where
  dag : e.dag = ∅
  rounds : e.rounds = ∅
  base : e.restartBaseRound = none
  ordinary : e.Ordinary

/-- **DAG representation invariant.**  In every engine that DAG operations reach, the index
    is exact, held blocks pass their checks, and every held block above round 0 and outside
    the restart base round was accepted under its parent quorum, each parent being held
    until its round is pruned.  The restart base round is the open one as long as nothing
    is committed. -/
theorem dag_representation {start : ConsensusEngine} (hstart : start.Unbuilt)
    {ops : List EngineOp}
    (hrun : Run opStep (fun e op => op.Builds ∧ op.NoCollision e) start ops e) :
    e.Indexed ∧
      (∃ effects, Trace start ops effects e ∧ ∀ hash b, e.getBlock hash = some b →
        0 < b.round → e.restartBaseRound ≠ some b.round → AcceptedIn start effects e b) ∧
      (.tryCommit ∉ ops → e.openRestartBaseRound = e.restartBaseRound) := by
  obtain ⟨effects, htrace, heffects⟩ := exists_trace hrun
  have hempty : ∀ hash b, start.getBlock hash ≠ some b := by
    intro hash b hb
    rw [getBlock, hstart.dag] at hb
    cases hb
  have hnil : DagClosed start [] start :=
    ⟨indexed_of_empty hstart.dag hstart.rounds, hstart.ordinary,
      fun hash b hb => absurd hb (hempty hash b)⟩
  have hclosed : DagClosed start effects e := heffects.history (H := DagClosed start) hnil
      fun _ _ _ _ hrun h hbuilds hstep => h.step hrun hbuilds hstep
  refine ⟨hclosed.indexed, ⟨effects, htrace, hclosed.accepted⟩, fun hcommit => ?_⟩
  have hbase : start.AtBase := by
    intro base hsome
    rw [hstart.base] at hsome
    cases hsome
  exact (hbase.run hrun hcommit).openRestartBaseRound_eq

end Model

end ConsensusEngine

namespace SampleClosure

open ConsensusEngine SampleCursor

/-- Two rounds, of which the first is then pruned. -/
def ops : letI := concreteCrypto; List EngineOp :=
  letI := concreteCrypto
  [.receiveBlock block₀, .advanceRound, .receiveBlock block₁, .pruneBelowRound 4097]

end SampleClosure

open SampleClosure SampleCursor ConsensusEngine in
/-- The second block is held, and was accepted under a parent that is gone. -/
theorem dag_representation_pruned_parent :
    letI := concreteCrypto
    ∃ e, engine.Unbuilt ∧
      Run opStep (fun e op => op.Builds ∧ op.NoCollision e) engine SampleClosure.ops e ∧
      e.getBlock block₁.hash = some block₁ ∧ e.getBlock block₀.hash = none ∧
      e.Indexed ∧ ∃ effects, AcceptedIn engine effects e block₁ := by
  let _ : Crypto := concreteCrypto
  have hrun : (SampleClosure.ops.foldlM (Run.guarded opStep fun _ op => op.Commits) engine).map
      (fun e => (e.getBlock block₁.hash, e.getBlock block₀.hash, e.restartBaseRound)) =
        some (some block₁, none, none) := by
    decide +kernel
  obtain ⟨e, he, hvalues⟩ := Option.map_eq_some_iff.mp hrun
  obtain ⟨hheld, hgone, hbase⟩ := Prod.mk.inj hvalues |>.imp_right Prod.mk.inj
  have hcommits : Run opStep (fun _ op => op.Commits) engine SampleClosure.ops e := Run.of_foldlM he
  have hbuilds : Run opStep (fun e op => op.Builds ∧ op.NoCollision e) engine SampleClosure.ops e :=
    hcommits.mono fun _ _ hop => ⟨hop.builds, hop.noCollision⟩
  have hstart : engine.Unbuilt := ⟨rfl, rfl, rfl, rfl, rfl⟩
  obtain ⟨hindexed, ⟨effects, -, haccepted⟩, -⟩ := dag_representation hstart hbuilds
  refine ⟨e, hstart, hbuilds, hheld, hgone, hindexed, effects, ?_⟩
  apply haccepted _ _ hheld (by decide)
  rw [hbase]
  exact nofun

end ArcChain
