/-
Importing history without a persistence hook (`import_history`): a refused
batch leaves the engine as it was, and an applied one is a run of ordinary
steps.  Every block it adds met the checks of `receive_block` in the state
it was added to, or is a restart base block with one honest validator's
worth of support in the batch; every round it passes held a quorum.

The loop's invariant is `ImportState.Sound`: while nothing was inserted and
no round was passed, the engine has not been touched.
-/
import ArcChain.Consensus.DagIndex

namespace ArcChain

open Word

namespace ConsensusEngine

variable [Crypto] {e e' : ConsensusEngine}

/-! ## Errors of the block checks -/

section

variable (e : ConsensusEngine) (block : DagBlock) (baseException : Bool) (why : String)

theorem checkSignature_ne_historyPersistence :
    e.checkSignature block ≠ .error (.historyPersistence why) := by
  rw [checkSignature]
  repeat' split
  all_goals rintro ⟨⟩

theorem checkParents_ne_historyPersistence :
    e.checkParents block baseException ≠ .error (.historyPersistence why) := by
  rw [checkParents]
  dsimp only
  repeat' split
  all_goals rintro ⟨⟩

/-- `HistoryPersistence` is an error of the persistence hook alone. -/
theorem checkBlock_ne_historyPersistence :
    e.checkBlock block baseException ≠ .error (.historyPersistence why) := by
  rw [checkBlock]
  split
  · rintro ⟨⟩
  split
  · rintro ⟨⟩
  split
  · rintro ⟨⟩
  split
  · rintro ⟨⟩
  split
  · rename_i err herr
    have hsig := checkSignature_ne_historyPersistence e block why
    rw [herr] at hsig
    exact fun h => hsig (congrArg _ (Except.error.inj h))
  · split
    · rintro ⟨⟩
    · exact checkParents_ne_historyPersistence e block baseException why

theorem cutAtBase_ne_historyPersistence (byRound : List (Nat × List DagBlock)) :
    e.cutAtBase byRound ≠ .error (.historyPersistence why) := by
  rw [cutAtBase]
  dsimp only
  repeat' split
  all_goals rintro ⟨⟩

theorem planImport_ne_historyPersistence (blocks : List DagBlock) (maxRounds : Nat) :
    e.planImport blocks maxRounds ≠ .error (.historyPersistence why) := by
  rw [planImport]
  split
  · rintro ⟨⟩
  split
  · rename_i err herr
    have hcut := cutAtBase_ne_historyPersistence e why (groupByRound blocks)
    rw [herr] at hcut
    exact fun h => hcut (congrArg _ (Except.error.inj h))
  · dsimp only
    repeat' split
    all_goals rintro ⟨⟩

end

/-! ## One step of the import -/

/-- A block that passed its checks is accepted: the slash of an equivocator cannot fail on
    valid sets. -/
theorem acceptBlock_keeps (h : e.SetsValid) (block : DagBlock) :
    ∃ e', e.acceptBlock block = some e' ∧ e'.SetsValid := by
  obtain ⟨e₁, hnote, h₁⟩ := noteAuthor_keeps h block
  rw [acceptBlock, hnote]
  exact ⟨_, rfl, h₁.of_same (sameSets_pruneSecurityHistory _ _)⟩

theorem acceptBlock_currentRound {block : DagBlock} (h : e.acceptBlock block = some e') :
    e'.currentRound = e.currentRound := by
  rw [(acceptBlock_inserts h).frame]
  rfl

/-- What the import loop maintains: `reached` is the engine's round, and an engine that was
    given no block and passed no round is the one the import started from. -/
structure ImportState.Sound (e : ConsensusEngine) (s : ImportState) : Prop where
  sets : s.engine.SetsValid
  reached : s.reached = s.engine.currentRound
  grown : e.currentRound ≤ s.reached
  untouched : s.inserted = 0 → s.reached = e.currentRound → s.engine = e

/-- The persistence hook of `import_history`. -/
def noPersistence (_ : List DagBlock) (_ : DagBlock) : Except ConsensusError Unit :=
  .ok ()

/-- `import_history`. -/
def importHistoryPlain (e : ConsensusEngine) (blocks : List DagBlock) (maxRounds : Nat) :
    Option (Except ConsensusError Nat × ConsensusEngine) :=
  e.importHistory blocks maxRounds noPersistence

variable {s : ImportState}

theorem importBlock_sound (h : s.Sound e) (block : DagBlock) (baseException : Bool) :
    ∃ flow s', importBlock s block baseException noPersistence = some (flow, s') ∧
      s'.Sound e ∧ ∀ err, flow ≠ .fail err := by
  rw [importBlock, receiveBlockInner]
  cases hcheck : s.engine.checkBlock block baseException with
  | error err =>
    -- a refused block changes neither the engine nor the counters
    have hsame : ImportState.Sound e { s with offered := s.offered ++ [block] } :=
      ⟨h.sets, h.reached, h.grown, h.untouched⟩
    dsimp only [Option.map_some]
    split
    · rename_i hok
      cases hok
    · exact ⟨_, _, rfl, hsame, by rintro _ ⟨⟩⟩
    · rename_i why herr
      rw [Except.error.inj herr] at hcheck
      exact absurd hcheck (checkBlock_ne_historyPersistence _ _ _ why)
    · exact ⟨_, _, rfl, hsame, by rintro _ ⟨⟩⟩
  | ok _ =>
    obtain ⟨e₁, haccept, hsets⟩ := acceptBlock_keeps h.sets block
    have hround := acceptBlock_currentRound haccept
    rw [haccept]
    refine ⟨_, _, rfl, ⟨hsets, ?_, h.grown, ?_⟩, by rintro _ ⟨⟩⟩
    · show s.reached = e₁.currentRound
      rw [hround, h.reached]
    · intro hzero
      exact absurd hzero (Nat.succ_ne_zero s.inserted)

theorem importBlocks_sound (h : s.Sound e) (baseException : Bool) (l : List DagBlock) :
    ∃ flow s', importBlocks baseException noPersistence l s = some (flow, s') ∧
      s'.Sound e ∧ ∀ err, flow ≠ .fail err := by
  induction l generalizing s with
  | nil => exact ⟨_, _, rfl, h, by rintro _ ⟨⟩⟩
  | cons block rest ih =>
    obtain ⟨flow, s₁, himport, hs₁, hflow⟩ := importBlock_sound h block baseException
    rw [importBlocks, himport]
    cases flow with
    | next => exact ih hs₁
    | halt => exact ⟨_, _, rfl, hs₁, by rintro _ ⟨⟩⟩
    | fail err => exact absurd rfl (hflow err)

theorem importAdvance_sound (h : s.Sound e) (round : Nat) : (importAdvance s round).Sound e := by
  rw [importAdvance]
  split
  · rcases hadvance : s.engine.advanceRound with ⟨advanced, e₁⟩
    cases advanced with
    | true =>
      have hstep : Effect.advance.apply s.engine = some e₁ := by
        rw [Effect.apply, hadvance]
        rfl
      obtain ⟨-, -, rfl⟩ := advance_apply hstep
      have hgrown := h.grown
      have hreached := h.reached
      refine ⟨⟨h.sets.active, h.sets.frozen⟩, rfl, ?_, ?_⟩
      · show e.currentRound ≤ s.engine.currentRound + 1
        omega
      · intro _ heq
        have heq' : s.engine.currentRound + 1 = e.currentRound := heq
        omega
    | false =>
      -- a failed advance returns the engine it was given
      have hsame : e₁ = s.engine := by
        rcases advanceRound_cases (e := s.engine) with heq | hstep
        · rw [hadvance] at heq
          exact heq
        · rw [Effect.apply, hadvance] at hstep
          cases hstep
      subst hsame
      exact h
  · exact h

theorem importRounds_sound (h : s.Sound e) (base : Option Nat) (l : List (Nat × List DagBlock)) :
    ∃ flow s', importRounds base noPersistence l s = some (flow, s') ∧
      s'.Sound e ∧ ∀ err, flow ≠ .fail err := by
  induction l generalizing s with
  | nil => exact ⟨_, _, rfl, h, by rintro _ ⟨⟩⟩
  | cons group rest ih =>
    obtain ⟨round, blocks⟩ := group
    obtain ⟨flow, s₁, himport, hs₁, hflow⟩ := importBlocks_sound h (base == some round) blocks
    rw [importRounds, himport]
    cases flow with
    | next => exact ih (importAdvance_sound hs₁ round)
    | halt => exact ⟨_, _, rfl, hs₁, by rintro _ ⟨⟩⟩
    | fail err => exact absurd rfl (hflow err)

/-- `import_history` returns; an error leaves the engine untouched, and a result is the
    engine's round. -/
theorem importHistory_returns (h : e.SetsValid) (blocks : List DagBlock) (maxRounds : Nat) :
    (∃ err, e.importHistoryPlain blocks maxRounds = some (.error err, e) ∧
      ∀ why, err ≠ .historyPersistence why) ∨
    ∃ e', e.importHistoryPlain blocks maxRounds = some (.ok e'.currentRound, e') := by
  rw [importHistoryPlain, importHistory]
  cases hplan : e.planImport blocks maxRounds with
  | error err =>
    refine .inl ⟨err, rfl, ?_⟩
    rintro why rfl
    exact planImport_ne_historyPersistence e why blocks maxRounds hplan
  | ok byRound =>
    have hstart : ImportState.Sound e ⟨e, e.currentRound, 0, []⟩ :=
      ⟨h, rfl, le_refl _, fun _ _ => rfl⟩
    obtain ⟨flow, s, hrounds, hs, hflow⟩ := importRounds_sound hstart e.openRestartBaseRound byRound
    dsimp only
    rw [hrounds, Option.map_some]
    dsimp only
    split
    · exact absurd rfl (hflow _)
    split
    · rename_i hidle
      left
      rw [hs.untouched hidle.1 hidle.2]
      exact ⟨_, rfl, by rintro _ ⟨⟩⟩
    · right
      rw [hs.reached]
      exact ⟨_, rfl⟩

/-! ## What an import adds -/

variable {blocks : List DagBlock} {effects : List Effect}

/-- `more than total_stake - quorum`: the base-round exception of an import. -/
theorem SupportedBaseBlock.stake_lt {block : DagBlock} (h : e.SupportedBaseBlock blocks block)
    (hvalid : e.validatorSet.Valid) :
    ∃ naming : List DagBlock, (∀ n ∈ naming, n ∈ blocks ∧ n.round = saturatingAdd block.round 1 ∧
        block.hash ∈ n.parents ∧ e.isAuthenticCommitteeBlock n = true) ∧
      e.validatorSet.totalStake - e.validatorSet.quorum <
        (e.validatorSet.tallyAuthors (naming.map (·.author))).2 := by
  obtain ⟨-, naming, hnaming, hstake⟩ := h
  refine ⟨naming, hnaming, lt_of_lt_of_le ?_ hstake⟩
  -- the saturating addition does not saturate: a quorum is at least one unit of stake
  have hfits := hvalid.members.fits
  have hquorum : 0 < e.validatorSet.quorum := by
    rw [hvalid.quorum]
    exact StakeQuorum.supermajority_pos _
  have hmax : 1 ≤ u64Max := by decide
  rw [oneHonest, saturatingAdd, min_eq_left (by omega)]
  exact Nat.lt_succ_self _

/-- A block appears in the DAG by being accepted. -/
theorem exists_accept_of_new {block : DagBlock} {hash : Hash256}
    (hrun : Run Effect.apply (Import e blocks) e effects e')
    (hnew : e.dag.lookup hash ≠ some block) (hheld : e'.dag.lookup hash = some block) :
    ∃ l₁ baseException l₂ m, effects = l₁ ++ .accept block baseException :: l₂ ∧
      Run Effect.apply (Import e blocks) e l₁ m ∧ block ∈ blocks ∧
      (baseException = true → e.SupportedBaseBlock blocks block) ∧
      m.checkBlock block baseException = .ok () := by
  obtain ⟨l₁, effect, l₂, m, m', rfl, hrun₁, hguard, hstep, hbefore, hafter⟩ :=
    hrun.exists_change (P := fun e => e.dag.lookup hash = some block) hnew hheld
  rcases hguard.cases with ⟨b, baseException, rfl, hmem, hbase⟩ | rfl
  · rw [Effect.apply] at hstep
    split at hstep
    · rename_i hcheck
      have hinserts := acceptBlock_inserts hstep
      have hdag : m'.dag = m.dag.insert b.hash b := by
        rw [hinserts.frame]
        rfl
      have hb : b = block := by
        rw [hdag, AssocMap.lookup_insert] at hafter
        split at hafter
        · exact Option.some.inj hafter
        · exact absurd hafter hbefore
      subst hb
      exact ⟨l₁, baseException, l₂, m, rfl, hrun₁, hmem, hbase, hcheck⟩
    · cases hstep
  · obtain ⟨-, -, rfl⟩ := advance_apply hstep
    exact absurd hafter hbefore

/-- A round is passed by an advance taken in it, with a quorum of its authors held. -/
theorem exists_advance_through {round : Nat}
    (hrun : Run Effect.apply (Import e blocks) e effects e') (hfrom : e.currentRound ≤ round)
    (hto : round < e'.currentRound) :
    ∃ l₁ l₂ m, effects = l₁ ++ .advance :: l₂ ∧ Run Effect.apply (Import e blocks) e l₁ m ∧
      m.currentRound = round ∧ m.validatorSet.quorum ≤
        (m.validatorSet.tallyAuthors (m.authorsOf (m.blocksInRound round))).2 := by
  obtain ⟨l₁, effect, l₂, m, m', rfl, hrun₁, hguard, hstep, hbefore, hafter⟩ :=
    hrun.exists_change (P := fun e => round < e.currentRound) (by omega) hto
  rcases hguard.cases with ⟨b, baseException, rfl, -, -⟩ | rfl
  · rw [Effect.apply] at hstep
    split at hstep
    · rw [acceptBlock_currentRound hstep] at hafter
      exact absurd hafter hbefore
    · cases hstep
  · obtain ⟨hquorum, -, rfl⟩ := advance_apply hstep
    have hround : m.currentRound = round := by
      have hafter' : round < m.currentRound + 1 := hafter
      omega
    rw [hround] at hquorum
    rw [hasQuorumParentsForRound, roundParticipationSatisfiesQuorum, Bool.and_eq_true] at hquorum
    exact ⟨l₁, l₂, m, rfl, hrun₁, hround, of_decide_eq_true hquorum.1⟩

/-- **Safety of history import.**  `import_history` returns.  Either it is an error other
    than `HistoryPersistence` and nothing changed, or it is the engine's new round, reached by
    accepting blocks of the batch and advancing: every new block passed the checks of
    `receive_block` when it was accepted, or is a supported base-round block, and every round
    passed held blocks of a quorum of distinct authors when it was left. -/
theorem import_history_safe_and_atomic (hsets : e.SetsValid) (blocks : List DagBlock)
    (maxRounds : Nat) :
    (∃ err, e.importHistoryPlain blocks maxRounds = some (.error err, e) ∧
      ∀ why, err ≠ .historyPersistence why) ∨
    ∃ e' effects, e.importHistoryPlain blocks maxRounds = some (.ok e'.currentRound, e') ∧
      Run Effect.apply (Import e blocks) e effects e' ∧
      (∀ hash block, e.dag.lookup hash ≠ some block → e'.dag.lookup hash = some block →
        ∃ l₁ baseException l₂ m, effects = l₁ ++ .accept block baseException :: l₂ ∧
          Run Effect.apply (Import e blocks) e l₁ m ∧ block ∈ blocks ∧
          (m.checkBlock block false = .ok () ∨
            m.checkBlock block true = .ok () ∧ e.openRestartBaseRound = some block.round ∧
            ∃ naming : List DagBlock,
              (∀ n ∈ naming, n ∈ blocks ∧ n.round = saturatingAdd block.round 1 ∧
                block.hash ∈ n.parents ∧ e.isAuthenticCommitteeBlock n = true) ∧
              e.validatorSet.totalStake - e.validatorSet.quorum <
                (e.validatorSet.tallyAuthors (naming.map (·.author))).2)) ∧
      ∀ round, e.currentRound ≤ round → round < e'.currentRound →
        ∃ l₁ l₂ m, effects = l₁ ++ .advance :: l₂ ∧
          Run Effect.apply (Import e blocks) e l₁ m ∧ m.currentRound = round ∧
          m.validatorSet.quorum ≤
            (m.validatorSet.tallyAuthors (m.authorsOf (m.blocksInRound round))).2 := by
  rcases importHistory_returns hsets blocks maxRounds with hrefused | ⟨e', himport⟩
  · exact .inl hrefused
  · obtain ⟨effects, hrun⟩ := importHistory_effects himport
    refine .inr ⟨e', effects, himport, hrun, ?_, ?_⟩
    · intro hash block hnew hheld
      obtain ⟨l₁, baseException, l₂, m, heffects, hrun₁, hmem, hbase, hcheck⟩ :=
        exists_accept_of_new hrun hnew hheld
      refine ⟨l₁, baseException, l₂, m, heffects, hrun₁, hmem, ?_⟩
      cases baseException with
      | false => exact .inl hcheck
      | true =>
        have hsupported := hbase rfl
        exact .inr ⟨hcheck, hsupported.1, hsupported.stake_lt hsets.active⟩
    · intro round hfrom hto
      exact exists_advance_through hrun hfrom hto

end ConsensusEngine

namespace SampleImport

/-- Three core validators; a quorum is all of them. -/
def set : ValidatorSet :=
  ⟨[⟨⟨1⟩, 50000000, .core, 0⟩, ⟨⟨2⟩, 50000000, .core, 0⟩, ⟨⟨3⟩, 50000000, .core, 0⟩], 150000000,
    1, 100000001, 0, []⟩

theorem set_valid : set.Valid := ⟨⟨by decide, by decide, by decide, by decide⟩, by decide⟩

/-- A block of round 0, as a keyless engine accepts it. -/
def block (author : Address) : DagBlock :=
  letI := concreteCrypto
  let block : DagBlock :=
    { author, round := 0, parents := [], transactions := [], timestamp := 0
      hash := Hash256.zero, signature := []
      orderingCommitment := DagBlock.computeOrderingCommitment [] }
  { block with hash := block.hashFor none }

def history : List DagBlock := [block ⟨1⟩, block ⟨2⟩, block ⟨3⟩]

end SampleImport

open SampleImport ConsensusEngine in
/-- A whole round is imported, and left with the quorum it was imported with. -/
theorem import_history_safe_and_atomic_history :
    letI := concreteCrypto
    ∃ e' effects, (ConsensusEngine.new set ⟨1⟩ none).importHistoryPlain history 8 =
        some (.ok 1, e') ∧
      ∃ l₁ l₂ m, effects = l₁ ++ .advance :: l₂ ∧
        Run Effect.apply (Import (ConsensusEngine.new set ⟨1⟩ none) history)
          (ConsensusEngine.new set ⟨1⟩ none) l₁ m ∧
        m.validatorSet.quorum ≤
          (m.validatorSet.tallyAuthors (m.authorsOf (m.blocksInRound 0))).2 := by
  let _ : Crypto := concreteCrypto
  have himport : ((ConsensusEngine.new set ⟨1⟩ none).importHistoryPlain history 8).map
      (fun r => (r.1.toOption, r.2.currentRound)) = some (some 1, 1) := by
    decide +kernel
  have hsets : (ConsensusEngine.new set ⟨1⟩ none).SetsValid := ⟨set_valid, set_valid⟩
  rcases import_history_safe_and_atomic hsets history 8 with
    ⟨err, herr, -⟩ | ⟨e', effects, hok, -, -, hrounds⟩
  · rw [herr] at himport
    exact absurd himport (by simp [Except.toOption])
  · rw [hok] at himport
    have hround : e'.currentRound = 1 := (Prod.mk.inj (Option.some.inj himport)).2
    obtain ⟨l₁, l₂, m, heffects, hrun, -, hquorum⟩ := hrounds 0 (le_refl _) (by rw [hround]; decide)
    rw [hround] at hok
    exact ⟨e', effects, hok, l₁, l₂, m, heffects, hrun, hquorum⟩

end ArcChain
