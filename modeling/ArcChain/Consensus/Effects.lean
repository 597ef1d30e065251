/-
The engine's public operations (`EngineOp`) and the elementary changes they
are made of (`Effect`): one block inserted, one round advanced, one scan of
the commit rule, one prune.  Every operation is a run of effects
(`EngineOp.exists_effects` and the lemmas before it, which say which
effects an operation may have), so what an invariant has to survive is
stated once, effect by effect.
-/
import ArcChain.Consensus.Commit
import ArcChain.Consensus.History
import ArcChain.Consensus.MembershipSound

namespace ArcChain

open Word List Option

namespace ConsensusEngine

variable [Crypto]

variable {P : ConsensusEngine → Effect → Prop}

/-! ## Operations -/

/-- Operations on everything but the DAG. -/
inductive ConfigOp where
  | setRestartBaseRound (round : Nat)
  | closeRestartBaseRound
  | registerSkipCertificate (certificate : SkipCertificate)
  | registerFinalityCertificate (certificate : FinalityCertificate)
  | installConsensusDomain (domain : ConsensusDomain)
  | installRecoveryCursor (sourceConsensusRound : Nat)
  | restoreRoundFromLocalWal (round committed : Nat)
  | setRetainedRounds (rounds : Nat)
  | registerValidatorKey (address : Address) (ed25519Pubkey : List UInt8)
  | membership (op : MembershipOp)

/-- The engine after a configuration operation; received blocks are not among them. -/
def ConfigOp.apply (e : ConsensusEngine) : ConfigOp → Option ConsensusEngine
  | .setRestartBaseRound round => some (e.setRestartBaseRound round).2
  | .closeRestartBaseRound => some e.closeRestartBaseRound
  | .registerSkipCertificate certificate => some (e.registerSkipCertificate certificate).2
  | .registerFinalityCertificate certificate => some (e.registerFinalityCertificate certificate).2
  | .installConsensusDomain domain => some (e.installConsensusDomain domain).2
  | .installRecoveryCursor source => some (e.installRecoveryCursor source).2
  | .restoreRoundFromLocalWal round committed =>
    some (e.restoreRoundFromLocalWal round committed)
  | .setRetainedRounds rounds => some (e.setRetainedRounds rounds)
  | .registerValidatorKey address key => some (e.registerValidatorKey address key)
  | .membership (.receiveBlock _) => none
  | .membership op => (op.apply e).map (·.2)

inductive EngineOp where
  | proposeBlock (transactions : List Hash256) (timestamp : Nat)
  | receiveBlock (block : DagBlock)
  | importHistory (blocks : List DagBlock) (maxRounds : Nat)
      (persist : List DagBlock → DagBlock → Except ConsensusError Unit)
  | advanceRound
  | forceAdvanceRound
  | tryCommit
  | pruneOldRounds
  | pruneBelowRound (committedRound : Nat)
  | rebaseTo (anchorRound : Nat)
  | config (op : ConfigOp)

/-- What an operation leaves: the engine, the block it proposed and those it committed. -/
structure OpResult where
  engine : ConsensusEngine
  proposed : List DagBlock
  committed : List DagBlock

/-- One public operation; `none` is a panic. -/
def EngineOp.apply (e : ConsensusEngine) : EngineOp → Option OpResult
  | .proposeBlock transactions timestamp =>
    match e.proposeBlock transactions timestamp with
    | (.ok block, e) => some ⟨e, [block], []⟩
    | (.error _, e) => some ⟨e, [], []⟩
  | .receiveBlock block => (e.receiveBlock block).map fun r => ⟨r.2, [], []⟩
  | .importHistory blocks maxRounds persist =>
    (e.importHistory blocks maxRounds persist).map fun r => ⟨r.2, [], []⟩
  | .advanceRound => some ⟨e.advanceRound.2, [], []⟩
  | .forceAdvanceRound => some ⟨e.forceAdvanceRound, [], []⟩
  | .tryCommit => e.tryCommit.map fun r => ⟨r.2, [], r.1⟩
  | .pruneOldRounds => some ⟨e.pruneOldRounds, [], []⟩
  | .pruneBelowRound committedRound => some ⟨(e.pruneBelowRound committedRound).2, [], []⟩
  | .rebaseTo anchorRound => some ⟨(e.rebaseTo anchorRound).2, [], []⟩
  | .config op => (op.apply e).map fun e => ⟨e, [], []⟩

/-! ## Effects -/

/-- The scan of the commit rule from the cursor. -/
def scan (e : ConsensusEngine) (maximumBlocks : Option Nat) : List DagBlock × Nat :=
  let scanEnd := e.currentRound - 2
  e.scanRounds maximumBlocks scanEnd (scanEnd + 1 - e.lastCommittedRound) e.lastCommittedRound []

/-- What `try_commit_limited` stores after its scan. -/
def recordScan (e : ConsensusEngine) (scan : List DagBlock × Nat) : ConsensusEngine :=
  { e with
    lastCommittedRound := scan.2
    committed := appendCommitted e.committed scan.1 }

inductive Effect where
  | propose (transactions : List Hash256) (timestamp : Nat)
  | accept (block : DagBlock) (baseException : Bool)
  | advance
  | forceAdvance
  | scan (maximumBlocks : Option Nat)
  | slashWithholders (maxRound : Nat)
  | prune (below : Nat)
  | forgetSkips (below : Nat)
  | rebase (anchorRound : Nat)
  | config (op : ConfigOp)

/-- The engine after an effect; `none` if the engine's checks refuse it. -/
def Effect.apply (e : ConsensusEngine) : Effect → Option ConsensusEngine
  | .propose transactions timestamp =>
    match e.proposal transactions timestamp with
    | .ok block => some (e.recordProposal block)
    | .error _ => none
  | .accept block baseException =>
    match e.checkBlock block baseException with
    | .ok () => e.acceptBlock block
    | .error _ => none
  | .advance => if e.advanceRound.1 then some e.advanceRound.2 else none
  | .forceAdvance => some e.forceAdvanceRound
  | .scan maximumBlocks => some (e.recordScan (e.scan maximumBlocks))
  | .slashWithholders maxRound => e.slashWithholders maxRound
  | .prune below => some (e.pruneRounds below)
  | .forgetSkips below =>
    some { e with
      skipCertificates := AssocMap.retain (fun key _ => decide (key.1 ≥ below))
        e.skipCertificates }
  | .rebase anchorRound =>
    match e.checkRebase anchorRound with
    | .ok cursor => some (e.rebaseAt cursor)
    | .error _ => none
  | .config op => op.apply e

/-- The effects allowed by `P` lead from one engine to the other. -/
def Effects (P : ConsensusEngine → Effect → Prop) (e e' : ConsensusEngine) : Prop :=
  ∃ effects, Run Effect.apply P e effects e'

theorem Effects.refl (e : ConsensusEngine) : Effects P e e := ⟨[], .nil e⟩

variable {e e' : ConsensusEngine}

theorem Effects.one (effect : Effect) (hP : P e effect)
    (h : effect.apply e = some e') : Effects P e e' :=
  ⟨[effect], .single hP h⟩

theorem Effects.trans {e'' : ConsensusEngine} (h : Effects P e e') (h' : Effects P e' e'') :
    Effects P e e'' := by
  obtain ⟨l, hl⟩ := h
  obtain ⟨l', hl'⟩ := h'
  exact ⟨l ++ l', hl.append hl'⟩

theorem Effects.mono {Q : ConsensusEngine → Effect → Prop}
    (hPQ : ∀ e effect, P e effect → Q e effect) (h : Effects P e e') : Effects Q e e' := by
  obtain ⟨l, hl⟩ := h
  exact ⟨l, hl.mono hPQ⟩

/-! ## Which effects an operation has -/

variable {e e' : ConsensusEngine}

variable {block : DagBlock} {baseException : Bool} {r : Except ConsensusError Unit}

theorem receiveBlockInner_cases {persist : DagBlock → Except ConsensusError Unit}
    (h : e.receiveBlockInner block baseException persist = some (r, e')) :
    e' = e ∨ (Effect.accept block baseException).apply e = some e' := by
  rw [receiveBlockInner] at h
  split at h
  · obtain rfl := congrArg Prod.snd (some.inj h)
    exact .inl rfl
  rename_i hcheck
  split at h
  · obtain rfl := congrArg Prod.snd (some.inj h)
    exact .inl rfl
  obtain ⟨e₁, haccept, heq⟩ := map_eq_some_iff.mp h
  obtain rfl := congrArg Prod.snd heq
  right
  rw [Effect.apply, hcheck]
  exact haccept

theorem receiveBlock_cases (h : e.receiveBlock block = some (r, e')) :
    e' = e ∨ (Effect.accept block false).apply e = some e' :=
  receiveBlockInner_cases h

/-- A proposal that fails changes nothing. -/
theorem proposeBlock_cases {transactions : List Hash256} {timestamp : Nat}
    {r : Except ConsensusError DagBlock} (h : e.proposeBlock transactions timestamp = (r, e')) :
    (∃ err, r = .error err ∧ e' = e) ∨
      ∃ block, r = .ok block ∧ e.proposal transactions timestamp = .ok block ∧
        e' = e.recordProposal block := by
  rw [proposeBlock] at h
  split at h
  · obtain ⟨rfl, rfl⟩ := Prod.mk.inj h
    exact .inl ⟨_, rfl, rfl⟩
  · rename_i block hproposal
    obtain ⟨rfl, rfl⟩ := Prod.mk.inj h
    exact .inr ⟨block, rfl, hproposal, rfl⟩

theorem advanceRound_cases :
    e.advanceRound.2 = e ∨ Effect.advance.apply e = some e.advanceRound.2 := by
  rw [Effect.apply]
  split
  · exact .inr rfl
  rename_i hno
  left
  -- a failed advance returns the engine it was given
  revert hno
  rw [advanceRound]
  split
  · split
    · exact fun _ => rfl
    · exact fun hno => absurd rfl hno
  · exact fun _ => rfl

/-- A round is advanced when it has a quorum of authors and the cursor can grow. -/
theorem advance_apply (h : Effect.advance.apply e = some e') :
    e.hasQuorumParentsForRound e.currentRound = true ∧ e.currentRound + 1 ≤ u64Max ∧
      e' = { e with currentRound := e.currentRound + 1 } := by
  rw [Effect.apply] at h
  split at h
  · rename_i hyes
    obtain rfl := some.inj h
    revert hyes
    rw [advanceRound]
    split
    · rename_i hquorum
      split
      · exact nofun
      · rename_i newRound hadd
        obtain ⟨rfl, hle⟩ := checkedAdd_eq_some.mp hadd
        exact fun _ => ⟨hquorum, hle, rfl⟩
    · exact nofun
  · cases h

theorem rebaseTo_cases (anchorRound : Nat) : (e.rebaseTo anchorRound).2 = e ∨
      (Effect.rebase anchorRound).apply e = some (e.rebaseTo anchorRound).2 := by
  rw [Effect.apply, rebaseTo]
  cases e.checkRebase anchorRound with
  | error err => exact .inl rfl
  | ok cursor => exact .inr rfl

variable {anchorRound maxRounds : Nat}

theorem rebase_apply (h : (Effect.rebase anchorRound).apply e = some e') :
    ∃ cursor, e.checkRebase anchorRound = .ok cursor ∧ e' = e.rebaseAt cursor := by
  rw [Effect.apply] at h
  split at h
  · rename_i cursor hcheck
    exact ⟨cursor, hcheck, (some.inj h).symm⟩
  · cases h

/-- A rebase moves the cursor forward, to the round after its anchor. -/
theorem checkRebase_eq_ok {cursor : Nat} (h : e.checkRebase anchorRound = .ok cursor) :
    cursor = anchorRound + 1 ∧ cursor ≤ u64Max ∧ e.recoveryBootstrapRound = none ∧
      e.lastCommittedRound < cursor := by
  rw [checkRebase] at h
  split at h
  · cases h
  rename_i c hadd
  obtain ⟨rfl, hmax⟩ := checkedAdd_eq_some.mp hadd
  simp only [check_eq_ok] at h
  obtain ⟨hrecovery, hforward, h⟩ := h
  obtain rfl := Except.ok.inj h
  exact ⟨rfl, hmax, not_isSome_iff_eq_none.mp hrecovery, not_le.mp hforward⟩

/-- The cutoff of `prune_below_round`. -/
theorem pruneBelowRound_cases (committedRound : Nat) : (e.pruneBelowRound committedRound).2 = e ∨
      ∃ below e₁, below + e.retainedRounds = committedRound ∧
        (Effect.prune below).apply e = some e₁ ∧
        (Effect.forgetSkips below).apply e₁ = some (e.pruneBelowRound committedRound).2 := by
  rw [pruneBelowRound]
  split
  · exact .inl rfl
  · rename_i hle
    exact .inr ⟨_, _, Nat.sub_add_cancel (not_lt.mp hle), rfl, rfl⟩

/-- The effects of the maintenance after a scan that committed `out`. -/
def Maintenance (out : List DagBlock) (e : ConsensusEngine) : Effect → Prop
  | .slashWithholders _ => True
  | .prune below => below ≤ min e.currentRound e.lastCommittedRound ∨
      ∃ b ∈ out, below + e.retainedRounds ≤ b.round
  | .forgetSkips _ => True
  | _ => False

variable {out : List DagBlock} {effect : Effect}

theorem Maintenance.cases (h : Maintenance out e effect) :
    (∃ maxRound, effect = .slashWithholders maxRound) ∨
      (∃ below, effect = .prune below ∧ (below ≤ min e.currentRound e.lastCommittedRound ∨
        ∃ b ∈ out, below + e.retainedRounds ≤ b.round)) ∨
      ∃ below, effect = .forgetSkips below := by
  cases effect with
  | slashWithholders maxRound => exact .inl ⟨maxRound, rfl⟩
  | prune below => exact .inr (.inl ⟨below, rfl, h⟩)
  | forgetSkips below => exact .inr (.inr ⟨below, rfl⟩)
  | propose | accept | advance | forceAdvance | scan | rebase | config => exact absurd h id

theorem pruneOldRounds_effects (out : List DagBlock) :
    Effects (Maintenance out) e e.pruneOldRounds := by
  rw [pruneOldRounds]
  split
  · exact .refl e
  rename_i hlt
  refine .one (.prune e.oldRoundsCutoff) (.inl ?_) rfl
  rw [oldRoundsCutoff, if_neg hlt]
  omega

theorem maintainAfterCommit_effects {maxRound : Nat}
    (hmax : ∃ b ∈ out, b.round = maxRound) (h : e.maintainAfterCommit maxRound = some e') :
    Effects (Maintenance out) e e' := by
  obtain ⟨e₁, hslash, rfl⟩ := map_eq_some_iff.mp h
  have h₁ : Effects (Maintenance out) e e₁ := by
    split at hslash
    · exact .one (.slashWithholders maxRound) trivial hslash
    · obtain rfl := some.inj hslash
      exact .refl _
  have h₂ := h₁.trans (pruneOldRounds_effects out)
  apply h₂.trans
  rcases pruneBelowRound_cases (e := e₁.pruneOldRounds) maxRound with heq | ⟨below, e₂, hbelow, hp, hf⟩
  · rw [heq]
    exact .refl _
  · obtain ⟨b, hb, rfl⟩ := hmax
    exact (Effects.one (.prune below) (.inr ⟨b, hb, le_of_eq hbelow⟩) hp).trans
      (.one (.forgetSkips below) trivial hf)

/-- What `try_commit` does: nothing, or one scan and the maintenance after it. -/
theorem tryCommit_cases (h : e.tryCommit = some (out, e')) :
    (out = [] ∧ e' = e) ∨ (e.frozenValidatorSet.epoch ≠ 0 ∧ 2 ≤ e.currentRound ∧
      out = (e.scan none).1 ∧ Effects (Maintenance out) (e.recordScan (e.scan none)) e') := by
  rw [tryCommit, tryCommitLimited] at h
  split at h
  · obtain ⟨rfl, rfl⟩ := Prod.mk.inj (some.inj h)
    exact .inl ⟨rfl, rfl⟩
  rename_i hepoch
  split at h
  · obtain ⟨rfl, rfl⟩ := Prod.mk.inj (some.inj h)
    exact .inl ⟨rfl, rfl⟩
  rename_i hround
  have hround' : 2 ≤ e.currentRound := not_lt.mp hround
  right
  refine ⟨hepoch, hround', ?_⟩
  rw [if_neg (by decide)] at h
  split at h
  · obtain ⟨rfl, rfl⟩ := Prod.mk.inj (some.inj h)
    exact ⟨rfl, .refl _⟩
  rename_i maxRound hmax
  obtain ⟨e₁, hmaintain, heq⟩ := map_eq_some_iff.mp h
  obtain ⟨rfl, rfl⟩ := Prod.mk.inj heq
  refine ⟨rfl, maintainAfterCommit_effects ?_ hmaintain⟩
  obtain ⟨b, hb, hbr⟩ := mem_map.mp (List.max?_mem hmax)
  exact ⟨b, hb, hbr⟩

/-! ## Importing history -/

/-- The blocks of a group come from the batch and are of the group's round. -/
def GroupFrom (blocks : List DagBlock) (group : Nat × List DagBlock) : Prop :=
  ∀ b ∈ group.2, b ∈ blocks ∧ b.round = group.1

variable {blocks : List DagBlock}

omit [Crypto] in
theorem groupByRound_from {group : Nat × List DagBlock}
    (h : group ∈ groupByRound blocks) : GroupFrom blocks group := by
  obtain ⟨round, -, rfl⟩ := mem_map.mp h
  intro b hb
  obtain ⟨hmem, hround⟩ := mem_filter.mp hb
  exact ⟨hmem, of_decide_eq_true hround⟩

variable {byRound : List (Nat × List DagBlock)}

omit [Crypto] in
theorem roundBlocks_mem {round : Nat} (h : roundBlocks byRound round = some blocks) :
    (round, blocks) ∈ byRound := by
  obtain ⟨group, hfind, rfl⟩ := map_eq_some_iff.mp h
  have htest := List.find?_some hfind
  have hround : group.1 = round := by simpa using htest
  rw [← hround]
  exact mem_of_find?_eq_some hfind

/-- A block of the open restart base round that authentic blocks of the batch name, one
    round up, with more stake than the Byzantine bound. -/
def SupportedBaseBlock (e : ConsensusEngine) (blocks : List DagBlock) (block : DagBlock) : Prop :=
  e.openRestartBaseRound = some block.round ∧ ∃ naming : List DagBlock,
    (∀ n ∈ naming, n ∈ blocks ∧ n.round = saturatingAdd block.round 1 ∧ block.hash ∈ n.parents ∧
      e.isAuthenticCommitteeBlock n = true) ∧
    oneHonest e.validatorSet ≤ (e.validatorSet.tallyAuthors (naming.map (·.author))).2

theorem supportedBase_spec {blocks baseBlocks : List DagBlock}
    (hfrom : ∀ g ∈ byRound, GroupFrom blocks g)
    (hbase : e.openRestartBaseRound = some block.round)
    (h : block ∈ e.supportedBase byRound block.round baseBlocks) :
    e.SupportedBaseBlock blocks block := by
  obtain ⟨-, hstake⟩ := mem_filter.mp h
  refine ⟨hbase, _, ?_, of_decide_eq_true hstake⟩
  intro n hn
  obtain ⟨hnext, hnames⟩ := mem_filter.mp hn
  obtain ⟨hmem, hauthentic⟩ := mem_filter.mp hnext
  cases hround : roundBlocks byRound (saturatingAdd block.round 1) with
  | none =>
    rw [hround] at hmem
    exact absurd hmem not_mem_nil
  | some next =>
    rw [hround] at hmem
    have hn' := hfrom _ (roundBlocks_mem hround) n hmem
    exact ⟨hn'.1, hn'.2, of_decide_eq_true hnames, hauthentic⟩

/-- A group that may be imported. -/
def GroupAllowed (e : ConsensusEngine) (blocks : List DagBlock) (group : Nat × List DagBlock) :
    Prop :=
  GroupFrom blocks group ∧
    (e.openRestartBaseRound = some group.1 → ∀ b ∈ group.2, e.SupportedBaseBlock blocks b)

theorem cutAtBase_spec {kept : List (Nat × List DagBlock)}
    (h : e.cutAtBase (groupByRound blocks) = .ok kept) :
    ∀ g ∈ kept, e.GroupAllowed blocks g := by
  rw [cutAtBase] at h
  split at h
  · rename_i hnone
    obtain rfl := Except.ok.inj h
    intro g hg
    refine ⟨groupByRound_from hg, ?_⟩
    rw [hnone]
    exact nofun
  · rename_i base hbase
    have hfrom : ∀ g ∈ (groupByRound blocks).filter fun group => group.1 ≥ base,
        GroupFrom blocks g := fun g hg => groupByRound_from (mem_filter.mp hg).1
    dsimp only at h
    split at h
    · cases h
    split at h
    · -- nothing at the base round
      rename_i hnone
      obtain rfl := Except.ok.inj h
      intro g hg
      refine ⟨hfrom g hg, ?_⟩
      intro hopen b hb
      rw [hbase] at hopen
      have hg1 : g.1 = base := (some.inj hopen).symm
      rw [roundBlocks, map_eq_none_iff] at hnone
      exact absurd (decide_eq_true hg1) (List.find?_eq_none.mp hnone g hg)
    · rename_i baseBlocks hround
      split at h
      · cases h
      obtain rfl := Except.ok.inj h
      intro g hg
      obtain ⟨g', hg', rfl⟩ := mem_map.mp hg
      split
      · have hbaseFrom := hfrom _ (roundBlocks_mem hround)
        have hsub : ∀ b ∈ e.supportedBase ((groupByRound blocks).filter fun group =>
            group.1 ≥ base) base baseBlocks, b ∈ blocks ∧ b.round = base :=
          fun b hb => hbaseFrom b (mem_filter.mp hb).1
        refine ⟨fun b hb => hsub b hb, ?_⟩
        intro _ b hb
        have hb' : b.round = base := (hsub b hb).2
        subst hb'
        exact supportedBase_spec hfrom hbase hb
      · rename_i hne
        refine ⟨hfrom g' hg', ?_⟩
        intro hopen
        rw [hbase] at hopen
        exact absurd (some.inj hopen).symm hne

theorem planImport_spec
    {groups : List (Nat × List DagBlock)} (h : e.planImport blocks maxRounds = .ok groups) :
    ∀ g ∈ groups, e.GroupAllowed blocks g := by
  rw [planImport, check_eq_ok] at h
  obtain ⟨-, h⟩ := h
  split at h
  · cases h
  rename_i kept hcut
  have hkept := cutAtBase_spec hcut
  simp only [check_eq_ok] at h
  obtain ⟨-, -, h⟩ := h
  split at h
  · cases h
  split at h
  · cases h
  · obtain rfl := Except.ok.inj h
    intro g hg
    exact hkept g ((List.takeWhile_prefix _).subset hg)

/-- The effects of importing `blocks` into `e₀`. -/
def Import (e₀ : ConsensusEngine) (blocks : List DagBlock) (_ : ConsensusEngine) : Effect → Prop
  | .accept block baseException => block ∈ blocks ∧
      (baseException = true → e₀.SupportedBaseBlock blocks block)
  | .advance => True
  | _ => False

theorem Import.cases {e₀ : ConsensusEngine} (h : Import e₀ blocks e effect) :
    (∃ block baseException, effect = .accept block baseException ∧ block ∈ blocks ∧
      (baseException = true → e₀.SupportedBaseBlock blocks block)) ∨ effect = .advance := by
  cases effect with
  | accept block baseException => exact .inl ⟨block, baseException, rfl, h⟩
  | advance => exact .inr rfl
  | propose | forceAdvance | scan | slashWithholders | prune | forgetSkips | rebase | config =>
    exact absurd h id

variable {e₀ : ConsensusEngine} {blocks : List DagBlock}
  {persist : List DagBlock → DagBlock → Except ConsensusError Unit}

variable {s s' : ImportState} {flow : ImportFlow}

theorem importBlock_effects (hmem : block ∈ blocks)
    (hbase : baseException = true → e₀.SupportedBaseBlock blocks block)
    (h : importBlock s block baseException persist = some (flow, s')) :
    Effects (Import e₀ blocks) s.engine s'.engine := by
  obtain ⟨⟨r, e₁⟩, hreceive, heq⟩ := map_eq_some_iff.mp h
  have hengine : s'.engine = e₁ := by
    split at heq <;> obtain ⟨-, rfl⟩ := Prod.mk.inj heq <;> rfl
  rw [hengine]
  rcases receiveBlockInner_cases hreceive with rfl | haccept
  · exact .refl _
  · exact .one (.accept block baseException) ⟨hmem, hbase⟩ haccept

theorem importBlocks_effects {l : List DagBlock} (hmem : ∀ b ∈ l, b ∈ blocks)
    (hbase : baseException = true → ∀ b ∈ l, e₀.SupportedBaseBlock blocks b)
    (h : importBlocks baseException persist l s = some (flow, s')) :
    Effects (Import e₀ blocks) s.engine s'.engine := by
  induction l generalizing s with
  | nil =>
    obtain ⟨-, rfl⟩ := Prod.mk.inj (some.inj h)
    exact .refl _
  | cons b rest ih =>
    rw [importBlocks] at h
    have hb : b ∈ blocks := hmem b mem_cons_self
    have hb' : baseException = true → e₀.SupportedBaseBlock blocks b :=
      fun heq => hbase heq b mem_cons_self
    split at h
    · cases h
    · rename_i s₁ himport
      exact (importBlock_effects hb hb' himport).trans
        (ih (fun c hc => hmem c (mem_cons_of_mem _ hc))
          (fun heq c hc => hbase heq c (mem_cons_of_mem _ hc)) h)
    · rename_i flow' s₁ _ himport
      obtain ⟨-, rfl⟩ := Prod.mk.inj (some.inj h)
      exact importBlock_effects hb hb' himport

theorem importAdvance_effects (s : ImportState) (round : Nat) :
    Effects (Import e₀ blocks) s.engine (importAdvance s round).engine := by
  have hadvance : Effects (Import e₀ blocks) s.engine s.engine.advanceRound.2 := by
    rcases advanceRound_cases (e := s.engine) with heq | hstep
    · rw [heq]
      exact .refl _
    · exact .one .advance trivial hstep
  rw [importAdvance]
  split
  · split
    · rename_i e₁ heq
      rw [heq] at hadvance
      exact hadvance
    · rename_i e₁ heq
      rw [heq] at hadvance
      exact hadvance
  · exact .refl _

theorem importRounds_effects {l : List (Nat × List DagBlock)}
    (hl : ∀ g ∈ l, e₀.GroupAllowed blocks g)
    (h : importRounds e₀.openRestartBaseRound persist l s = some (flow, s')) :
    Effects (Import e₀ blocks) s.engine s'.engine := by
  induction l generalizing s with
  | nil =>
    obtain ⟨-, rfl⟩ := Prod.mk.inj (some.inj h)
    exact .refl _
  | cons g rest ih =>
    obtain ⟨round, group⟩ := g
    obtain ⟨hfrom, hsupported⟩ := hl _ mem_cons_self
    have hblocks : ∀ {flow s'}, importBlocks (e₀.openRestartBaseRound == some round) persist
        group s = some (flow, s') → Effects (Import e₀ blocks) s.engine s'.engine :=
      importBlocks_effects (fun b hb => (hfrom b hb).1) fun heq => hsupported (eq_of_beq heq)
    rw [importRounds] at h
    split at h
    · cases h
    · rename_i s₁ himport
      exact ((hblocks himport).trans (importAdvance_effects s₁ round)).trans
        (ih (fun g hg => hl g (mem_cons_of_mem _ hg)) h)
    · rename_i flow' s₁ _ himport
      obtain ⟨-, rfl⟩ := Prod.mk.inj (some.inj h)
      exact hblocks himport

/-- What `import_history` does: blocks accepted from the batch, rounds advanced. -/
theorem importHistory_effects {r : Except ConsensusError Nat}
    (h : e.importHistory blocks maxRounds persist = some (r, e')) :
    Effects (Import e blocks) e e' := by
  rw [importHistory] at h
  split at h
  · obtain ⟨-, rfl⟩ := Prod.mk.inj (some.inj h)
    exact .refl _
  rename_i groups hplan
  obtain ⟨⟨flow, s⟩, hrounds, heq⟩ := map_eq_some_iff.mp h
  have hengine : s.engine = e' := by
    split at heq
    · exact congrArg Prod.snd heq
    · split at heq <;> exact congrArg Prod.snd heq
  rw [← hengine]
  exact importRounds_effects (planImport_spec hplan) hrounds

/-! ## All operations -/

/-- The effects that an operation performs when it starts in `e₀`. -/
def EngineOp.Performs (e₀ : ConsensusEngine) : EngineOp → ConsensusEngine → Effect → Prop
  | .proposeBlock transactions timestamp, e, effect =>
    e = e₀ ∧ effect = .propose transactions timestamp
  | .receiveBlock block, _, effect => effect = .accept block false
  | .importHistory blocks _ _, e, effect => Import e₀ blocks e effect
  | .advanceRound, _, effect => effect = .advance
  | .forceAdvanceRound, _, effect => effect = .forceAdvance
  | .tryCommit, e, effect =>
    (e = e₀ ∧ effect = .scan none) ∨ Maintenance (e₀.scan none).1 e effect
  | .pruneOldRounds, e, effect => Maintenance [] e effect
  | .pruneBelowRound committedRound, e, effect =>
    (∃ below, below + e.retainedRounds = committedRound ∧ effect = .prune below) ∨
      ∃ below, effect = .forgetSkips below
  | .rebaseTo anchorRound, _, effect => effect = .rebase anchorRound
  | .config op, _, effect => effect = .config op

variable {op : EngineOp} {r : OpResult}

/-- Only a successful proposal returns a proposed block. -/
theorem proposed_cases (h : op.apply e = some r) : (r.proposed = [] ∧ ∀ transactions timestamp,
      op = .proposeBlock transactions timestamp → r = ⟨e, [], []⟩) ∨
      ∃ transactions timestamp block, op = .proposeBlock transactions timestamp ∧
        e.proposal transactions timestamp = .ok block ∧
        r = ⟨e.recordProposal block, [block], []⟩ := by
  cases op with
  | proposeBlock transactions timestamp =>
    rw [EngineOp.apply] at h
    split at h
    · rename_i block e₁ hpropose
      obtain rfl := some.inj h
      rcases proposeBlock_cases hpropose with ⟨err, herr, -⟩ | ⟨b, hb, hproposal, rfl⟩
      · cases herr
      · obtain rfl := Except.ok.inj hb
        exact .inr ⟨transactions, timestamp, block, rfl, hproposal, rfl⟩
    · rename_i err e₁ hpropose
      obtain rfl := some.inj h
      rcases proposeBlock_cases hpropose with ⟨err, -, rfl⟩ | ⟨b, hb, -⟩
      · exact .inl ⟨rfl, fun _ _ _ => rfl⟩
      · cases hb
  | receiveBlock | importHistory | tryCommit | config =>
    obtain ⟨_, -, rfl⟩ := map_eq_some_iff.mp h
    exact .inl ⟨rfl, nofun⟩
  | advanceRound | forceAdvanceRound | pruneOldRounds | pruneBelowRound | rebaseTo =>
    obtain rfl := some.inj h
    exact .inl ⟨rfl, nofun⟩

/-- **Every operation is a run of its effects.** -/
theorem EngineOp.exists_effects (h : op.apply e = some r) : Effects (op.Performs e) e r.engine := by
  cases op with
  | proposeBlock transactions timestamp =>
    rcases proposed_cases h with ⟨-, hfailed⟩ | ⟨_, _, block, hop, hproposal, rfl⟩
    · rw [hfailed _ _ rfl]
      exact .refl _
    · cases hop
      refine .one (.propose transactions timestamp) ⟨rfl, rfl⟩ ?_
      rw [Effect.apply, hproposal]
  | receiveBlock block =>
    obtain ⟨⟨res, e₁⟩, hreceive, rfl⟩ := map_eq_some_iff.mp h
    rcases receiveBlock_cases hreceive with rfl | haccept
    · exact .refl _
    · exact .one (.accept block false) rfl haccept
  | importHistory blocks maxRounds persist =>
    obtain ⟨⟨res, e₁⟩, himport, rfl⟩ := map_eq_some_iff.mp h
    exact importHistory_effects himport
  | advanceRound =>
    obtain rfl := some.inj h
    rcases advanceRound_cases (e := e) with heq | hadvance
    · rw [heq]
      exact .refl _
    · exact .one .advance rfl hadvance
  | forceAdvanceRound =>
    obtain rfl := some.inj h
    exact .one .forceAdvance rfl rfl
  | tryCommit =>
    obtain ⟨⟨out, e₁⟩, hcommit, rfl⟩ := map_eq_some_iff.mp h
    rcases tryCommit_cases hcommit with ⟨-, rfl⟩ | ⟨-, -, rfl, heffects⟩
    · exact .refl _
    · exact (Effects.one (.scan none) (.inl ⟨rfl, rfl⟩) rfl).trans
        (heffects.mono fun _ _ hmaintenance => .inr hmaintenance)
  | pruneOldRounds =>
    obtain rfl := some.inj h
    exact pruneOldRounds_effects []
  | pruneBelowRound committedRound =>
    obtain rfl := some.inj h
    rcases pruneBelowRound_cases (e := e) committedRound with heq | ⟨below, e₁, hbelow, hp, hf⟩
    · rw [heq]
      exact .refl _
    · exact (Effects.one (.prune below) (.inl ⟨below, hbelow, rfl⟩) hp).trans
        (.one (.forgetSkips below) (.inr ⟨below, rfl⟩) hf)
  | rebaseTo anchorRound =>
    obtain rfl := some.inj h
    rcases rebaseTo_cases (e := e) anchorRound with heq | hrebase
    · rw [heq]
      exact .refl _
    · exact .one (.rebase anchorRound) rfl hrebase
  | config op =>
    obtain ⟨e₁, hconfig, rfl⟩ := map_eq_some_iff.mp h
    exact .one (.config op) rfl hconfig

/-- The invariant rule for operations: what every performed effect keeps, the operation
    keeps. -/
theorem EngineOp.invariant {I : ConsensusEngine → Prop} (h : op.apply e = some r)
    (hinv : ∀ e₁ effect e₂, op.Performs e e₁ effect → I e₁ → effect.apply e₁ = some e₂ → I e₂)
    (he : I e) : I r.engine := by
  obtain ⟨l, hl⟩ := exists_effects h
  exact hl.invariant hinv he

end ConsensusEngine

end ArcChain
