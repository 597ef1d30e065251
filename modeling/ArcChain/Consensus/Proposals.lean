/-
One validator over its restarts, and the blocks `propose_block` returned to
it.  The guard against a second block for a round is in three parts: the
author entry of the current round, the proposal floor, and the round cursor
itself.  `OneProposal` says how they cover for each other; every operation
keeps it, and so does a restart that restores a positive round.

A floor of 0 is read as no floor, so a validator that proposed in round 0 and
restarts with its cursors restored at 0 signs a second block for that round.
-/
import ArcChain.Consensus.Scan

namespace ArcChain

open Word List AssocMap Option

namespace ConsensusEngine

section Model

variable [Crypto]

/-- A validator: its engine and every block `propose_block` ever returned. -/
structure ValidatorHistory where
  engine : ConsensusEngine
  proposed : List DagBlock

inductive ValidatorEvent where
  | op (op : EngineOp)
  /-- a new process: a fresh engine, its cursors restored from the local log -/
  | restart (validatorSet : ValidatorSet) (keypair : Option Crypto.KeyPair)
      (retained round committed : Nat)

/-- A fresh engine of the validator `address`. -/
def fresh (address : Address) (validatorSet : ValidatorSet) (keypair : Option Crypto.KeyPair)
    (retained : Nat) : ConsensusEngine :=
  (ConsensusEngine.new validatorSet address keypair).setRetainedRounds retained

def ValidatorHistory.step (s : ValidatorHistory) : ValidatorEvent → Option ValidatorHistory
  | .op op => (op.apply s.engine).map fun r => ⟨r.engine, s.proposed ++ r.proposed⟩
  | .restart validatorSet keypair retained round committed =>
    some ⟨(fresh s.engine.localAddress validatorSet keypair retained).restoreRoundFromLocalWal
      round committed, s.proposed⟩

/-- The operations of a validator's run; a restart restores a round at least as high as
    every round that was proposed in. -/
def ValidatorHistory.Allowed (s : ValidatorHistory) : ValidatorEvent → Prop
  | .op (.proposeBlock _ _) | .op (.receiveBlock _) | .op (.importHistory _ _ _)
  | .op .advanceRound | .op .tryCommit | .op (.rebaseTo _) => True
  | .op _ => False
  | .restart _ _ _ round _ => ∀ b ∈ s.proposed, b.round ≤ round

/-- The restored cursors are consistent, and round 0 is restored only by a validator that
    never proposed. -/
def ValidatorHistory.RestoresFloor (s : ValidatorHistory) : ValidatorEvent → Prop
  | .op _ => True
  | .restart _ _ _ round committed => committed ≤ round ∧ (0 < round ∨ s.proposed = [])

instance (s : ValidatorHistory) : (event : ValidatorEvent) → Decidable (s.Allowed event)
  | .op (.proposeBlock _ _) | .op (.receiveBlock _) | .op (.importHistory _ _ _)
  | .op .advanceRound | .op .tryCommit | .op (.rebaseTo _) => inferInstanceAs (Decidable True)
  | .op .forceAdvanceRound | .op .pruneOldRounds | .op (.pruneBelowRound _) | .op (.config _) =>
    inferInstanceAs (Decidable False)
  | .restart _ _ _ round _ => inferInstanceAs (Decidable (∀ b ∈ s.proposed, b.round ≤ round))

instance (s : ValidatorHistory) : (event : ValidatorEvent) → Decidable (s.RestoresFloor event)
  | .op _ => inferInstanceAs (Decidable True)
  | .restart _ _ _ round committed =>
    inferInstanceAs (Decidable (committed ≤ round ∧ (0 < round ∨ s.proposed = [])))

/-! ## The invariant -/

/-- The current round is closed to proposals. -/
def Closed (e : ConsensusEngine) : Prop :=
  (∃ hash, e.authorRoundBlocks.lookup (e.localAddress, e.currentRound) = some hash) ∨
    (0 < e.proposalFloor ∧ e.currentRound ≤ e.proposalFloor)

/-- At most one proposal per round, none ahead of the cursor, and the current round closed
    once it has one. -/
structure OneProposal (e : ConsensusEngine) (proposed : List DagBlock) : Prop where
  reached : ∀ b ∈ proposed, b.round ≤ e.currentRound
  closed : ∀ b ∈ proposed, b.round = e.currentRound → e.Closed
  distinct : (proposed.map (·.round)).Nodup
  ahead : ∀ hash b, e.getBlock hash = some b → b.round ≤ e.currentRound + 1
  retained : 1 ≤ e.retainedRounds

variable {e e' : ConsensusEngine} {proposed : List DagBlock} {block : DagBlock}

/-- What matters to the invariant besides the author entries. -/
structure SameCursor (e e' : ConsensusEngine) : Prop where
  address : e'.localAddress = e.localAddress
  current : e'.currentRound = e.currentRound
  floor : e'.proposalFloor = e.proposalFloor
  retained : e'.retainedRounds = e.retainedRounds

/-- With the cursor in place it is enough to keep the entry of the current round. -/
theorem OneProposal.of_sameCursor (h : OneProposal e proposed) (hsame : e.SameCursor e')
    (hentry : ∀ hash, e.authorRoundBlocks.lookup (e.localAddress, e.currentRound) = some hash →
      ∃ hash', e'.authorRoundBlocks.lookup (e.localAddress, e.currentRound) = some hash')
    (hahead : ∀ hash b, e'.getBlock hash = some b → b.round ≤ e.currentRound + 1) :
    OneProposal e' proposed where
  reached b hb := by
    rw [hsame.current]
    exact h.reached b hb
  closed b hb hround := by
    rw [hsame.current] at hround
    rw [Closed, hsame.address, hsame.current, hsame.floor]
    rcases h.closed b hb hround with ⟨hash, hhash⟩ | hfloor
    · exact .inl (hentry hash hhash)
    · exact .inr hfloor
  distinct := h.distinct
  ahead hash b hb := by
    rw [hsame.current]
    exact hahead hash b hb
  retained := by
    rw [hsame.retained]
    exact h.retained

theorem Inserts.sameCursor (h : e.Inserts block e') : e.SameCursor e' := by
  rw [h.frame]
  exact ⟨rfl, rfl, rfl, rfl⟩

section

variable (h : OneProposal e proposed)
include h

theorem OneProposal.inserted (hins : e.Inserts block e')
    (hround : block.round ≤ e.currentRound + 1) : OneProposal e' proposed := by
  refine h.of_sameCursor hins.sameCursor (fun hash hhash => ⟨hash, hins.keeps _ _ hhash⟩) ?_
  intro hash b hb
  rcases hins.getBlock_cases hb with ⟨-, rfl⟩ | hb
  · exact hround
  · exact h.ahead hash b hb

/-- A cursor that moves up leaves every proposal behind. -/
theorem OneProposal.moved (hup : e.currentRound < e'.currentRound)
    (hretained : 1 ≤ e'.retainedRounds)
    (hahead : ∀ hash b, e'.getBlock hash = some b → b.round ≤ e'.currentRound + 1) :
    OneProposal e' proposed where
  reached b hb := by
    have hb' := h.reached b hb
    omega
  closed b hb hround := by
    have hb' := h.reached b hb
    omega
  distinct := h.distinct
  ahead := hahead
  retained := hretained

/-- A rebase closes the round it leaves by the floor, unless it moves the cursor. -/
theorem OneProposal.rebased {anchorRound cursor : Nat}
    (hcheck : e.checkRebase anchorRound = .ok cursor) :
    OneProposal (e.rebaseAt cursor) proposed := by
  obtain ⟨hcursor, -⟩ := checkRebase_eq_ok hcheck
  have hempty : ∀ hash b, (e.rebaseAt cursor).getBlock hash ≠ some b := by
    intro hash b hb
    have hb' : (∅ : AssocMap Hash256 DagBlock).lookup hash = some b := hb
    cases hb'
  have hcurrent : (e.rebaseAt cursor).currentRound = max e.currentRound cursor := rfl
  refine ⟨?_, ?_, h.distinct, fun hash b hb => absurd hb (hempty hash b), h.retained⟩
  · intro b hb
    have hb' := h.reached b hb
    omega
  · intro b hb hround
    have hb' := h.reached b hb
    right
    show 0 < max e.proposalFloor e.currentRound ∧
      max e.currentRound cursor ≤ max e.proposalFloor e.currentRound
    omega

end

/-- The effects an operation may have between proposals. -/
def BetweenProposals (e : ConsensusEngine) : Effect → Prop
  | .propose _ _ => False
  | .config _ => False
  | .prune below => below ≤ e.currentRound
  | _ => True

/-- **Step lemma.**  Whatever is not a proposal keeps the invariant. -/
theorem OneProposal.effect (h : OneProposal e proposed) (effect : Effect)
    (hbetween : e.BetweenProposals effect) (hstep : effect.apply e = some e') :
    OneProposal e' proposed := by
  have hkept : e.SameCursor e' → e.SameDag e' → OneProposal e' proposed := by
    intro hsame hdag
    refine h.of_sameCursor hsame ?_ ?_
    · intro hash hhash
      rw [hdag.authors]
      exact ⟨hash, hhash⟩
    · intro hash b hb
      exact h.ahead hash b (hdag.getBlock hash ▸ hb)
  cases effect with
  | propose | config => exact absurd hbetween id
  | accept block baseException =>
    rw [Effect.apply] at hstep
    split at hstep
    · rename_i hcheck
      obtain ⟨-, -, -, -, -, hround, -⟩ := checkBlock_eq_ok hcheck
      exact h.inserted (acceptBlock_inserts hstep) hround
    · cases hstep
  | advance =>
    obtain ⟨-, -, rfl⟩ := advance_apply hstep
    refine h.moved (Nat.lt_succ_self _) h.retained ?_
    intro hash b hb
    exact Nat.le_succ_of_le (h.ahead hash b hb)
  | forceAdvance =>
    obtain rfl := some.inj hstep
    rw [forceAdvanceRound]
    split
    · exact h
    rename_i newRound hadd
    obtain ⟨rfl, -⟩ := checkedAdd_eq_some.mp hadd
    refine h.moved (Nat.lt_succ_self _) h.retained ?_
    intro hash b hb
    exact Nat.le_succ_of_le (h.ahead hash b hb)
  | scan | forgetSkips =>
    obtain rfl := some.inj hstep
    exact hkept ⟨rfl, rfl, rfl, rfl⟩ ⟨rfl, rfl, rfl, .inl rfl⟩
  | slashWithholders maxRound =>
    obtain ⟨vs, rfl⟩ := slashWithholders_eq hstep
    exact hkept ⟨rfl, rfl, rfl, rfl⟩ ⟨rfl, rfl, rfl, .inl rfl⟩
  | prune below =>
    obtain rfl := some.inj hstep
    have hbelow : below ≤ e.currentRound := hbetween
    refine h.of_sameCursor ⟨rfl, rfl, rfl, rfl⟩ ?_ ?_
    · -- the pruned rounds lie below the current one
      intro hash hhash
      refine ⟨hash, lookup_retain_eq_some.mpr ⟨hhash, decide_eq_true ?_⟩⟩
      intro hmem
      have hlt := (mem_roundsToPrune.mp hmem).2
      exact absurd hlt (Nat.not_lt.mpr hbelow)
    · intro hash b hb
      exact h.ahead hash b (lookup_retain_eq_some.mp hb).1
  | rebase anchorRound =>
    obtain ⟨cursor, hcheck, rfl⟩ := rebase_apply hstep
    exact h.rebased hcheck

theorem Maintenance.currentRound {out : List DagBlock} {effect : Effect}
    (hmaintenance : Maintenance out e effect) (hstep : effect.apply e = some e') :
    e'.currentRound = e.currentRound := by
  cases effect with
  | slashWithholders maxRound =>
    obtain ⟨vs, rfl⟩ := slashWithholders_eq hstep
    rfl
  | prune below | forgetSkips below =>
    obtain rfl := some.inj hstep
    rfl
  | propose | accept | advance | forceAdvance | scan | rebase | config =>
    exact absurd hmaintenance id

section

variable (h : OneProposal e proposed)
include h

/-- The maintenance prunes below the current round: no committed block is more than one
    round ahead of it, and at least one round is retained. -/
theorem OneProposal.maintained {out : List DagBlock}
    (hout : ∀ b ∈ out, b.round ≤ e.currentRound + 1)
    (heffects : Effects (Maintenance out) e e') : OneProposal e' proposed := by
  obtain ⟨l, hl⟩ := heffects
  have hinv := hl.invariant
    (I := fun e₁ => OneProposal e₁ proposed ∧ e₁.currentRound = e.currentRound) ?_ ⟨h, rfl⟩
  · exact hinv.1
  · intro e₁ effect e₂ hmaintenance hinv hstep
    obtain ⟨h₁, hround⟩ := hinv
    refine ⟨h₁.effect _ ?_ hstep, (hmaintenance.currentRound hstep).trans hround⟩
    cases effect with
    | slashWithholders | forgetSkips => trivial
    | prune below =>
      have hretained := h₁.retained
      show below ≤ e₁.currentRound
      rcases hmaintenance with hle | ⟨b, hb, hle⟩
      · omega
      · have hb' := hout b hb
        omega
    | propose | accept | advance | forceAdvance | scan | rebase | config =>
      exact absurd hmaintenance id

theorem OneProposal.committed {out : List DagBlock}
    (hcommit : e.tryCommit = some (out, e')) : OneProposal e' proposed := by
  rcases tryCommit_cases hcommit with ⟨-, rfl⟩ | ⟨-, -, rfl, heffects⟩
  · exact h
  · have hscan : OneProposal (e.recordScan (e.scan none)) proposed :=
      h.effect (.scan none) trivial rfl
    refine hscan.maintained ?_ heffects
    intro b hb
    obtain ⟨_, hash, -, -, -, -, hblock⟩ := mem_scan hb
    exact h.ahead hash b hblock

/-- A proposal is the first of its round. -/
theorem OneProposal.propose {block : DagBlock}
    (hb : e.Proposes block) : OneProposal (e.recordProposal block) (proposed ++ [block]) := by
  have hins := recordProposal_inserts hb
  have hsame := hins.sameCursor
  have hopen : ¬ e.Closed := by
    rintro (⟨hash, hhash⟩ | hfloor)
    · rw [hb.vacant] at hhash
      cases hhash
    · exact hb.above hfloor
  have hround : block.round = e.currentRound := hb.round
  have hkeep := h.inserted hins (by omega)
  refine ⟨?_, ?_, ?_, hkeep.ahead, hkeep.retained⟩
  · intro b hmem
    rcases mem_append.mp hmem with hmem | hmem
    · exact hkeep.reached b hmem
    · rw [mem_singleton.mp hmem, hsame.current, hround]
  · intro b _ _
    obtain ⟨hash, hhash⟩ := hins.noted
    rw [hb.author, hb.round] at hhash
    left
    rw [hsame.address, hsame.current]
    exact ⟨hash, hhash⟩
  · rw [map_append, nodup_append]
    refine ⟨h.distinct, nodup_singleton _, ?_⟩
    rintro r hr r' hr' rfl
    obtain ⟨b, hmem, rfl⟩ := mem_map.mp hr
    have hbr : b.round = block.round := mem_singleton.mp hr'
    exact hopen (h.closed b hmem (by omega))

/-- A restart whose floor covers what was proposed. -/
theorem OneProposal.restarted {address : Address}
    {validatorSet : ValidatorSet} {keypair : Option Crypto.KeyPair}
    {retained round committed : Nat} (hround : ∀ b ∈ proposed, b.round ≤ round)
    (hcommitted : committed ≤ round) (hfloor : 0 < round ∨ proposed = []) :
    OneProposal ((fresh address validatorSet keypair retained).restoreRoundFromLocalWal round
      committed) proposed := by
  have hretained : 1 ≤ max retained pruneDepth := by
    have hdepth : pruneDepth = 100 := rfl
    omega
  have hempty : ∀ hash b, (∅ : AssocMap Hash256 DagBlock).lookup hash ≠ some b := by
    intro hash b hb
    cases hb
  rw [restoreRoundFromLocalWal, if_neg (Nat.not_lt.mpr hcommitted)]
  dsimp only
  split
  · refine ⟨hround, ?_, h.distinct, fun hash b hb => absurd hb (hempty hash b), hretained⟩
    intro b hb _
    right
    show 0 < max 0 round ∧ round ≤ max 0 round
    omega
  · rename_i hzero
    have hzero' : ¬ 0 < round := hzero
    obtain rfl := hfloor.resolve_left hzero'
    exact ⟨by simp, by simp, nodup_nil, fun hash b hb => absurd hb (hempty hash b), hretained⟩

end

/-- **Step lemma of the validator.** -/
theorem OneProposal.step {s s' : ValidatorHistory} {event : ValidatorEvent}
    (h : OneProposal s.engine s.proposed) (hallowed : s.Allowed event)
    (hfloor : s.RestoresFloor event) (hstep : s.step event = some s') :
    OneProposal s'.engine s'.proposed := by
  cases event with
  | restart validatorSet keypair retained round committed =>
    obtain rfl := some.inj hstep
    exact h.restarted hallowed hfloor.1 hfloor.2
  | op op =>
    obtain ⟨r, hr, rfl⟩ := map_eq_some_iff.mp hstep
    rcases proposed_cases hr with ⟨hnone, hfailed⟩ | ⟨_, _, block, -, hproposal, rfl⟩
    · show OneProposal r.engine (s.proposed ++ r.proposed)
      rw [hnone, append_nil]
      have hinv := EngineOp.invariant (I := fun e => OneProposal e s.proposed) hr
      cases op with
      | proposeBlock transactions timestamp =>
        rw [hfailed _ _ rfl]
        exact h
      | receiveBlock | advanceRound | rebaseTo =>
        refine hinv (fun _ effect _ heq h₁ => h₁.effect effect ?_) h
        obtain rfl : effect = _ := heq
        trivial
      | importHistory blocks maxRounds persist =>
        refine hinv (fun e₁ effect _ himport h₁ => h₁.effect effect ?_) h
        rcases Import.cases (e := e₁) himport with ⟨block, baseException, rfl, -⟩ | rfl <;> trivial
      | tryCommit =>
        obtain ⟨⟨out, e₁⟩, hcommit, rfl⟩ := map_eq_some_iff.mp hr
        exact h.committed hcommit
      | forceAdvanceRound | pruneOldRounds | pruneBelowRound | config => exact absurd hallowed id
    · exact h.propose (proposal_eq_ok hproposal)

/-- **No self-equivocation across restarts** that restore a floor: no two proposals of one
    round differ. -/
theorem no_self_equivocation {address : Address} {validatorSet : ValidatorSet}
    {keypair : Option Crypto.KeyPair} {retained : Nat} {events : List ValidatorEvent}
    {s : ValidatorHistory}
    (hrun : Run ValidatorHistory.step (fun s event => s.Allowed event ∧ s.RestoresFloor event)
      ⟨fresh address validatorSet keypair retained, []⟩ events s) :
    ∀ b ∈ s.proposed, ∀ c ∈ s.proposed, b.round = c.round → b.hash = c.hash := by
  have hstart : OneProposal (fresh address validatorSet keypair retained) [] := by
    refine ⟨by simp, by simp, nodup_nil, ?_, ?_⟩
    · intro hash b hb
      have hb' : (∅ : AssocMap Hash256 DagBlock).lookup hash = some b := hb
      cases hb'
    · show 1 ≤ max retained pruneDepth
      have hdepth : pruneDepth = 100 := rfl
      omega
  have hinv : OneProposal s.engine s.proposed :=
    hrun.invariant (I := fun s => OneProposal s.engine s.proposed)
      (fun _ _ _ hguard h hstep => h.step hguard.1 hguard.2 hstep) hstart
  intro b hb c hc hround
  rw [inj_on_of_nodup_map hinv.distinct hb hc hround]

end Model

end ConsensusEngine

namespace SampleProposals

open ConsensusEngine

/-- A single core validator. -/
def set : ValidatorSet := ⟨[⟨⟨1⟩, 50000000, .core, 0⟩], 50000000, 1, 33333334, 0, []⟩

def start : letI := concreteCrypto; ValidatorHistory :=
  letI := concreteCrypto
  ⟨fresh ⟨1⟩ set none 4096, []⟩

/-- A proposal in round 0, a restart with the cursors restored at 0, and a proposal with
    another transaction. -/
def atRoundZero : letI := concreteCrypto; List ValidatorEvent :=
  letI := concreteCrypto
  [.op (.proposeBlock [] 10), .restart set none 4096 0 0, .op (.proposeBlock [⟨5⟩] 20)]

/-- Two proposals, a restart at round 1, and a refused proposal for that round. -/
def atRoundOne : letI := concreteCrypto; List ValidatorEvent :=
  letI := concreteCrypto
  [.op (.proposeBlock [] 10), .op .advanceRound, .op (.proposeBlock [⟨5⟩] 20),
    .restart set none 4096 1 0, .op (.proposeBlock [] 30)]

end SampleProposals

open SampleProposals ConsensusEngine in
/-- A second, different block for round 0 after a restart at round 0. -/
theorem restart_at_round_zero_equivocates :
    letI := concreteCrypto
    ∃ s, Run ValidatorHistory.step ValidatorHistory.Allowed start atRoundZero s ∧
      ∃ b ∈ s.proposed, ∃ c ∈ s.proposed, b.round = c.round ∧ b.hash ≠ c.hash := by
  let _ : Crypto := concreteCrypto
  have hrun : (atRoundZero.foldlM (Run.guarded ValidatorHistory.step ValidatorHistory.Allowed)
      start).map (fun s => decide (∃ b ∈ s.proposed, ∃ c ∈ s.proposed,
        b.round = c.round ∧ b.hash ≠ c.hash)) = some true := by
    decide +kernel
  obtain ⟨s, hs, hdiffer⟩ := map_eq_some_iff.mp hrun
  exact ⟨s, Run.of_foldlM hs, of_decide_eq_true hdiffer⟩

open SampleProposals ConsensusEngine in
/-- A restart at round 1 proposes nothing more for that round. -/
theorem no_self_equivocation_at_round_one :
    letI := concreteCrypto
    ∃ s, Run ValidatorHistory.step (fun s event => s.Allowed event ∧ s.RestoresFloor event)
        start atRoundOne s ∧ s.proposed.map (·.round) = [0, 1] ∧
      ∀ b ∈ s.proposed, ∀ c ∈ s.proposed, b.round = c.round → b.hash = c.hash := by
  let _ : Crypto := concreteCrypto
  have hrun : (atRoundOne.foldlM (Run.guarded ValidatorHistory.step
      fun s event => s.Allowed event ∧ s.RestoresFloor event) start).map
      (fun s => s.proposed.map (·.round)) = some [0, 1] := by
    decide +kernel
  obtain ⟨s, hs, hrounds⟩ := map_eq_some_iff.mp hrun
  have hsteps : Run ValidatorHistory.step
      (fun s event => s.Allowed event ∧ s.RestoresFloor event) start atRoundOne s :=
    Run.of_foldlM hs
  exact ⟨s, hsteps, hrounds, no_self_equivocation hsteps⟩

end ArcChain
