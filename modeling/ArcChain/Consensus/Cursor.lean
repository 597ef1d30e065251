/-
The commit cursor and the blocks that `try_commit` returns, over sequences
of calls from any reachable engine: the cursor never goes back, returned
blocks have strictly increasing rounds and are their rounds' leaders', and
the engine's own pruning stays below the cursor.

`prune_below_round` takes the round to prune behind from its caller and
removes what lies below it wherever the cursor is.
-/
import ArcChain.Consensus.Proposals

namespace ArcChain

open Word List Option

namespace ConsensusEngine

section Model

variable [Crypto]

variable {op : EngineOp}

/-- One operation, its outputs forgotten. -/
def opStep (e : ConsensusEngine) (op : EngineOp) : Option ConsensusEngine :=
  (op.apply e).map (·.engine)

/-- The engines that a fresh one becomes by its operations; proposals collide with no
    held block. -/
def Reachable (e : ConsensusEngine) : Prop :=
  ∃ address validatorSet keypair retained ops,
    Run opStep (fun e op => op.NoCollision e) (fresh address validatorSet keypair retained) ops e

theorem Reachable.indexed {e : ConsensusEngine} (h : e.Reachable) : e.Indexed := by
  obtain ⟨address, validatorSet, keypair, retained, ops, hrun⟩ := h
  refine hrun.invariant (I := Indexed) ?_ (indexed_of_empty rfl rfl)
  intro e op e' hop he hstep
  obtain ⟨r, hr, rfl⟩ := map_eq_some_iff.mp hstep
  exact he.op hop hr

/-- An engine and everything its `try_commit` calls returned. -/
structure CommitHistory where
  engine : ConsensusEngine
  committed : List DagBlock

def CommitHistory.step (s : CommitHistory) (op : EngineOp) : Option CommitHistory :=
  (op.apply s.engine).map fun r => ⟨r.engine, s.committed ++ r.committed⟩

/-- The calls that this module is about. -/
def EngineOp.Commits : EngineOp → Prop
  | .receiveBlock _ | .importHistory _ _ _ | .advanceRound | .tryCommit | .pruneOldRounds
  | .pruneBelowRound _ => True
  | .proposeBlock _ _ | .forceAdvanceRound | .rebaseTo _ | .config _ => False

instance : (op : EngineOp) → Decidable op.Commits
  | .receiveBlock _ | .importHistory _ _ _ | .advanceRound | .tryCommit | .pruneOldRounds
  | .pruneBelowRound _ => inferInstanceAs (Decidable True)
  | .proposeBlock _ _ | .forceAdvanceRound | .rebaseTo _ | .config _ =>
    inferInstanceAs (Decidable False)

/-- A prune that its caller asks for stays below the cursor. -/
def EngineOp.PrunesBehind (e : ConsensusEngine) : EngineOp → Prop
  | .pruneBelowRound committedRound => committedRound ≤ e.lastCommittedRound + e.retainedRounds
  | _ => True

variable {e e' : ConsensusEngine}

/-! ## The output of a scan -/

variable {b : DagBlock} {hash : Hash256}

/-- A decided block is its round's leader's. -/
theorem Indexed.decided (h : e.Indexed) {scanEnd round : Nat}
    (hdecide : (e.decideRound scanEnd round).committedHash = some hash)
    (hb : e.getBlock hash = some b) : b.round = round ∧ e.leaderOf round = some b.author := by
  obtain ⟨hmem, b', leader, hb', hleader, hauthor⟩ :=
    mem_anchorsOf.mp (mem_anchorsOf_of_decideRound hdecide)
  have heq : b' = b := some.inj (hb'.symm.trans hb)
  obtain ⟨b'', hb'', hround⟩ := h.held round hash hmem
  have heq' : b'' = b := some.inj (hb''.symm.trans hb)
  refine ⟨heq' ▸ hround, ?_⟩
  rw [hleader, ← hauthor, heq]

/-- What a scan returns, relative to the cursor it starts from. -/
theorem Indexed.mem_scan_round (h : e.Indexed) (hb : b ∈ (e.scan none).1) :
    e.lastCommittedRound ≤ b.round ∧ b.round < (e.scan none).2 ∧
      e.leaderOf b.round = some b.author := by
  obtain ⟨round, hash, hge, hlt, hdecide, -, hblock⟩ := mem_scan hb
  obtain ⟨rfl, hleader⟩ := h.decided hdecide hblock
  exact ⟨hge, hlt, hleader⟩

theorem Indexed.scan_pairwise (h : e.Indexed) :
    ((e.scan none).1.map (·.round)).Pairwise (· < ·) := by
  rw [(scan_eq e).2, pairwise_map]
  refine .filterMap _ ?_ pairwise_lt_range'
  intro r r' hlt b hb b' hb'
  obtain ⟨hash, hdecide, -, hblock⟩ := decidedBlock_eq_some hb
  obtain ⟨hash', hdecide', -, hblock'⟩ := decidedBlock_eq_some hb'
  rw [(h.decided hdecide hblock).1, (h.decided hdecide' hblock').1]
  exact hlt

/-! ## One call -/

/-- Calls between scans do not move the cursor. -/
theorem EngineOp.Performs.sameBase {e₀ : ConsensusEngine} {effect : Effect} (hop : op.Commits)
    (h : op.Performs e₀ e effect) (hstep : effect.apply e = some e') :
    e.SameConfig e' ∧ (e.SameBase e' ∨ e = e₀ ∧ op = .tryCommit ∧ effect = .scan none) := by
  have hframe := Effect.frame hstep
  cases op with
  | receiveBlock | advanceRound =>
    obtain rfl := h
    exact ⟨hframe.1, .inl hframe.2⟩
  | importHistory blocks maxRounds persist =>
    rcases Import.cases (e := e) h with ⟨block, baseException, rfl, -⟩ | rfl
    · exact ⟨hframe.1, .inl hframe.2⟩
    · exact ⟨hframe.1, .inl hframe.2⟩
  | tryCommit =>
    rcases h with ⟨rfl, rfl⟩ | h
    · exact ⟨hframe.1, .inr ⟨rfl, rfl, rfl⟩⟩
    · have hmaintenance := Maintenance.frame h hstep
      exact ⟨hmaintenance.1, .inl hmaintenance.2⟩
  | pruneOldRounds =>
    have hmaintenance := Maintenance.frame h hstep
    exact ⟨hmaintenance.1, .inl hmaintenance.2⟩
  | pruneBelowRound committedRound =>
    rcases h with ⟨_, -, rfl⟩ | ⟨_, rfl⟩ <;> exact ⟨hframe.1, .inl hframe.2⟩
  | proposeBlock | forceAdvanceRound | rebaseTo | config => exact absurd hop id

/-- What one call does to the cursor and what it returns. -/
structure CursorStep (e : ConsensusEngine) (r : OpResult) : Prop where
  config : e.SameConfig r.engine
  forward : e.lastCommittedRound ≤ r.engine.lastCommittedRound
  rounds : ∀ b ∈ r.committed, e.lastCommittedRound ≤ b.round ∧
    b.round < r.engine.lastCommittedRound
  leaders : ∀ b ∈ r.committed, e.leaderOf b.round = some b.author
  increasing : (r.committed.map (·.round)).Pairwise (· < ·)

/-- **Step lemma.** -/
theorem Indexed.cursorStep (h : e.Indexed) {r : OpResult} (hop : op.Commits)
    (hstep : op.apply e = some r) : e.CursorStep r := by
  -- the configuration never changes, and the cursor only in a scan
  have hconfig : e.SameConfig r.engine := by
    refine EngineOp.invariant (I := fun e₁ => e.SameConfig e₁) hstep ?_ (.refl e)
    intro e₁ effect e₂ hperforms hsame heffect
    exact hsame.trans (hperforms.sameBase hop heffect).1
  by_cases hcommit : op = .tryCommit
  · subst hcommit
    obtain ⟨⟨out, e'⟩, htry, rfl⟩ := map_eq_some_iff.mp hstep
    rcases tryCommit_cases htry with ⟨rfl, rfl⟩ | ⟨-, -, rfl, heffects⟩
    · exact ⟨hconfig, le_refl _, nofun, nofun, List.Pairwise.nil⟩
    · have hcursor : e'.lastCommittedRound = (e.scan none).2 := heffects.lastCommittedRound_eq
      refine ⟨hconfig, ?_, ?_, ?_, h.scan_pairwise⟩
      · rw [hcursor]
        exact (scan_eq e).1.start
      · intro b hb
        obtain ⟨hge, hlt, -⟩ := h.mem_scan_round hb
        rw [hcursor]
        exact ⟨hge, hlt⟩
      · intro b hb
        exact (h.mem_scan_round hb).2.2
  · have hcursor : r.engine.lastCommittedRound = e.lastCommittedRound := by
      refine EngineOp.invariant (I := fun e₁ => e₁.lastCommittedRound = e.lastCommittedRound)
        hstep ?_ rfl
      intro e₁ effect e₂ hperforms hcursor heffect
      rcases (hperforms.sameBase hop heffect).2 with hbase | ⟨-, heq, -⟩
      · exact hbase.committed.trans hcursor
      · exact absurd heq hcommit
    have hnone : r.committed = [] := by
      cases op with
      | receiveBlock | importHistory =>
        obtain ⟨_, -, rfl⟩ := map_eq_some_iff.mp hstep
        rfl
      | advanceRound | pruneOldRounds | pruneBelowRound =>
        obtain rfl := some.inj hstep
        rfl
      | tryCommit => exact absurd rfl hcommit
      | proposeBlock | forceAdvanceRound | rebaseTo | config => exact absurd hop id
    refine ⟨hconfig, le_of_eq hcursor.symm, ?_, ?_, ?_⟩
    · rw [hnone]
      exact nofun
    · rw [hnone]
      exact nofun
    · rw [hnone]
      exact .nil

theorem EngineOp.Commits.noCollision (hop : op.Commits) : op.NoCollision e := by
  cases op with
  | receiveBlock | importHistory | advanceRound | tryCommit | pruneOldRounds | pruneBelowRound =>
    trivial
  | proposeBlock | forceAdvanceRound | rebaseTo | config => exact absurd hop id

/-- The maintenance of `try_commit` keeps every block from the new cursor on. -/
theorem Indexed.retains_maintenance {out : List DagBlock} {stop : Nat} (h : e.Indexed)
    (hstop : e.lastCommittedRound = stop) (hout : ∀ b ∈ out, b.round < stop)
    (heffects : Effects (Maintenance out) e e')
    (hb : e.getBlock hash = some b) (hround : stop ≤ b.round) : e'.getBlock hash = some b := by
  obtain ⟨l, hl⟩ := heffects
  have hinv := hl.invariant (I := fun e₁ => e₁.Indexed ∧ e₁.lastCommittedRound = stop ∧
    e₁.getBlock hash = some b) ?_ ⟨h, hstop, hb⟩
  · exact hinv.2.2
  · intro e₁ effect e₂ hmaintenance hinv hstep
    obtain ⟨h₁, hstop₁, hb₁⟩ := hinv
    have hfree : e₁.NoCollision effect := hmaintenance.noCollision
    have hcursor : e₂.lastCommittedRound = stop :=
      (hmaintenance.frame hstep).2.committed.trans hstop₁
    refine ⟨h₁.effect hfree hstep, hcursor, h₁.getBlock_effect hfree hstep hb₁ ?_ ?_⟩
    · intro below heq
      subst heq
      rcases hmaintenance with hle | ⟨b', hb', hle⟩
      · omega
      · have hlt := hout b' hb'
        omega
    · rintro anchorRound rfl
      exact absurd hmaintenance id

/-- **Pruning stays behind the cursor.** -/
theorem Indexed.retains (h : e.Indexed) {r : OpResult} (hop : op.Commits)
    (hbehind : op.PrunesBehind e) (hstep : op.apply e = some r)
    (hb : e.getBlock hash = some b) (hround : r.engine.lastCommittedRound ≤ b.round) :
    r.engine.getBlock hash = some b := by
  have hcursor := h.cursorStep hop hstep
  have hround' : e.lastCommittedRound ≤ b.round := le_trans hcursor.forward hround
  -- the calls with no prune at all
  have hunpruned : (∀ e₁ effect, op.Performs e e₁ effect →
      (∀ below, effect = .prune below → below ≤ b.round) ∧
        ∀ anchorRound, effect ≠ .rebase anchorRound) → r.engine.getBlock hash = some b := by
    intro hnone
    have hinv := EngineOp.invariant (I := fun e₁ => e₁.Indexed ∧ e₁.getBlock hash = some b)
      hstep ?_ ⟨h, hb⟩
    · exact hinv.2
    · intro e₁ effect e₂ hperforms hinv heffect
      have hfree : e₁.NoCollision effect := hperforms.noCollision hop.noCollision
      exact ⟨hinv.1.effect hfree heffect, hinv.1.getBlock_effect hfree heffect hinv.2
        (hnone e₁ effect hperforms).1 (hnone e₁ effect hperforms).2⟩
  cases op with
  | receiveBlock | advanceRound =>
    refine hunpruned fun e₁ effect hperforms => ?_
    obtain rfl := hperforms
    exact ⟨nofun, nofun⟩
  | importHistory =>
    refine hunpruned fun e₁ effect hperforms => ?_
    rcases Import.cases (e := e₁) hperforms with ⟨_, _, rfl, -⟩ | rfl <;> exact ⟨nofun, nofun⟩
  | tryCommit =>
    obtain ⟨⟨out, e'⟩, htry, rfl⟩ := map_eq_some_iff.mp hstep
    rcases tryCommit_cases htry with ⟨-, rfl⟩ | ⟨-, -, rfl, heffects⟩
    · exact hb
    · have hscan : (e.recordScan (e.scan none)).Indexed := h.of_sameDag ⟨rfl, rfl, rfl, .inl rfl⟩
      have hstop : e'.lastCommittedRound = (e.scan none).2 := heffects.lastCommittedRound_eq
      refine hscan.retains_maintenance rfl (fun b hb => (h.mem_scan_round hb).2.1) heffects hb ?_
      exact le_trans (le_of_eq hstop.symm) hround
  | pruneOldRounds =>
    obtain rfl := some.inj hstep
    exact h.retains_maintenance rfl (fun b hb => absurd hb not_mem_nil)
      (pruneOldRounds_effects []) hb hround'
  | pruneBelowRound committedRound =>
    obtain rfl := some.inj hstep
    rcases pruneBelowRound_cases (e := e) committedRound with heq | ⟨below, e₁, hbelow, hp, hf⟩
    · show (e.pruneBelowRound committedRound).2.getBlock hash = some b
      rw [heq]
      exact hb
    · obtain rfl := some.inj hp
      have hkept : (e.pruneRounds below).getBlock hash = some b := by
        refine (h.getBlock_pruneRounds below hash b).mpr ⟨hb, ?_⟩
        have hle : committedRound ≤ e.lastCommittedRound + e.retainedRounds := hbehind
        omega
      show (e.pruneBelowRound committedRound).2.getBlock hash = some b
      rw [← some.inj hf]
      exact hkept
  | proposeBlock | forceAdvanceRound | rebaseTo | config => exact absurd hop id

/-! ## Sequences of calls -/

/-- What holds of a history that started in `e`. -/
structure InOrder (e : ConsensusEngine) (s : CommitHistory) : Prop where
  indexed : s.engine.Indexed
  config : e.SameConfig s.engine
  forward : e.lastCommittedRound ≤ s.engine.lastCommittedRound
  behind : ∀ b ∈ s.committed, b.round < s.engine.lastCommittedRound
  leaders : ∀ b ∈ s.committed, e.leaderOf b.round = some b.author
  increasing : (s.committed.map (·.round)).Pairwise (· < ·)

theorem SameConfig.leaderOf (h : e.SameConfig e') (round : Nat) :
    e'.leaderOf round = e.leaderOf round := by
  rw [ConsensusEngine.leaderOf, ConsensusEngine.leaderOf, frozenLeaders, frozenLeaders, h.frozen]

theorem InOrder.step {s s' : CommitHistory} (h : e.InOrder s) (hop : op.Commits)
    (hstep : s.step op = some s') : e.InOrder s' := by
  obtain ⟨r, hr, rfl⟩ := map_eq_some_iff.mp hstep
  have hcursor := h.indexed.cursorStep hop hr
  have hforward := hcursor.forward
  refine ⟨h.indexed.op hop.noCollision hr, h.config.trans hcursor.config,
    le_trans h.forward hforward, ?_, ?_, ?_⟩
  · intro b hb
    rcases mem_append.mp hb with hb | hb
    · exact lt_of_lt_of_le (h.behind b hb) hforward
    · exact (hcursor.rounds b hb).2
  · intro b hb
    rcases mem_append.mp hb with hb | hb
    · exact h.leaders b hb
    · rw [← h.config.leaderOf]
      exact hcursor.leaders b hb
  · -- old rounds lie below the old cursor, new ones from it on
    rw [map_append, pairwise_append]
    refine ⟨h.increasing, hcursor.increasing, ?_⟩
    intro r₁ hr₁ r₂ hr₂
    obtain ⟨b₁, hb₁, rfl⟩ := mem_map.mp hr₁
    obtain ⟨b₂, hb₂, rfl⟩ := mem_map.mp hr₂
    exact lt_of_lt_of_le (h.behind b₁ hb₁) (hcursor.rounds b₂ hb₂).1

/-- **Commit cursor discipline.**  From every reachable engine: the cursor never goes back,
    the returned blocks have strictly increasing rounds and frozen leaders as authors, and a
    call whose prune is asked for behind the cursor keeps every block from the cursor on. -/
theorem commit_cursor_discipline {e : ConsensusEngine} (hreach : e.Reachable)
    {ops : List EngineOp} {s : CommitHistory}
    (hrun : Run CommitHistory.step (fun _ op => op.Commits) ⟨e, []⟩ ops s) :
    e.lastCommittedRound ≤ s.engine.lastCommittedRound ∧
      (s.committed.map (·.round)).Pairwise (· < ·) ∧
      (∀ b ∈ s.committed, e.leaderOf b.round = some b.author) ∧
      ∀ (op : EngineOp) (r : OpResult), op.Commits → op.PrunesBehind s.engine →
        op.apply s.engine = some r → ∀ hash b, s.engine.getBlock hash = some b →
          r.engine.lastCommittedRound ≤ b.round → r.engine.getBlock hash = some b := by
  have hstart : e.InOrder ⟨e, []⟩ := ⟨hreach.indexed, .refl e, le_refl _, nofun, nofun, .nil⟩
  have h : e.InOrder s :=
    hrun.invariant (I := e.InOrder) (fun _ _ _ hop h hstep => h.step hop hstep) hstart
  refine ⟨h.forward, h.increasing, h.leaders, ?_⟩
  intro op r hop hbehind hstep hash b hb hround
  exact h.indexed.retains hop hbehind hstep hb hround

end Model

end ConsensusEngine

namespace SampleCursor

open ConsensusEngine

/-- A single core validator, whose engine holds no key and so accepts unsigned blocks. -/
def set : ValidatorSet := ⟨[⟨⟨1⟩, 50000000, .core, 0⟩], 50000000, 1, 33333334, 0, []⟩

def engine : letI := concreteCrypto; ConsensusEngine :=
  letI := concreteCrypto
  fresh ⟨1⟩ set none 4096

/-- The validator's block for a round. -/
def block (round : Nat) (parents : List Hash256) : DagBlock :=
  letI := concreteCrypto
  let block : DagBlock :=
    { author := ⟨1⟩, round, parents, transactions := [], timestamp := 0, hash := Hash256.zero,
      signature := [], orderingCommitment := DagBlock.computeOrderingCommitment [] }
  { block with hash := block.hashFor none }

def block₀ : DagBlock := block 0 []
def block₁ : DagBlock := block 1 [block₀.hash]
def block₂ : DagBlock := block 2 [block₁.hash]
def block₃ : DagBlock := block 3 [block₂.hash]

/-- Four rounds, committed in two calls. -/
def ops : letI := concreteCrypto; List EngineOp :=
  letI := concreteCrypto
  [.receiveBlock block₀, .advanceRound, .receiveBlock block₁, .advanceRound, .receiveBlock block₂,
    .tryCommit, .advanceRound, .receiveBlock block₃, .tryCommit, .pruneOldRounds, .pruneBelowRound 2]

end SampleCursor

open SampleCursor ConsensusEngine in
/-- A reachable engine whose cursor is at round 0 loses a block of round 0 to
    `prune_below_round`. -/
theorem prune_below_round_removes_undecided :
    letI := concreteCrypto
    ∃ e : ConsensusEngine, e.Reachable ∧ ∃ hash b, e.getBlock hash = some b ∧
      (e.pruneBelowRound 4097).2.lastCommittedRound ≤ b.round ∧
      (e.pruneBelowRound 4097).2.getBlock hash = none := by
  let _ : Crypto := concreteCrypto
  have hstep : (opStep engine (.receiveBlock block₀)).map (fun e => (e.getBlock block₀.hash,
      (e.pruneBelowRound 4097).2.lastCommittedRound,
      (e.pruneBelowRound 4097).2.getBlock block₀.hash)) = some (some block₀, 0, none) := by
    decide +kernel
  obtain ⟨e, he, hvalues⟩ := map_eq_some_iff.mp hstep
  obtain ⟨hheld, hcursor, hgone⟩ := Prod.mk.inj hvalues |>.imp_right Prod.mk.inj
  refine ⟨e, ⟨_, _, _, _, [.receiveBlock block₀], .single trivial he⟩, block₀.hash, block₀, hheld,
    ?_, hgone⟩
  rw [hcursor]
  exact Nat.zero_le _

open SampleCursor ConsensusEngine in
/-- The sample calls return the blocks of rounds 0 and 1. -/
theorem commit_cursor_discipline_two_commits :
    letI := concreteCrypto
    ∃ s, engine.Reachable ∧
      Run CommitHistory.step (fun _ op => op.Commits) ⟨engine, []⟩ ops s ∧
      s.committed = [block₀, block₁] ∧ engine.lastCommittedRound ≤ s.engine.lastCommittedRound ∧
      (s.committed.map (·.round)).Pairwise (· < ·) := by
  let _ : Crypto := concreteCrypto
  have hrun : (ops.foldlM (Run.guarded CommitHistory.step fun _ op => op.Commits)
      ⟨engine, []⟩).map (·.committed) = some [block₀, block₁] := by
    decide +kernel
  obtain ⟨s, hs, hcommitted⟩ := map_eq_some_iff.mp hrun
  have hsteps : Run CommitHistory.step (fun _ op => op.Commits) ⟨engine, []⟩ ops s :=
    Run.of_foldlM hs
  have hreach : engine.Reachable := ⟨_, _, _, _, [], .nil _⟩
  obtain ⟨hforward, hincreasing, -⟩ := commit_cursor_discipline hreach hsteps
  exact ⟨s, hreach, hsteps, hcommitted, hforward, hincreasing⟩

end ArcChain
