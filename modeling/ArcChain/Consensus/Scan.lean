/-
The scan of the commit rule in closed form: it passes every round from the
cursor up to the first one that decides nothing, and its output is what
those rounds decide, in order (`scan_eq`).  Anchors are held blocks of the
round's leader, so each returned block is one.
-/
import ArcChain.Consensus.DagIndex

namespace ArcChain

open List

namespace ConsensusEngine

variable [Crypto] {e e' : ConsensusEngine} {scanEnd round : Nat} {hash : Hash256} {b : DagBlock}

/-! ## Anchors -/

/-- An anchor is a held block of the round's list, by the round's leader. -/
theorem mem_anchorsOf : hash ∈ e.anchorsOf round ↔
    hash ∈ e.blocksInRound round ∧ ∃ b leader, e.getBlock hash = some b ∧
      e.leaderOf round = some leader ∧ b.author = leader := by
  rw [anchorsOf]
  cases hleader : e.leaderOf round with
  | none => simp
  | some leader =>
    rw [mem_dedup, DagBlock.mem_sortHashes, mem_filter]
    cases hb : e.getBlock hash with
    | none => simp
    | some b => simp [eq_comm]

theorem mem_certifiedAnchors : hash ∈ e.certifiedAnchors round ↔ hash ∈ e.anchorsOf round ∧
      (e.twoRoundCommitSupport hash round e.frozenValidatorSet).isSome = true := by
  rw [certifiedAnchors, mem_filter]

/-- What the scan takes from a decision. -/
def RoundDecision.committedHash : RoundDecision → Option Hash256
  | .direct hash => some hash
  | .retro hash => some hash
  | .skip => none
  | .stop => none

/-- A decided block is an anchor of its round. -/
theorem mem_anchorsOf_of_decideRound (h : (e.decideRound scanEnd round).committedHash = some hash) :
    hash ∈ e.anchorsOf round := by
  rw [decideRound] at h
  split at h
  · cases h
  split at h
  · cases h
  split at h
  · rename_i hash' hcertified
    obtain rfl := Option.some.inj h
    exact (mem_certifiedAnchors.mp (hcertified ▸ mem_singleton.mpr rfl)).1
  · cases h
  · split at h
    · cases h
    · rw [decideFrom] at h
      split at h
      · cases h
      · rename_i hash' hfilter
        obtain rfl := Option.some.inj h
        exact (mem_filter.mp (hfilter ▸ mem_singleton.mpr rfl)).1
      · cases h

/-! ## The scan -/

/-- The block that the scan returns for a round, if any. -/
def decidedBlock (e : ConsensusEngine) (scanEnd round : Nat) : Option DagBlock :=
  (e.decideRound scanEnd round).committedHash.bind fun hash =>
    if hash ∈ e.committed then none else e.getBlock hash

theorem decidedBlock_eq_some (h : e.decidedBlock scanEnd round = some b) :
    ∃ hash, (e.decideRound scanEnd round).committedHash = some hash ∧ hash ∉ e.committed ∧
      e.getBlock hash = some b := by
  obtain ⟨hash, hdecide, hblock⟩ := Option.bind_eq_some_iff.mp h
  split at hblock
  · cases hblock
  · rename_i hnew
    exact ⟨hash, hdecide, hnew, hblock⟩

theorem pushCommitted_eq (newly : List DagBlock) (hash : Hash256) : e.pushCommitted newly hash =
      newly ++ (if hash ∈ e.committed then none else e.getBlock hash).toList := by
  rw [pushCommitted]
  split
  · simp
  split
  · rename_i b hb
    rw [hb]
    rfl
  · rename_i hb
    rw [hb]
    simp

/-- The rounds that the scan passes, from `round` to `stop`. -/
structure Scanned (e : ConsensusEngine) (scanEnd round stop : Nat) : Prop where
  start : round ≤ stop
  bound : stop ≤ max round (scanEnd + 1)
  passed : ∀ r, round ≤ r → r < stop → e.decideRound scanEnd r ≠ .stop

/-- **Closed form of the scan.** -/
theorem scanRounds_eq (e : ConsensusEngine) (scanEnd fuel round : Nat) (newly : List DagBlock) :
    ∃ stop, e.Scanned scanEnd round stop ∧ e.scanRounds none scanEnd fuel round newly =
        (newly ++ (List.range' round (stop - round)).filterMap (e.decidedBlock scanEnd), stop) := by
  induction fuel generalizing round newly with
  | zero =>
    refine ⟨round, ⟨le_refl _, le_max_left _ _, ?_⟩, ?_⟩
    · omega
    · rw [scanRounds]
      simp
  | succ fuel ih =>
    have hstay : ∃ stop, e.Scanned scanEnd round stop ∧ (newly, round) =
        (newly ++ (List.range' round (stop - round)).filterMap (e.decidedBlock scanEnd), stop) := by
      refine ⟨round, ⟨le_refl _, le_max_left _ _, ?_⟩, ?_⟩
      · omega
      · simp
    -- one passed round in front of the scan of the rest
    have hpass : round ≤ scanEnd → e.decideRound scanEnd round ≠ .stop → ∀ newly',
        newly' = newly ++ (e.decidedBlock scanEnd round).toList →
        ∃ stop, e.Scanned scanEnd round stop ∧ e.scanRounds none scanEnd fuel (round + 1) newly' =
            (newly ++ (List.range' round (stop - round)).filterMap (e.decidedBlock scanEnd),
              stop) := by
      intro hle hgo newly' hnewly'
      obtain ⟨stop, hscanned, heq⟩ := ih (round + 1) newly'
      have hstart := hscanned.start
      have hbound := hscanned.bound
      refine ⟨stop, ⟨by omega, by omega, ?_⟩, ?_⟩
      · intro r hr hlt
        by_cases hrr : r = round
        · rw [hrr]
          exact hgo
        · exact hscanned.passed r (by omega) hlt
      · obtain ⟨k, hk⟩ : ∃ k, stop - round = k + 1 := ⟨stop - round - 1, by omega⟩
        rw [heq, hnewly', hk, range'_succ, filterMap_cons,
          show stop - (round + 1) = k by omega]
        cases e.decidedBlock scanEnd round with
        | none => simp
        | some b => simp
    rw [scanRounds]
    split
    · rename_i hcond
      split
      · exact hstay
      · rename_i hskip
        apply hpass hcond.1
        · rw [hskip]
          exact nofun
        · rw [decidedBlock, hskip]
          simp [RoundDecision.committedHash]
      · rename_i hash hdirect
        apply hpass hcond.1
        · rw [hdirect]
          exact nofun
        · rw [decidedBlock, hdirect, pushCommitted_eq]
          rfl
      · rename_i hash hretro
        apply hpass hcond.1
        · rw [hretro]
          exact nofun
        · rw [decidedBlock, hretro, pushCommitted_eq]
          rfl
    · exact hstay

/-- The whole scan of `try_commit`. -/
theorem scan_eq (e : ConsensusEngine) :
    e.Scanned (e.currentRound - 2) e.lastCommittedRound (e.scan none).2 ∧ (e.scan none).1 =
        (List.range' e.lastCommittedRound ((e.scan none).2 - e.lastCommittedRound)).filterMap
          (e.decidedBlock (e.currentRound - 2)) := by
  obtain ⟨stop, hscanned, heq⟩ := scanRounds_eq e (e.currentRound - 2)
    (e.currentRound - 2 + 1 - e.lastCommittedRound) e.lastCommittedRound []
  have hscan : e.scan none = _ := heq
  rw [hscan]
  exact ⟨hscanned, nil_append _⟩

omit [Crypto] in
theorem mem_appendCommitted {committed : List Hash256} {newly : List DagBlock}
    (h : hash ∈ appendCommitted committed newly) :
    hash ∈ committed ∨ ∃ b ∈ newly, b.hash = hash := by
  rw [appendCommitted] at h
  induction newly generalizing committed with
  | nil => exact .inl h
  | cons b rest ih =>
    rw [foldl_cons] at h
    rcases ih h with hmem | ⟨c, hc, hhash⟩
    · split at hmem
      · exact .inl hmem
      · rcases mem_append.mp hmem with hmem | hmem
        · exact .inl hmem
        · exact .inr ⟨b, mem_cons_self, (mem_singleton.mp hmem).symm⟩
    · exact .inr ⟨c, mem_cons_of_mem _ hc, hhash⟩

/-- A scan does not pass a round that decides nothing. -/
theorem cursor_le_of_stop {out : List DagBlock} (hcursor : e.lastCommittedRound ≤ round)
    (hstop : e.decideRound (e.currentRound - 2) round = .stop)
    (hcommit : e.tryCommit = some (out, e')) : e'.lastCommittedRound ≤ round := by
  rcases tryCommit_cases hcommit with ⟨-, rfl⟩ | ⟨-, -, -, heffects⟩
  · exact hcursor
  · have hcursor' : e'.lastCommittedRound = (e.scan none).2 := heffects.lastCommittedRound_eq
    rw [hcursor']
    exact not_lt.mp fun hlt => (scan_eq e).1.passed round hcursor hlt hstop

/-- Every returned block was decided in a round that the scan passed. -/
theorem mem_scan (h : b ∈ (e.scan none).1) :
    ∃ round hash, e.lastCommittedRound ≤ round ∧ round < (e.scan none).2 ∧
      (e.decideRound (e.currentRound - 2) round).committedHash = some hash ∧ hash ∉ e.committed ∧
      e.getBlock hash = some b := by
  rw [(scan_eq e).2] at h
  obtain ⟨round, hmem, hdecided⟩ := mem_filterMap.mp h
  rw [mem_range'_1] at hmem
  obtain ⟨hash, hdecide, hnew, hblock⟩ := decidedBlock_eq_some hdecided
  exact ⟨round, hash, hmem.1, by omega, hdecide, hnew, hblock⟩

end ConsensusEngine

end ArcChain
