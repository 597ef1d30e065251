/-
The verdict of a Tier 1 inference request.

Each vote is checked against the committee that the registry of that
moment gives, and the number of votes that decides is fixed when the
request is made.  As long as no registry change drops a member that has
voted, the voters are members of one committee (`Fair`), so at most one
output is ever decided and the order in which the tally is read does not
matter (`unique_verdict`).  The last section shows a registry change after
which two outputs are decided, and the tally's order chooses between them.
-/
import ArcChain.State.Chain

namespace ArcChain

open Word StoreProg Ledger List Hash256

variable {requester : Address}

/-! ## Counting votes -/

section Counting

variable {votes : List (Address × Hash256)} {h h' : Hash256} {n size : Nat}

variable {tally : List (Hash256 × Nat)}

/-- The number of votes for an output. -/
def votesFor (votes : List (Address × Hash256)) (h : Hash256) : Nat :=
  (votes.filter fun v => v.2 = h).length

/-- `min_agreement` of a committee. -/
def minAgreement (size : Nat) : Nat := max (size / 2 + 1) 1

theorem votesFor_le : votesFor votes h ≤ votes.length := length_filter_le _ _

theorem votesFor_mono {votes' : List (Address × Hash256)} (hpre : votes <+: votes') :
    votesFor votes h ≤ votesFor votes' h := by
  obtain ⟨later, rfl⟩ := hpre
  rw [votesFor, votesFor, filter_append, length_append]
  omega

theorem votesFor_add_le (votes : List (Address × Hash256)) (hne : h ≠ h') :
    votesFor votes h + votesFor votes h' ≤ votes.length := by
  have hsplit := length_eq_length_filter_add (l := votes) fun v => decide (v.2 = h)
  -- the votes for `h'` are among those that are not for `h`
  have hothers : votesFor votes h' ≤ (votes.filter fun v => !decide (v.2 = h)).length := by
    refine (monotone_filter_right votes fun v hv => ?_).length_le
    rw [decide_eq_true_iff] at hv
    simpa [hv] using hne.symm
  rw [votesFor]
  omega

/-- No two outputs are decided by a committee's votes. -/
theorem decided_unique (hsize : votes.length ≤ size) (h1 : minAgreement size ≤ votesFor votes h)
    (h2 : minAgreement size ≤ votesFor votes h') : h = h' := by
  by_contra hne
  have hsum := votesFor_add_le votes hne
  unfold minAgreement at h1 h2
  omega

/-- A tally of votes: every output with a vote, with the number of its votes. -/
structure Tallies (tally : List (Hash256 × Nat)) (votes : List (Address × Hash256)) : Prop where
  nodup : (tally.map Prod.fst).Nodup
  mem : ∀ h n, (h, n) ∈ tally ↔ n = votesFor votes h ∧ 0 < n

theorem keys_addCredit : (addCredit tally h 1).map Prod.fst =
      if h ∈ tally.map Prod.fst then tally.map Prod.fst else tally.map Prod.fst ++ [h] := by
  induction tally with
  | nil => simp [addCredit]
  | cons e tally ih =>
    rw [addCredit]
    by_cases heq : e.1 = h
    · simp [heq]
    rw [if_neg heq, map_cons, ih]
    have hkeys : h ∈ (e :: tally).map Prod.fst ↔ h ∈ tally.map Prod.fst := by
      rw [map_cons, mem_cons, or_iff_right fun h => heq h.symm]
    by_cases hmem : h ∈ tally.map Prod.fst
    · rw [if_pos hmem, if_pos (hkeys.mpr hmem), map_cons]
    · rw [if_neg hmem, if_neg fun h' => hmem (hkeys.mp h'), map_cons, cons_append]

/-- One more vote for `h`, seen from another output. -/
theorem mem_addCredit_of_ne {k : Hash256} {m : Nat} (hne : k ≠ h) :
    (k, m) ∈ addCredit tally h 1 ↔ (k, m) ∈ tally := by
  induction tally with
  | nil => simp [addCredit, hne]
  | cons e tally ih =>
    rw [addCredit]
    by_cases heq : e.1 = h
    · have hother : ∀ n, (k, m) ≠ (e.1, n) := fun n hkm => hne ((Prod.mk.inj hkm).1.trans heq)
      have hother' : (k, m) ≠ e := hother e.2
      rw [if_pos heq, mem_cons, mem_cons, or_iff_right (hother _), or_iff_right hother']
    · rw [if_neg heq, mem_cons, mem_cons, ih]

/-- One more vote for `h`, seen from `h`. -/
theorem mem_addCredit_self {m : Nat} (hnodup : (tally.map Prod.fst).Nodup) :
    (h, m) ∈ addCredit tally h 1 ↔ (∃ n, (h, n) ∈ tally ∧ m = wrappingAdd n 1) ∨
      (h ∉ tally.map Prod.fst ∧ m = 1) := by
  induction tally with
  | nil => simp [addCredit]
  | cons e tally ih =>
    obtain ⟨hfresh, hnodup⟩ := nodup_cons.mp hnodup
    rw [addCredit]
    by_cases heq : e.1 = h
    · subst heq
      have hnot : ∀ n, (e.1, n) ∉ tally := fun n hmem =>
        hfresh (mem_map.mpr ⟨_, hmem, rfl⟩)
      rw [if_pos rfl, mem_cons, or_iff_left (hnot m)]
      constructor
      · intro hm
        exact .inl ⟨e.2, mem_cons_self, (Prod.mk.inj hm).2⟩
      · rintro (⟨n, hmem, rfl⟩ | ⟨habsent, -⟩)
        · rcases mem_cons.mp hmem with hn | hmem
          · rw [← hn]
          · exact absurd hmem (hnot n)
        · exact absurd mem_cons_self habsent
    · have hother : ∀ n, (h, n) ≠ e := fun n hn => heq (by rw [← hn])
      rw [if_neg heq, mem_cons, or_iff_right (by exact hother m), ih hnodup]
      have hkeys : h ∉ (e :: tally).map Prod.fst ↔ h ∉ tally.map Prod.fst := by
        rw [map_cons, mem_cons, not_or]
        exact ⟨fun h => h.2, fun hmem => ⟨fun heq' => heq heq'.symm, hmem⟩⟩
      rw [hkeys]
      have hmem : ∀ n, (h, n) ∈ e :: tally ↔ (h, n) ∈ tally := fun n => by
        rw [mem_cons, or_iff_right (hother n)]
      simp only [hmem]

theorem votesFor_concat {v : Address × Hash256} :
    votesFor (votes ++ [v]) h = votesFor votes h + if v.2 = h then 1 else 0 := by
  rw [votesFor, votesFor]
  by_cases heq : v.2 = h <;> simp [heq]

/-- `tally` counts the votes, as long as a counter can hold their number. -/
theorem tallies_tallyVotes (hsmall : votes.length < 2 ^ 64) : Tallies (tallyVotes votes) votes := by
  induction votes using List.reverseRecOn with
  | nil =>
    refine ⟨nodup_nil, fun h n => ?_⟩
    simp only [tallyVotes, foldl_nil, not_mem_nil, false_iff, votesFor, filter_nil, length_nil]
    omega
  | append_singleton votes v ih =>
    rw [length_append, length_singleton] at hsmall
    obtain ⟨hnodup, hmem⟩ := ih (by omega)
    have hfold : tallyVotes (votes ++ [v]) = addCredit (tallyVotes votes) v.2 1 := by
      rw [tallyVotes, foldl_append]
      rfl
    have hkeys : v.2 ∈ (tallyVotes votes).map Prod.fst ↔ 0 < votesFor votes v.2 := by
      rw [mem_map]
      constructor
      · rintro ⟨⟨k, n⟩, hkn, hk⟩
        obtain ⟨rfl, hpos⟩ := (hmem k n).mp hkn
        exact hk ▸ hpos
      · exact fun hpos => ⟨(v.2, votesFor votes v.2), (hmem _ _).mpr ⟨rfl, hpos⟩, rfl⟩
    rw [hfold]
    refine ⟨?_, fun h n => ?_⟩
    · rw [keys_addCredit]
      split
      · exact hnodup
      · rename_i hfresh
        rw [← concat_eq_append]
        exact hnodup.concat hfresh
    · rw [votesFor_concat]
      by_cases heq : h = v.2
      · subst heq
        rw [mem_addCredit_self hnodup, if_pos rfl, hkeys]
        have hle : votesFor votes v.2 ≤ votes.length := votesFor_le
        constructor
        · rintro (⟨m, hm, rfl⟩ | ⟨hzero, rfl⟩)
          · obtain ⟨rfl, hpos⟩ := (hmem _ _).mp hm
            rw [wrappingAdd]
            omega
          · omega
        · rintro ⟨rfl, -⟩
          by_cases hpos : 0 < votesFor votes v.2
          · refine .inl ⟨_, (hmem _ _).mpr ⟨rfl, hpos⟩, ?_⟩
            rw [wrappingAdd, Nat.mod_eq_of_lt (by omega)]
          · exact .inr ⟨hpos, by omega⟩
      · rw [mem_addCredit_of_ne heq, hmem, if_neg fun h' => heq h'.symm, add_zero]

/-- The entry `max_by_key` picks. -/
theorem maxByCount_spec {l : List (Hash256 × Nat)} :
    match maxByCount l with
    | none => l = []
    | some best => best ∈ l ∧ ∀ e ∈ l, e.2 ≤ best.2 := by
  induction l with
  | nil => rfl
  | cons e rest ih =>
    rw [maxByCount]
    cases hrest : maxByCount rest with
    | none =>
      rw [hrest] at ih
      subst ih
      exact ⟨mem_cons_self, by simp⟩
    | some best =>
      rw [hrest] at ih
      obtain ⟨hmem, hmax⟩ := ih
      dsimp only
      split
      · rename_i hpick
        split at hpick <;> cases hpick
      rename_i picked hpick
      split at hpick
      · obtain rfl := Option.some.inj hpick
        refine ⟨mem_cons_of_mem _ hmem, fun x hx => ?_⟩
        rcases mem_cons.mp hx with rfl | hx
        · assumption
        · exact hmax x hx
      · obtain rfl := Option.some.inj hpick
        refine ⟨mem_cons_self, fun x hx => ?_⟩
        rcases mem_cons.mp hx with rfl | hx
        · exact le_refl _
        · have := hmax x hx
          omega

/-- The decided output of a tally, if there is one. -/
def decidedOutput (size : Nat) (tally : List (Hash256 × Nat)) : Option Hash256 :=
  let majority := (maxByCount tally).getD (.zero, 0)
  if minAgreement size ≤ majority.2 then some majority.1 else none

/-- The tally may be read in any order. -/
theorem decidedOutput_eq_some (hsize : votes.length ≤ size) (hsmall : size < 2 ^ 64)
    (hperm : tally.Perm (tallyVotes votes)) :
    decidedOutput size tally = some h ↔ minAgreement size ≤ votesFor votes h := by
  have htallies : Tallies (tallyVotes votes) votes := tallies_tallyVotes (by omega)
  have hmem : ∀ k n, (k, n) ∈ tally ↔ n = votesFor votes k ∧ 0 < n := fun k n => by
    rw [hperm.mem_iff, htallies.mem]
  have hpos : 0 < minAgreement size := by unfold minAgreement; omega
  have hspec := maxByCount_spec (l := tally)
  rw [decidedOutput]
  cases hbest : maxByCount tally with
  | none =>
    rw [hbest] at hspec
    subst hspec
    have hzero : ¬ 0 < votesFor votes h := fun hvotes =>
      not_mem_nil ((hmem h _).mpr ⟨rfl, hvotes⟩)
    simp only [Option.getD_none]
    rw [if_neg (by omega)]
    constructor
    · intro hnone
      cases hnone
    · omega
  | some best =>
    rw [hbest] at hspec
    obtain ⟨hbest_mem, hmax⟩ := hspec
    obtain ⟨hcount, -⟩ := (hmem best.1 best.2).mp hbest_mem
    simp only [Option.getD_some]
    constructor
    · intro hsome
      split at hsome
      · obtain rfl := Option.some.inj hsome
        rwa [← hcount]
      · cases hsome
    · intro hle
      have hvotes : (h, votesFor votes h) ∈ tally := (hmem h _).mpr ⟨rfl, by omega⟩
      have hbest_le := hmax _ hvotes
      rw [if_pos (by omega)]
      exact congrArg some (decided_unique hsize (by omega) hle)

end Counting

/-! ## Ballots -/

section Requests

variable [Externals]

/-- What the arms rely on of the stored bytes: a vote list is read back as it was written, no
    bytes are no votes, and the votes have a storage key of their own. -/
structure Tier1Storage : Prop where
  roundTrip : ∀ votes, ∃ bytes, Externals.serializeVotes votes = .ok bytes ∧
    Externals.deserializeVotes bytes = some votes
  empty : storedVotes none = []
  keys : ∀ name ∈ ["tier1.requester", "tier1.input_blob", "tier1.request_id", "tier1.output_blob",
    "tier1.final_output_hash"], tier1Key "tier1.votes" ≠ tier1Key name

namespace Ledger

variable (s : Ledger) (r : Hash256)

/-- The escrow of a request. -/
def tier1Escrow : Account := s.accountOr (tier1EscrowAddress r)

/-- The votes stored for a request. -/
def tier1Votes : List (Address × Hash256) :=
  storedVotes ((s.storage.lookup (tier1EscrowAddress r)).bind fun m => m.lookup (tier1Key "tier1.votes"))

/-- The committee of a request, as the registry gives it now. -/
def tier1Members : List Address :=
  tier1Committee s.validators r (s.tier1Escrow r).nonce (tier1CommitteeSize (s.tier1Escrow r))

/-- The request still takes votes. -/
def TakesVotes : Prop := Tier1Actionable (tier1Status (s.tier1Escrow r))

instance : Decidable (s.TakesVotes r) := inferInstanceAs (Decidable (Tier1Actionable _))

/-- The output has the votes of `min_agreement` members. -/
def Decides (h : Hash256) : Prop :=
  minAgreement (tier1CommitteeSize (s.tier1Escrow r)) ≤ votesFor (s.tier1Votes r) h

instance (h : Hash256) : Decidable (s.Decides r h) := inferInstanceAs (Decidable (_ ≤ _))

end Ledger

section Ballots

variable {c : Context} {s t u : Ledger} {tx : Transaction} {r : Hash256}

variable {x : Account} {a : Address} {votes : List (Address × Hash256)}

/-- The voters are different members of one committee. -/
structure Fair (s : Ledger) (r : Hash256) : Prop where
  nodup : ((s.tier1Votes r).map Prod.fst).Nodup
  bounded : (s.tier1Votes r).length ≤ tier1CommitteeSize (s.tier1Escrow r)
  members : s.TakesVotes r → ∀ v ∈ s.tier1Votes r, v.1 ∈ s.tier1Members r

/-- A step of a request's life: votes are only added, and the size of the committee is fixed
    once there are votes. -/
structure Advances (r : Hash256) (s t : Ledger) : Prop where
  fair : Fair t r
  votes : s.tier1Votes r <+: t.tier1Votes r
  size : s.tier1Votes r = [] ∨
    tier1CommitteeSize (t.tier1Escrow r) = tier1CommitteeSize (s.tier1Escrow r)

/-- The request is the same in both ledgers, apart from the escrow's balance. -/
structure SameBallot (r : Hash256) (s t : Ledger) : Prop where
  code : (t.tier1Escrow r).codeHash = (s.tier1Escrow r).codeHash
  anchor : (t.tier1Escrow r).nonce = (s.tier1Escrow r).nonce
  votes : t.tier1Votes r = s.tier1Votes r
  validators : t.validators = s.validators

omit [Externals] in
theorem tier1CommitteeSize_congr {y : Account} (h : x.codeHash = y.codeHash) :
    tier1CommitteeSize x = tier1CommitteeSize y := by
  rw [tier1CommitteeSize, tier1CommitteeSize, h]

omit [Externals] in
theorem tier1Status_congr {y : Account} (h : x.codeHash = y.codeHash) :
    tier1Status x = tier1Status y := by
  rw [tier1Status, tier1Status, h]

/-- The other transactions: the request stays as it is, and a change of the registry leaves the
    members that have voted in its committee. -/
structure KeepsBallot (r : Hash256) (s t : Ledger) : Prop where
  code : (t.tier1Escrow r).codeHash = (s.tier1Escrow r).codeHash
  anchor : (t.tier1Escrow r).nonce = (s.tier1Escrow r).nonce
  votes : t.tier1Votes r = s.tier1Votes r
  voters : s.TakesVotes r → ∀ v ∈ s.tier1Votes r, v.1 ∈ t.tier1Members r

instance : Decidable (KeepsBallot r s t) :=
  decidable_of_iff ((t.tier1Escrow r).codeHash = (s.tier1Escrow r).codeHash ∧
      (t.tier1Escrow r).nonce = (s.tier1Escrow r).nonce ∧ t.tier1Votes r = s.tier1Votes r ∧
      (s.TakesVotes r → ∀ v ∈ s.tier1Votes r, v.1 ∈ t.tier1Members r))
    ⟨fun h => ⟨h.1, h.2.1, h.2.2.1, h.2.2.2⟩, fun h => ⟨h.code, h.anchor, h.votes, h.voters⟩⟩

theorem KeepsBallot.advances (h : KeepsBallot r s t) (hs : Fair s r) : Advances r s t where
  fair :=
    { nodup := by rw [h.votes]; exact hs.nodup
      bounded := by rw [h.votes, tier1CommitteeSize_congr h.code]; exact hs.bounded
      members := fun htakes v hv => by
        rw [h.votes] at hv
        rw [Ledger.TakesVotes, tier1Status_congr h.code] at htakes
        exact h.voters htakes v hv }
  votes := by rw [h.votes]
  size := .inr (tier1CommitteeSize_congr h.code)

namespace SameBallot

theorem refl : SameBallot r s s := ⟨rfl, rfl, rfl, rfl⟩

theorem trans (h : SameBallot r s t) (h' : SameBallot r t u) : SameBallot r s u where
  code := h'.code.trans h.code
  anchor := h'.anchor.trans h.anchor
  votes := h'.votes.trans h.votes
  validators := h'.validators.trans h.validators

theorem members (h : SameBallot r s t) : t.tier1Members r = s.tier1Members r := by
  rw [tier1Members, tier1Members, h.validators, h.anchor, tier1CommitteeSize_congr h.code]

theorem advances (h : SameBallot r s t) (hs : Fair s r) : Advances r s t :=
  KeepsBallot.advances ⟨h.code, h.anchor, h.votes, fun htakes v hv => h.members ▸
    hs.members htakes v hv⟩ hs

theorem ensure (a : Address) : SameBallot r s (s.ensure a) where
  code := by rw [tier1Escrow, accountOr_ensure]; rfl
  anchor := by rw [tier1Escrow, accountOr_ensure]; rfl
  votes := rfl
  validators := rfl

/-- Another account is stored. -/
theorem put (hne : a ≠ tier1EscrowAddress r) : SameBallot r s (s.putAccount a x) where
  code := by rw [tier1Escrow, accountOr_putAccount, if_neg hne.symm]; rfl
  anchor := by rw [tier1Escrow, accountOr_putAccount, if_neg hne.symm]; rfl
  votes := rfl
  validators := rfl

/-- An account is stored whose code and nonce are those that are there. -/
theorem putSame (hcode : x.codeHash = (s.accountOr a).codeHash)
    (hnonce : x.nonce = (s.accountOr a).nonce) : SameBallot r s (s.putAccount a x) where
  code := by
    rw [tier1Escrow, accountOr_putAccount]
    split
    · rename_i heq
      rw [hcode, ← heq]
      rfl
    · rfl
  anchor := by
    rw [tier1Escrow, accountOr_putAccount]
    split
    · rename_i heq
      rw [hnonce, ← heq]
      rfl
    · rfl
  votes := rfl
  validators := rfl

/-- A new status byte. -/
theorem putStatus {status : UInt8} :
    ((s.putAccount (tier1EscrowAddress r) (withTier1Status x status)).tier1Escrow r).nonce =
      x.nonce := by
  rw [tier1Escrow, accountOr_putAccount_self]
  simp only [withTier1Status]

theorem credit {n : Nat} :
    SameBallot r s (s.putAccount a ((s.accountOr a).withBalance n)) := putSame rfl rfl

omit [Externals] in
theorem lookup_putStorage {b : Address} {key : Hash256} {value : Bytes} :
    (s.putStorage a key value).storage.lookup b =
      if b = a then some (FinMap.set ((s.storage.lookup a).getD ∅) key (some value))
      else s.storage.lookup b := by
  rw [Ledger.putStorage]
  rw [FinMap.lookup_set]

/-- Another entry of the storage is set. -/
theorem putStorage {key : Hash256} {value : Bytes} (hkey : tier1Key "tier1.votes" ≠ key) :
    SameBallot r s (s.putStorage a key value) where
  code := rfl
  anchor := rfl
  votes := by
    rw [tier1Votes, tier1Votes, lookup_putStorage]
    split
    · rename_i heq
      rw [Option.bind_some, FinMap.lookup_set, if_neg hkey, ← heq]
      cases s.storage.lookup (tier1EscrowAddress r) with
      | none => rfl
      | some entries => rfl
    · rfl
  validators := rfl

end SameBallot

/-- The votes after the vote entry is set. -/
theorem tier1Votes_putStorage {bytes : Bytes}
    (hbytes : Externals.deserializeVotes bytes = some votes) :
    (s.putStorage (tier1EscrowAddress r) (tier1Key "tier1.votes") bytes).tier1Votes r = votes := by
  rw [tier1Votes, SameBallot.lookup_putStorage, if_pos rfl, Option.bind_some,
    FinMap.lookup_set_self, storedVotes, Option.getD_some, hbytes, Option.getD_some]

variable {status : UInt8}

omit [Externals] in
theorem codeBytes_withTier1Status :
    (withTier1Status x status).codeHash.toBytes = status :: x.codeHash.toBytes.drop 1 := by
  refine toBytes_ofBytes ?_
  rw [length_cons, length_drop, length_toBytes]

omit [Externals] in
theorem tier1Status_withTier1Status : tier1Status (withTier1Status x status) = status := by
  rw [tier1Status, codeBytes_withTier1Status, headD_cons]

omit [Externals] in
theorem tier1CommitteeSize_withTier1Status :
    tier1CommitteeSize (withTier1Status x status) = tier1CommitteeSize x := by
  rw [tier1CommitteeSize, codeBytes_withTier1Status, drop_succ_cons, drop_drop, tier1CommitteeSize]

/-! ### The arms of a request -/

/-- A ledger without votes for the request. -/
theorem advances_of_no_votes (hs : s.tier1Votes r = []) (ht : t.tier1Votes r = []) :
    Advances r s t where
  fair :=
    { nodup := by rw [ht]; exact nodup_nil
      bounded := by rw [ht]; exact Nat.zero_le _
      members := fun _ v hv => by
        rw [ht] at hv
        cases hv }
  votes := by rw [hs]; exact nil_prefix
  size := .inl hs

/-- A request starts with no votes. -/
theorem advances_request (hstorage : Tier1Storage) (hs : Fair s r) {body : InferenceRequestBody}
    (hr : body.requestId = r) (hsender : tx.sender ≠ tier1EscrowAddress r) :
    wp (executeInferenceRequest c tx body) s fun _ t _ => Advances r s t := by
  subst hr
  have hsame := (SameBallot.refl (r := body.requestId) (s := s)).advances hs
  have hopened := (SameBallot.ensure (r := body.requestId) (s := s) tx.sender).advances hs
  have hdebited : ∀ x, SameBallot body.requestId s ((s.ensure tx.sender).putAccount tx.sender x) :=
    fun x => (SameBallot.ensure tx.sender).trans (.put hsender)
  simp only [executeInferenceRequest, checkTier1Request, wp_bind_assoc, wp_require_bind,
    wp_openSender_bind, wp_requireBalance_bind, wp_storeAccount_bind, wp_getOrCreateAccount_bind,
    wp_setStorage_bind, hsame, hopened, implies_true, and_true]
  intro _ _ _ _ _ _ _ _
  refine ⟨fun hfree => ?_, fun _ => ?_⟩
  · -- an escrow without code has a committee of no members, so there are no votes yet
    have hcode : (s.tier1Escrow body.requestId).codeHash = .zero :=
      (hdebited _).code.symm.trans hfree.2
    have hsize : tier1CommitteeSize (s.tier1Escrow body.requestId) = 0 := by
      rw [tier1CommitteeSize, hcode]
      decide +kernel
    have hnone : s.tier1Votes body.requestId = [] := by
      have hbounded := hs.bounded
      rw [hsize] at hbounded
      exact eq_nil_of_length_eq_zero (Nat.le_zero.mp hbounded)
    obtain ⟨bytes, hserialize, hdeserialize⟩ := hstorage.roundTrip []
    have hempty : emptyVotes = bytes := by rw [emptyVotes, hserialize]
    refine advances_of_no_votes hnone ?_
    refine Eq.trans (SameBallot.putStorage (hstorage.keys "tier1.request_id" (by simp))).votes ?_
    rw [hempty]
    exact tier1Votes_putStorage hdeserialize
  · exact ((hdebited _).trans (.ensure _)).advances hs

/-- A member's first vote. -/
theorem advances_of_vote {output : Hash256} (hs : Fair s r) (htakes : s.TakesVotes r)
    (hmember : tx.sender ∈ s.tier1Members r)
    (hfresh : tx.sender ∉ (s.tier1Votes r).map Prod.fst)
    (hvotes : t.tier1Votes r = s.tier1Votes r ++ [(tx.sender, output)])
    (hvalidators : t.validators = s.validators)
    (hanchor : (t.tier1Escrow r).nonce = (s.tier1Escrow r).nonce)
    (hsize : tier1CommitteeSize (t.tier1Escrow r) = tier1CommitteeSize (s.tier1Escrow r)) :
    Advances r s t := by
  have hmembers : t.tier1Members r = s.tier1Members r := by
    rw [tier1Members, tier1Members, hvalidators, hanchor, hsize]
  have hnodup : ((t.tier1Votes r).map Prod.fst).Nodup := by
    rw [hvotes, map_append, map_cons, map_nil, ← concat_eq_append]
    exact hs.nodup.concat hfresh
  have hall : ∀ v ∈ t.tier1Votes r, v.1 ∈ t.tier1Members r := by
    intro v hv
    rw [hmembers]
    rw [hvotes, mem_append, mem_singleton] at hv
    rcases hv with hv | rfl
    · exact hs.members htakes v hv
    · exact hmember
  refine ⟨⟨hnodup, ?_, fun _ => hall⟩, ?_, .inr hsize⟩
  · -- different members, so no more than the committee has
    have hsub : (t.tier1Votes r).map Prod.fst ⊆ t.tier1Members r := by
      intro a ha
      obtain ⟨v, hv, rfl⟩ := mem_map.mp ha
      exact hall v hv
    have hlength := (subperm_of_subset hnodup hsub).length_le
    rw [length_map] at hlength
    refine hlength.trans ?_
    rw [tier1Members, tier1Committee, length_map]
    exact length_take_le _ _
  · rw [hvotes]
    exact prefix_append _ _

variable {body : InferenceVoteBody} {f : Unit → Exec Unit} {I : Ledger → Prop}

theorem wp_checkOutputBlob_store (hs : I s) (hf : wp (f ()) s fun _ t _ => I t) :
    wp (checkOutputBlob body >>= f) s fun _ t _ => I t := by
  unfold checkOutputBlob
  cases body.outputBlob with
  | none => exact hf
  | some blob =>
    simp only [wp_bind_assoc, wp_require_bind]
    exact ⟨fun _ => ⟨fun _ => hf, fun _ => hs⟩, fun _ => hs⟩

theorem wp_storeOutputBlob_store (hstorage : Tier1Storage)
    (hf : ∀ t, SameBallot r s t → wp (f ()) t fun _ t _ => I t) :
    wp (storeOutputBlob a body >>= f) s fun _ t _ => I t := by
  unfold storeOutputBlob
  cases body.outputBlob with
  | none => exact hf s .refl
  | some blob =>
    simp only [wp_bind_assoc, wp_getStorage_bind]
    split
    · exact hf _ (.putStorage (hstorage.keys "tier1.output_blob" (by simp)))
    · exact hf s SameBallot.refl

/-- A vote adds the signer to the voters. -/
theorem advances_vote (hstorage : Tier1Storage) (hs : Fair s r)
    (hr : body.requestId = r) (hsender : tx.sender ≠ tier1EscrowAddress r) :
    wp (executeInferenceVote tx body) s fun _ t _ => Advances r s t := by
  subst hr
  have hsame := (SameBallot.refl (r := body.requestId) (s := s)).advances hs
  have hopened : SameBallot body.requestId s
      ((s.ensure tx.sender).ensure (tier1EscrowAddress body.requestId)) :=
    (SameBallot.ensure tx.sender).trans (SameBallot.ensure _)
  have hensured := (SameBallot.ensure (r := body.requestId) (s := s) tx.sender).advances hs
  have hread := hopened.advances hs
  obtain ⟨bytes, hserialize, hdeserialize⟩ :=
    hstorage.roundTrip (s.tier1Votes body.requestId ++ [(tx.sender, body.outputHash)])
  refine wp_checkOutputBlob_store hsame ?_
  simp only [wp_openSender_bind, wp_getOrCreateAccount_bind, wp_require_bind, wp_readValidators_bind,
    wp_getStorage_bind, accountOr_ensure, hensured, hread, implies_true, and_true]
  intro _ _ htakes hmember hfresh
  -- the stored votes are those of the ledger before
  have hencode : (Externals.serializeVotes
      (s.tier1Votes body.requestId ++ [(tx.sender, body.outputHash)])).mapError
        (fun e => StateError.executionError s!"tier1 vote: serialize votes: {e}") = .ok bytes := by
    rw [hserialize]
    rfl
  refine wp_ofExcept_bind.mpr ⟨fun encoded hencoded => ?_, fun e herror => ?_⟩
  · obtain rfl : bytes = encoded := Except.ok.inj (hencode.symm.trans hencoded)
    rw [wp_setStorage_bind]
    refine wp_storeOutputBlob_store (r := body.requestId) (I := Advances body.requestId s) hstorage
      fun t hblob => ?_
    generalize hput : ((s.ensure tx.sender).ensure (tier1EscrowAddress body.requestId)).putStorage
      (tier1EscrowAddress body.requestId) (tier1Key "tier1.votes") bytes = stored at hblob
    have hvotes : t.tier1Votes body.requestId =
        s.tier1Votes body.requestId ++ [(tx.sender, body.outputHash)] := by
      rw [hblob.votes, ← hput]
      exact tier1Votes_putStorage hdeserialize
    have hvalidators : t.validators = s.validators := by
      rw [hblob.validators, ← hput]
      exact hopened.validators
    have hcode : (t.tier1Escrow body.requestId).codeHash = (s.tier1Escrow body.requestId).codeHash := by
      rw [hblob.code, ← hput]
      exact hopened.code
    have hanchor : (t.tier1Escrow body.requestId).nonce = (s.tier1Escrow body.requestId).nonce := by
      rw [hblob.anchor, ← hput]
      exact hopened.anchor
    have hbump : SameBallot body.requestId t (t.putAccount tx.sender (s.accountOr tx.sender).bumped) :=
      .put hsender
    rw [wp_storeAccount_bind]
    split
    · -- the first vote: the status byte changes
      rw [wp_storeAccount]
      have hsize : tier1CommitteeSize (withTier1Status (s.accountOr (tier1EscrowAddress
          body.requestId)) tier1StatusVoting) = tier1CommitteeSize (s.tier1Escrow body.requestId) :=
        tier1CommitteeSize_withTier1Status
      refine advances_of_vote hs htakes hmember hfresh (hbump.votes.trans hvotes)
        (hbump.validators.trans hvalidators) SameBallot.putStatus ?_
      rw [tier1Escrow, accountOr_putAccount_self]
      exact hsize
    · refine advances_of_vote hs htakes hmember hfresh (hbump.votes.trans hvotes)
        (hbump.validators.trans hvalidators) (hbump.anchor.trans hanchor) ?_
      exact tier1CommitteeSize_congr (hbump.code.trans hcode)
  · cases hencode.symm.trans herror

theorem sameBallot_payAgreed (hstorage : Tier1Storage) {output : Hash256} {reward : Nat} :
    wp (payAgreed a requester votes output reward) s fun o t _ => o = .ok () ∧ SameBallot r s t := by
  rw [payAgreed, wp_bind]
  refine wp_mono (wp_forEach (I := SameBallot r s) (fun v t _ ht => ?_) .refl) ?_
  · rw [wp_creditAccount]
    exact ⟨rfl, ht.trans .credit⟩
  · rintro o t _ ⟨rfl, ht⟩
    simp only [wp_creditAccount_bind, wp_setStorage, true_and]
    refine .trans ?_
      (.putStorage (hstorage.keys "tier1.final_output_hash" (by simp)))
    exact (ht.trans .credit).trans .credit

theorem sameBallot_refundDisagreed {reward : Nat} :
    wp (refundDisagreed requester reward) s fun o t _ => o = .ok () ∧ SameBallot r s t := by
  simp only [refundDisagreed, wp_creditAccount_bind, wp_ite, wp_creditAccount, wp_pure, true_and]
  exact ⟨fun _ => SameBallot.credit.trans SameBallot.credit, fun _ => SameBallot.credit⟩

/-- The settlement pays accounts and records the output; the request itself it leaves. -/
theorem sameBallot_settleRequest (hstorage : Tier1Storage) {size reward : Nat} :
    wp (settleRequest a requester votes size reward) s fun o t _ =>
      ∃ status, o = .ok status ∧ ¬ Tier1Actionable status ∧ SameBallot r s t := by
  simp only [settleRequest, wp_ite]
  constructor
  · intro _
    rw [wp_bind]
    refine wp_mono (sameBallot_payAgreed (r := r) hstorage) ?_
    rintro o t _ ⟨rfl, ht⟩
    exact ⟨_, rfl, by decide, ht⟩
  · intro _
    rw [wp_bind]
    refine wp_mono (sameBallot_refundDisagreed (r := r)) ?_
    rintro o t _ ⟨rfl, ht⟩
    exact ⟨_, rfl, by decide, ht⟩

/-- A finalization closes the request and keeps its votes. -/
theorem advances_finalize (hstorage : Tier1Storage) (hs : Fair s r) {body : InferenceFinalizeBody}
    (hr : body.requestId = r) (hsender : tx.sender ≠ tier1EscrowAddress r) :
    wp (executeInferenceFinalize c tx body) s fun _ t _ => Advances r s t := by
  subst hr
  have hopened := (SameBallot.ensure (r := body.requestId) (s := s) tx.sender).advances hs
  have hbumped : SameBallot body.requestId s
      (((s.ensure tx.sender).putAccount tx.sender (s.accountOr tx.sender).bumped).ensure
        (tier1EscrowAddress body.requestId)) :=
    ((SameBallot.ensure tx.sender).trans (SameBallot.put hsender)).trans (.ensure _)
  have hread := hbumped.advances hs
  simp only [executeInferenceFinalize, wp_openSender_bind, wp_storeAccount_bind,
    wp_getOrCreateAccount_bind, wp_require_bind, wp_getStorage_bind, hopened, hread, implies_true,
    and_true]
  intro _ _ _ _ _
  rw [wp_bind]
  refine wp_mono (sameBallot_settleRequest hstorage (r := body.requestId)) ?_
  rintro o t _ ⟨status, rfl, hclosed, hsettled⟩
  have hsame := hbumped.trans hsettled
  simp only [wp_storeAccount_bind, wp_setTier1Pending]
  generalize hescrow : ((s.ensure tx.sender).putAccount tx.sender
    (s.accountOr tx.sender).bumped).accountOr (tier1EscrowAddress body.requestId) = escrow
  have hcode : escrow.codeHash = (s.tier1Escrow body.requestId).codeHash := by
    rw [← hescrow, ← hbumped.code, tier1Escrow, accountOr_ensure]
  generalize hclosing : (withTier1Status escrow status).withBalance 0 = closed
  have hbytes : closed.codeHash = (withTier1Status escrow status).codeHash := by
    rw [← hclosing, Account.withBalance]
  have hsize : tier1CommitteeSize closed = tier1CommitteeSize (s.tier1Escrow body.requestId) := by
    rw [tier1CommitteeSize_congr hbytes, tier1CommitteeSize_withTier1Status,
      tier1CommitteeSize_congr hcode]
  have hstatus : tier1Status closed = status := by
    rw [tier1Status_congr hbytes, tier1Status_withTier1Status]
  have hstored : ((t.putAccount (tier1EscrowAddress body.requestId) closed).putTier1Pending
      body.requestId none).tier1Escrow body.requestId = closed := accountOr_putAccount_self
  have hvotes : ((t.putAccount (tier1EscrowAddress body.requestId) closed).putTier1Pending
      body.requestId none).tier1Votes body.requestId = s.tier1Votes body.requestId := hsame.votes
  refine ⟨⟨?_, ?_, fun htakes => ?_⟩, ?_, ?_⟩
  · rw [hvotes]
    exact hs.nodup
  · rw [hvotes, hstored, hsize]
    exact hs.bounded
  · rw [Ledger.TakesVotes, hstored, hstatus] at htakes
    exact absurd htakes hclosed
  · rw [hvotes]
  · rw [hstored]
    exact .inr hsize

/-! ### Operations -/

/-- The request a Tier 1 transaction is about. -/
def TxBody.tier1Request : TxBody → Option Hash256
  | .inferenceRequest body => some body.requestId
  | .inferenceVote body => some body.requestId
  | .inferenceFinalize body => some body.requestId
  | _ => none

/-- The transactions of the request itself. -/
theorem advances_own (hstorage : Tier1Storage) (hs : Fair s r) (hown : tx.body.tier1Request = some r)
    (hsender : tx.sender ≠ tier1EscrowAddress r) :
    Advances r s ((executeSigned c tx).run s).store := by
  have hsame := (SameBallot.refl (r := r) (s := s)).advances hs
  refine executeSigned_store (I := Advances r s) hsame fun gas => ?_
  cases hbody : tx.body with
  | inferenceRequest body =>
    rw [hbody] at hown
    exact wp_flatGas_store (advances_request hstorage hs (Option.some.inj hown) hsender)
  | inferenceVote body =>
    rw [hbody] at hown
    exact wp_flatGas_store (advances_vote hstorage hs (Option.some.inj hown) hsender)
  | inferenceFinalize body =>
    rw [hbody] at hown
    exact wp_flatGas_store (advances_finalize hstorage hs (Option.some.inj hown) hsender)
  | _ =>
    rw [hbody] at hown
    cases hown

/-- The sweep of matured bonds. -/
theorem sameBallot_sweep {height : Nat} :
    SameBallot r s (sweepMaturedBondReleases height s).store :=
  sweep_keeps (fun _ => .refl) (fun _ _ _ => .trans)
    (fun _ _ => ⟨rfl, rfl, rfl, rfl⟩) (fun _ _ _ hnonce hcode => .putSame hcode hnonce)
    height s

namespace Advances

theorem trans (h : Advances r s t) (h' : Advances r t u) : Advances r s u where
  fair := h'.fair
  votes := h.votes.trans h'.votes
  size := by
    rcases h.size with hnone | hsize
    · exact .inl hnone
    · rcases h'.size with hnone | hsize'
      · have hpre := h.votes
        rw [hnone] at hpre
        exact .inl (prefix_nil.mp hpre)
      · exact .inr (hsize'.trans hsize)

/-- What is decided stays decided. -/
theorem decides {out : Hash256} (h : Advances r s t) (hout : s.Decides r out) : t.Decides r out := by
  have hpos : 0 < votesFor (s.tier1Votes r) out := by
    unfold Ledger.Decides minAgreement at hout
    omega
  rcases h.size with hnone | hsize
  · rw [hnone] at hpos
    exact absurd hpos (by simp [votesFor])
  · rw [Ledger.Decides, hsize]
    exact hout.trans (votesFor_mono h.votes)

end Advances

/-! ## Runs -/

/-- What a run asks of an operation, for the request `r`. -/
def BallotGuard (r : Hash256) (p : Context × Ledger) : ChainOp → Prop
  | .transaction tx =>
    if tx.body.tier1Request = some r then tx.sender ≠ tier1EscrowAddress r
    else KeepsBallot r p.2 ((executeSigned p.1 tx).run p.2).store
  | _ => True

variable {q p : Context × Ledger}

theorem advances_chainStep (hstorage : Tier1Storage) {op : ChainOp}
    (hguard : BallotGuard r p op) (hs : Fair p.2 r) (hstep : chainStep p op = some q) :
    Advances r p.2 q.2 := by
  cases op with
  | raiseHeight =>
    obtain rfl := Option.some.inj hstep
    exact SameBallot.refl.advances hs
  | sweep =>
    obtain rfl := Option.some.inj hstep
    exact sameBallot_sweep.advances hs
  | transaction tx =>
    obtain rfl := Option.some.inj hstep
    rw [BallotGuard] at hguard
    by_cases hown : tx.body.tier1Request = some r
    · rw [if_pos hown] at hguard
      exact advances_own hstorage hs hown hguard
    · rw [if_neg hown] at hguard
      exact hguard.advances hs

theorem advances_run (hstorage : Tier1Storage) {ops : List ChainOp}
    (h : Run chainStep (BallotGuard r) p ops q) (hs : Fair p.2 r) : Advances r p.2 q.2 := by
  induction h with
  | nil p => exact SameBallot.refl.advances hs
  | cons hguard hstep _ ih =>
    have hone := advances_chainStep hstorage hguard hs hstep
    exact hone.trans (ih hone.fair)

end Ballots

end Requests

/-! ## The order of the tally -/

section Order

variable [E : Externals] {c : Context} {s : Ledger} {tx : Transaction} {r : Hash256}

variable {body : InferenceFinalizeBody}

/-- The same parts with another iteration order of the tally. -/
@[reducible] def Externals.withOrder (E : Externals)
    (order : List (Hash256 × Nat) → List (Hash256 × Nat))
    (hperm : ∀ entries, (order entries).Perm entries) : Externals :=
  { E with mapOrder := order, mapOrder_perm := hperm }

/-- The settlement of the decided output. -/
theorem settleRequest_eq {a : Address} {votes : List (Address × Hash256)} {size reward : Nat} :
    settleRequest a requester votes size reward =
      match decidedOutput size (Externals.mapOrder (tallyVotes votes)) with
      | some output =>
        payAgreed a requester votes output reward >>= fun _ => pure tier1StatusFinalized
      | none => refundDisagreed requester reward >>= fun _ => pure tier1StatusRefunded := by
  rw [settleRequest, decidedOutput, minAgreement]
  split <;> rfl

/-- A committee's votes are settled alike in every order of the tally. -/
theorem settleRequest_withOrder {order : List (Hash256 × Nat) → List (Hash256 × Nat)}
    (hperm : ∀ entries, (order entries).Perm entries) {a : Address}
    {votes : List (Address × Hash256)} {size reward : Nat} (hsize : votes.length ≤ size)
    (hsmall : size < 2 ^ 64) :
    @settleRequest (E.withOrder order hperm) a requester votes size reward =
      settleRequest a requester votes size reward := by
  have hdecided : decidedOutput size (order (tallyVotes votes)) =
      decidedOutput size (Externals.mapOrder (tallyVotes votes)) := by
    refine Option.ext fun output => ?_
    rw [decidedOutput_eq_some hsize hsmall (hperm _),
      decidedOutput_eq_some hsize hsmall (Externals.mapOrder_perm _)]
  have hother := @settleRequest_eq requester (E.withOrder order hperm) a votes size reward
  rw [hother, settleRequest_eq, ← hdecided]
  rfl

/-- The finalization with the settlement left open. -/
def finalizeWith
    (settle : Address → Address → List (Address × Hash256) → Nat → Nat → Exec UInt8)
    (c : Context) (tx : Transaction) (body : InferenceFinalizeBody) : Exec Unit := do
  let sender ← openSender tx
  storeAccount tx.sender sender.bumped
  let escrow ← getOrCreateAccount (tier1EscrowAddress body.requestId)
  require (escrow.balance ≠ 0) (.executionError
    "tier1 finalize: request not found or already settled")
  let status := tier1Status escrow
  require (Tier1Actionable status) (.executionError
    s!"tier1 finalize: request status {status.toNat} already terminal")
  let committeeSize := tier1CommitteeSize escrow
  let deadline := saturatingAdd escrow.nonce (tier1Deadline escrow)
  let votes := storedVotes
    (← getStorage (tier1EscrowAddress body.requestId) (tier1Key "tier1.votes"))
  require (deadline ≤ c.height ∨ committeeSize ≤ votes.length) (.executionError
    (s!"tier1 finalize: not yet eligible (votes {votes.length}/{committeeSize}, " ++
      s!"height {c.height} < deadline {deadline})"))
  let requesterBytes :=
    (← getStorage (tier1EscrowAddress body.requestId) (tier1Key "tier1.requester")).getD []
  require (requesterBytes.length = 32) (.executionError
    "tier1 finalize: requester not recorded in escrow storage")
  let newStatus ← settle (tier1EscrowAddress body.requestId) (.ofBytes requesterBytes) votes
    committeeSize escrow.balance
  storeAccount (tier1EscrowAddress body.requestId) ((withTier1Status escrow newStatus).withBalance 0)
  setTier1Pending body.requestId none

theorem executeInferenceFinalize_eq :
    executeInferenceFinalize c tx body = finalizeWith settleRequest c tx body := rfl

theorem executeInferenceFinalize_withOrder {order : List (Hash256 × Nat) → List (Hash256 × Nat)}
    (hperm : ∀ entries, (order entries).Perm entries) :
    @executeInferenceFinalize (E.withOrder order hperm) c tx body =
      finalizeWith (@settleRequest (E.withOrder order hperm)) c tx body := rfl

/-- Settlements that agree on the stored votes finalize alike. -/
theorem run_finalizeWith
    {settle settle' : Address → Address → List (Address × Hash256) → Nat → Nat → Exec UInt8}
    (h : ∀ a requester votes size reward, votes = s.tier1Votes body.requestId →
      size = tier1CommitteeSize (s.tier1Escrow body.requestId) →
        settle a requester votes size reward = settle' a requester votes size reward) :
    (finalizeWith settle c tx body).run s = (finalizeWith settle' c tx body).run s := by
  have hcode : (((s.ensure tx.sender).putAccount tx.sender (s.accountOr tx.sender).bumped).accountOr
      (tier1EscrowAddress body.requestId)).codeHash = (s.tier1Escrow body.requestId).codeHash := by
    rw [accountOr_putAccount]
    split
    · rename_i heq
      rw [tier1Escrow, heq]
      rfl
    · rw [accountOr_ensure]
      rfl
  have hstorage : (((s.ensure tx.sender).putAccount tx.sender (s.accountOr tx.sender).bumped).ensure
      (tier1EscrowAddress body.requestId)).storage = s.storage := rfl
  have hsettle : ∀ requester reward, settle (tier1EscrowAddress body.requestId) requester
      (storedVotes ((s.storage.lookup (tier1EscrowAddress body.requestId)).bind fun m =>
        m.lookup (tier1Key "tier1.votes"))) _ reward = settle' _ requester _ _ reward :=
    fun requester reward => h _ requester _ _ reward rfl (tier1CommitteeSize_congr hcode)
  have hother : wp (finalizeWith settle' c tx body) s fun o t l =>
      (⟨o, t, l⟩ : Outcome Ledger StateRecord StateError Unit) =
        (finalizeWith settle' c tx body).run s := rfl
  show wp (finalizeWith settle c tx body) s fun o t l =>
    (⟨o, t, l⟩ : Outcome Ledger StateRecord StateError Unit) =
      (finalizeWith settle' c tx body).run s
  simp only [finalizeWith, wp_openSender_bind, wp_storeAccount_bind, wp_getOrCreateAccount_bind,
    wp_require_bind, wp_getStorage_bind, hstorage] at hother ⊢
  rw [hsettle]
  exact hother

/-- **The verdict is unique.**  From a ledger in which nobody has voted on the request, along every
    run that keeps the request and the members that have voted on it, at most one output is ever
    decided, and the request is finalized alike in every order of the tally. -/
theorem unique_verdict (hstorage : Tier1Storage) {p q w : Context × Ledger}
    {ops ops' : List ChainOp} (hstart : p.2.tier1Votes r = [])
    (h : Run chainStep (BallotGuard r) p ops q) (h' : Run chainStep (BallotGuard r) q ops' w) :
    (∀ out out', q.2.Decides r out → w.2.Decides r out' → out = out') ∧
      ∀ (order : List (Hash256 × Nat) → List (Hash256 × Nat))
        (hperm : ∀ entries, (order entries).Perm entries) (tx : Transaction)
        (body : InferenceFinalizeBody), body.requestId = r →
        (@executeInferenceFinalize (E.withOrder order hperm) w.1 tx body).run w.2 =
          (executeInferenceFinalize w.1 tx body).run w.2 := by
  have hq := advances_run hstorage h (advances_of_no_votes hstart hstart).fair
  have hw := advances_run hstorage h' hq.fair
  refine ⟨fun out out' hout hout' => ?_, ?_⟩
  · exact decided_unique hw.fair.bounded (hw.decides hout) hout'
  · rintro order hperm tx body rfl
    refine run_finalizeWith fun a requester votes size reward hvotes hsize => ?_
    subst hvotes hsize
    refine settleRequest_withOrder hperm hw.fair.bounded ?_
    exact Nat.lt_trans (UInt8.toNat_lt _) (by decide)

end Order

/-! ## Two verdicts -/

namespace Sample

/-- A request with a committee of one. -/
def tier1RequestBody : InferenceRequestBody :=
  letI := concreteExternals
  { requestId := address 7
    modelId := .zero
    inputBlob := [1]
    inputHash := hashBytes [1]
    maxTokens := 1
    deadlineBlocks := 5
    committeeSize := 1
    tier := 1
    maxReward := 10000 }

def tier1Vote (voter nonce output : Nat) : Transaction :=
  tx voter nonce (.inferenceVote
    { requestId := address 7, outputHash := address output, outputBlob := none, vrfProof := [],
      committeeSeed := .zero })

def tier1Request : Transaction := tx 21 0 (.inferenceRequest tier1RequestBody)

/-- A new validator enters the registry. -/
def tier1Stake (validator : Nat) : Transaction :=
  tx validator 0 (.stake { amount := 10, isStake := true, validator := address validator })

def tier1Finalize : InferenceFinalizeBody := { requestId := address 7 }

/-- One validator, and an account that may become one. -/
def tier1Ledger (validator newcomer : Nat) : Ledger :=
  { ledger [account 21 20000 0, account validator 0 0, account newcomer 100 0] with
    validators := FinMap.set ∅ (address validator) (some 10) }

/-- The output recorded by a finalization. -/
def finalOutput (s : Ledger) : Option Bytes :=
  letI := concreteExternals
  (s.storage.lookup (tier1EscrowAddress (address 7))).bind fun m =>
    m.lookup (tier1Key "tier1.final_output_hash")

/-- The chain in which a second validator enters after the vote of the first. -/
def twoVerdicts : Context × Ledger :=
  letI := concreteExternals
  chainAfter (context 0) [[tier1Request], [tier1Vote 32 0 1], [tier1Stake 31, tier1Vote 31 1 2]]
    (tier1Ledger 32 31)

/-- Both outputs are decided, and the order of the tally chooses the recorded one. -/
theorem registry_change_decides_both :
    letI := concreteExternals
    (tier1Ledger 32 31).tier1Votes (address 7) = [] ∧
    twoVerdicts.2.Decides (address 7) (address 1) ∧ twoVerdicts.2.Decides (address 7) (address 2) ∧
    finalOutput ((executeInferenceFinalize twoVerdicts.1 (tx 21 1 (.inferenceFinalize tier1Finalize))
      tier1Finalize).run twoVerdicts.2).store = some (address 2).toBytes ∧
    finalOutput ((@executeInferenceFinalize (concreteExternals.withOrder List.reverse
      List.reverse_perm) twoVerdicts.1 (tx 21 1 (.inferenceFinalize tier1Finalize))
      tier1Finalize).run twoVerdicts.2).store = some (address 1).toBytes := by
  decide +kernel

/-- The concrete vote lists are read back. -/
theorem decodeVotes_encode (votes : List (Address × Hash256)) : ∀ fuel, votes.length ≤ fuel →
      Concrete.decodeVotes fuel (votes.flatMap fun v => v.1.toBytes ++ v.2.toBytes) = some votes := by
  induction votes with
  | nil =>
    intro fuel _
    cases fuel with
    | zero => rfl
    | succ fuel => rfl
  | cons v votes ih =>
    intro fuel hfuel
    obtain ⟨fuel, rfl⟩ : ∃ n, fuel = n + 1 := ⟨fuel - 1, by rw [length_cons] at hfuel; omega⟩
    rw [length_cons] at hfuel
    rw [flatMap_cons]
    generalize hrest : (votes.flatMap fun v => v.1.toBytes ++ v.2.toBytes) = rest
    have hlength : ((v.1.toBytes ++ v.2.toBytes) ++ rest).length = 64 + rest.length := by
      rw [length_append, length_append, length_toBytes, length_toBytes]
    have hdrop : ((v.1.toBytes ++ v.2.toBytes) ++ rest).drop 64 = rest :=
      drop_left' (by rw [length_append, length_toBytes, length_toBytes])
    have hfirst : ((v.1.toBytes ++ v.2.toBytes) ++ rest).take 32 = v.1.toBytes := by
      exact take_left' (length_toBytes _)
    have hsecond : (((v.1.toBytes ++ v.2.toBytes) ++ rest).drop 32).take 32 = v.2.toBytes := by
      rw [append_assoc, drop_left' (length_toBytes _)]
      exact take_left' (length_toBytes _)
    rw [Concrete.decodeVotes]
    · rw [hdrop, ← hrest, ih fuel (by omega), hrest, hfirst, hsecond,
        ofBytes_toBytes, ofBytes_toBytes]
      rfl
    · intro hempty
      rw [hempty, length_nil] at hlength
      omega

theorem tier1Storage_concrete : letI := concreteExternals; Tier1Storage := by
  let _ : Externals := concreteExternals
  refine ⟨fun votes => ⟨_, rfl, ?_⟩, rfl, by decide +kernel⟩
  refine decodeVotes_encode votes _ ?_
  have hle : ∀ votes : List (Address × Hash256),
      votes.length ≤ (votes.flatMap fun v => v.1.toBytes ++ v.2.toBytes).length := by
    intro votes
    induction votes with
    | nil => exact le_refl 0
    | cons v votes ih =>
      rw [flatMap_cons, length_append, length_append, length_cons, length_toBytes]
      omega
  exact hle votes

/-- The ledger after the request and the vote of the only member. -/
def votedLedger : Ledger :=
  letI := concreteExternals
  ((executeSigned (context 1) (tier1Vote 32 0 1)).run
    ((executeSigned (context 1) tier1Request).run (tier1Ledger 32 33)).store).store

/-- A validator enters behind the member that has voted. -/
def joinedLedger : Ledger :=
  letI := concreteExternals
  ((executeSigned (context 1) (tier1Stake 33)).run votedLedger).store

theorem one_verdict :
    letI := concreteExternals
    joinedLedger.Decides (address 7) (address 1) ∧
    (∀ out, votedLedger.Decides (address 7) out → out = address 1) ∧
    (executeInferenceFinalize (context 1) (tx 21 1 (.inferenceFinalize tier1Finalize))
      tier1Finalize).run joinedLedger =
      (@executeInferenceFinalize (concreteExternals.withOrder List.reverse List.reverse_perm)
        (context 1) (tx 21 1 (.inferenceFinalize tier1Finalize)) tier1Finalize).run joinedLedger := by
  let _ : Externals := concreteExternals
  have hdecided : joinedLedger.Decides (address 7) (address 1) := by decide +kernel
  have hvoted : Run chainStep (BallotGuard (address 7)) (context 1, tier1Ledger 32 33)
      [.transaction tier1Request, .transaction (tier1Vote 32 0 1)] (context 1, votedLedger) := by
    refine .cons (t := (context 1, ((executeSigned (context 1) tier1Request).run
      (tier1Ledger 32 33)).store)) ?_ rfl (.cons ?_ rfl (.nil _))
    · show address 21 ≠ tier1EscrowAddress (address 7)
      decide +kernel
    · show address 32 ≠ tier1EscrowAddress (address 7)
      decide +kernel
  have hjoined : Run chainStep (BallotGuard (address 7)) (context 1, votedLedger)
      [.transaction (tier1Stake 33)] (context 1, joinedLedger) := by
    refine .cons ?_ rfl (.nil _)
    show KeepsBallot (address 7) votedLedger joinedLedger
    decide +kernel
  obtain ⟨hunique, horder⟩ :=
    unique_verdict tier1Storage_concrete (by decide +kernel) hvoted hjoined
  exact ⟨hdecided, fun out hout => hunique out _ hout hdecided,
    (horder List.reverse reverse_perm _ _ rfl).symm⟩

end Sample

end ArcChain
