/-
Which transaction a committed candidate list contributes to a block
(`select_native_block_transactions`), as a function of the list.

Nodes see the same candidates up to order, repetition and native
transactions whose nonce is used.  `selection_agrees_iff` says exactly when
two such lists give the same block: the early test for native work sees
used candidates, and the cap counts repetitions.
-/
import ArcChain.Native.Block
import ArcChain.Native.Concrete

namespace ArcChain

open Word List

namespace NativeDb

variable {l l' : List Transaction}

/-! ## Candidate lists -/

/-- The transactions of a block, by hash. -/
def blockContent (txs : List Transaction) : Finset Hash256 := (txs.map (·.hash)).toFinset

/-- The candidates are all native or all ordinary. -/
def OneLane (candidates : List Transaction) : Prop :=
  (∀ tx ∈ candidates, tx.body.isNativeBody = true) ∨
    ∀ tx ∈ candidates, tx.body.isNativeBody = false

section Lists

variable (db : NativeDb)

/-- The native candidates with an unused nonce, in hash order. -/
def liveCandidates (candidates : List Transaction) : List Transaction :=
  (orderedCandidates candidates).filter fun tx => decide (¬ db.NonceUsed tx)

/-- Whether the list is an ordinary block of a migrated chain. -/
def OrdinaryLane (candidates : List Transaction) : Prop :=
  db.nativeMigration.isSome = true ∧ ∀ tx ∈ candidates, tx.body.isNativeBody = false

/-- The two lists hold the same transactions, native ones with a used nonce apart. -/
def SameWork (l l' : List Transaction) : Prop :=
  ∀ tx, ¬ (tx.body.isNativeBody = true ∧ db.NonceUsed tx) → (tx ∈ l ↔ tx ∈ l')

theorem mem_liveCandidates {tx : Transaction} :
    tx ∈ db.liveCandidates l ↔ tx ∈ l ∧ tx.body.isNativeBody = true ∧ ¬ db.NonceUsed tx := by
  rw [liveCandidates, mem_filter, orderedCandidates, mem_insertionSort,
    mem_filter, decide_eq_true_eq, and_assoc]

variable {db}

/-- A list without native candidates has no live ones. -/
theorem liveCandidates_ordinary (h : ∀ tx ∈ l, tx.body.isNativeBody = false) :
    db.liveCandidates l = [] := by
  refine eq_nil_iff_forall_not_mem.mpr fun tx htx => ?_
  obtain ⟨hmem, hnative, _⟩ := (db.mem_liveCandidates).mp htx
  rw [h tx hmem] at hnative
  cases hnative

theorem SameWork.symm (h : db.SameWork l l') : db.SameWork l' l := fun tx htx => (h tx htx).symm

theorem SameWork.mem_live (h : db.SameWork l l') {tx : Transaction} :
    tx ∈ db.liveCandidates l ↔ tx ∈ db.liveCandidates l' := by
  rw [mem_liveCandidates, mem_liveCandidates]
  constructor
  · rintro ⟨hmem, hnative, hused⟩
    exact ⟨(h tx fun hboth => hused hboth.2).mp hmem, hnative, hused⟩
  · rintro ⟨hmem, hnative, hused⟩
    exact ⟨(h tx fun hboth => hused hboth.2).mpr hmem, hnative, hused⟩

/-- The two lists hold the same ordinary transactions. -/
theorem SameWork.ordinary (hsame : db.SameWork l l') :
    (∀ tx ∈ l, tx.body.isNativeBody = true) ↔ ∀ tx ∈ l', tx.body.isNativeBody = true := by
  have hone : ∀ {a b : List Transaction}, db.SameWork a b →
      (∀ tx ∈ a, tx.body.isNativeBody = true) → ∀ tx ∈ b, tx.body.isNativeBody = true := by
    intro a b hab h tx htx
    by_contra hordinary
    have hmem : tx ∈ a := (hab tx fun hboth => hordinary hboth.1).mpr htx
    exact hordinary (h tx hmem)
  exact ⟨hone hsame, hone hsame.symm⟩

end Lists

/-! ## The loop -/

section Loop

variable [NativeExternals] (db : NativeDb)

/-- How many live candidates come before the first one that a block may carry. -/
def livesBefore (candidates : List Transaction) : Nat :=
  (db.liveCandidates candidates).findIdx fun tx => decide (db.Admits [tx])

/-- Candidates with a used nonce are passed over and not counted. -/
theorem examine_filter (n : Nat) (l : List Transaction) :
    db.examine true n l = db.examine true n (l.filter fun tx => decide (¬ db.NonceUsed tx)) := by
  induction l generalizing n with
  | nil => rfl
  | cons tx l ih =>
    by_cases hused : db.NonceUsed tx
    · rw [filter_cons_of_neg (by simpa using hused), examine, if_pos ⟨rfl, hused⟩]
      exact ih n
    · have hlive : ¬ (true = true ∧ db.NonceUsed tx) := fun h => hused h.2
      rw [filter_cons_of_pos (by simpa using hused), examine, examine, if_neg hlive,
        if_neg hlive, ih (n + 1)]

/-- Over live candidates the loop finds the first admissible one among those the cap leaves. -/
theorem examine_live (n : Nat) (hn : n ≤ maxNativeCandidatesPerBlock) (l : List Transaction)
    (hlive : ∀ tx ∈ l, ¬ db.NonceUsed tx) :
    db.examine true n l =
      if n + l.findIdx (fun tx => decide (db.Admits [tx])) < maxNativeCandidatesPerBlock
      then (l.find? fun tx => decide (db.Admits [tx])).toList else [] := by
  induction l generalizing n with
  | nil =>
    show [] = ite _ [] []
    rw [ite_self]
  | cons tx l ih =>
    have htx : ¬ (true = true ∧ db.NonceUsed tx) := fun h => hlive tx mem_cons_self h.2
    have hrest : ∀ t ∈ l, ¬ db.NonceUsed t := fun t ht => hlive t (mem_cons_of_mem _ ht)
    rw [examine, if_neg htx, findIdx_cons, List.find?_cons]
    by_cases hcap : n = maxNativeCandidatesPerBlock
    · -- the cap is reached before this candidate
      have hover : ∀ k, ¬ n + k < maxNativeCandidatesPerBlock := fun k => by omega
      rw [if_pos hcap, if_neg (hover _)]
    · rw [if_neg hcap]
      by_cases hadmits : db.Admits [tx]
      · have hfirst : n + 0 < maxNativeCandidatesPerBlock := by omega
        rw [if_pos hadmits, decide_eq_true hadmits]
        simp only [cond_true]
        rw [if_pos hfirst, Option.toList_some]
      · rw [if_neg hadmits, decide_eq_false hadmits, ih (n + 1) (by omega) hrest]
        simp only [cond_false]
        rw [add_assoc, add_comm 1]

theorem select_ordinary (h : db.OrdinaryLane l) : db.selectNativeBlockTransactions l = l := by
  have hany : l.any (fun tx => tx.body.isNativeBody) = false := by
    simpa using h.2
  unfold selectNativeBlockTransactions
  cases db.nativeInferenceContext with
  | none => rfl
  | some context => exact if_pos ⟨h.1, hany⟩

/-- Off the ordinary lane the selection is the first admissible live candidate, if the cap
    leaves it. -/
theorem select_native {context : InferenceAdmissionContext}
    (hcontext : db.nativeInferenceContext = some context)
    (hrule : context.selectionRule = .skipUsedNoncesV2) (h : ¬ db.OrdinaryLane l) :
    db.selectNativeBlockTransactions l =
      if db.livesBefore l < maxNativeCandidatesPerBlock
      then ((db.liveCandidates l).find? fun tx => decide (db.Admits [tx])).toList else [] := by
  have hlane : ¬ (db.nativeMigration.isSome = true ∧
      l.any (fun tx => tx.body.isNativeBody) = false) := by
    rintro ⟨hmigrated, hany⟩
    exact h ⟨hmigrated, by simpa using hany⟩
  have hskip : decide (context.selectionRule = .skipUsedNoncesV2) = true := decide_eq_true hrule
  have hlive : ∀ tx ∈ db.liveCandidates l, ¬ db.NonceUsed tx :=
    fun tx htx => ((db.mem_liveCandidates).mp htx).2.2
  have hloop := db.examine_live 0 (Nat.zero_le _) (db.liveCandidates l) hlive
  rw [zero_add] at hloop
  unfold selectNativeBlockTransactions
  rw [hcontext]
  dsimp only
  rw [if_neg hlane, hskip, examine_filter]
  exact hloop

/-! ## The candidate of smallest hash -/

/-- The first admissible live candidate has the smallest hash among them. -/
theorem find_live_le {tx other : Transaction}
    (hfind : (db.liveCandidates l).find? (fun tx => decide (db.Admits [tx])) = some tx)
    (hother : other ∈ db.liveCandidates l) (hadmits : db.Admits [other]) :
    tx.hash ≤ other.hash := by
  obtain ⟨_, pre, post, hsplit, hpre⟩ := List.find?_eq_some_iff_append.mp hfind
  have hsorted : (db.liveCandidates l).Pairwise fun a b => a.hash ≤ b.hash :=
    (pairwise_insertionSort _ _).filter _
  rw [hsplit] at hsorted hother
  rcases mem_append.mp hother with hbefore | hafter
  · -- nothing before the first one is admissible
    have hnot := hpre other hbefore
    simp [hadmits] at hnot
  · rcases mem_cons.mp hafter with rfl | hpost
    · exact le_rfl
    · exact (pairwise_cons.mp (pairwise_append.mp hsorted).2.1).1 other hpost

variable {db}

/-- Two lists with the same work find candidates of one hash. -/
theorem SameWork.find_hash (h : db.SameWork l l') :
    ((db.liveCandidates l).find? fun tx => decide (db.Admits [tx])).map (·.hash) =
      ((db.liveCandidates l').find? fun tx => decide (db.Admits [tx])).map (·.hash) := by
  cases hl : (db.liveCandidates l).find? fun tx => decide (db.Admits [tx]) with
  | none =>
    cases hl' : (db.liveCandidates l').find? fun tx => decide (db.Admits [tx]) with
    | none => rfl
    | some tx' =>
      have hmem := h.mem_live.mpr (mem_of_find?_eq_some hl')
      have hnot := List.find?_eq_none.mp hl tx' hmem
      exact absurd (List.find?_some hl') hnot
  | some tx =>
    have hmem := h.mem_live.mp (mem_of_find?_eq_some hl)
    have hadmits : db.Admits [tx] := by simpa using List.find?_some hl
    cases hl' : (db.liveCandidates l').find? fun tx => decide (db.Admits [tx]) with
    | none => exact absurd (decide_eq_true hadmits) (List.find?_eq_none.mp hl' tx hmem)
    | some tx' =>
      have hmem' := h.mem_live.mpr (mem_of_find?_eq_some hl')
      have hadmits' : db.Admits [tx'] := by simpa using List.find?_some hl'
      have hle := db.find_live_le hl hmem' hadmits'
      have hge := db.find_live_le hl' hmem hadmits
      show some tx.hash = some tx'.hash
      rw [le_antisymm hle hge]

/-! ## Admission of what is selected -/

/-- A state that admits a block with one native transaction admits the empty block. -/
theorem Admits.nil {tx : Transaction} (h : db.Admits [tx]) : db.Admits [] := by
  obtain ⟨height, hheight, hblock⟩ := bind_eq_ok.mp h
  refine bind_eq_ok.mpr ⟨height, hheight, ?_⟩
  unfold validateNativeInferenceBlockAdmissionAt at hblock ⊢
  cases hcontext : db.nativeInferenceContext with
  | none => exact Result.require_eq_ok.mpr rfl
  | some context =>
    rw [hcontext] at hblock
    dsimp only at hblock ⊢
    by_cases hmigrated : db.nativeMigration.isSome = true
    · exact if_pos ⟨hmigrated, rfl⟩
    rw [if_neg fun hlane => hmigrated hlane.1] at hblock ⊢
    obtain ⟨_, _, hblock⟩ := bind_eq_ok.mp hblock
    obtain ⟨_, hnext, hblock⟩ := bind_eq_ok.mp hblock
    obtain ⟨commitment, hactivation, _⟩ := bind_eq_ok.mp hblock
    have hempty : ([] : List Transaction).length ≤ 1 ∧
        ∀ t ∈ ([] : List Transaction), t.body.isNativeBody = true := ⟨Nat.zero_le _, by simp⟩
    exact bind_eq_ok.mpr ⟨(), Result.require_eq_ok.mpr hempty,
      bind_eq_ok.mpr ⟨(), hnext, bind_eq_ok.mpr ⟨commitment, hactivation, rfl⟩⟩⟩

variable (db) in
/-- The selected block is admitted, or it is the ordinary block of a migrated chain. -/
def Accepted (candidates : List Transaction) : Prop :=
  db.Admits (db.selectNativeBlockTransactions candidates) ∨
    db.nativeMigration.isSome = true ∧ db.selectNativeBlockTransactions candidates =
      candidates.filter fun tx => !tx.body.isNativeBody

section Selected

variable {context : InferenceAdmissionContext} (hcontext : db.nativeInferenceContext = some context)
  (hrule : context.selectionRule = .skipUsedNoncesV2)

include hcontext hrule

/-- Off the ordinary lane the block is empty or carries one admitted candidate. -/
theorem select_cases (h : ¬ db.OrdinaryLane l) : db.selectNativeBlockTransactions l = [] ∨
      ∃ tx, db.Admits [tx] ∧ db.selectNativeBlockTransactions l = [tx] := by
  rw [db.select_native hcontext hrule h]
  split
  · cases hfind : (db.liveCandidates l).find? fun tx => decide (db.Admits [tx]) with
    | none => exact .inl rfl
    | some tx => exact .inr ⟨tx, by simpa using List.find?_some hfind, rfl⟩
  · exact .inl rfl

/-- What is selected is accepted unless the chain takes no block at all. -/
theorem accepted_iff :
    db.Accepted l ↔ db.Admits [] ∨ db.nativeMigration.isSome = true ∧ OneLane l := by
  by_cases hlane : db.OrdinaryLane l
  · have hfilter : l.filter (fun tx => !tx.body.isNativeBody) = l :=
      filter_eq_self.mpr fun tx htx => by rw [hlane.2 tx htx]; rfl
    have haccepted : db.Accepted l := .inr ⟨hlane.1, by rw [db.select_ordinary hlane, hfilter]⟩
    exact iff_of_true haccepted (.inr ⟨hlane.1, .inr hlane.2⟩)
  · rcases select_cases hcontext hrule hlane with hempty | ⟨tx, hadmits, hone⟩
    · unfold Accepted
      rw [hempty]
      refine or_congr_right (and_congr_right fun hmigrated => ?_)
      rw [eq_comm, filter_eq_nil_iff]
      constructor
      · intro h
        exact .inl fun tx htx => by simpa using h tx htx
      · rintro (h | h) tx htx
        · simp [h tx htx]
        · exact absurd ⟨hmigrated, h⟩ hlane
    · have haccepted : db.Accepted l := .inl (by rw [hone]; exact hadmits)
      exact iff_of_true haccepted (.inl hadmits.nil)

/-- The block off the ordinary lane, by hash. -/
theorem content_native (h : ¬ db.OrdinaryLane l) :
    blockContent (db.selectNativeBlockTransactions l) =
      if db.livesBefore l < maxNativeCandidatesPerBlock
      then (((db.liveCandidates l).find? fun tx => decide (db.Admits [tx])).map (·.hash)).toFinset
      else ∅ := by
  rw [db.select_native hcontext hrule h]
  split
  · cases (db.liveCandidates l).find? fun tx => decide (db.Admits [tx]) with
    | none => rfl
    | some tx => rfl
  · rfl

end Selected

variable (db) in
/-- Whether two lists with the same work give one block. -/
structure SelectionStable (l l' : List Transaction) : Prop where
  /-- On a migrated chain both lists hold native candidates or neither does, unless they
      hold nothing else. -/
  sameLane : db.nativeMigration.isSome = true →
    ((∃ tx ∈ l, tx.body.isNativeBody = true) ↔ ∃ tx ∈ l', tx.body.isNativeBody = true) ∨
      ∀ tx ∈ l, tx.body.isNativeBody = true
  /-- The first admissible candidate comes within the cap in both lists or in neither. -/
  sameReach : (∃ tx ∈ db.liveCandidates l, db.Admits [tx]) →
    (db.livesBefore l < maxNativeCandidatesPerBlock ↔
      db.livesBefore l' < maxNativeCandidatesPerBlock)
  /-- The chain takes a block. -/
  takesBlock : db.Admits [] ∨ db.nativeMigration.isSome = true ∧ OneLane l ∧ OneLane l'

section Stable

variable {context : InferenceAdmissionContext} (hcontext : db.nativeInferenceContext = some context)
  (hrule : context.selectionRule = .skipUsedNoncesV2) (hsame : db.SameWork l l')

include hcontext hrule hsame

/-- With native candidates in the second list only, the blocks agree if both are empty. -/
theorem content_of_mixed (hl : db.OrdinaryLane l) (hl' : ¬ db.OrdinaryLane l') :
    blockContent (db.selectNativeBlockTransactions l) =
      blockContent (db.selectNativeBlockTransactions l') ↔
      ∀ tx ∈ l, tx.body.isNativeBody = true := by
  have hlive : db.liveCandidates l' = [] := by
    refine eq_nil_iff_forall_not_mem.mpr fun tx htx => ?_
    have hmem := hsame.mem_live.mpr htx
    rw [liveCandidates_ordinary hl.2] at hmem
    cases hmem
  have hempty : blockContent (db.selectNativeBlockTransactions l') = ∅ := by
    rw [content_native hcontext hrule hl', hlive]
    split <;> rfl
  rw [db.select_ordinary hl, hempty]
  constructor
  · intro h tx htx
    have hhash : tx.hash ∈ blockContent l := mem_toFinset.mpr (mem_map_of_mem htx)
    rw [h] at hhash
    cases hhash
  · intro h
    have hnil : l = [] := by
      refine eq_nil_iff_forall_not_mem.mpr fun tx htx => ?_
      have hordinary := hl.2 tx htx
      rw [h tx htx] at hordinary
      cases hordinary
    rw [hnil]
    rfl

/-- Off the ordinary lane the blocks agree if the cap treats the lists alike. -/
theorem content_of_native (hl : ¬ db.OrdinaryLane l) (hl' : ¬ db.OrdinaryLane l') :
    blockContent (db.selectNativeBlockTransactions l) =
      blockContent (db.selectNativeBlockTransactions l') ↔
      ((∃ tx ∈ db.liveCandidates l, db.Admits [tx]) →
        (db.livesBefore l < maxNativeCandidatesPerBlock ↔
          db.livesBefore l' < maxNativeCandidatesPerBlock)) := by
  rw [content_native hcontext hrule hl, content_native hcontext hrule hl', ← hsame.find_hash]
  cases hfind : (db.liveCandidates l).find? fun tx => decide (db.Admits [tx]) with
  | none =>
    have hnone : ¬ ∃ tx ∈ db.liveCandidates l, db.Admits [tx] := by
      rintro ⟨tx, htx, hadmits⟩
      exact List.find?_eq_none.mp hfind tx htx (decide_eq_true hadmits)
    refine iff_of_true ?_ fun h => absurd h hnone
    show ite _ ∅ ∅ = ite _ ∅ ∅
    rw [ite_self, ite_self]
  | some tx =>
    have hsome : ∃ tx ∈ db.liveCandidates l, db.Admits [tx] :=
      ⟨tx, mem_of_find?_eq_some hfind, by simpa using List.find?_some hfind⟩
    rw [forall_prop_of_true hsome]
    have hne : (some tx.hash).toFinset ≠ ∅ := Finset.singleton_ne_empty tx.hash
    by_cases hreach : db.livesBefore l < maxNativeCandidatesPerBlock
    · by_cases hreach' : db.livesBefore l' < maxNativeCandidatesPerBlock
      · rw [if_pos hreach, if_pos hreach']
        exact iff_of_true rfl (iff_of_true hreach hreach')
      · rw [if_pos hreach, if_neg hreach']
        exact iff_of_false hne fun h => hreach' (h.mp hreach)
    · by_cases hreach' : db.livesBefore l' < maxNativeCandidatesPerBlock
      · rw [if_neg hreach, if_pos hreach']
        exact iff_of_false hne.symm fun h => hreach (h.mpr hreach')
      · rw [if_neg hreach, if_neg hreach']
        exact iff_of_true rfl (iff_of_false hreach hreach')

/-- When the two blocks are the same. -/
theorem content_iff : blockContent (db.selectNativeBlockTransactions l) =
      blockContent (db.selectNativeBlockTransactions l') ↔
      (db.nativeMigration.isSome = true →
        ((∃ tx ∈ l, tx.body.isNativeBody = true) ↔ ∃ tx ∈ l', tx.body.isNativeBody = true) ∨
          ∀ tx ∈ l, tx.body.isNativeBody = true) ∧
      ((∃ tx ∈ db.liveCandidates l, db.Admits [tx]) →
        (db.livesBefore l < maxNativeCandidatesPerBlock ↔
          db.livesBefore l' < maxNativeCandidatesPerBlock)) := by
  have hnone : ∀ {a : List Transaction}, db.OrdinaryLane a →
      ¬ ∃ tx ∈ a, tx.body.isNativeBody = true := by
    rintro a ha ⟨tx, htx, hnative⟩
    rw [ha.2 tx htx] at hnative
    cases hnative
  have hsome : ∀ {a : List Transaction}, ¬ db.OrdinaryLane a → db.nativeMigration.isSome = true →
      ∃ tx ∈ a, tx.body.isNativeBody = true := by
    intro a ha hmigrated
    by_contra hno
    refine ha ⟨hmigrated, fun tx htx => ?_⟩
    cases hbody : tx.body.isNativeBody with
    | false => rfl
    | true => exact absurd ⟨tx, htx, hbody⟩ hno
  by_cases hl : db.OrdinaryLane l
  · have hdead : ¬ ∃ tx ∈ db.liveCandidates l, db.Admits [tx] := by
      rw [liveCandidates_ordinary hl.2]
      rintro ⟨tx, htx, _⟩
      cases htx
    rw [and_iff_left fun h => absurd h hdead, forall_prop_of_true hl.1]
    by_cases hl' : db.OrdinaryLane l'
    · refine iff_of_true ?_ (.inl (iff_of_false (hnone hl) (hnone hl')))
      rw [db.select_ordinary hl, db.select_ordinary hl']
      ext hash
      have hmem : ∀ tx, tx ∈ l ↔ tx ∈ l' := by
        intro tx
        by_cases hused : tx.body.isNativeBody = true ∧ db.NonceUsed tx
        · exact iff_of_false (fun h => hnone hl ⟨tx, h, hused.1⟩)
            fun h => hnone hl' ⟨tx, h, hused.1⟩
        · exact hsame tx hused
      simp only [blockContent, mem_toFinset, mem_map, hmem]
    · rw [content_of_mixed hcontext hrule hsame hl hl']
      refine (or_iff_right fun h => ?_).symm
      exact hnone hl (h.mpr (hsome hl' hl.1))
  · by_cases hl' : db.OrdinaryLane l'
    · -- the mirrored case
      have hdead : ¬ ∃ tx ∈ db.liveCandidates l, db.Admits [tx] := by
        rintro ⟨tx, htx, _⟩
        have hmem := hsame.mem_live.mp htx
        rw [liveCandidates_ordinary hl'.2] at hmem
        cases hmem
      rw [and_iff_left fun h => absurd h hdead, forall_prop_of_true hl'.1, eq_comm,
        content_of_mixed hcontext hrule hsame.symm hl' hl, ← hsame.ordinary]
      refine (or_iff_right fun h => ?_).symm
      exact hnone hl' (h.mp (hsome hl hl'.1))
    · rw [content_of_native hcontext hrule hsame hl hl']
      refine (and_iff_right fun hmigrated => ?_).symm
      exact .inl (iff_of_true (hsome hl hmigrated) (hsome hl' hmigrated))

/-- **Selection.**  For every state with an active binding of selection rule 2, two candidate
    lists with the same work, native transactions with used nonces apart, give the same block,
    and an accepted one, exactly when the lists are `SelectionStable`. -/
theorem selection_agrees_iff :
    blockContent (db.selectNativeBlockTransactions l) =
        blockContent (db.selectNativeBlockTransactions l') ∧
      db.Accepted l ∧ db.Accepted l' ↔ db.SelectionStable l l' := by
  rw [content_iff hcontext hrule hsame, accepted_iff hcontext hrule, accepted_iff hcontext hrule]
  constructor
  · rintro ⟨⟨hlane, hreach⟩, hopen, hopen'⟩
    refine ⟨hlane, hreach, ?_⟩
    rcases hopen with hadmits | ⟨hmigrated, hone⟩
    · exact .inl hadmits
    · rcases hopen' with hadmits | ⟨_, hone'⟩
      · exact .inl hadmits
      · exact .inr ⟨hmigrated, hone, hone'⟩
  · rintro ⟨hlane, hreach, hopen⟩
    refine ⟨⟨hlane, hreach⟩, ?_⟩
    rcases hopen with hadmits | ⟨hmigrated, hone, hone'⟩
    · exact ⟨.inl hadmits, .inl hadmits⟩
    · exact ⟨.inr ⟨hmigrated, hone⟩, .inr ⟨hmigrated, hone'⟩⟩

end Stable

end Loop

end NativeDb

/-! ## Candidate lists of a migrated chain -/

namespace Sample

/-- A migrated chain whose user 1 has used nonce 0. -/
def migratedDb : NativeDb where
  ledger := ledger [account 1 10 1]
  height := 5
  blocks := ∅
  gpuCache := none
  recoveryContext := some ⟨.zero, .zero, 1, 1, ⟨3, 0, 0⟩⟩
  communityRewardsV1ActivationHeight := none
  walFailure := none
  genesisBinding := some (.ok .zero)
  identities := []
  useJmt := false
  nativeMigration := some ⟨.zero, 1, 1, 3, .zero⟩
  nativeContext := some ⟨⟨.zero, 1, .zero⟩, [], [], .skipUsedNoncesV2⟩
  supersededBindings := ∅
  nativePending := ∅
  wal := []

/-- The hash of a transaction's content on the migrated chain. -/
def migratedHash (t : Transaction) : Hash256 :=
  letI := concreteNative
  t.computeHashInDomain (migratedDb.context.transactionDomainHash.getD .zero)

/-- A transfer of user 2. -/
def ordinaryTx : Transaction :=
  let t := tx 2 0 (.transfer ⟨address 1, 1, none⟩)
  { t with hash := migratedHash t }

/-- A refund of user 1 under the used nonce. -/
def usedNativeTx : Transaction :=
  let t := tx 1 0 (.nativeInferenceRefund ⟨address 9⟩)
  { t with hash := migratedHash t }

/-- The second list adds a native transaction with a used nonce, and its block is empty. -/
theorem used_native_candidate_drops_ordinary_block :
    letI := concreteNative
    (∀ t ∈ [ordinaryTx, usedNativeTx], t.hash = migratedHash t) ∧
      migratedDb.SameWork [ordinaryTx] [ordinaryTx, usedNativeTx] ∧
      migratedDb.selectNativeBlockTransactions [ordinaryTx] = [ordinaryTx] ∧
      migratedDb.selectNativeBlockTransactions [ordinaryTx, usedNativeTx] = [] := by
  refine ⟨by decide +kernel, ?_, by decide +kernel, by decide +kernel⟩
  intro candidate hcandidate
  have hused : usedNativeTx.body.isNativeBody = true ∧ migratedDb.NonceUsed usedNativeTx := by
    decide +kernel
  have hne : candidate ≠ usedNativeTx := by
    rintro rfl
    exact hcandidate hused
  simp [hne]

/-- Two ordinary lists give one block. -/
theorem ordinary_lists_agree :
    letI := concreteNative
    migratedDb.SelectionStable [ordinaryTx] [ordinaryTx, ordinaryTx] ∧
      NativeDb.blockContent (migratedDb.selectNativeBlockTransactions [ordinaryTx]) =
        NativeDb.blockContent (migratedDb.selectNativeBlockTransactions [ordinaryTx, ordinaryTx]) ∧
      migratedDb.Accepted [ordinaryTx] ∧ migratedDb.Accepted [ordinaryTx, ordinaryTx] := by
  let _ : NativeExternals := concreteNative
  have hcontext : migratedDb.nativeInferenceContext =
      some ⟨⟨.zero, 1, .zero⟩, [], [], .skipUsedNoncesV2⟩ := by decide +kernel
  have hsame : migratedDb.SameWork [ordinaryTx] [ordinaryTx, ordinaryTx] := by
    intro candidate _
    simp
  have hone : ∀ tx ∈ [ordinaryTx], tx.body.isNativeBody = false := by decide +kernel
  have htwo : ∀ tx ∈ [ordinaryTx, ordinaryTx], tx.body.isNativeBody = false := by decide +kernel
  have hstable : migratedDb.SelectionStable [ordinaryTx] [ordinaryTx, ordinaryTx] := by
    refine ⟨fun _ => .inl ?_, fun ⟨tx, htx, _⟩ => ?_, .inr ⟨rfl, .inr hone, .inr htwo⟩⟩
    · simp
    · cases htx
  exact ⟨hstable, (NativeDb.selection_agrees_iff hcontext rfl hsame).mpr hstable⟩

end Sample

end ArcChain
