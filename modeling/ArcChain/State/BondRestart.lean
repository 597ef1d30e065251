/-
Bond refunds across a restart.

A restart drops the release queue and rebuilds it from the escrow accounts.
The live queue still lists escrows that were challenged since they were
queued; the rebuilt one does not.  Both list every open escrow, so the two
nodes stay in step (`SameReleases`) as long as the challenged escrows do
not push an open one past the cap of a sweep (`SweepFits`).  A history with
this property refunds the same escrows in the same blocks whether or not
the node restarted in it (`refunds_survive_restart`).

The last section gives a history without it: 257 bonds mature together
after one of them was challenged.
-/
import ArcChain.State.Bonds

namespace ArcChain

open Word StoreProg Ledger FinMap List EscrowStep

/-! ## Refunds -/

section Refunds

variable {s t : Ledger} {a b : Address} {x : Account} {height : Nat} {L : List Address}

namespace Ledger

/-- The escrow at an address, apart from its balance. -/
def escrowAt (s : Ledger) (a : Address) : Option Account :=
  ((s.accounts.lookup a).filter Account.isAttestEscrow).map fun x => x.withBalance 0

/-- Whether the escrow at an address awaits its release. -/
def awaits (s : Ledger) (a : Address) : Bool := (s.escrowAt a).any Account.awaitsRelease

/-- The attester of an escrow is paid. -/
def refund (s : Ledger) (a : Address) : Ledger :=
  s.putAccount (s.accountOr a).codeHash ((s.accountOr (s.accountOr a).codeHash).withBalance
    (saturatingAdd (s.accountOr (s.accountOr a).codeHash).balance (s.accountOr a).balance))

/-- The attester of an escrow is paid and the escrow is cleared. -/
def release (s : Ledger) (a : Address) : Ledger :=
  (s.refund a).putAccount a { (s.refund a).accountOr a with balance := 0, storageRoot := .zero }

theorem escrowAt_of_lookup (hx : s.accounts.lookup a = some x) (hescrow : x.isAttestEscrow = true) :
    s.escrowAt a = some (x.withBalance 0) := by
  simp [escrowAt, hx, hescrow]

theorem escrowAt_eq_some {e : Account} : s.escrowAt a = some e ↔
    ∃ x, s.accounts.lookup a = some x ∧ x.isAttestEscrow = true ∧ x.withBalance 0 = e := by
  rw [escrowAt, Option.map_eq_some_iff]
  constructor
  · rintro ⟨x, hx, rfl⟩
    obtain ⟨hlookup, hescrow⟩ := Option.filter_eq_some_iff.mp hx
    exact ⟨x, hlookup, hescrow, rfl⟩
  · rintro ⟨x, hlookup, hescrow, rfl⟩
    exact ⟨x, Option.filter_eq_some_iff.mpr ⟨hlookup, hescrow⟩, rfl⟩

theorem awaits_iff : s.awaits a = true ↔
    ∃ x, s.accounts.lookup a = some x ∧ x.awaitsRelease = true := by
  rw [awaits, Option.any_eq_true]
  constructor
  · rintro ⟨e, he, hawaits⟩
    obtain ⟨x, hx, -, rfl⟩ := escrowAt_eq_some.mp he
    exact ⟨x, hx, hawaits⟩
  · rintro ⟨x, hx, hawaits⟩
    exact ⟨x.withBalance 0, escrowAt_of_lookup hx (Bool.and_eq_true_iff.mp hawaits).1, hawaits⟩

/-- A credit is not seen in the escrows. -/
theorem escrowAt_refund : (s.refund a).escrowAt b = s.escrowAt b := by
  unfold escrowAt
  rw [refund, lookup_putAccount]
  split
  · subst b
    cases hx : s.accounts.lookup (s.accountOr a).codeHash with
    | some x =>
      rw [accountOr_of_lookup hx]
      by_cases hescrow : x.isAttestEscrow = true
      · have hcredited : ∀ n, (x.withBalance n).isAttestEscrow = true := fun _ => hescrow
        have hbalance : ∀ n, (x.withBalance n).withBalance 0 = x.withBalance 0 := fun _ => rfl
        simp [Option.filter, hescrow, hcredited, hbalance]
      · have hcredited : ∀ n, ¬ (x.withBalance n).isAttestEscrow = true := fun _ => hescrow
        simp [Option.filter, hescrow, hcredited]
    | none =>
      have hor : s.accountOr (s.accountOr a).codeHash = Account.new (s.accountOr a).codeHash 0 := by
        rw [accountOr, hx]
        rfl
      have hnew : ∀ n, ((Account.new (s.accountOr a).codeHash 0).withBalance n).isAttestEscrow =
          false := fun n => isAttestEscrow_new (n := n)
      rw [hor]
      simp [hnew]
  · rfl

theorem escrowAt_release : (s.release a).escrowAt b = if b = a then none else s.escrowAt b := by
  have hzero : ∀ y : Account, y.storageRoot = .zero → y.isAttestEscrow = false := by
    intro y hy
    rw [Account.isAttestEscrow, hy]
    exact isAttestEscrow_new (a := a) (n := 0)
  by_cases heq : b = a
  · subst heq
    rw [escrowAt, release, lookup_putAccount]
    simp [hzero]
  · rw [if_neg heq, ← escrowAt_refund (s := s) (a := a), escrowAt, release, lookup_putAccount,
      if_neg heq, escrowAt]

theorem escrowAt_releases (L : List Address) (s : Ledger) :
    (L.foldl release s).escrowAt b = if b ∈ L then none else s.escrowAt b := by
  induction L generalizing s with
  | nil => simp
  | cons a L ih =>
    rw [foldl_cons, ih, escrowAt_release]
    by_cases hmem : b ∈ L
    · simp [hmem]
    · by_cases heq : b = a
      · simp [heq]
      · simp [hmem]

theorem balance_release (hne : b ≠ a) (hfunded : (s.accountOr b).balance ≠ 0) :
    ((s.release a).accountOr b).balance ≠ 0 := by
  rw [release, accountOr_putAccount, if_neg hne, refund, accountOr_putAccount]
  split
  · rename_i heq
    rw [← heq]
    show saturatingAdd (s.accountOr b).balance (s.accountOr a).balance ≠ 0
    unfold saturatingAdd u64Max
    omega
  · exact hfunded

theorem balance_releases (L : List Address) (s : Ledger) (hmem : b ∉ L)
    (hfunded : (s.accountOr b).balance ≠ 0) : ((L.foldl release s).accountOr b).balance ≠ 0 := by
  induction L generalizing s with
  | nil => exact hfunded
  | cons a L ih =>
    rw [mem_cons, not_or] at hmem
    exact ih (s.release a) hmem.2 (balance_release hmem.1 hfunded)

end Ledger

/-- What the sweep may assume of an escrow it picked: the release height is reached, and an
    escrow that awaits its release is funded. -/
def Matured (height : Nat) (s : Ledger) (a : Address) : Prop :=
  ∃ e, s.escrowAt a = some e ∧ e.nonce ≤ height ∧
    (s.awaits a = true → (s.accountOr a).balance ≠ 0)

theorem Matured.release (h : Matured height s b) (hne : b ≠ a) : Matured height (s.release a) b := by
  obtain ⟨e, he, hnonce, hfunded⟩ := h
  have hsame : (s.release a).escrowAt b = s.escrowAt b := by
    rw [escrowAt_release, if_neg hne]
  refine ⟨e, hsame.trans he, hnonce, fun hawaits => balance_release hne (hfunded ?_)⟩
  rwa [Ledger.awaits, hsame] at hawaits

/-- One escrow of the sweep. -/
theorem wp_refundEscrow (h : Matured height s a) : wp (refundEscrow height a) s fun r t _ =>
      r = .ok (s.awaits a) ∧ t = if s.awaits a then s.release a else s := by
  obtain ⟨e, he, hnonce, hfunded⟩ := h
  obtain ⟨x, hx, hescrow, rfl⟩ := escrowAt_eq_some.mp he
  have hor : s.accountOr a = x := accountOr_of_lookup hx
  have hawaits : s.awaits a = (x.attestStatus == attestStatusOpen) := by
    rw [Ledger.awaits, he]
    show (x.isAttestEscrow && _) = _
    rw [hescrow]
    rfl
  rw [hor] at hfunded
  have hmature : ¬ height < x.nonce := not_lt.mpr hnonce
  have hrelease : s.release a = ((s.putAccount x.codeHash ((s.accountOr x.codeHash).withBalance
      (saturatingAdd (s.accountOr x.codeHash).balance x.balance))).ensure a).putAccount a
        { (s.putAccount x.codeHash ((s.accountOr x.codeHash).withBalance (saturatingAdd
          (s.accountOr x.codeHash).balance x.balance))).accountOr a with
          balance := 0, storageRoot := .zero } := by
    rw [putAccount_ensure, Ledger.release, Ledger.refund, hor]
  unfold refundEscrow
  rw [wp_readAccount_bind, hx]
  by_cases hopen : x.attestStatus = attestStatusOpen
  · have hyes : s.awaits a = true := by rw [hawaits, hopen]; rfl
    simp only [if_neg (hfunded hyes), hescrow, Bool.true_eq_false, if_false, hopen, ne_eq,
      not_true_eq_false, if_neg hmature, wp_creditAccount_bind, wp_getOrCreateAccount_bind,
      wp_storeAccount_bind, wp_pure, hyes, if_true, hrelease, true_and]
  · have hno : s.awaits a = false := by rw [hawaits, beq_eq_false_iff_ne]; exact hopen
    by_cases hzero : x.balance = 0
    · simp only [hzero, if_true, wp_pure, hno, Bool.false_eq_true, if_false, true_and]
    · simp only [hzero, hescrow, Bool.true_eq_false, hopen, ne_eq, not_false_eq_true, if_true,
        if_false, wp_pure, hno, Bool.false_eq_true, true_and]

/-- The escrows of the sweep: those that await their release are refunded, in order. -/
theorem wp_refundEscrows (hnodup : L.Nodup) (h : ∀ a ∈ L, Matured height s a) :
    wp (refundEscrows height L) s fun r t _ =>
      r = .ok (L.filter s.awaits) ∧ t = (L.filter s.awaits).foldl Ledger.release s := by
  induction L generalizing s with
  | nil => exact ⟨rfl, rfl⟩
  | cons a L ih =>
    obtain ⟨hfresh, hnodup⟩ := nodup_cons.mp hnodup
    have hrest := fun b (hb : b ∈ L) => h b (mem_cons_of_mem a hb)
    rw [refundEscrows, wp_bind]
    refine wp_mono (wp_refundEscrow (h a mem_cons_self)) ?_
    rintro r t _ ⟨rfl, rfl⟩
    cases hawaits : s.awaits a with
    | false =>
      simp only [filter_cons, hawaits]
      rw [wp_bind]
      refine wp_mono (ih hnodup hrest) ?_
      rintro r t _ ⟨rfl, rfl⟩
      exact ⟨rfl, rfl⟩
    | true =>
      have hne : ∀ b ∈ L, b ≠ a := fun b hb heq => hfresh (heq ▸ hb)
      have hsame : L.filter (s.release a).awaits = L.filter s.awaits := by
        refine filter_congr fun b hb => ?_
        rw [Ledger.awaits, escrowAt_release, if_neg (hne b hb)]
        rfl
      simp only [if_true, filter_cons, hawaits]
      rw [wp_bind]
      refine wp_mono (ih hnodup fun b hb => (hrest b hb).release (hne b hb)) ?_
      rintro r t _ ⟨rfl, rfl⟩
      rw [hsame]
      exact ⟨rfl, rfl⟩

end Refunds

/-! ## The sweep -/

section Sweep

variable {s t : Ledger} {height : Nat}

/-- The escrows a sweep refunds. -/
def refundedEscrows (s : Ledger) (height : Nat) : List Address :=
  ((pickedReleases s height).map Prod.snd).filter s.awaits

variable {a : Address}

section

variable (h : Queued s)
include h

theorem Queued.awaits (hawaits : s.awaits a = true) :
    (s.accountOr a).balance ≠ 0 ∧ s.Queues (s.accountOr a).nonce a := by
  obtain ⟨x, hx, hawaits⟩ := awaits_iff.mp hawaits
  rw [accountOr_of_lookup hx]
  exact h.escrow a x hx hawaits

/-- An escrow is queued under one height only. -/
theorem Queued.unique {h₁ h₂ : Nat} (hq₁ : s.Queues h₁ a) (hq₂ : s.Queues h₂ a) : h₁ = h₂ := by
  obtain ⟨x, hx, -, rfl⟩ := h.entry h₁ a hq₁
  obtain ⟨y, hy, -, rfl⟩ := h.entry h₂ a hq₂
  rw [hx] at hy
  rw [Option.some.inj hy]

theorem Queued.nodup_picked : ((pickedReleases s height).map Prod.snd).Nodup := by
  have hnodup : (pickedReleases s height).Nodup :=
    ((bondQueue_nodup s).filter _).sublist (take_sublist _ _)
  refine hnodup.map_on fun e he e' he' heq => ?_
  have hq := (queues_of_mem_picked he).1
  rw [heq] at hq
  exact Prod.ext (h.unique hq (queues_of_mem_picked he').1) heq

theorem Queued.matured {picked : List (Nat × Address)}
    (ha : a ∈ (pickedReleases s height).map Prod.snd) :
    Matured height (dropReleases s picked) a := by
  obtain ⟨e, he, rfl⟩ := mem_map.mp ha
  obtain ⟨hqueued, hdue⟩ := queues_of_mem_picked he
  obtain ⟨x, hx, hescrow, hnonce⟩ := h.entry _ _ hqueued
  refine ⟨x.withBalance 0, escrowAt_of_lookup hx hescrow, ?_, fun hawaits => ?_⟩
  · exact le_trans (le_of_eq hnonce) hdue
  · exact (h.awaits hawaits).1

/-- **The sweep.**  It drops the releases it picks and refunds those of them that still await
    their release. -/
theorem sweep_spec : (sweepMaturedBondReleases height s).result = .ok (refundedEscrows s height) ∧
      (sweepMaturedBondReleases height s).store = (refundedEscrows s height).foldl Ledger.release
          (dropReleases s (pickedReleases s height)) :=
  wp_refundEscrows h.nodup_picked fun _ ha => h.matured ha

end

/-- A sweep before any release is due. -/
theorem sweep_nothing (h : ∀ k a, s.Queues k a → height < k) :
    (sweepMaturedBondReleases height s).store = s ∧ dueReleases s height = [] := by
  have hdue : dueReleases s height = [] := by
    refine eq_nil_iff_forall_not_mem.mpr fun e he => ?_
    obtain ⟨hqueued, hle⟩ := mem_dueReleases.mp he
    exact absurd (h e.1 e.2 hqueued) (not_lt.mpr hle)
  refine ⟨?_, hdue⟩
  rw [sweepMaturedBondReleases, pickedReleases, hdue]
  rfl

theorem queues_releases (L : List Address) (s : Ledger) :
    (L.foldl Ledger.release s).pendingBondReleases = s.pendingBondReleases := by
  induction L generalizing s with
  | nil => rfl
  | cons a L ih => exact ih (s.release a)

theorem queues_sweep (h : Queued s) {k : Nat} :
    (sweepMaturedBondReleases height s).store.Queues k a ↔
      s.Queues k a ∧ (k, a) ∉ pickedReleases s height := by
  rw [← queues_dropReleases, Ledger.Queues, Ledger.Queues, (sweep_spec h).2, queues_releases]

theorem escrowAt_sweep (h : Queued s) (height : Nat) (a : Address) :
    (sweepMaturedBondReleases height s).store.escrowAt a =
      if a ∈ refundedEscrows s height then none else s.escrowAt a := by
  rw [(sweep_spec h).2, escrowAt_releases]
  rfl

theorem awaits_sweep (h : Queued s) : (sweepMaturedBondReleases height s).store.awaits a = true ↔
      s.awaits a = true ∧ a ∉ refundedEscrows s height := by
  rw [Ledger.awaits, escrowAt_sweep h height a]
  by_cases hmem : a ∈ refundedEscrows s height
  · simp [hmem]
  · simp [hmem, Ledger.awaits]

/-- The sweep keeps queue and escrows together. -/
theorem Queued.sweep (h : Queued s) : Queued (sweepMaturedBondReleases height s).store where
  entry k a hq := by
    obtain ⟨hq, hnot⟩ := (queues_sweep h).mp hq
    obtain ⟨x, hx, hescrow, hnonce⟩ := h.entry k a hq
    have hkept : a ∉ refundedEscrows s height := by
      intro hmem
      obtain ⟨e, he, rfl⟩ := mem_map.mp (mem_filter.mp hmem).1
      have heq := h.unique hq (queues_of_mem_picked he).1
      exact hnot (heq ▸ he)
    have hat := escrowAt_sweep h height a
    rw [if_neg hkept, escrowAt_of_lookup hx hescrow] at hat
    obtain ⟨y, hy, hescrow', heq⟩ := escrowAt_eq_some.mp hat
    refine ⟨y, hy, hescrow', ?_⟩
    have hsame : (y.withBalance 0).nonce = (x.withBalance 0).nonce := by rw [heq]
    exact hsame.trans hnonce
  escrow a y hy hawaits := by
    have hboth := (awaits_sweep h).mp (awaits_iff.mpr ⟨y, hy, hawaits⟩)
    obtain ⟨hbalance, hqueued⟩ := h.awaits hboth.1
    have hfunded := balance_releases (refundedEscrows s height)
      (dropReleases s (pickedReleases s height)) hboth.2 hbalance
    have hnonce : y.nonce = (s.accountOr a).nonce := by
      obtain ⟨x, hx, hescrow⟩ := awaits_iff.mp hboth.1
      have hat := escrowAt_sweep h height a
      rw [if_neg hboth.2, escrowAt_of_lookup hx (Bool.and_eq_true_iff.mp hescrow).1,
        escrowAt_of_lookup hy (Bool.and_eq_true_iff.mp hawaits).1] at hat
      have hsame : (y.withBalance 0).nonce = (x.withBalance 0).nonce := by rw [Option.some.inj hat]
      rw [accountOr_of_lookup hx]
      exact hsame
    refine ⟨?_, ?_⟩
    · rwa [← (sweep_spec h).2, accountOr_of_lookup hy] at hfunded
    · rw [hnonce, queues_sweep h]
      refine ⟨hqueued, fun hpicked => hboth.2 ?_⟩
      exact mem_filter.mpr ⟨mem_map.mpr ⟨_, hpicked, rfl⟩, hboth.1⟩

end Sweep

/-! ## Two nodes -/

section TwoNodes

variable {s t : Ledger} {q : FinMap (Nat × Address) Unit} {height : Nat}

/-- The ledger of a node with another release queue. -/
def Ledger.withQueue (s : Ledger) (q : FinMap (Nat × Address) Unit) : Ledger :=
  { s with pendingBondReleases := q }

/-- Another queue that lists the same open escrows and no further release. -/
structure SameReleases (s : Ledger) (q : FinMap (Nat × Address) Unit) : Prop where
  sub : ∀ h a, q.lookup (h, a) = some () → s.Queues h a
  awaiting : ∀ h a, s.Queues h a → s.awaits a = true → q.lookup (h, a) = some ()

/-- The rebuilt queue lists the open escrows. -/
theorem lookup_rebuild {k : Nat} {a : Address} :
    (rebuildPendingBondReleases s).pendingBondReleases.lookup (k, a) = some () ↔
      ∃ x, s.accounts.lookup a = some x ∧ x.awaitsRelease = true ∧ x.balance ≠ 0 ∧ x.nonce = k := by
  rw [rebuildPendingBondReleases]
  rw [show (fun e : Address × Account => ((e.2.nonce, e.1), ())) =
    (fun k => (k, ())) ∘ fun e => (e.2.nonce, e.1) from rfl, ← map_map,
    lookup_ofList_unit, mem_map]
  constructor
  · rintro ⟨⟨b, x⟩, hmem, heq⟩
    obtain ⟨rfl, rfl⟩ := Prod.mk.inj heq
    rw [mem_filter, mem_toSortedList, decide_eq_true_iff] at hmem
    obtain ⟨hx, hbalance, hescrow, hopen⟩ := hmem
    have hawaits : x.awaitsRelease = true := by
      rw [Account.awaitsRelease, Bool.and_eq_true, beq_iff_eq]
      exact ⟨hescrow, hopen⟩
    exact ⟨x, (lookup_decEq _ _ _ _).trans hx, hawaits, hbalance, rfl⟩
  · rintro ⟨x, hx, hawaits, hbalance, rfl⟩
    refine ⟨(a, x), ?_, rfl⟩
    rw [Account.awaitsRelease, Bool.and_eq_true, beq_iff_eq] at hawaits
    rw [mem_filter, mem_toSortedList, decide_eq_true_iff]
    exact ⟨(lookup_decEq _ _ _ _).trans hx, hbalance, hawaits⟩

/-- The restart: the rebuilt queue lists the same open escrows. -/
theorem sameReleases_rebuild (h : Queued s) :
    SameReleases s (rebuildPendingBondReleases s).pendingBondReleases := by
  refine ⟨fun k a hq => ?_, fun k a hq hawaits => ?_⟩
  · obtain ⟨x, hx, hawaits, -, rfl⟩ := lookup_rebuild.mp hq
    exact (h.escrow a x hx hawaits).2
  · obtain ⟨x, hx, hawaits⟩ := awaits_iff.mp hawaits
    obtain ⟨y, hy, -, hnonce⟩ := h.entry k a hq
    obtain rfl := Option.some.inj (hx.symm.trans hy)
    exact lookup_rebuild.mpr ⟨x, hx, hawaits, (h.escrow a x hx hawaits).1, hnonce⟩

theorem SameReleases.queued (h : SameReleases s q) (hs : Queued s) : Queued (s.withQueue q) where
  entry k a hq := hs.entry k a (h.sub k a hq)
  escrow a x hx hawaits := by
    obtain ⟨hbalance, hqueued⟩ := hs.escrow a x hx hawaits
    exact ⟨hbalance, h.awaiting _ _ hqueued (awaits_iff.mpr ⟨x, hx, hawaits⟩)⟩

theorem Queued.rebuild (h : Queued s) : Queued (rebuildPendingBondReleases s) :=
  (sameReleases_rebuild h).queued h

/-! ### Transactions -/

variable {α : Type}

/-- A program that does not look at the queue does the same on both nodes, and writes the same
    releases. -/
theorem run_withQueue {W : Cell → Prop} {G : StateRecord → Prop} {p : Exec α}
    (hp : p.Within (fun k => ∀ h a, k ≠ Cell.bondRelease h a) W G) (s : Ledger)
    (q : FinMap (Nat × Address) Unit) :
    ∃ q', (p.run (s.withQueue q)).result = (p.run s).result ∧
      (p.run (s.withQueue q)).store = (p.run s).store.withQueue q' ∧
      ∀ k, (q'.lookup k = q.lookup k ∧
          (p.run s).store.pendingBondReleases.lookup k = s.pendingBondReleases.lookup k) ∨
        q'.lookup k = (p.run s).store.pendingBondReleases.lookup k := by
  induction p generalizing s q with
  | ret | fail => exact ⟨q, rfl, rfl, fun k => .inl ⟨rfl, rfl⟩⟩
  | get k next ih =>
    have hread : CellStore.read (s.withQueue q) k = CellStore.read s k := by
      cases k with
      | bondRelease h a => exact absurd rfl (hp.1 h a)
      | _ => rfl
    rw [run, hread]
    exact ih _ (hp.2 _) s q
  | set k v next ih =>
    cases k with
    | bondRelease h a =>
      obtain ⟨q', hresult, hstore, hqueue⟩ := ih hp.2 (s.write (.bondRelease h a) v)
        (FinMap.set q (h, a) v)
      refine ⟨q', hresult, hstore, fun k => ?_⟩
      rcases hqueue k with ⟨hq', hs'⟩ | hsame
      · by_cases heq : k = (h, a)
        · -- the release was written on both nodes
          subst heq
          refine .inr (hq'.trans (Eq.trans ?_ hs'.symm))
          exact (lookup_set_self q (h, a) v).trans
            (lookup_set_self s.pendingBondReleases (h, a) v).symm
        · exact .inl ⟨hq'.trans (lookup_set_of_ne q v heq),
            hs'.trans (lookup_set_of_ne s.pendingBondReleases v heq)⟩
      · exact .inr hsame
    | account a => exact ih hp.2 (s.write (.account a) v) q
    | storage a => exact ih hp.2 (s.write (.storage a) v) q
    | contract a => exact ih hp.2 (s.write (.contract a) v) q
    | validators => exact ih hp.2 (s.write .validators v) q
    | stakingPool => exact ih hp.2 (s.write .stakingPool v) q
    | tier1Pending r => exact ih hp.2 (s.write (.tier1Pending r) v) q
  | log l next ih => exact ih hp.2 s q

/-- No transaction looks at the queue. -/
theorem blind_executeSigned [Externals] (c : Context) (tx : Transaction) :
    (executeSigned c tx).Within (fun k => ∀ h a, k ≠ Cell.bondRelease h a) (fun _ => True)
      fun _ => True := by
  by_cases hattest : ∃ body, tx.body = .inferenceAttestation body
  · obtain ⟨body, hbody⟩ := hattest
    refine within_executeSigned_of (within_executeTx_of_body fun gas => ?_)
    rw [hbody]
    refine within_flatGas gas ?_
    simp [executeInferenceAttestation]
  · refine (within_executeSigned c tx).mono ?_ (fun _ _ => trivial) fun _ _ => trivial
    rintro k hreads h a rfl
    cases hbody : tx.body <;>
      simp_all [Transaction.Reads, Transaction.Writes, TxBody.writtenCells, TxBody.readCells,
        Cell.isAccount]
    all_goals
      split at hreads <;> simp at hreads

/-- One transaction on both nodes. -/
theorem SameReleases.executeSigned [Externals] {c : Context} {tx : Transaction}
    (h : SameReleases s q) (hs : Queued s) (hsafe : BondSafe c s tx) :
    ∃ q', ((executeSigned c tx).run (s.withQueue q)).result = ((executeSigned c tx).run s).result ∧
      ((executeSigned c tx).run (s.withQueue q)).store =
        ((executeSigned c tx).run s).store.withQueue q' ∧
      SameReleases ((executeSigned c tx).run s).store q' := by
  obtain ⟨q', hresult, hstore, hqueue⟩ := run_withQueue (blind_executeSigned c tx) s q
  have hstep := steps_executeSigned hsafe
  refine ⟨q', hresult, hstore, fun k a hq' => ?_, fun k a hqueued hawaits => ?_⟩
  · rcases hqueue (k, a) with ⟨hkept, -⟩ | hsame
    · exact hstep.mono k a (h.sub k a (hkept.symm.trans hq'))
    · exact hsame.symm.trans hq'
  · rcases hqueue (k, a) with ⟨hkept, hunchanged⟩ | hsame
    · -- the release was queued before, so its escrow was open before
      have hbefore : s.Queues k a := hunchanged.symm.trans hqueued
      obtain ⟨x, hx, hescrow, -⟩ := hs.entry k a hbefore
      obtain ⟨y, hy, -, -, hopen⟩ := hstep.keep a x hx hescrow
      obtain ⟨z, hz, hawaits⟩ := awaits_iff.mp hawaits
      obtain rfl := Option.some.inj (hz.symm.trans hy)
      rw [Account.awaitsRelease, Bool.and_eq_true, beq_iff_eq] at hawaits
      have hx_open := (hopen hawaits.2).1
      refine hkept.trans (h.awaiting k a hbefore (awaits_iff.mpr ⟨x, hx, ?_⟩))
      rw [Account.awaitsRelease, hescrow, hx_open]
      rfl
    · exact hsame.trans hqueued

/-! ### Sweeps -/

/-- What a history asks of a sweep: of the due releases either the ones within the cap all await
    their release, or none beyond the cap does. -/
def SweepFits (s : Ledger) (height : Nat) : Prop :=
  (∀ e ∈ (dueReleases s height).take maxBondReleasesPerBlock, s.awaits e.2 = true) ∨
    ∀ e ∈ (dueReleases s height).drop maxBondReleasesPerBlock, s.awaits e.2 = false

instance : Decidable (SweepFits s height) := inferInstanceAs (Decidable (_ ∨ _))

/-- The first elements of a filtered list: what is left of the first ones, then later ones. -/
theorem take_filter (keep : α → Bool) (l : List α) (n : Nat) :
    (l.filter keep).take n = (l.take n).filter keep ++
      ((l.drop n).filter keep).take (n - ((l.take n).filter keep).length) := by
  have hfront : ((l.take n).filter keep).length ≤ n :=
    (length_filter_le _ _).trans (length_take_le _ _)
  have hsplit : l.filter keep = (l.take n).filter keep ++ (l.drop n).filter keep := by
    rw [← filter_append, take_append_drop]
  rw [hsplit, take_append, take_of_length_le hfront]

/-- Leaving out elements that do not count does not change which ones are found among the first
    `n`. -/
theorem filter_take_filter {keep counts : α → Bool} {l : List α} {n : Nat}
    (hkeep : ∀ e ∈ l, counts e = true → keep e = true)
    (hfits : (∀ e ∈ l.take n, counts e = true) ∨ ∀ e ∈ l.drop n, counts e = false) :
    ((l.filter keep).take n).filter counts = (l.take n).filter counts := by
  have hmem : ∀ e ∈ l.take n, e ∈ l := fun e he => mem_of_mem_take he
  rw [take_filter, filter_append]
  rcases hfits with hall | hnone
  · have hfront : (l.take n).filter keep = l.take n :=
      filter_eq_self.mpr fun e he => hkeep e (hmem e he) (hall e he)
    have hback : ((l.drop n).filter keep).take (n - (l.take n).length) = [] := by
      by_cases hlength : n ≤ l.length
      · rw [length_take, min_eq_left hlength, Nat.sub_self, take_zero]
      · rw [drop_of_length_le (by omega), filter_nil, take_nil]
    rw [hfront, hback, filter_nil, append_nil]
  · have hback : (((l.drop n).filter keep).take (n - ((l.take n).filter keep).length)).filter
        counts = [] := by
      refine filter_eq_nil_iff.mpr fun e he => ?_
      have hdrop := (mem_filter.mp (mem_of_mem_take he)).1
      rw [hnone e hdrop]
      exact Bool.false_ne_true
    rw [hback, append_nil, filter_filter]
    refine filter_congr fun e he => ?_
    cases hcounts : counts e with
    | false => rfl
    | true => rw [hkeep e (hmem e he) hcounts]; rfl

section

variable (h : SameReleases s q)
include h

/-- The rebuilt node sees the releases of the live one that its own queue lists. -/
theorem SameReleases.dueReleases : dueReleases (s.withQueue q) height =
      (dueReleases s height).filter fun e => decide (q.lookup e = some ()) := by
  have hqueue : bondQueue (s.withQueue q) =
      (bondQueue s).filter fun e => decide (q.lookup e = some ()) := by
    refine bondQueue_eq_filter fun k a => ?_
    rw [decide_eq_true_iff]
    exact ⟨fun hq => ⟨h.sub k a hq, hq⟩, fun hq => hq.2⟩
  rw [ArcChain.dueReleases, hqueue, ArcChain.dueReleases, filter_comm]

theorem SameReleases.picked_awaiting (hfits : SweepFits s height) :
    (pickedReleases (s.withQueue q) height).filter (fun e => s.awaits e.2) =
      (pickedReleases s height).filter fun e => s.awaits e.2 := by
  rw [pickedReleases, h.dueReleases]
  refine filter_take_filter (fun e he hawaits => ?_) hfits
  exact decide_eq_true (h.awaiting e.1 e.2 (mem_dueReleases.mp he).1 hawaits)

/-- Both nodes refund the same escrows. -/
theorem SameReleases.refundedEscrows (hfits : SweepFits s height) :
    refundedEscrows (s.withQueue q) height = refundedEscrows s height := by
  have hfilter : ∀ l : List (Nat × Address), (l.map Prod.snd).filter s.awaits =
      (l.filter fun e => s.awaits e.2).map Prod.snd := fun l => filter_map
  show ((pickedReleases (s.withQueue q) height).map Prod.snd).filter s.awaits = _
  rw [ArcChain.refundedEscrows, hfilter, hfilter, h.picked_awaiting hfits]

/-- What the rebuilt node lists of the live node's picks it picks itself. -/
theorem SameReleases.mem_picked {e : Nat × Address}
    (hlisted : q.lookup e = some ()) (he : e ∈ pickedReleases s height) :
    e ∈ pickedReleases (s.withQueue q) height := by
  rw [pickedReleases, h.dueReleases, take_filter]
  exact mem_append_left _ (mem_filter.mpr ⟨he, decide_eq_true hlisted⟩)

end

theorem withQueue_releases (L : List Address) (s : Ledger) (q : FinMap (Nat × Address) Unit) :
    L.foldl Ledger.release (s.withQueue q) = (L.foldl Ledger.release s).withQueue q := by
  induction L generalizing s with
  | nil => rfl
  | cons a L ih => exact ih (s.release a)

/-- One sweep on both nodes. -/
theorem SameReleases.sweep (h : SameReleases s q) (hs : Queued s) (hfits : SweepFits s height) :
    ∃ q', (sweepMaturedBondReleases height (s.withQueue q)).result =
        (sweepMaturedBondReleases height s).result ∧
      (sweepMaturedBondReleases height (s.withQueue q)).store =
        (sweepMaturedBondReleases height s).store.withQueue q' ∧
      SameReleases (sweepMaturedBondReleases height s).store q' := by
  have hs' := h.queued hs
  have hrefunds := h.refundedEscrows hfits
  generalize hpicked : pickedReleases (s.withQueue q) height = picked
  have hstore : (sweepMaturedBondReleases height (s.withQueue q)).store =
      (sweepMaturedBondReleases height s).store.withQueue
        (dropReleases (s.withQueue q) picked).pendingBondReleases := by
    rw [(sweep_spec hs').2, (sweep_spec hs).2, hrefunds, hpicked]
    exact (withQueue_releases _ (dropReleases s (pickedReleases s height)) _)
  have hqueue : ∀ k a, (dropReleases (s.withQueue q) picked).pendingBondReleases.lookup (k, a) =
      some () ↔ q.lookup (k, a) = some () ∧ (k, a) ∉ picked := fun k a =>
    queues_dropReleases (s := s.withQueue q)
  refine ⟨_, ?_, hstore, fun k a hq => ?_, fun k a hq hawaits => ?_⟩
  · rw [(sweep_spec hs').1, (sweep_spec hs).1, hrefunds]
  · obtain ⟨hlisted, hnot⟩ := (hqueue k a).mp hq
    refine (queues_sweep hs).mpr ⟨h.sub k a hlisted, fun hmem => hnot ?_⟩
    rw [← hpicked]
    exact h.mem_picked hlisted hmem
  · obtain ⟨hqueued, hnot⟩ := (queues_sweep hs).mp hq
    have hopen := ((awaits_sweep hs).mp hawaits).1
    refine (hqueue k a).mpr ⟨h.awaiting k a hqueued hopen, fun hmem => hnot ?_⟩
    -- an open escrow that the rebuilt node picks is refunded by both
    have hboth := h.picked_awaiting hfits
    rw [hpicked] at hboth
    have hcounted : (k, a) ∈ picked.filter fun e => s.awaits e.2 := mem_filter.mpr ⟨hmem, hopen⟩
    rw [hboth] at hcounted
    exact (mem_filter.mp hcounted).1

end TwoNodes

/-! ## Histories -/

section Histories

variable [Externals] {c : Context} {s : Ledger} {q : FinMap (Nat × Address) Unit}
  {txs : List Transaction}

/-- Each transaction of the list is safe in the ledger it meets. -/
def TransactionsSafe (c : Context) : List Transaction → Ledger → Prop
  | [], _ => True
  | tx :: rest, s => BondSafe c s tx ∧ TransactionsSafe c rest ((executeSigned c tx).run s).store

/-- The transactions are safe and the sweep at the end of the block fits. -/
def BlockSafe (c : Context) (txs : List Transaction) (s : Ledger) : Prop :=
  TransactionsSafe c.next txs s ∧
    SweepFits (executeTransactions c.next txs s).1 c.next.height

/-- Every block is safe in the ledger it meets. -/
def HistorySafe (c : Context) : List (List Transaction) → Ledger → Prop
  | [], _ => True
  | txs :: rest, s => BlockSafe c txs s ∧ HistorySafe c.next rest (executeBlock c txs s).ledger

/-- What a block shows: the results, the refunded escrows, and the ledger without the queue. -/
def BlockOutcome.visible (o : BlockOutcome) :
    List (Except StateError Nat) × List Address × Ledger :=
  (o.results, o.refunded, o.ledger.withQueue ∅)

theorem Queued.executeTransactions (hs : Queued s) (hsafe : TransactionsSafe c txs s) :
    Queued (executeTransactions c txs s).1 := by
  induction txs generalizing s with
  | nil => exact hs
  | cons tx rest ih => exact ih (hs.step (steps_executeSigned hsafe.1)) hsafe.2

theorem Queued.executeBlock (hs : Queued s) (hsafe : BlockSafe c txs s) :
    Queued (executeBlock c txs s).ledger :=
  (hs.executeTransactions hsafe.1).sweep

/-- A block after which no release is due. -/
theorem ledger_executeBlock
    (h : ∀ k a, (executeTransactions c.next txs s).1.Queues k a → c.next.height < k) :
    (executeBlock c txs s).ledger = (executeTransactions c.next txs s).1 :=
  (sweep_nothing h).1

/-- The escrows a block refunds. -/
theorem refunded_executeBlock (hs : Queued (executeTransactions c.next txs s).1) :
    (executeBlock c txs s).refunded =
      refundedEscrows (executeTransactions c.next txs s).1 c.next.height := by
  rw [executeBlock]
  rw [(sweep_spec hs).1]

/-- The transactions of a block on both nodes. -/
theorem SameReleases.executeTransactions (h : SameReleases s q) (hs : Queued s)
    (hsafe : TransactionsSafe c txs s) :
    ∃ q', (executeTransactions c txs (s.withQueue q)).1 =
        (executeTransactions c txs s).1.withQueue q' ∧
      (executeTransactions c txs (s.withQueue q)).2.1 = (executeTransactions c txs s).2.1 ∧
      SameReleases (executeTransactions c txs s).1 q' := by
  induction txs generalizing s q with
  | nil => exact ⟨q, rfl, rfl, h⟩
  | cons tx rest ih =>
    obtain ⟨q₁, hresult, hstore, h₁⟩ := h.executeSigned hs hsafe.1
    obtain ⟨q₂, hledger, hresults, h₂⟩ := ih h₁ (hs.step (steps_executeSigned hsafe.1)) hsafe.2
    refine ⟨q₂, ?_, ?_, h₂⟩
    · rw [ArcChain.executeTransactions, hstore]
      exact hledger
    · rw [ArcChain.executeTransactions, hstore]
      show _ :: _ = _ :: _
      rw [hresult, hresults]

/-- A block on both nodes. -/
theorem SameReleases.executeBlock (h : SameReleases s q) (hs : Queued s) (hsafe : BlockSafe c txs s) :
    ∃ q', (executeBlock c txs (s.withQueue q)).ledger = (executeBlock c txs s).ledger.withQueue q' ∧
      (executeBlock c txs (s.withQueue q)).results = (executeBlock c txs s).results ∧
      (executeBlock c txs (s.withQueue q)).refunded = (executeBlock c txs s).refunded ∧
      SameReleases (executeBlock c txs s).ledger q' := by
  obtain ⟨q₁, hledger, hresults, h₁⟩ := h.executeTransactions hs hsafe.1
  obtain ⟨q₂, hresult, hstore, h₂⟩ := h₁.sweep (hs.executeTransactions hsafe.1) hsafe.2
  refine ⟨q₂, ?_, ?_, ?_, h₂⟩
  · rw [ArcChain.executeBlock, hledger]
    exact hstore
  · exact hresults
  · rw [ArcChain.executeBlock, hledger]
    rw [hresult]
    rfl

/-- A run of blocks on both nodes. -/
theorem SameReleases.executeBlocks {blocks : List (List Transaction)} (h : SameReleases s q)
    (hs : Queued s) (hsafe : HistorySafe c blocks s) :
    (executeBlocks c blocks (s.withQueue q)).map BlockOutcome.visible =
      (executeBlocks c blocks s).map BlockOutcome.visible := by
  induction blocks generalizing c s q with
  | nil => rfl
  | cons txs rest ih =>
    obtain ⟨q', hledger, hresults, hrefunded, h'⟩ := h.executeBlock hs hsafe.1
    have hrest := ih h' (hs.executeBlock hsafe.1) hsafe.2
    rw [ArcChain.executeBlocks, map_cons, hledger, hrest]
    rw [BlockOutcome.visible, hledger, hresults, hrefunded]
    rfl

/-- A ledger in which no bond was posted yet. -/
structure NoBonds (s : Ledger) : Prop where
  queue : s.pendingBondReleases = ∅
  accounts : ∀ a x, s.accounts.lookup a = some x → x.isAttestEscrow = false

omit [Externals] in
theorem NoBonds.queued (h : NoBonds s) : Queued s where
  entry k a hq := by
    rw [Ledger.Queues, h.queue] at hq
    cases hq
  escrow a x hx hawaits := by
    rw [Account.awaitsRelease, h.accounts a x hx] at hawaits
    cases hawaits

theorem Queued.chainAfter {before later : List (List Transaction)} (hs : Queued s)
    (hsafe : HistorySafe c (before ++ later) s) :
    Queued (chainAfter c before s).2 ∧
      HistorySafe (chainAfter c before s).1 later (chainAfter c before s).2 := by
  induction before generalizing c s with
  | nil => exact ⟨hs, hsafe⟩
  | cons txs rest ih => exact ih (hs.executeBlock hsafe.1) hsafe.2

/-- **Refunds across a restart.**  In a safe history, a node that rebuilds its queue after any
    block shows in every later block the same results, refunds the same escrows and holds the
    same ledger as a node that did not restart. -/
theorem refunds_survive_restart {before later : List (List Transaction)} (hstart : NoBonds s)
    (hsafe : HistorySafe c (before ++ later) s) :
    (executeBlocks (chainAfter c before s).1 later
        (rebuildPendingBondReleases (chainAfter c before s).2)).map BlockOutcome.visible =
      (executeBlocks (chainAfter c before s).1 later (chainAfter c before s).2).map
        BlockOutcome.visible := by
  obtain ⟨hqueued, hlater⟩ := hstart.queued.chainAfter hsafe
  exact (sameReleases_rebuild hqueued).executeBlocks hqueued hlater

end Histories

/-! ## A restart that changes the refunds -/

namespace Sample

variable {s : Ledger}

/-- A bond of one coin for two blocks. -/
def bondBody : InferenceAttestationBody where
  modelId := .zero
  inputHash := .zero
  outputHash := .zero
  challengePeriod := 2
  bond := 1
  beneficiary := none

/-- Bond number `n`. -/
def attestation (n : Nat) : Transaction :=
  { tx 21 n (.inferenceAttestation bondBody) with hash := address (n + 1) }

def challengeBody : InferenceChallengeBody where
  attestationHash := address 1
  challengerOutputHash := .zero
  challengerBond := 1

/-- The challenge of bond number 0. -/
def bondChallenge : Transaction := tx 22 0 (.inferenceChallenge challengeBody)

/-- The escrow of bond number `n`. -/
def bondEscrow (n : Nat) : Address :=
  letI := concreteExternals
  attestEscrowAddress (address (n + 1))

/-- The escrow account of bond number `n`, posted in block 1. -/
def bondAccount (n : Nat) : Account :=
  letI := concreteExternals
  attestEscrow (attestation n) 1 3

def bondLedger : Ledger := ledger [account 21 1000 0, account 22 1000 0]

theorem bondEscrow_sorted : ((List.range 257).map bondEscrow).Pairwise (· < ·) := by
  rw [← isChain_iff_pairwise]
  decide +kernel

variable {i balance n nonce : Nat}

theorem bondEscrow_inj {j : Nat} (hi : i < 257) (hj : j < 257)
    (heq : bondEscrow i = bondEscrow j) : i = j :=
  inj_on_of_nodup_map (bondEscrow_sorted.imp ne_of_lt) (mem_range.mpr hi) (mem_range.mpr hj) heq

theorem bondEscrow_ne (hi : i < 257) : bondEscrow i ≠ address 21 ∧ bondEscrow i ≠ address 22 := by
  have hall : ∀ i ∈ List.range 257, bondEscrow i ≠ address 21 ∧ bondEscrow i ≠ address 22 := by
    decide +kernel
  exact hall i (mem_range.mpr hi)

/-- The ledger after the first `n` bonds. -/
structure Posted (n : Nat) (s : Ledger) : Prop where
  attester : s.accounts.lookup (address 21) = some (account 21 (1000 - n) n)
  challenger : s.accounts.lookup (address 22) = some (account 22 1000 0)
  posted : ∀ i < n, s.accounts.lookup (bondEscrow i) = some (bondAccount i)
  absent : ∀ i, n ≤ i → i < 257 → s.accounts.lookup (bondEscrow i) = none
  queue : ∀ h a, s.Queues h a ↔ h = 3 ∧ ∃ i < n, a = bondEscrow i

/-- One more bond. -/
theorem store_attestation (hn : n < 257)
    (hsender : s.accounts.lookup (address 21) = some (account 21 balance n)) (hcovers : 1 ≤ balance)
    (habsent : s.accounts.lookup (bondEscrow n) = none) :
    letI := concreteExternals
    ((executeSigned (context 1) (attestation n)).run s).store =
      ((s.putAccount (address 21) (account 21 (balance - 1) (n + 1))).putAccount (bondEscrow n)
        (bondAccount n)).putBondRelease 3 (bondEscrow n) := by
  let _ : Externals := concreteExternals
  have hgas : ((attestation n).gasMeter.charge (attestation n).body.gasCost).2 = none := by
    show ((attestation 0).gasMeter.charge (attestation 0).body.gasCost).2 = none
    decide
  have hread : (context 1).accountOrNew s (attestation n).sender = account 21 balance n :=
    Context.accountOrNew_of_some hsender
  have hnext : n < u64Max := Nat.lt_trans hn (by decide)
  have hheight : (context 1).height + bondBody.challengePeriod ≤ u64Max := by decide
  have hbond : 0 < bondBody.bond := by decide
  have harm := wp_attestation hread rfl hnext hbond hcovers habsent hheight
  have hstore := wp_executeSigned_legacy (context 1) (attestation n) rfl rfl rfl hgas
    (fun _ => rfl) harm
  exact hstore

theorem Posted.attest (h : Posted n s) (hn : n < 257) :
    letI := concreteExternals
    Posted (n + 1) ((executeSigned (context 1) (attestation n)).run s).store := by
  have hcovers : 1 ≤ 1000 - n := by omega
  rw [store_attestation hn h.attester hcovers (h.absent n (le_refl n) hn), Nat.sub_sub]
  obtain ⟨hne, hne'⟩ := bondEscrow_ne hn
  have hlookup : ∀ b, (((s.putAccount (address 21) (account 21 (1000 - (n + 1)) (n + 1))).putAccount
      (bondEscrow n) (bondAccount n)).putBondRelease 3 (bondEscrow n)).accounts.lookup b =
        if b = bondEscrow n then some (bondAccount n)
        else if b = address 21 then some (account 21 (1000 - (n + 1)) (n + 1))
        else s.accounts.lookup b := by
    intro b
    show ((s.putAccount _ _).putAccount _ _).accounts.lookup b = _
    rw [lookup_putAccount, lookup_putAccount]
  refine ⟨?_, ?_, fun i hi => ?_, fun i hi hi' => ?_, fun k a => ?_⟩
  · rw [hlookup, if_neg hne.symm, if_pos rfl]
  · rw [hlookup, if_neg hne'.symm, if_neg (by decide), h.challenger]
  · rw [hlookup]
    rcases Nat.lt_succ_iff_lt_or_eq.mp hi with hlt | rfl
    · rw [if_neg fun hinj => hlt.ne (bondEscrow_inj (by omega) hn hinj),
        if_neg (bondEscrow_ne (by omega)).1, h.posted i hlt]
    · rw [if_pos rfl]
  · rw [hlookup, if_neg fun hinj => by have := bondEscrow_inj hi' hn hinj; omega,
      if_neg (bondEscrow_ne hi').1, h.absent i (by omega) hi']
  · show (FinMap.set s.pendingBondReleases (3, bondEscrow n) (some ())).lookup (k, a) = some () ↔ _
    rw [lookup_set]
    by_cases heq : (k, a) = (3, bondEscrow n)
    · obtain ⟨rfl, rfl⟩ := Prod.mk.inj heq
      simp only [if_true, true_iff, true_and]
      exact ⟨n, Nat.lt_succ_self n, rfl⟩
    · rw [if_neg heq]
      refine (h.queue k a).trans ⟨?_, ?_⟩
      · rintro ⟨rfl, i, hi, rfl⟩
        exact ⟨rfl, i, by omega, rfl⟩
      · rintro ⟨rfl, i, hi, rfl⟩
        have hother : i ≠ n := fun hin => heq (by rw [hin])
        exact ⟨rfl, i, by omega, rfl⟩

theorem isAttestEscrow_account : (account n balance nonce).isAttestEscrow = false :=
  isAttestEscrow_new (a := address n) (n := 0)

theorem senderIsPlain {c : Context} {tx : Transaction} (hcache : c.gpuCache = ∅)
    (hsender : s.accounts.lookup tx.sender = some (account n balance nonce)) :
    SenderIsPlain c s tx := by
  have hread : c.accountOf s tx.sender = some (account n balance nonce) := by
    rw [Context.accountOf, hcache]
    exact hsender
  constructor
  · rw [accountOr_of_lookup hsender]
    exact isAttestEscrow_account
  · rw [Context.accountOrNew_of_some hread]
    exact isAttestEscrow_account

theorem Posted.attestAll (m : Nat) (h : Posted n s) (hm : n + m ≤ 257) :
    letI := concreteExternals
    Posted (n + m) (executeTransactions (context 1) ((List.range' n m).map attestation) s).1 ∧
      TransactionsSafe (context 1) ((List.range' n m).map attestation) s := by
  induction m generalizing n s with
  | zero => exact ⟨h, trivial⟩
  | succ m ih =>
    obtain ⟨hposted, hsafe⟩ := ih (h.attest (by omega)) (by omega)
    refine ⟨?_, ?_⟩
    · rw [show n + (m + 1) = n + 1 + m by omega]
      exact hposted
    · exact ⟨senderIsPlain rfl h.attester, hsafe⟩

theorem lookup_bondLedger (a : Address) : bondLedger.accounts.lookup a =
    if a = address 22 then some (account 22 1000 0)
    else if a = address 21 then some (account 21 1000 0) else none := by
  have haccounts : bondLedger.accounts = FinMap.set (FinMap.set ∅ (address 21)
      (some (account 21 1000 0))) (address 22) (some (account 22 1000 0)) := rfl
  rw [haccounts, lookup_set, lookup_set, Finmap.lookup_empty]

theorem noBonds_bondLedger : NoBonds bondLedger where
  queue := rfl
  accounts a x hx := by
    rw [lookup_bondLedger] at hx
    split at hx
    · exact Option.some.inj hx ▸ isAttestEscrow_account
    · split at hx
      · exact Option.some.inj hx ▸ isAttestEscrow_account
      · cases hx

theorem posted_bondLedger : Posted 0 bondLedger where
  attester := by decide +kernel
  challenger := by decide +kernel
  posted i hi := absurd hi (Nat.not_lt_zero i)
  absent i _ hi := by
    obtain ⟨hne, hne'⟩ := bondEscrow_ne hi
    rw [lookup_bondLedger, if_neg hne', if_neg hne]
  queue k a := by
    constructor
    · intro hq
      cases hq
    · rintro ⟨-, i, hi, -⟩
      exact absurd hi (Nat.not_lt_zero i)

/-- The ledger in which all bonds are queued and the first one is challenged. -/
structure Challenged (s : Ledger) : Prop where
  queue : ∀ k a, s.Queues k a ↔ k = 3 ∧ ∃ i < 257, a = bondEscrow i
  awaits : ∀ i < 257, s.awaits (bondEscrow i) = true ↔ i ≠ 0

theorem Posted.challenge (h : Posted 257 s) :
    letI := concreteExternals
    Challenged ((executeSigned (context 2) bondChallenge).run s).store := by
  let _ : Externals := concreteExternals
  have hgas : (bondChallenge.gasMeter.charge bondChallenge.body.gasCost).2 = none := by decide
  have hescrow : s.accounts.lookup (attestEscrowAddress challengeBody.attestationHash) =
      some (bondAccount 0) := h.posted 0 (by decide)
  have hsender : s.accounts.lookup bondChallenge.sender = some (account 22 1000 0) := h.challenger
  have harm := wp_challenge hsender rfl (by decide) hescrow (by decide)
  have hstore := wp_executeSigned_legacy (context 2) bondChallenge rfl rfl rfl hgas
    (fun _ => rfl) harm
  rw [hstore]
  refine ⟨h.queue, fun i hi => ?_⟩
  have hopen : (bondAccount i).awaitsRelease = true := awaitsRelease_attestEscrow
  rw [awaits_iff]
  by_cases hzero : i = 0
  · -- the challenged escrow
    subst hzero
    have hfirst : bondEscrow 0 = attestEscrowAddress challengeBody.attestationHash := rfl
    rw [lookup_putAccount, if_pos hfirst]
    constructor
    · rintro ⟨x, hx, hawaits⟩
      obtain rfl := Option.some.inj hx
      exact absurd hawaits (by decide +kernel)
    · intro hne
      exact absurd rfl hne
  · have hother : bondEscrow i ≠ attestEscrowAddress challengeBody.attestationHash := fun heq =>
      hzero (bondEscrow_inj hi (by decide) heq)
    have hplain : bondEscrow i ≠ bondChallenge.sender := (bondEscrow_ne hi).2
    rw [lookup_putAccount, if_neg hother, lookup_putAccount, if_neg hplain, h.posted i hi]
    exact ⟨fun _ => hzero, fun _ => ⟨_, rfl, hopen⟩⟩

theorem context_next (height : Nat) : (context height).next = context (height + 1) := rfl

/-- The block with the bonds. -/
def bondBlock : List Transaction := (List.range' 0 257).map attestation

theorem challenged_executeBlock (hposted : Posted 257 s) (hqueued : Queued s) :
    letI := concreteExternals
    Challenged (executeBlock (context 1) [bondChallenge] s).ledger ∧
      Queued (executeBlock (context 1) [bondChallenge] s).ledger := by
  let _ : Externals := concreteExternals
  have hchallenged : Challenged (executeTransactions (context 1).next [bondChallenge] s).1 :=
    hposted.challenge
  have hqueued' : Queued (executeTransactions (context 1).next [bondChallenge] s).1 :=
    hqueued.step (steps_executeSigned (senderIsPlain rfl hposted.challenger))
  rw [ledger_executeBlock fun k a hq => by
    obtain ⟨rfl, -⟩ := (hchallenged.queue k a).mp hq
    decide]
  exact ⟨hchallenged, hqueued'⟩

theorem posted_bondBlock :
    letI := concreteExternals
    Posted 257 (executeBlock (context 0) bondBlock bondLedger).ledger ∧
      Queued (executeBlock (context 0) bondBlock bondLedger).ledger := by
  let _ : Externals := concreteExternals
  have hrun : Posted 257 (executeTransactions (context 0).next bondBlock bondLedger).1 ∧
      TransactionsSafe (context 0).next bondBlock bondLedger :=
    posted_bondLedger.attestAll 257 (by decide)
  rw [ledger_executeBlock fun k a hq => by
    obtain ⟨rfl, -⟩ := (hrun.1.queue k a).mp hq
    decide]
  exact ⟨hrun.1, noBonds_bondLedger.queued.executeTransactions hrun.2⟩

theorem chainAfter_pair [Externals] {c : Context} {txs txs' : List Transaction} :
    (chainAfter c [txs, txs'] s).2 = (executeBlock c.next txs' (executeBlock c txs s).ledger).ledger :=
  rfl

/-- After the two blocks all bonds are queued and the first one is challenged. -/
theorem challenged_chainAfter :
    letI := concreteExternals
    Challenged (chainAfter (context 0) [bondBlock, [bondChallenge]] bondLedger).2 ∧
      Queued (chainAfter (context 0) [bondBlock, [bondChallenge]] bondLedger).2 := by
  let _ : Externals := concreteExternals
  rw [chainAfter_pair]
  exact challenged_executeBlock posted_bondBlock.1 posted_bondBlock.2

section

variable (h : Challenged s)
include h

theorem bondQueue_challenged : bondQueue s = (List.range 257).map fun i => (3, bondEscrow i) := by
  refine bondQueue_eq_of_sorted ?_ fun e => ?_
  · rw [pairwise_map]
    refine (pairwise_map.mp bondEscrow_sorted).imp ?_
    intro i j hlt
    exact Prod.Lex.toLex_lt_toLex.mpr (.inr ⟨rfl, hlt⟩)
  · rw [h.queue, mem_map]
    constructor
    · rintro ⟨i, hi, rfl⟩
      exact ⟨rfl, i, mem_range.mp hi, rfl⟩
    · rintro ⟨hheight, i, hi, haddress⟩
      exact ⟨i, mem_range.mpr hi, Prod.ext hheight.symm haddress.symm⟩

theorem dueReleases_challenged :
    dueReleases s 3 = (List.range 257).map fun i => (3, bondEscrow i) := by
  rw [dueReleases, bondQueue_challenged h, filter_eq_self]
  intro e he
  obtain ⟨i, -, rfl⟩ := mem_map.mp he
  rfl

/-- The sweep of the live node ends before the last bond. -/
theorem not_refunded_live : bondEscrow 256 ∉ refundedEscrows s 3 := by
  rw [refundedEscrows, mem_filter, not_and]
  intro hpicked
  obtain ⟨e, he, haddress⟩ := mem_map.mp hpicked
  rw [pickedReleases, dueReleases_challenged h, ← map_take, take_range,
    maxBondReleasesPerBlock] at he
  obtain ⟨i, hi, rfl⟩ := mem_map.mp he
  rw [mem_range] at hi
  have heq : i = 256 := bondEscrow_inj (by omega) (by omega) haddress
  omega

/-- Without the challenged bond the queue fits into the sweep. -/
theorem refunded_rebuilt (hqueued : Queued s) :
    bondEscrow 256 ∈ refundedEscrows (rebuildPendingBondReleases s) 3 := by
  have hsame := sameReleases_rebuild hqueued
  have hunlisted : ¬ (rebuildPendingBondReleases s).pendingBondReleases.lookup (3, bondEscrow 0) =
      some () := by
    intro hlisted
    obtain ⟨x, hx, hawaits, -⟩ := lookup_rebuild.mp hlisted
    exact (h.awaits 0 (by omega)).mp (awaits_iff.mpr ⟨x, hx, hawaits⟩) rfl
  have hfirst : ((3, bondEscrow 0) : Nat × Address) ∈ dueReleases s 3 :=
    mem_dueReleases.mpr ⟨(h.queue 3 _).mpr ⟨rfl, 0, by omega, rfl⟩, le_refl 3⟩
  have hfits : (dueReleases (rebuildPendingBondReleases s) 3).length ≤ maxBondReleasesPerBlock := by
    have hless : (dueReleases (s.withQueue (rebuildPendingBondReleases s).pendingBondReleases)
        3).length < (dueReleases s 3).length := by
      rw [hsame.dueReleases, length_filter_lt_length_iff_exists]
      exact ⟨_, hfirst, by rw [decide_eq_true_iff]; exact hunlisted⟩
    rw [dueReleases_challenged h, length_map, length_range] at hless
    exact Nat.le_of_lt_succ hless
  have hlast := (h.awaits 256 (by omega)).mpr (by omega)
  rw [refundedEscrows, mem_filter, pickedReleases, take_of_length_le hfits]
  refine ⟨mem_map.mpr ⟨(3, bondEscrow 256), mem_dueReleases.mpr ⟨?_, le_refl 3⟩, rfl⟩, hlast⟩
  exact hsame.awaiting 3 _ ((h.queue 3 _).mpr ⟨rfl, 256, by omega, rfl⟩) hlast

end

/-- The last bond is refunded by the node that restarted and not by the one that did not: there
    the challenged bond uses up a place of the sweep. -/
theorem restart_changes_refunds :
    letI := concreteExternals
    NoBonds bondLedger ∧
    bondEscrow 256 ∈ (executeBlock (context 2) [] (rebuildPendingBondReleases
      (chainAfter (context 0) [bondBlock, [bondChallenge]] bondLedger).2)).refunded ∧
    bondEscrow 256 ∉ (executeBlock (context 2) []
      (chainAfter (context 0) [bondBlock, [bondChallenge]] bondLedger).2).refunded := by
  let _ : Externals := concreteExternals
  obtain ⟨hchallenged, hqueued⟩ := challenged_chainAfter
  have hrefunded : ∀ t, Queued t → (executeBlock (context 2) [] t).refunded = refundedEscrows t 3 :=
    fun t ht => refunded_executeBlock (c := context 2) ht
  refine ⟨noBonds_bondLedger, ?_, ?_⟩
  · rw [hrefunded _ hqueued.rebuild]
    exact refunded_rebuilt hchallenged hqueued
  · rw [hrefunded _ hqueued]
    exact not_refunded_live hchallenged

/-- One bond, a restart, the challenge, and the blocks in which the bond matures. -/
theorem restart_after_bond :
    letI := concreteExternals
    (executeBlocks (context 1) [[bondChallenge], [], []] (rebuildPendingBondReleases
        (executeBlock (context 0) [attestation 0] bondLedger).ledger)).map BlockOutcome.visible =
      (executeBlocks (context 1) [[bondChallenge], [], []]
        (executeBlock (context 0) [attestation 0] bondLedger).ledger).map BlockOutcome.visible := by
  let _ : Externals := concreteExternals
  have hplain : SenderIsPlain (context 1) bondLedger (attestation 0) := by decide +kernel
  have hplain' : SenderIsPlain (context 2)
      (executeBlock (context 0) [attestation 0] bondLedger).ledger bondChallenge := by
    decide +kernel
  have hsafe : HistorySafe (context 0) ([[attestation 0]] ++ [[bondChallenge], [], []]) bondLedger :=
    ⟨⟨⟨hplain, trivial⟩, by decide +kernel⟩, ⟨⟨hplain', trivial⟩, by decide +kernel⟩,
      ⟨trivial, by decide +kernel⟩, ⟨trivial, by decide +kernel⟩, trivial⟩
  exact refunds_survive_restart noBonds_bondLedger hsafe

end Sample

end ArcChain
