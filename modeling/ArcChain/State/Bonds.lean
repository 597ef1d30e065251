/-
The release queue of attestation bonds and the escrow accounts it indexes.

The queue is an index over the escrow accounts: it lists every open escrow
under its release height, and what it lists is an escrow (`Queued`).  A
transaction keeps that (`EscrowStep`, `steps_executeSigned`): only an
attestation opens an escrow and only a challenge closes one.
-/
import ArcChain.State.Chain

namespace ArcChain

open Word StoreProg Ledger FinMap List

/-! ## The queue as a list -/

section Queue

variable {s t : Ledger} {h height : Nat} {a : Address} {e : Nat × Address}

/-- The release is queued. -/
def Ledger.Queues (s : Ledger) (h : Nat) (a : Address) : Prop :=
  s.pendingBondReleases.lookup (h, a) = some ()

instance : Decidable (s.Queues h a) := inferInstanceAs (Decidable (_ = _))

theorem mem_bondQueue : e ∈ bondQueue s ↔ s.Queues e.1 e.2 := by
  rw [bondQueue, mem_map]
  constructor
  · rintro ⟨⟨k, ⟨⟩⟩, hmem, rfl⟩
    have hlookup := mem_toSortedList.mp hmem
    exact (lookup_decEq _ _ _ _).trans hlookup
  · intro hmem
    refine ⟨(toLex e, ()), mem_toSortedList.mpr ?_, rfl⟩
    exact (lookup_decEq _ _ _ _).trans hmem

theorem bondQueue_pairwise (s : Ledger) : (bondQueue s).Pairwise fun x y => toLex x < toLex y := by
  rw [bondQueue, pairwise_map]
  exact toSortedList_pairwise _

theorem bondQueue_nodup (s : Ledger) : (bondQueue s).Nodup :=
  (bondQueue_pairwise s).imp fun hlt heq => absurd hlt (by rw [heq]; exact lt_irrefl _)

/-- The queue is the sorted list of its releases. -/
theorem bondQueue_eq_of_sorted {l : List (Nat × Address)}
    (hsorted : l.Pairwise fun x y => toLex x < toLex y)
    (hmem : ∀ e, e ∈ l ↔ s.Queues e.1 e.2) : bondQueue s = l := by
  have hnodup : l.Nodup := hsorted.imp fun hlt heq => absurd hlt (by rw [heq]; exact lt_irrefl _)
  have hperm : (bondQueue s).Perm l := by
    rw [perm_ext_iff_of_nodup (bondQueue_nodup s) hnodup]
    intro e
    rw [mem_bondQueue, hmem]
  refine hperm.eq_of_pairwise ?_ (bondQueue_pairwise s) hsorted
  intro x y _ _ hxy hyx
  exact absurd hxy (lt_asymm hyx)

/-- A queue with fewer releases lists what is left, in the same order. -/
theorem bondQueue_eq_filter {keep : Nat × Address → Bool}
    (hqueues : ∀ h a, t.Queues h a ↔ s.Queues h a ∧ keep (h, a) = true) :
    bondQueue t = (bondQueue s).filter keep := by
  refine bondQueue_eq_of_sorted ((bondQueue_pairwise s).filter keep) fun e => ?_
  rw [mem_filter, mem_bondQueue]
  exact (hqueues e.1 e.2).symm

theorem mem_dueReleases : e ∈ dueReleases s height ↔ s.Queues e.1 e.2 ∧ e.1 ≤ height := by
  rw [dueReleases, mem_filter, mem_bondQueue, decide_eq_true_iff]

theorem queues_of_mem_picked (he : e ∈ pickedReleases s height) : s.Queues e.1 e.2 ∧ e.1 ≤ height :=
  mem_dueReleases.mp (mem_of_mem_take he)

/-- What a sweep leaves in the queue. -/
theorem queues_dropReleases {picked : List (Nat × Address)} :
    (dropReleases s picked).Queues h a ↔ s.Queues h a ∧ (h, a) ∉ picked := by
  have hfold : ∀ q : FinMap (Nat × Address) Unit,
      (picked.foldl (fun q e => FinMap.set q e none) q).lookup (h, a) =
        if (h, a) ∈ picked then none else q.lookup (h, a) := by
    intro q
    induction picked generalizing q with
    | nil => rfl
    | cons e picked ih =>
      rw [foldl_cons, ih, lookup_set]
      by_cases hmem : (h, a) ∈ picked
      · simp [hmem]
      · by_cases heq : (h, a) = e
        · simp [heq]
        · simp [hmem]
  rw [Ledger.Queues, Ledger.Queues, dropReleases, hfold]
  by_cases hmem : (h, a) ∈ picked <;> simp [hmem]

end Queue

/-! ## Escrow accounts -/

section Escrows

variable {s t u : Ledger} {a b : Address} {x : Account}

/-- Whether an escrow still waits for its release. -/
def Account.awaitsRelease (x : Account) : Bool :=
  x.isAttestEscrow && x.attestStatus == attestStatusOpen

/-- The queue and the escrow accounts belong together: what is queued is an escrow, under its
    release height, and every escrow that awaits its release is queued and funded. -/
structure Queued (s : Ledger) : Prop where
  entry : ∀ h a, s.Queues h a →
    ∃ x, s.accounts.lookup a = some x ∧ x.isAttestEscrow = true ∧ x.nonce = h
  escrow : ∀ a x, s.accounts.lookup a = some x → x.awaitsRelease = true →
    x.balance ≠ 0 ∧ s.Queues x.nonce a

/-- What a transaction may do to the escrows and the queue. -/
structure EscrowStep (s t : Ledger) : Prop where
  /-- An escrow stays one, keeps its release height, and is not opened again. -/
  keep : ∀ a x, s.accounts.lookup a = some x → x.isAttestEscrow = true →
    ∃ y, t.accounts.lookup a = some y ∧ y.isAttestEscrow = true ∧ y.nonce = x.nonce ∧
      (y.attestStatus = attestStatusOpen → x.attestStatus = attestStatusOpen ∧
        (x.balance ≠ 0 → y.balance ≠ 0))
  /-- A new escrow is funded and queued. -/
  fresh : ∀ a y, t.accounts.lookup a = some y → y.isAttestEscrow = true →
    (∃ x, s.accounts.lookup a = some x ∧ x.isAttestEscrow = true) ∨
      (y.attestStatus = attestStatusOpen → y.balance ≠ 0 ∧ t.Queues y.nonce a)
  /-- What is queued was queued, or is a new escrow. -/
  queue : ∀ h a, t.Queues h a → s.Queues h a ∨
    ∃ y, t.accounts.lookup a = some y ∧ y.isAttestEscrow = true ∧ y.nonce = h
  mono : ∀ h a, s.Queues h a → t.Queues h a

namespace EscrowStep

theorem refl : EscrowStep s s where
  keep _ x hx hescrow := ⟨x, hx, hescrow, rfl, fun hopen => ⟨hopen, id⟩⟩
  fresh _ y hy hescrow := .inl ⟨y, hy, hescrow⟩
  queue _ _ hq := .inl hq
  mono _ _ hq := hq

theorem trans (h : EscrowStep s t) (h' : EscrowStep t u) : EscrowStep s u where
  keep a x hx hescrow := by
    obtain ⟨y, hy, hescrow', hnonce, hopen⟩ := h.keep a x hx hescrow
    obtain ⟨z, hz, hescrow'', hnonce', hopen'⟩ := h'.keep a y hy hescrow'
    refine ⟨z, hz, hescrow'', hnonce'.trans hnonce, fun hstatus => ?_⟩
    obtain ⟨hy_open, hy_funded⟩ := hopen' hstatus
    obtain ⟨hx_open, hx_funded⟩ := hopen hy_open
    exact ⟨hx_open, fun hx => hy_funded (hx_funded hx)⟩
  fresh a z hz hescrow := by
    rcases h'.fresh a z hz hescrow with ⟨y, hy, hescrow'⟩ | hnew
    · rcases h.fresh a y hy hescrow' with hold | hnew
      · exact .inl hold
      · -- new in the first step; the second step did not open it
        obtain ⟨z', hz', -, hnonce, hopen⟩ := h'.keep a y hy hescrow'
        obtain rfl := Option.some.inj (hz'.symm.trans hz)
        refine .inr fun hstatus => ?_
        obtain ⟨hy_open, hfunded⟩ := hopen hstatus
        obtain ⟨hbalance, hqueued⟩ := hnew hy_open
        exact ⟨hfunded hbalance, hnonce ▸ h'.mono _ _ hqueued⟩
    · exact .inr hnew
  queue k a hq := by
    rcases h'.queue k a hq with hq' | hnew
    · rcases h.queue k a hq' with hq'' | ⟨y, hy, hescrow, hnonce⟩
      · exact .inl hq''
      · obtain ⟨z, hz, hescrow', hnonce', -⟩ := h'.keep a y hy hescrow
        exact .inr ⟨z, hz, hescrow', hnonce'.trans hnonce⟩
    · exact .inr hnew
  mono k a hq := h'.mono _ _ (h.mono _ _ hq)

/-- A change of an account that is no escrow, before and after. -/
theorem put (hold : ∀ y, s.accounts.lookup a = some y → y.isAttestEscrow = false)
    (hnew : x.isAttestEscrow = false) : EscrowStep s (s.putAccount a x) where
  keep b y hy hescrow := by
    have hne : b ≠ a := by
      rintro rfl
      rw [hold y hy] at hescrow
      cases hescrow
    refine ⟨y, ?_, hescrow, rfl, fun hopen => ⟨hopen, id⟩⟩
    rw [lookup_putAccount, if_neg hne, hy]
  fresh b y hy hescrow := by
    rw [lookup_putAccount] at hy
    split at hy
    · obtain rfl := Option.some.inj hy
      rw [hnew] at hescrow
      cases hescrow
    · exact .inl ⟨y, hy, hescrow⟩
  queue _ _ hq := .inl hq
  mono _ _ hq := hq

variable {n height bond : Nat}

theorem isAttestEscrow_new : (Account.new a n).isAttestEscrow = false := by
  show (Hash256.zero.toBytes.take 8 == attestEscrowMagic) = false
  decide +kernel

/-- Creating a missing account. -/
theorem ensure : EscrowStep s (s.ensure a) := by
  by_cases hpresent : s.Present a
  · rw [ensure_eq_self.mpr hpresent]
    exact refl
  have hnone : s.accounts.lookup a = none := Classical.not_not.mp hpresent
  apply put
  · intro y hy
    rw [hnone] at hy
    cases hy
  · rw [Ledger.accountOr, hnone]
    exact isAttestEscrow_new

/-- The status byte of an escrow that is challenged. -/
theorem challengedRoot_closes (h : x.isAttestEscrow = true) :
    let y := { x with balance := n, storageRoot := challengedRoot x.storageRoot }
    y.isAttestEscrow = true ∧ y.attestStatus = attestStatusChallenged := by
  have hmagic : x.storageRoot.toBytes.take 8 = attestEscrowMagic := beq_iff_eq.mp h
  have hmagic_length : attestEscrowMagic.length = 8 := by decide +kernel
  have hbytes : (challengedRoot x.storageRoot).toBytes =
      attestEscrowMagic ++ [attestStatusChallenged] ++ x.storageRoot.toBytes.drop 9 := by
    rw [challengedRoot, if_pos hmagic, hmagic]
    exact Hash256.toBytes_ofBytes (by simp [hmagic_length])
  constructor
  · rw [Account.isAttestEscrow, hbytes, beq_iff_eq, append_assoc,
      take_append_of_le_length (Nat.le_of_eq hmagic_length.symm), ← hmagic_length,
      take_length]
  · rw [Account.attestStatus, hbytes, append_assoc, ← hmagic_length, drop_left,
      singleton_append, headD_cons]

/-- A challenge closes the escrow and keeps its release height. -/
theorem challenge : EscrowStep s (s.putAccount a { s.accountOr a with
      balance := n, storageRoot := challengedRoot (s.accountOr a).storageRoot }) := by
  by_cases hescrow : (s.accountOr a).isAttestEscrow = true
  · have hpresent : s.accounts.lookup a = some (s.accountOr a) := by
      cases hx : s.accounts.lookup a with
      | some x => rw [accountOr_of_lookup hx]
      | none =>
        rw [Ledger.accountOr, hx] at hescrow
        exact absurd hescrow (by rw [Option.getD_none, isAttestEscrow_new]; decide)
    have hchallenged : attestStatusChallenged ≠ attestStatusOpen := by decide
    refine ⟨fun b y hy hb => ?_, fun b y hy hb => ?_, fun _ _ hq => .inl hq, fun _ _ hq => hq⟩
    · by_cases heq : b = a
      · subst heq
        obtain rfl := Option.some.inj (hpresent.symm.trans hy)
        obtain ⟨hstill, hstatus⟩ := challengedRoot_closes (n := n) hescrow
        refine ⟨_, by rw [lookup_putAccount, if_pos rfl], hstill, rfl, fun hopen => ?_⟩
        exact absurd (hstatus.symm.trans hopen) hchallenged
      · exact ⟨y, by rw [lookup_putAccount, if_neg heq, hy], hb, rfl, fun hopen => ⟨hopen, id⟩⟩
    · by_cases heq : b = a
      · subst heq
        exact .inl ⟨_, hpresent, hescrow⟩
      · rw [lookup_putAccount, if_neg heq] at hy
        exact .inl ⟨y, hy, hb⟩
  · have hplain : (s.accountOr a).isAttestEscrow = false := Bool.eq_false_iff.mpr hescrow
    apply put
    · intro y hy
      rwa [Ledger.accountOr, hy] at hplain
    · rw [challengedRoot, if_neg fun hmagic => hescrow (beq_iff_eq.mpr hmagic)]
      exact hplain

theorem awaitsRelease_attestEscrow [Externals] {tx : Transaction} :
    (attestEscrow tx bond height).awaitsRelease = true := by
  show (((attestStorageRoot attestStatusOpen).toBytes.take 8 == attestEscrowMagic) &&
    (((attestStorageRoot attestStatusOpen).toBytes.drop 8).headD 0 == attestStatusOpen)) = true
  decide +kernel

/-- An attestation opens an escrow and queues it. -/
theorem attest [Externals] {tx : Transaction} (hbond : bond ≠ 0)
    (hold : ∀ y, s.accounts.lookup a = some y → y.isAttestEscrow = false) :
    EscrowStep s ((s.putAccount a (attestEscrow tx bond height)).putBondRelease height a) := by
  have hescrow : (attestEscrow tx bond height).isAttestEscrow = true :=
    (Bool.and_eq_true_iff.mp awaitsRelease_attestEscrow).1
  have hlookup : ∀ b, ((s.putAccount a (attestEscrow tx bond height)).putBondRelease height
      a).accounts.lookup b =
        if b = a then some (attestEscrow tx bond height) else s.accounts.lookup b := fun b =>
    lookup_putAccount
  have hqueues : ∀ h b, ((s.putAccount a (attestEscrow tx bond height)).putBondRelease height
      a).Queues h b ↔ (h, b) = (height, a) ∨ s.Queues h b := by
    intro h b
    rw [Ledger.Queues, Ledger.putBondRelease]
    rw [lookup_set]
    by_cases heq : (h, b) = (height, a)
    · simp [heq]
    · simp only [heq, false_or]
      exact .rfl
  refine ⟨fun b y hy hb => ?_, fun b y hy hb => ?_, fun h b hq => ?_, fun h b hq => ?_⟩
  · have hne : b ≠ a := by
      rintro rfl
      rw [hold y hy] at hb
      cases hb
    exact ⟨y, by rw [hlookup, if_neg hne, hy], hb, rfl, fun hopen => ⟨hopen, id⟩⟩
  · rw [hlookup] at hy
    split at hy
    · obtain rfl := Option.some.inj hy
      subst b
      exact .inr fun _ => ⟨hbond, (hqueues _ _).mpr (.inl rfl)⟩
    · exact .inl ⟨y, hy, hb⟩
  · rcases (hqueues h b).mp hq with heq | hq'
    · obtain ⟨rfl, rfl⟩ := Prod.mk.inj heq
      exact .inr ⟨_, by rw [hlookup, if_pos rfl], hescrow, rfl⟩
    · exact .inl hq'
  · exact (hqueues h b).mpr (.inr hq)

end EscrowStep

theorem Queued.step (h : Queued s) (hstep : EscrowStep s t) : Queued t where
  entry k a hq := by
    rcases hstep.queue k a hq with hq' | hnew
    · obtain ⟨x, hx, hescrow, hnonce⟩ := h.entry k a hq'
      obtain ⟨y, hy, hescrow', hnonce', -⟩ := hstep.keep a x hx hescrow
      exact ⟨y, hy, hescrow', hnonce'.trans hnonce⟩
    · exact hnew
  escrow a y hy hawaits := by
    obtain ⟨hescrow, hopen⟩ := Bool.and_eq_true_iff.mp hawaits
    rw [beq_iff_eq] at hopen
    rcases hstep.fresh a y hy hescrow with ⟨x, hx, hescrow'⟩ | hnew
    · obtain ⟨y', hy', -, hnonce, hstatus⟩ := hstep.keep a x hx hescrow'
      obtain rfl := Option.some.inj (hy'.symm.trans hy)
      obtain ⟨hx_open, hfunded⟩ := hstatus hopen
      obtain ⟨hbalance, hqueued⟩ := h.escrow a x hx (by simp [Account.awaitsRelease, hescrow', hx_open])
      exact ⟨hfunded hbalance, hnonce ▸ hstep.mono _ _ hqueued⟩
    · exact hnew hopen

end Escrows

/-! ## Transactions -/

section Transactions

variable [Externals] {c : Context} {s : Ledger} {tx : Transaction}

/-- A program's outcome relates to the store it started from. -/
def Steps (s : Ledger) {α : Type} : Except StateError α → Ledger → List StateRecord → Prop :=
  fun _ t _ => EscrowStep s t

/-- The account of the sender, stored or in the GPU cache, is not an escrow. -/
def SenderIsPlain (c : Context) (s : Ledger) (tx : Transaction) : Prop :=
  (s.accountOr tx.sender).isAttestEscrow = false ∧
    (c.accountOrNew s tx.sender).isAttestEscrow = false

instance : Decidable (SenderIsPlain c s tx) := inferInstanceAs (Decidable (_ ∧ _))

omit [Externals] in
theorem not_escrow_of_accountOr {a : Address} (h : (s.accountOr a).isAttestEscrow = false)
    {y : Account} (hy : s.accounts.lookup a = some y) : y.isAttestEscrow = false := by
  rwa [Ledger.accountOr, hy] at h

theorem steps_challenge {body : InferenceChallengeBody}
    (hsender : (s.accountOr tx.sender).isAttestEscrow = false) :
    wp (executeInferenceChallenge tx body) s (Steps s) := by
  have hopened : EscrowStep s (s.ensure tx.sender) := .ensure
  generalize hescrow : attestEscrowAddress body.attestationHash = escrow
  have hboth : EscrowStep s ((s.ensure tx.sender).ensure escrow) := hopened.trans EscrowStep.ensure
  have hspent : ((s.accountOr tx.sender).spend body.challengerBond).isAttestEscrow = false := hsender
  -- the sender's account is debited
  have hdebit : EscrowStep s (((s.ensure tx.sender).ensure escrow).putAccount tx.sender
      ((s.accountOr tx.sender).spend body.challengerBond)) := by
    refine hboth.trans (.put (fun y hy => ?_) hspent)
    exact not_escrow_of_accountOr (by simpa using hsender) hy
  simp only [executeInferenceChallenge, hescrow, wp_openSender_bind, wp_requireBalance_bind,
    wp_getOrCreateAccount_bind, wp_require_bind]
  refine ⟨fun _ => ⟨fun _ => ⟨fun _ => ?_, fun _ => hboth⟩, fun _ => hopened⟩, fun _ => hopened⟩
  show EscrowStep s _
  refine hdebit.trans ?_
  by_cases heq : escrow = tx.sender
  · -- a sender that challenges its own address: no escrow is involved
    subst heq
    apply EscrowStep.put
    · intro y hy
      rw [lookup_putAccount, if_pos rfl] at hy
      obtain rfl := Option.some.inj hy
      exact hspent
    · have hplain := hsender
      rw [accountOr_ensure, challengedRoot, if_neg fun hmagic => by
          rw [Account.isAttestEscrow, hmagic] at hplain
          simp at hplain]
      exact hsender
  · have hread : (((s.ensure tx.sender).ensure escrow).putAccount tx.sender
        ((s.accountOr tx.sender).spend body.challengerBond)).accountOr escrow =
          (s.ensure tx.sender).accountOr escrow := by
      rw [accountOr_putAccount, if_neg heq, accountOr_ensure]
    rw [← hread]
    exact .challenge

variable {body : InferenceAttestationBody}

theorem steps_attestation (hsender : SenderIsPlain c s tx) :
    wp (executeInferenceAttestation c tx body) s (Steps s) := by
  have hrefl : EscrowStep s s := .refl
  have hdebit : ∀ balance nonce, EscrowStep s (s.putAccount tx.sender
      { c.accountOrNew s tx.sender with balance := balance, nonce := nonce }) := fun _ _ =>
    .put (fun y hy => not_escrow_of_accountOr hsender.1 hy) hsender.2
  simp only [executeInferenceAttestation, wp_getAccount_bind, wp_requireNonce_bind, wp_orError_bind,
    wp_requireBalance_bind, wp_ite, wp_readAccount_bind, wp_require_bind]
  refine ⟨fun _ => ⟨fun nonce _ => ⟨fun _ => ⟨fun hbond => ⟨fun habsent => ⟨fun height _ =>
    ⟨fun balance _ => ?_, fun _ => hrefl⟩, fun _ => hrefl⟩, fun _ => hrefl⟩, fun _ =>
      ⟨fun balance _ => hdebit balance nonce, fun _ => hrefl⟩⟩, fun _ => hrefl⟩, fun _ => hrefl⟩,
    fun _ => hrefl⟩
  show EscrowStep s _
  refine (hdebit balance nonce).trans (.attest (by omega) fun y hy => ?_)
  rw [lookup_putAccount, habsent] at hy
  split at hy
  · obtain rfl := Option.some.inj hy
    exact hsender.2
  · cases hy

/-- What an attestation with a bond stores. -/
theorem wp_attestation {x : Account}
    (hx : c.accountOrNew s tx.sender = x) (hnonce : x.nonce = tx.nonce) (hnext : x.nonce < u64Max)
    (hbond : 0 < body.bond) (hcovers : body.bond ≤ x.balance)
    (habsent : s.accounts.lookup (attestEscrowAddress tx.hash) = none)
    (hheight : c.height + body.challengePeriod ≤ u64Max) :
    wp (executeInferenceAttestation c tx body) s fun _ t _ => t =
      ((s.putAccount tx.sender { x with balance := x.balance - body.bond, nonce := x.nonce + 1 }
        ).putAccount (attestEscrowAddress tx.hash)
          (attestEscrow tx body.bond (c.height + body.challengePeriod))).putBondRelease
            (c.height + body.challengePeriod) (attestEscrowAddress tx.hash) := by
  have hadd : checkedAdd x.nonce 1 = some (x.nonce + 1) := if_pos hnext
  have hrelease : checkedAdd c.height body.challengePeriod = some (c.height + body.challengePeriod) :=
    if_pos hheight
  have hsub : checkedSub x.balance body.bond = some (x.balance - body.bond) := if_pos hcovers
  simp only [executeInferenceAttestation, wp_getAccount_bind, wp_requireNonce_bind, wp_orError_bind,
    wp_requireBalance_bind, wp_ite, wp_readAccount_bind, Context.getD_accountOf, hx, hnonce.symm, hadd, hrelease,
    hsub, hbond, hcovers, habsent]
  simp

/-- What a challenge stores. -/
theorem wp_challenge {body : InferenceChallengeBody} {x escrow : Account}
    (hx : s.accounts.lookup tx.sender = some x) (hnonce : x.nonce = tx.nonce)
    (hcovers : body.challengerBond ≤ x.balance)
    (hescrow : s.accounts.lookup (attestEscrowAddress body.attestationHash) = some escrow)
    (hopen : escrow.balance ≠ 0) :
    wp (executeInferenceChallenge tx body) s fun _ t _ => t =
      (s.putAccount tx.sender (x.spend body.challengerBond)).putAccount
        (attestEscrowAddress body.attestationHash)
        { escrow with
          balance := wrappingAdd escrow.balance body.challengerBond
          storageRoot := challengedRoot escrow.storageRoot } := by
  simp only [executeInferenceChallenge, wp_openSender_bind, wp_requireBalance_bind,
    wp_getOrCreateAccount_bind, accountOr_of_lookup hx, accountOr_of_lookup hescrow, ensure_of_lookup hx,
    ensure_of_lookup hescrow, hnonce.symm, hcovers]
  simp [hopen]

/-- The transaction is an attestation or a challenge. -/
def TxBody.isBondFamily : TxBody → Bool
  | .inferenceAttestation _ | .inferenceChallenge _ => true
  | _ => false

/-- Every escrow stays one, keeps its release height and its funds and is not opened again, and
    no account becomes an escrow. -/
structure KeepsEscrows (s t : Ledger) : Prop where
  keep : ∀ a x, s.accounts.lookup a = some x → x.isAttestEscrow = true →
    ∃ y, t.accounts.lookup a = some y ∧ y.isAttestEscrow = true ∧ y.nonce = x.nonce ∧
      (y.attestStatus = attestStatusOpen → x.attestStatus = attestStatusOpen ∧
        (x.balance ≠ 0 → y.balance ≠ 0))
  fresh : ∀ a y, t.accounts.lookup a = some y → y.isAttestEscrow = true →
    ∃ x, s.accounts.lookup a = some x ∧ x.isAttestEscrow = true

/-- What a history asks of a transaction: an attestation or a challenge is not sent from an
    escrow, and every other family keeps the escrows. -/
def BondSafe (c : Context) (s : Ledger) (tx : Transaction) : Prop :=
  if tx.body.isBondFamily then SenderIsPlain c s tx
  else KeepsEscrows s ((executeSigned c tx).run s).store

theorem steps_executeSigned (hsafe : BondSafe c s tx) :
    EscrowStep s ((executeSigned c tx).run s).store := by
  have hframe : tx.body.isBondFamily = false →
      ((executeSigned c tx).run s).store.pendingBondReleases = s.pendingBondReleases := by
    intro hother
    apply Finmap.ext_lookup
    intro e
    refine run_frame (k := .bondRelease e.1 e.2) (within_executeSigned c tx) s ?_
    cases hbody : tx.body <;>
      simp_all [Transaction.Writes, TxBody.writtenCells, TxBody.isBondFamily,
        Cell.isAccount]
  unfold BondSafe at hsafe
  split at hsafe
  · rename_i hfamily
    refine executeSigned_store (I := EscrowStep s) EscrowStep.refl fun gas => ?_
    cases hbody : tx.body with
    | inferenceAttestation body =>
      exact wp_flatGas_store (steps_attestation hsafe)
    | inferenceChallenge body =>
      exact wp_flatGas_store (steps_challenge hsafe.1)
    | _ => simp [hbody, TxBody.isBondFamily] at hfamily
  · rename_i hother
    have hqueue := hframe (Bool.eq_false_iff.mpr hother)
    have hqueues : ∀ h a, ((executeSigned c tx).run s).store.Queues h a ↔ s.Queues h a := by
      intro h a
      rw [Ledger.Queues, Ledger.Queues, hqueue]
    exact
      { keep := hsafe.keep
        fresh := fun a y hy hescrow => .inl (hsafe.fresh a y hy hescrow)
        queue := fun h a hq => .inl ((hqueues h a).mp hq)
        mono := fun h a hq => (hqueues h a).mpr hq }

end Transactions

end ArcChain
