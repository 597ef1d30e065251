/-
What a certified checkpoint commits (`checkpoint_adoption.rs`): the checks
of the history window and of the shape of a payload, and that they leave
one choice.

The certificate authenticates a tip block and through it a state root.
A window of blocks chains to the tip by recomputed header hashes, and each
header commits its transaction list by count and root; the account list of
a payload is committed by the account root, which binds the records in
order but not the keys they are filed under.  Strict ordering and the
check that every account is filed under its own address close that gap.
-/
import ArcChain.Native.AccountTree
import ArcChain.Native.Bindings
import ArcChain.Native.Concrete

namespace ArcChain

open Word Merkle List

variable {payload : SnapshotPayload}

/-- `SnapshotPayload`, without the rows a rebase may not carry (receipts, bodies, event
    logs and the native pending index). -/
structure SnapshotPayload where
  height : Nat
  accounts : List (Address × Account)
  storage : List (Address × List (Hash256 × Bytes))
  contracts : List (Address × Bytes)
  identities : Bytes
  blocks : List (Nat × Block)
  validators : List (Address × Nat)
  stakingPool : Nat
  recoveryContext : Option RecoveryContext
  communityRewardsActivationHeight : Option Nat

def refuse (reason : String) : StateError :=
  .persistenceError s!"checkpoint refused: {reason}"

def strictlyIncreasing : List Hash256 → Bool
  | a :: b :: rest => decide (a < b) && strictlyIncreasing (b :: rest)
  | _ => true

theorem strictlyIncreasing_iff {keys : List Hash256} :
    strictlyIncreasing keys = true ↔ keys.Pairwise (· < ·) := by
  rw [← isChain_iff_pairwise]
  fun_induction strictlyIncreasing keys with
  | case1 a b rest ih =>
    rw [Bool.and_eq_true, decide_eq_true_iff, ih, isChain_cons_cons]
  | case2 keys h =>
    match keys, h with
    | [], _ => simp
    | [a], _ => simp
    | a :: b :: rest, h => exact absurd rfl (h a b rest)

def strictlyOrdered (payload : SnapshotPayload) : Result Unit :=
  Result.require
    (strictlyIncreasing (payload.accounts.map Prod.fst) = true ∧
      strictlyIncreasing (payload.storage.map Prod.fst) = true ∧
      ∀ entry ∈ payload.storage, strictlyIncreasing (entry.2.map Prod.fst) = true)
    (refuse "its accounts or storage are not strictly ordered by key")

def accountsBoundToKeys (payload : SnapshotPayload) : Result Unit :=
  match payload.accounts.find? fun entry => entry.2.address ≠ entry.1 with
  | some (key, account) => .error (refuse
      s!"it files the account of {account.address.display} under {key.display}, which the certified root does not bind")
  | none => .ok ()

theorem accountsBoundToKeys_eq_ok {u : Unit} : accountsBoundToKeys payload = .ok u ↔
      ∀ entry ∈ payload.accounts, entry.2.address = entry.1 := by
  unfold accountsBoundToKeys
  cases hfind : payload.accounts.find? fun entry => entry.2.address ≠ entry.1 with
  | none =>
    rw [List.find?_eq_none] at hfind
    simp only [true_iff]
    intro entry hentry
    simpa using hfind entry hentry
  | some found =>
    have hmem := mem_of_find?_eq_some hfind
    have hne := List.find?_some hfind
    simp only [reduceCtorEq, false_iff]
    intro hall
    simp [hall found hmem] at hne

def adoptionPreconditions (db : NativeDb) (payload : SnapshotPayload) : Result Unit := do
  Result.require (db.gpuCache = none ∧ db.useJmt = false)
    (refuse "a GPU account cache or JMT-backed root cannot be rebuilt by a rebase")
  Result.require (db.recoveryContext = none ∧ payload.recoveryContext = none)
    (refuse "recovery-domain chains are repositioned only by their signed recovery path")
  let context ← Result.some? (refuse
    "only a protocol-4 chain's uncovered domains are frozen after genesis; on this chain they can change, so a checkpoint cannot be adopted")
    db.nativeInferenceContext
  Result.require (context.selectionRule = .skipUsedNoncesV2) (refuse
    "this chain was activated with selection rule v1, under which a rebased node can select differently from its peers; only v2 chains adopt checkpoints")
  strictlyOrdered payload
  accountsBoundToKeys payload

/-- What the preconditions say about the payload's accounts. -/
theorem adoptionPreconditions_accounts {db : NativeDb}
    (h : adoptionPreconditions db payload = .ok ()) :
    (payload.accounts.Pairwise fun x y => x.1 < y.1) ∧
      ∀ entry ∈ payload.accounts, entry.2.address = entry.1 := by
  unfold adoptionPreconditions at h
  simp only [bind_eq_ok, Result.require_eq_ok, strictlyOrdered,
    accountsBoundToKeys_eq_ok] at h
  obtain ⟨_, -, _, -, _, -, _, -, _, ⟨hordered, -⟩, hbound⟩ := h
  exact ⟨pairwise_map.mp (strictlyIncreasing_iff.mp hordered), hbound⟩

/-- The accounts of a payload, in order. -/
def SnapshotPayload.accountList (payload : SnapshotPayload) : List Account :=
  payload.accounts.map Prod.snd

/-- Accounts filed under their own, strictly ordered addresses are distinct. -/
theorem accountList_nodup (hordered : payload.accounts.Pairwise fun x y => x.1 < y.1)
    (hbound : ∀ entry ∈ payload.accounts, entry.2.address = entry.1) :
    payload.accountList.Nodup := by
  refine pairwise_map.mpr (hordered.imp_of_mem fun hx hy hlt heq => ?_)
  have haddress := congrArg Account.address heq
  rw [hbound _ hx, hbound _ hy] at haddress
  exact ne_of_lt hlt haddress

/-- The keys are recovered from the accounts. -/
theorem accounts_eq_of_accountList_eq {payload' : SnapshotPayload}
    (hbound : ∀ entry ∈ payload.accounts, entry.2.address = entry.1)
    (hbound' : ∀ entry ∈ payload'.accounts, entry.2.address = entry.1)
    (h : payload.accountList = payload'.accountList) : payload.accounts = payload'.accounts := by
  have hrefile : ∀ {l : List (Address × Account)}, (∀ entry ∈ l, entry.2.address = entry.1) →
      (l.map Prod.snd).map (fun account => (account.address, account)) = l := by
    intro l hl
    rw [map_map]
    refine (map_congr_left fun entry hentry => ?_).trans (map_id l)
    exact Prod.ext (hl entry hentry) rfl
  rw [← hrefile hbound, ← hrefile hbound']
  exact congrArg _ h

section Checks

variable [NativeExternals]

/-- The loop of `verify_history_window`, over the blocks from the tip down. -/
def verifyWindowFrom (expectedHash : Hash256) (expectedHeight : Nat) :
    List (Nat × Block) → Result (Finset Hash256)
  | [] => .ok ∅
  | (height, block) :: older => do
    let recomputed := Block.computeHash block.header
    Result.require (height = block.header.height ∧ height = expectedHeight ∧
        recomputed = block.hash ∧ recomputed = expectedHash)
      (refuse s!"window block at height {height} does not chain to the certified tip")
    Result.require (block.header.txCount = block.txHashes.length ∧
        Merkle.root hashPair .zero block.txHashes = block.header.txRoot)
      (refuse
        s!"window block at height {height} lists transactions its tx_root does not commit")
    match older with
    | [] => .ok block.txHashes.toFinset
    | next :: rest => do
      let below ← Result.some? (refuse "window height underflow") (checkedSub height 1)
      let listed ← verifyWindowFrom block.header.parentHash below (next :: rest)
      .ok (block.txHashes.toFinset ∪ listed)

def verifyHistoryWindow (blocks : List (Nat × Block)) (tip : Block) : Result (Finset Hash256) :=
  match blocks.getLast? with
  | none => .error (refuse "the payload carries no tip block")
  | some (tipHeight, carriedTip) => do
    Result.require (tipHeight = tip.header.height ∧ carriedTip.hash = tip.hash)
      (refuse "the payload's last block is not the certified tip")
    verifyWindowFrom tip.hash tip.header.height blocks.reverse

/-! ## Blocks -/

/-- Block hashes keep the headers of `S` apart: `bincode` writes different headers
    differently, and BLAKE3 does not collide on what it writes. -/
structure HeadersApart (S : Set BlockHeader) : Prop where
  serialize : ∀ h ∈ S, ∀ h' ∈ S,
    Externals.serializeHeader h = Externals.serializeHeader h' → h = h'
  hash : ∀ h ∈ S, ∀ h' ∈ S, Block.computeHash h = Block.computeHash h' →
    Externals.serializeHeader h = Externals.serializeHeader h'

theorem HeadersApart.eq_of_hash_eq {S : Set BlockHeader} (h : HeadersApart S)
    {a b : BlockHeader} (ha : a ∈ S) (hb : b ∈ S)
    (heq : Block.computeHash a = Block.computeHash b) : a = b :=
  h.serialize a ha b hb (h.hash a ha b hb heq)

/-- Equally long transaction lists with the same root are equal.  Nothing is assumed of
    the transaction hashes, which a server chooses freely. -/
theorem txHashes_eq_of_root_eq {S : Set Bytes}
    (hS : ∀ s ∈ S, ∀ t ∈ S, hashBytes s = hashBytes t → s = t) {l l' : List Hash256}
    (hl : ∀ s ∈ innerStrings l, s ∈ S) (hl' : ∀ s ∈ innerStrings l', s ∈ S)
    (hlen : l.length = l'.length)
    (hroot : Merkle.root hashPair .zero l = Merkle.root hashPair .zero l') : l = l' := by
  by_cases hne : l = []
  · subst hne
    exact (length_eq_zero_iff.mp hlen.symm).symm
  have hne' : l' ≠ [] := by
    rintro rfl
    exact hne (length_eq_zero_iff.mp hlen)
  obtain ⟨t, ht, -⟩ := exists_tree hne
  obtain ⟨t', ht', -⟩ := exists_tree hne'
  rw [root_eq_value hashPair .zero ht, root_eq_value hashPair .zero ht'] at hroot
  obtain rfl : t = t' := eq_of_value_eq
    (fun p q (hp : pairBytes p ∈ S) (hq : pairBytes q ∈ S) heq =>
      pairBytes_inj (hS _ hp _ hq heq))
    (sameShape_of_length_eq ht ht' hlen)
    (fun p hp => hl _ (mem_innerStrings ht hp)) (fun p hp => hl' _ (mem_innerStrings ht' hp)) hroot
  obtain ⟨extra, heq, -⟩ := leaves_tree ht
  obtain ⟨extra', heq', -⟩ := leaves_tree ht'
  exact (append_inj (heq.symm.trans heq') hlen).1

variable {listed : Finset Hash256} {expectedHash : Hash256}

/-- What the loop checks at its first block. -/
theorem verifyWindowFrom_cons {expectedHeight height : Nat}
    {block : Block} {older : List (Nat × Block)}
    (h : verifyWindowFrom expectedHash expectedHeight ((height, block) :: older) = .ok listed) :
    (height = expectedHeight ∧ block.hash = expectedHash ∧
      Block.computeHash block.header = expectedHash ∧
      block.header.txCount = block.txHashes.length ∧
      Merkle.root hashPair .zero block.txHashes = block.header.txRoot) ∧
    (older = [] ∨ ∃ listed', verifyWindowFrom block.header.parentHash (height - 1) older =
      .ok listed') := by
  unfold verifyWindowFrom at h
  simp only [bind_eq_ok, Result.require_eq_ok] at h
  obtain ⟨_, ⟨-, hheight, hhash, hexpected⟩, _, ⟨hcount, hroot⟩, hrest⟩ := h
  refine ⟨⟨hheight, hhash.symm.trans hexpected, hexpected, hcount, hroot⟩, ?_⟩
  cases older with
  | nil => exact Or.inl rfl
  | cons next rest =>
    simp only [bind_eq_ok, Result.some?_eq_ok] at hrest
    obtain ⟨below, hbelow, listed', hlisted, -⟩ := hrest
    obtain ⟨-, rfl⟩ := checkedSub_eq_some.mp hbelow
    exact Or.inr ⟨listed', hlisted⟩

/-- The headers of a window. -/
def windowHeaders (window : List (Nat × Block)) : Set BlockHeader :=
  { header | ∃ entry ∈ window, entry.2.header = header }

/-- The strings hashed for the transaction roots of a window. -/
def windowStrings (window : List (Nat × Block)) : Set Bytes :=
  { s | ∃ entry ∈ window, s ∈ innerStrings entry.2.txHashes }

/-- Two accepted windows from one expected block down agree as far as both reach. -/
theorem windows_eq_from {headers : Set BlockHeader} (hheaders : HeadersApart headers)
    {S : Set Bytes} (hS : ∀ s ∈ S, ∀ t ∈ S, hashBytes s = hashBytes t → s = t)
    {window window' : List (Nat × Block)} (hlen : window.length = window'.length)
    (hin : windowHeaders window ⊆ headers) (hin' : windowHeaders window' ⊆ headers)
    (htx : windowStrings window ⊆ S) (htx' : windowStrings window' ⊆ S)
    {expectedHeight : Nat} {listed' : Finset Hash256}
    (h : verifyWindowFrom expectedHash expectedHeight window = .ok listed)
    (h' : verifyWindowFrom expectedHash expectedHeight window' = .ok listed') :
    window = window' := by
  induction window generalizing window' expectedHash expectedHeight listed listed' with
  | nil => exact (length_eq_zero_iff.mp hlen.symm).symm
  | cons entry older ih =>
    cases window' with
    | nil => cases hlen
    | cons entry' older' =>
      obtain ⟨height, block⟩ := entry
      obtain ⟨height', block'⟩ := entry'
      obtain ⟨⟨hheight, hhash, hcompute, hcount, hroot⟩, hrest⟩ := verifyWindowFrom_cons h
      obtain ⟨⟨hheight', hhash', hcompute', hcount', hroot'⟩, hrest'⟩ := verifyWindowFrom_cons h'
      have hheader : block.header = block'.header :=
        hheaders.eq_of_hash_eq (hin ⟨_, mem_cons_self, rfl⟩)
          (hin' ⟨_, mem_cons_self, rfl⟩) (hcompute.trans hcompute'.symm)
      have htxs : block.txHashes = block'.txHashes := by
        refine txHashes_eq_of_root_eq hS (fun s hs => htx ⟨_, mem_cons_self, hs⟩)
          (fun s hs => htx' ⟨_, mem_cons_self, hs⟩) ?_ ?_
        · rw [← hcount, ← hcount', hheader]
        · rw [hroot, hroot', hheader]
      have hblock : block = block' := by
        cases block
        cases block'
        simp only [Block.mk.injEq]
        exact ⟨hheader, htxs, hhash.trans hhash'.symm⟩
      have hlen' : older.length = older'.length := Nat.succ_inj.mp hlen
      have holder : older = older' := by
        rcases hrest with rfl | ⟨below, hbelow⟩
        · exact (length_eq_zero_iff.mp hlen'.symm).symm
        rcases hrest' with rfl | ⟨below', hbelow'⟩
        · exact length_eq_zero_iff.mp hlen'
        · rw [← hheader, hheight', ← hheight] at hbelow'
          refine ih hlen' (fun x hx => hin ?_) (fun x hx => hin' ?_) (fun s hs => htx ?_)
            (fun s hs => htx' ?_) hbelow hbelow'
          · obtain ⟨entry, hentry, hx⟩ := hx
            exact ⟨entry, mem_cons_of_mem _ hentry, hx⟩
          · obtain ⟨entry, hentry, hx⟩ := hx
            exact ⟨entry, mem_cons_of_mem _ hentry, hx⟩
          · obtain ⟨entry, hentry, hs⟩ := hs
            exact ⟨entry, mem_cons_of_mem _ hentry, hs⟩
          · obtain ⟨entry, hentry, hs⟩ := hs
            exact ⟨entry, mem_cons_of_mem _ hentry, hs⟩
      rw [hblock, holder, hheight, hheight']

theorem verifyHistoryWindow_eq_ok {blocks : List (Nat × Block)} {tip : Block}
    (h : verifyHistoryWindow blocks tip = .ok listed) :
    verifyWindowFrom tip.hash tip.header.height blocks.reverse = .ok listed := by
  unfold verifyHistoryWindow at h
  split at h
  · cases h
  · simp only [bind_eq_ok] at h
    obtain ⟨_, -, h⟩ := h
    exact h

/-! ## Accounts -/

/-- The root of a scratch state the payload is installed into. -/
def rebuiltStateRoot (payload : SnapshotPayload) : Hash256 :=
  NativeDb.accountRoot (NativeDb.setAccounts ∅ payload.accounts)

/-- The root of an ordered payload is the root over its accounts as listed. -/
theorem rebuiltStateRoot_eq (hordered : payload.accounts.Pairwise fun x y => x.1 < y.1) :
    rebuiltStateRoot payload = NativeDb.accountListRoot payload.accountList := by
  rw [rebuiltStateRoot, NativeDb.accountRoot, NativeDb.setAccounts,
    FinMap.toSortedList_setAll hordered, NativeDb.accountListRoot, SnapshotPayload.accountList,
    map_map]
  rfl

/-- **Checkpoint adoption is unambiguous.**  Payloads that pass the preconditions (of
    whatever nodes) and rebuild the same state root carry the same accounts, and equally
    long windows accepted for one tip are equal block by block. -/
theorem checkpoint_adoption_unambiguous :
    (∀ (db db' : NativeDb) (payload payload' : SnapshotPayload),
      adoptionPreconditions db payload = .ok () → adoptionPreconditions db' payload' = .ok () →
      (∀ a ∈ payload.accountList, a.Fits) → (∀ a ∈ payload'.accountList, a.Fits) →
      HashApart { s | s ∈ NativeDb.accountStrings payload.accountList ∨
        s ∈ NativeDb.accountStrings payload'.accountList } →
      rebuiltStateRoot payload = rebuiltStateRoot payload' →
      payload.accounts = payload'.accounts) ∧
    ∀ (tip : Block) (window window' : List (Nat × Block)) (listed listed' : Finset Hash256),
      verifyHistoryWindow window tip = .ok listed →
      verifyHistoryWindow window' tip = .ok listed' → window.length = window'.length →
      HeadersApart (windowHeaders window ∪ windowHeaders window') →
      Set.InjOn hashBytes (windowStrings window ∪ windowStrings window') →
      window = window' := by
  constructor
  · intro db db' payload payload' hpre hpre' hfits hfits' hhash hroot
    obtain ⟨hordered, hbound⟩ := adoptionPreconditions_accounts hpre
    obtain ⟨hordered', hbound'⟩ := adoptionPreconditions_accounts hpre'
    rw [rebuiltStateRoot_eq hordered, rebuiltStateRoot_eq hordered'] at hroot
    exact accounts_eq_of_accountList_eq hbound hbound'
      (NativeDb.accounts_eq_of_root_eq hhash (fun s hs => Or.inl hs) (fun s hs => Or.inr hs)
        hfits hfits' (accountList_nodup hordered hbound) (accountList_nodup hordered' hbound')
        hroot)
  · intro tip window window' listed listed' h h' hlen hheaders hhash
    have hreverse : window.reverse = window'.reverse := by
      refine windows_eq_from hheaders (fun s hs t ht heq => hhash hs ht heq)
        (by simpa using hlen) ?_ ?_ ?_ ?_
        (verifyHistoryWindow_eq_ok h) (verifyHistoryWindow_eq_ok h')
      · rintro header ⟨entry, hentry, hheader⟩
        exact Or.inl ⟨entry, mem_reverse.mp hentry, hheader⟩
      · rintro header ⟨entry, hentry, hheader⟩
        exact Or.inr ⟨entry, mem_reverse.mp hentry, hheader⟩
      · rintro s ⟨entry, hentry, hs⟩
        exact Or.inl ⟨entry, mem_reverse.mp hentry, hs⟩
      · rintro s ⟨entry, hentry, hs⟩
        exact Or.inr ⟨entry, mem_reverse.mp hentry, hs⟩
    exact reverse_injective hreverse

end Checks

namespace Sample

/-- A node of a private chain with an active binding. -/
def privateNode : NativeDb where
  ledger := ledger [account 1 10 1]
  height := 5
  blocks := ∅
  gpuCache := none
  recoveryContext := none
  communityRewardsV1ActivationHeight := none
  walFailure := none
  genesisBinding := some (.ok .zero)
  identities := []
  useJmt := false
  nativeMigration := none
  nativeContext := some ⟨⟨.zero, 1, .zero⟩, [], [], .skipUsedNoncesV2⟩
  supersededBindings := ∅
  nativePending := ∅
  wal := []

/-- A block that lists two transactions. -/
def windowBlock : Block :=
  letI := concreteNative
  let header : BlockHeader :=
    { height := 7
      timestamp := 4
      parentHash := address 8
      txRoot := Merkle.root hashPair .zero [address 3, address 4]
      stateRoot := address 9
      proofHash := .zero
      txCount := 2
      producer := address 7
      protocolVersion := .genesis
      stateDiff := none }
  { header, txHashes := [address 3, address 4], hash := Block.computeHash header }

/-- Two accounts and one block, served with some contracts. -/
def servedPayload (contracts : List (Address × Bytes)) : SnapshotPayload where
  height := 7
  accounts := [(address 1, account 1 100 0), (address 2, account 2 5 0)]
  storage := []
  contracts := contracts
  identities := []
  blocks := [(7, windowBlock)]
  validators := []
  stakingPool := 0
  recoveryContext := none
  communityRewardsActivationHeight := none

/-- Two servers of one checkpoint. -/
theorem served_payloads_agree :
    letI := concreteNative
    adoptionPreconditions privateNode (servedPayload []) = .ok () ∧
      (servedPayload []).accounts = (servedPayload [(address 3, [1])]).accounts ∧
      (servedPayload []).blocks = (servedPayload [(address 3, [1])]).blocks := by
  let _ : NativeExternals := concreteNative
  have hpre : ∀ contracts, adoptionPreconditions privateNode (servedPayload contracts) =
      .ok () := by
    intro contracts
    show adoptionPreconditions privateNode (servedPayload []) = .ok ()
    decide +kernel
  have hfits : ∀ a ∈ (servedPayload []).accountList, a.Fits := by
    intro a ha
    simp only [SnapshotPayload.accountList, servedPayload, map_cons, map_nil,
      mem_cons, not_mem_nil, or_false] at ha
    rcases ha with rfl | rfl <;> exact ⟨by decide, by decide, by decide⟩
  refine ⟨hpre [], ?_, ?_⟩
  · refine checkpoint_adoption_unambiguous.1 privateNode privateNode _ _ (hpre _) (hpre _) hfits
      hfits ?_ rfl
    refine (hashApart_of_forall (l := NativeDb.accountStrings (servedPayload []).accountList)
      ?_).mono ?_
    · decide +kernel
    · exact fun s hs => hs.elim id id
  · have hwindow : ∃ listed, verifyHistoryWindow [(7, windowBlock)] windowBlock = .ok listed :=
      ⟨{address 3, address 4}, by decide +kernel⟩
    obtain ⟨listed, hlisted⟩ := hwindow
    refine checkpoint_adoption_unambiguous.2 windowBlock [(7, windowBlock)] [(7, windowBlock)]
      listed listed hlisted hlisted rfl ?_ ?_
    · have hone : ∀ header ∈ windowHeaders [(7, windowBlock)] ∪ windowHeaders [(7, windowBlock)],
          header = windowBlock.header := by
        rintro header (⟨entry, hentry, rfl⟩ | ⟨entry, hentry, rfl⟩)
        · rw [mem_singleton.mp hentry]
        · rw [mem_singleton.mp hentry]
      exact ⟨fun h hh h' hh' _ => (hone h hh).trans (hone h' hh').symm,
        fun h hh h' hh' _ => by rw [hone h hh, hone h' hh']⟩
    · have hone : ∀ s ∈ windowStrings [(7, windowBlock)] ∪ windowStrings [(7, windowBlock)],
          s ∈ innerStrings windowBlock.txHashes := by
        rintro s (⟨entry, hentry, hs⟩ | ⟨entry, hentry, hs⟩)
        · rwa [mem_singleton.mp hentry] at hs
        · rwa [mem_singleton.mp hentry] at hs
      have hapart : ∀ s ∈ innerStrings windowBlock.txHashes,
          ∀ t ∈ innerStrings windowBlock.txHashes, hashBytes s = hashBytes t → s = t := by
        decide +kernel
      exact fun s hs t ht heq => hapart s (hone s hs) t (hone t ht) heq

end Sample

end ArcChain
