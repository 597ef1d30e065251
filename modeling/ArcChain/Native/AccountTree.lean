/-
What the root of the account tree binds.

The leaves of the tree are the hashes of 120-byte account records, its
inner nodes hashes of 64-byte pairs, and the tree without accounts has the
all-zero root.  `HashApart S` says that BLAKE3 treats the strings of `S`
as all different and hashes none of them to zero; `S` is always the set
of strings that are really hashed, since no hash is injective on all
strings.
-/
import ArcChain.Native.StateRoot

namespace ArcChain

open Word Merkle List Hash256 FinMap

/-! ## Account records -/

namespace Account

/-- The integer fields are 64-bit words. -/
structure Fits (a : Account) : Prop where
  balance : a.balance ≤ u64Max
  nonce : a.nonce ≤ u64Max
  stakedBalance : a.stakedBalance ≤ u64Max

@[simp] theorem length_serialize (a : Account) : a.serialize.length = 120 := by
  simp [serialize]

/-- A record determines its account. -/
theorem serialize_inj {a b : Account} (ha : a.Fits) (hb : b.Fits)
    (h : a.serialize = b.serialize) : a = b := by
  have hword : ∀ {m n : Nat}, m ≤ u64Max → n ≤ u64Max → leBytes 8 m = leBytes 8 n → m = n := by
    intro m n hm hn heq
    have hwidth : u64Max < 256 ^ 8 := by decide
    exact leBytes_inj (Nat.lt_of_le_of_lt hm hwidth) (Nat.lt_of_le_of_lt hn hwidth) heq
  obtain ⟨h, hstaked⟩ := append_inj h (by simp)
  obtain ⟨h, hroot⟩ := append_inj h (by simp)
  obtain ⟨h, hcode⟩ := append_inj h (by simp)
  obtain ⟨h, hnonce⟩ := append_inj h (by simp)
  obtain ⟨haddress, hbalance⟩ := append_inj h (by simp)
  cases a
  cases b
  simp only [mk.injEq]
  exact ⟨toBytes_injective haddress, hword ha.balance hb.balance hbalance,
    hword ha.nonce hb.nonce hnonce, toBytes_injective hcode, toBytes_injective hroot,
    hword ha.stakedBalance hb.stakedBalance hstaked⟩

end Account

/-! ## Strings that are hashed -/

/-- What `hash_pair` hashes. -/
def pairBytes (pair : Hash256 × Hash256) : Bytes := pair.1.toBytes ++ pair.2.toBytes

@[simp] theorem length_pairBytes (pair : Hash256 × Hash256) : (pairBytes pair).length = 64 := by
  simp [pairBytes]

theorem pairBytes_inj {p q : Hash256 × Hash256} (h : pairBytes p = pairBytes q) : p = q := by
  obtain ⟨hleft, hright⟩ := append_inj h (by simp)
  exact Prod.ext (toBytes_injective hleft) (toBytes_injective hright)

section Crypto

variable [Crypto]

/-- BLAKE3 keeps the strings of `S` apart, and apart from the all-zero marker. -/
structure HashApart (S : Set Bytes) : Prop where
  inj : ∀ s ∈ S, ∀ t ∈ S, hashBytes s = hashBytes t → s = t
  nonzero : ∀ s ∈ S, hashBytes s ≠ .zero

theorem HashApart.mono {S S' : Set Bytes} (h : HashApart S') (hsub : S ⊆ S') : HashApart S :=
  ⟨fun s hs t ht => h.inj s (hsub hs) t (hsub ht), fun s hs => h.nonzero s (hsub hs)⟩

/-- Finitely many strings can be checked one by one. -/
theorem hashApart_of_forall {l : List Bytes}
    (h : ∀ s ∈ l, hashBytes s ≠ .zero ∧ ∀ t ∈ l, hashBytes s = hashBytes t → s = t) :
    HashApart { s | s ∈ l } :=
  ⟨fun s hs t ht => (h s hs).2 t ht, fun s hs => (h s hs).1⟩

/-- The strings hashed for the inner nodes over a list of leaves. -/
def innerStrings (leaves : List Hash256) : List Bytes :=
  match Merkle.tree leaves with
  | none => []
  | some tree => (tree.pairs hashPair).map pairBytes

variable {tree : Merkle.Tree Hash256} {leaves : List Hash256}

theorem mem_innerStrings (htree : Merkle.tree leaves = some tree) {pair : Hash256 × Hash256}
    (hpair : pair ∈ tree.pairs hashPair) : pairBytes pair ∈ innerStrings leaves := by
  rw [innerStrings, htree]
  exact mem_map_of_mem hpair

/-- A root of hashes of the strings of `S` is not the all-zero marker. -/
theorem HashApart.root_ne_zero {S : Set Bytes} (h : HashApart S)
    (htree : Merkle.tree leaves = some tree)
    (hinner : ∀ s ∈ innerStrings leaves, s ∈ S)
    (hleaves : ∀ a ∈ leaves, ∃ s ∈ S, a = hashBytes s) :
    tree.value hashPair ≠ .zero := by
  cases tree with
  | leaf a =>
    obtain ⟨extra, heq, hextra⟩ := leaves_tree htree
    have hmem : a ∈ leaves := by
      have hone : a ∈ leaves ++ extra := heq ▸ mem_singleton_self a
      rcases mem_append.mp hone with ha | ha
      · exact ha
      · exact hextra a ha
    obtain ⟨s, hs, rfl⟩ := hleaves a hmem
    exact h.nonzero s hs
  | node left right =>
    have hmem := hinner _ (mem_innerStrings htree mem_cons_self)
    exact h.nonzero (pairBytes (left.value hashPair, right.value hashPair)) hmem

end Crypto

/-! ## Filed accounts -/

/-- A state in which every account is filed under its own address. -/
structure FiledAccounts (accounts : FinMap Address Account) : Prop where
  filed : ∀ a account, accounts.lookup a = some account → account.address = a
  fits : ∀ a account, accounts.lookup a = some account → account.Fits

/-- The accounts of a state in the order of the tree. -/
def accountsInOrder (accounts : FinMap Address Account) : List Account :=
  (FinMap.toSortedList accounts).map Prod.snd

theorem mem_accountsInOrder {accounts : FinMap Address Account} {account : Account} :
    account ∈ accountsInOrder accounts ↔ ∃ a, accounts.lookup a = some account := by
  rw [accountsInOrder, mem_map]
  constructor
  · rintro ⟨⟨a, account⟩, hmem, rfl⟩
    exact ⟨a, (lookup_decEq _ _ a accounts).trans (mem_toSortedList.mp hmem)⟩
  · rintro ⟨a, hlookup⟩
    have hmem := mem_toSortedList.mpr ((lookup_decEq _ _ a accounts).trans hlookup)
    exact ⟨(a, account), hmem, rfl⟩

/-! ## The account tree -/

section Accounts

variable [NativeExternals]

namespace NativeDb

/-- The strings hashed for the account tree over a list of accounts. -/
def accountStrings (accounts : List Account) : List Bytes :=
  accounts.map Account.serialize ++ innerStrings (accounts.map accountLeaf)

variable {S : Set Bytes}

/-- Records and pairs have different lengths, so a pair is never hashed to a leaf. -/
theorem separated_of_hashApart (h : HashApart S) :
    Merkle.Separated hashPair (fun pair => pairBytes pair ∈ S)
      (fun a => ∃ account : Account, account.serialize ∈ S ∧ a = accountLeaf account) where
  inj p q hp hq heq := pairBytes_inj (h.inj _ hp _ hq heq)
  apart p hp := by
    rintro ⟨account, hmem, heq⟩
    have hbytes := h.inj _ hp _ hmem heq
    have hlength := congrArg List.length hbytes
    simp at hlength

/-- The root over a list of accounts, in order. -/
def accountListRoot (accounts : List Account) : Hash256 :=
  Merkle.root hashPair .zero (accounts.map accountLeaf)

section Tree

variable {S : Set Bytes} {accounts : List Account} {tree : Merkle.Tree Hash256}

theorem pairs_mem_of_strings (hS : ∀ s ∈ accountStrings accounts, s ∈ S)
    (htree : Merkle.tree (accounts.map accountLeaf) = some tree) :
    ∀ pair ∈ tree.pairs hashPair, pairBytes pair ∈ S :=
  fun _ hpair => hS _ (mem_append_right _ (mem_innerStrings htree hpair))

theorem leaves_mem_of_strings (hS : ∀ s ∈ accountStrings accounts, s ∈ S)
    (htree : Merkle.tree (accounts.map accountLeaf) = some tree) :
    ∀ a ∈ tree.leaves, ∃ account ∈ accounts, account.serialize ∈ S ∧ a = accountLeaf account := by
  intro a ha
  obtain ⟨extra, heq, hextra⟩ := leaves_tree htree
  have hmem : a ∈ accounts.map accountLeaf := by
    rcases mem_append.mp (heq ▸ ha) with ha | ha
    · exact ha
    · exact hextra a ha
  obtain ⟨account, haccount, rfl⟩ := mem_map.mp hmem
  exact ⟨account, haccount, hS _ (mem_append_left _ (mem_map_of_mem haccount)), rfl⟩

/-- Distinct accounts have distinct leaves. -/
theorem accountLeaf_inj (h : HashApart S) {a b : Account} (ha : a.serialize ∈ S)
    (hb : b.serialize ∈ S) (hfa : a.Fits) (hfb : b.Fits) (heq : accountLeaf a = accountLeaf b) :
    a = b :=
  Account.serialize_inj hfa hfb (h.inj _ ha _ hb heq)

theorem root_eq_zero_iff (h : HashApart S) (hS : ∀ s ∈ accountStrings accounts, s ∈ S) :
    accountListRoot accounts = .zero ↔ accounts = [] := by
  constructor
  · intro hzero
    by_contra hne
    obtain ⟨tree, htree, -⟩ := exists_tree (show accounts.map accountLeaf ≠ [] by simpa)
    rw [accountListRoot, root_eq_value hashPair .zero htree] at hzero
    refine h.root_ne_zero htree (fun s hs => hS s (mem_append_right _ hs)) ?_ hzero
    intro a ha
    obtain ⟨account, haccount, rfl⟩ := mem_map.mp ha
    exact ⟨_, hS _ (mem_append_left _ (mem_map_of_mem haccount)), rfl⟩
  · rintro rfl
    rfl

end Tree

/-- **The account root binds the accounts.**  Lists of distinct accounts with the same
    root are equal, whatever their lengths. -/
theorem accounts_eq_of_root_eq (h : HashApart S) {l l' : List Account}
    (hS : ∀ s ∈ accountStrings l, s ∈ S) (hS' : ∀ s ∈ accountStrings l', s ∈ S)
    (hfits : ∀ a ∈ l, a.Fits) (hfits' : ∀ a ∈ l', a.Fits) (hnodup : l.Nodup) (hnodup' : l'.Nodup)
    (hroot : accountListRoot l = accountListRoot l') : l = l' := by
  by_cases hne : l = []
  · -- only the tree without accounts has the all-zero root
    rw [hne, eq_comm, ← root_eq_zero_iff h hS', ← hroot, root_eq_zero_iff h hS]
    exact hne
  by_cases hne' : l' = []
  · rw [hne', ← root_eq_zero_iff h hS, hroot, root_eq_zero_iff h hS']
    exact hne'
  obtain ⟨t, ht, -⟩ := exists_tree (show l.map accountLeaf ≠ [] by simpa)
  obtain ⟨t', ht', -⟩ := exists_tree (show l'.map accountLeaf ≠ [] by simpa)
  rw [accountListRoot, accountListRoot, root_eq_value hashPair .zero ht,
    root_eq_value hashPair .zero ht'] at hroot
  have hleaf : ∀ a ∈ l, a.serialize ∈ S := fun a ha => hS _ (mem_append_left _ (mem_map_of_mem ha))
  have hleaf' : ∀ a ∈ l', a.serialize ∈ S :=
    fun a ha => hS' _ (mem_append_left _ (mem_map_of_mem ha))
  obtain rfl : t = t' := (separated_of_hashApart h).eq_of_value_eq
    (pairs_mem_of_strings hS ht) (pairs_mem_of_strings hS' ht')
    (fun a ha => by
      obtain ⟨account, -, hmem, heq⟩ := leaves_mem_of_strings hS ht a ha
      exact ⟨account, hmem, heq⟩)
    (fun a ha => by
      obtain ⟨account, -, hmem, heq⟩ := leaves_mem_of_strings hS' ht' a ha
      exact ⟨account, hmem, heq⟩) hroot
  have hleaves : l.map accountLeaf = l'.map accountLeaf := by
    refine (leaves_tree ht).unique (leaves_tree ht') ?_ ?_
    · exact hnodup.map_on fun a ha b hb heq =>
        accountLeaf_inj h (hleaf a ha) (hleaf b hb) (hfits a ha) (hfits b hb) heq
    · exact hnodup'.map_on fun a ha b hb heq =>
        accountLeaf_inj h (hleaf' a ha) (hleaf' b hb) (hfits' a ha) (hfits' b hb) heq
  -- equal leaves in order are hashes of equal accounts
  refine ext_getElem (by simpa using congrArg List.length hleaves) fun i hi hi' => ?_
  have hat : accountLeaf l[i] = accountLeaf l'[i] := by
    have hget : (l.map accountLeaf)[i]? = (l'.map accountLeaf)[i]? := by rw [hleaves]
    simpa [hi, hi'] using hget
  exact accountLeaf_inj h (hleaf _ (getElem_mem hi)) (hleaf' _ (getElem_mem hi'))
    (hfits _ (getElem_mem hi)) (hfits' _ (getElem_mem hi')) hat

/-- **Inclusion proofs are sound.**  A path from the leaf of an account to the root of the
    tree shows that the account is among those of the tree. -/
theorem mem_accounts_of_path (h : HashApart S) {accounts : List Account}
    (hS : ∀ s ∈ accountStrings accounts, s ∈ S) (hfits : ∀ a ∈ accounts, a.Fits)
    {account : Account} (haccount : account.serialize ∈ S) (hfit : account.Fits)
    {path : List (Hash256 × Bool)}
    (hpath : ∀ pair ∈ Merkle.followPairs hashPair (accountLeaf account) path, pairBytes pair ∈ S)
    (hroot : Merkle.follow hashPair (accountLeaf account) path = accountListRoot accounts) :
    account ∈ accounts := by
  by_cases hne : accounts = []
  · -- a path never ends in the all-zero marker
    exfalso
    rw [(root_eq_zero_iff h hS).mpr hne] at hroot
    cases path using List.reverseRecOn with
    | nil => exact h.nonzero _ haccount hroot
    | append_singleton path step =>
      obtain ⟨sibling, isLeft⟩ := step
      rw [followPairs_append] at hpath
      have hlast := hpath _ (mem_append_right _ (mem_singleton_self _))
      rw [follow_append] at hroot
      cases isLeft with
      | false | true => exact h.nonzero _ hlast hroot
  obtain ⟨t, ht, -⟩ := exists_tree (show accounts.map accountLeaf ≠ [] by simpa)
  rw [accountListRoot, root_eq_value hashPair .zero ht] at hroot
  have hmem := (separated_of_hashApart h).mem_leaves_of_follow ⟨account, haccount, rfl⟩ hpath
    (pairs_mem_of_strings hS ht)
    (fun a ha => by
      obtain ⟨account', -, hmem, heq⟩ := leaves_mem_of_strings hS ht a ha
      exact ⟨account', hmem, heq⟩) hroot
  obtain ⟨account', haccount', hmem', heq⟩ := leaves_mem_of_strings hS ht _ hmem
  rw [accountLeaf_inj h haccount hmem' hfit (hfits _ haccount') heq]
  exact haccount'

end NativeDb

end Accounts

end ArcChain
