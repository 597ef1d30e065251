/-
The bounded holding area for early DAG blocks (`PendingBlocks` in
`arc-consensus/src/pending.rs`).

The area keeps four indexes: the held blocks by hash, their arrival order,
the number of blocks of each author, and for each missing parent the
blocks that wait on it.  Only the first carries data; the other three are
functions of it, and `PendingBlocks.AgreeBut` says so.  `release_on` takes
the children of a parent out of the index before it walks them, so the
agreement has a list of children still to be walked, empty between calls.

A hash map or hash set is iterated in an arbitrary order, which may differ
from call to call: a call that iterates one takes a `Walk`.  An `Instant`
is a number of nanoseconds.
-/
import ArcChain.Lib.FinMap
import ArcChain.Consensus.DagBlock
import ArcChain.Types.Transaction

namespace ArcChain

open Word Multiset FinMap Option

/-- An iteration order of hash sets: each set as a list without repetitions. -/
structure Walk where
  list : Finset Hash256 → List Hash256
  nodup : ∀ s, (list s).Nodup
  mem : ∀ s h, h ∈ list s ↔ h ∈ s

/-! ## The area and its operations -/

def maxPendingBlocks : Nat := 2048

def maxPendingPerAuthor : Nat := 256

/-- `MAX_PENDING_AGE`, 30 s. -/
def maxPendingAge : Nat := 30 * 10 ^ 9

structure Held where
  block : DagBlock
  transactions : List Transaction
  missing : Finset Hash256
  since : Nat

/-- What a release gives back. -/
abbrev PendingEntry := DagBlock × List Transaction

def Held.entry (held : Held) : PendingEntry := (held.block, held.transactions)

/-- The block without `parent` among its missing parents. -/
def Held.without (held : Held) (parent : Hash256) : Held :=
  { held with missing := held.missing.erase parent }

structure PendingBlocks where
  held : FinMap Hash256 Held
  waitingOn : FinMap Hash256 (Finset Hash256)
  order : Finset (Nat ×ₗ Hash256)
  perAuthor : FinMap Address Nat
  evictedFull : Nat
  evictedExpired : Nat
  refusedPerAuthor : Nat

namespace PendingBlocks

def new : PendingBlocks := ⟨∅, ∅, ∅, ∅, 0, 0, 0⟩

def len (p : PendingBlocks) : Nat := p.held.entries.card

def contains (p : PendingBlocks) (hash : Hash256) : Bool := (p.held.lookup hash).isSome

/-- One block of the author less; an author without blocks has no entry. -/
def forgetAuthor (perAuthor : FinMap Address Nat) (author : Address) : FinMap Address Nat :=
  match perAuthor.lookup author with
  | none => perAuthor
  | some count =>
    if count - 1 = 0 then perAuthor.set author none
    else perAuthor.set author (some (count - 1))

/-- The waiters of one parent without `hash`; an empty set is dropped. -/
def unlisted (hash : Hash256) : Option (Finset Hash256) → Option (Finset Hash256)
  | none => none
  | some waiters => if waiters.erase hash = ∅ then none else some (waiters.erase hash)

/-- The waiters of one parent with `hash` (`entry(..).or_default().insert(hash)`). -/
def enlisted (hash : Hash256) (waiters : Option (Finset Hash256)) : Option (Finset Hash256) :=
  some (insert hash (waiters.getD ∅))

/-- Take a block out of all four indexes. -/
def remove (p : PendingBlocks) (hash : Hash256) : PendingBlocks × Option Held :=
  match p.held.lookup hash with
  | none => (p, none)
  | some held =>
    ({ p with
        held := p.held.set hash none
        order := p.order.erase (toLex (held.since, hash))
        perAuthor := forgetAuthor p.perAuthor held.block.author
        waitingOn := p.waitingOn.alterAll (unlisted hash) held.missing },
      some held)

/-- `filter_map(|h| self.remove(&h))` over a list of hashes. -/
def removeAll (p : PendingBlocks) : List Hash256 → PendingBlocks × List PendingEntry
  | [] => (p, [])
  | hash :: rest =>
    let (p, removed) := p.remove hash
    let (p, entries) := p.removeAll rest
    (p, (removed.map Held.entry).toList ++ entries)

/-- `self.evicted_full += 1`. -/
def countEvicted (p : PendingBlocks) : PendingBlocks :=
  { p with evictedFull := p.evictedFull + 1 }

/-- The eviction loop of `hold`: while the area is full, drop the oldest block.  Each turn
    removes one, so the number of held blocks bounds the turns. -/
def makeRoom : Nat → PendingBlocks → PendingBlocks
  | 0, p => p
  | turns + 1, p =>
    if maxPendingBlocks ≤ p.len then
      match p.order.sort.head? with
      | none => p
      | some oldest => makeRoom turns (p.remove (ofLex oldest).2).1.countEvicted
    else p

/-- What `hold` does once there is room. -/
def insertHeld (p : PendingBlocks) (block : DagBlock) (transactions : List Transaction)
    (missing : List Hash256) (now : Nat) : PendingBlocks :=
  { p with
    waitingOn := p.waitingOn.alterAll (enlisted block.hash) missing.toFinset
    perAuthor := p.perAuthor.set block.author (some ((p.perAuthor.lookup block.author).getD 0 + 1))
    order := insert (toLex (now, block.hash)) p.order
    held := p.held.set block.hash
      (some { block, transactions, missing := missing.toFinset, since := now }) }

def hold (p : PendingBlocks) (block : DagBlock) (transactions : List Transaction)
    (missing : List Hash256) (now : Nat) : PendingBlocks × Bool :=
  if p.contains block.hash then (p, false)
  else if maxPendingPerAuthor ≤ (p.perAuthor.lookup block.author).getD 0 then
    ({ p with refusedPerAuthor := p.refusedPerAuthor + 1 }, false)
  else
    ((makeRoom p.len p).insertHeld block transactions missing now, true)

/-- `sort_by_key(|(block, _)| block.round)`. -/
def byRound (entries : List PendingEntry) : List PendingEntry :=
  entries.mergeSort fun a b => decide (a.1.round ≤ b.1.round)

/-- Write back a held block (`self.held.get_mut(..)`). -/
def setHeld (p : PendingBlocks) (hash : Hash256) (held : Held) : PendingBlocks :=
  { p with held := p.held.set hash (some held) }

/-- One turn of `release_on`: the child no longer misses `parent`, and leaves the area
    when it misses nothing else. -/
def releaseChild (p : PendingBlocks) (parent child : Hash256) :
    PendingBlocks × Option PendingEntry :=
  match p.held.lookup child with
  | none => (p, none)
  | some held =>
    let held := held.without parent
    let p := p.setHeld child held
    if held.missing = ∅ then
      let (p, removed) := p.remove child
      (p, removed.map Held.entry)
    else (p, none)

def releaseChildren (p : PendingBlocks) (parent : Hash256) :
    List Hash256 → PendingBlocks × List PendingEntry
  | [] => (p, [])
  | child :: rest =>
    let (p, ready) := p.releaseChild parent child
    let (p, entries) := p.releaseChildren parent rest
    (p, ready.toList ++ entries)

def releaseOn (p : PendingBlocks) (parent : Hash256) (walk : Walk) :
    PendingBlocks × List PendingEntry :=
  match p.waitingOn.lookup parent with
  | none => (p, [])
  | some children =>
    let (p, ready) :=
      { p with waitingOn := p.waitingOn.set parent none }.releaseChildren parent
        (walk.list children)
    (p, byRound ready)

def releaseUpToRound (p : PendingBlocks) (currentRound : Nat) (walk : Walk) :
    PendingBlocks × List PendingEntry :=
  let reachable := (walk.list p.held.keys).filter fun hash =>
    match p.held.lookup hash with
    | none => false
    | some held => held.missing = ∅ ∧ held.block.round ≤ saturatingAdd currentRound 1
  let (p, out) := p.removeAll reachable
  (p, byRound out)

def drainAll (p : PendingBlocks) (walk : Walk) : PendingBlocks × List PendingEntry :=
  let (p, out) := p.removeAll (walk.list p.held.keys)
  (p, byRound out)

/-- The blocks `expire` drops: from the oldest on, those that waited too long. -/
def stale (p : PendingBlocks) (now : Nat) : List Hash256 :=
  (p.order.sort.takeWhile fun key => decide (maxPendingAge < now - (ofLex key).1)).map
    fun key => (ofLex key).2

def expire (p : PendingBlocks) (now : Nat) : PendingBlocks × Nat :=
  let stale := p.stale now
  let p := (p.removeAll stale).1
  ({ p with evictedExpired := p.evictedExpired + stale.length }, stale.length)

/-! ## Agreement of the indexes -/

/-- The held block `hash` still misses `parent`. -/
def Waits (p : PendingBlocks) (hash parent : Hash256) : Prop :=
  ∃ held, p.held.lookup hash = some held ∧ parent ∈ held.missing

/-- The index lists `hash` among the waiters of `parent`. -/
def Lists (p : PendingBlocks) (parent hash : Hash256) : Prop :=
  ∃ waiters, p.waitingOn.lookup parent = some waiters ∧ hash ∈ waiters

/-- How many blocks of an author are held. -/
def authored (p : PendingBlocks) (author : Address) : Nat :=
  p.held.total fun held => if held.block.author = author then 1 else 0

/-- The held blocks with their transactions. -/
def entries (p : PendingBlocks) : Multiset PendingEntry := p.held.entries.map fun e => e.2.entry

/-- Every index is the function of the held blocks it should be, except that the
    children `todo` of `parent` are no longer listed although they still miss it. -/
structure AgreeBut (p : PendingBlocks) (parent : Hash256) (todo : List Hash256) : Prop where
  keyed : ∀ hash held, p.held.lookup hash = some held → held.block.hash = hash
  order : ∀ since hash, toLex (since, hash) ∈ p.order ↔
    ∃ held, p.held.lookup hash = some held ∧ held.since = since
  perAuthor : ∀ author, p.perAuthor.lookup author =
    if p.authored author = 0 then none else some (p.authored author)
  nonempty : ∀ par waiters, p.waitingOn.lookup par = some waiters → waiters ≠ ∅
  waiting : ∀ par hash, p.Waits hash par ↔ p.Lists par hash ∨ par = parent ∧ hash ∈ todo
  apart : ∀ hash ∈ todo, ¬ p.Lists parent hash

/-- Between calls nothing is left to walk. -/
abbrev Agree (p : PendingBlocks) : Prop := p.AgreeBut Hash256.zero []

section Lookups

variable (p : PendingBlocks) (hash : Hash256)

theorem count_entries (entry : PendingEntry) :
    p.entries.count entry = p.held.total fun held => if held.entry = entry then 1 else 0 :=
  count_map_entries Held.entry p.held entry

theorem authored_eq_countP (author : Address) :
    p.authored author = p.entries.countP fun entry => entry.1.author = author := by
  rw [authored, FinMap.total, entries, countP_map]
  induction p.held.entries using Multiset.induction_on with
  | empty => rfl
  | cons e s ih =>
    rw [map_cons, sum_cons, ih, filter_cons, card_add]
    by_cases h : e.2.block.author = author <;> simp [Held.entry, h]

/-- What the area holds after a new value for one hash. -/
theorem entries_set (new : Option Held) :
    ({ p with held := p.held.set hash new }).entries +
        ((p.held.lookup hash).map Held.entry).toList =
      p.entries + (new.map Held.entry).toList := by
  ext entry
  have hcount : ∀ o : Option Held, Multiset.count entry (o.map Held.entry).toList =
      o.elim 0 fun h => if h.entry = entry then 1 else 0 := by
    intro o
    cases o with
    | none => rfl
    | some held => simp [count_singleton, eq_comm]
  rw [count_add, count_add, count_entries, count_entries, hcount, hcount]
  exact total_set _ _ _ _

theorem remove_held : (p.remove hash).1.held = p.held.set hash none := by
  unfold remove
  split
  · next hnone => exact ((set_eq_self_iff _ _ _).mpr hnone).symm
  · rfl

theorem remove_snd : (p.remove hash).2 = p.held.lookup hash := by
  unfold remove
  split
  · next hnone => exact hnone.symm
  · next held hsome => exact hsome.symm

end Lookups

/-! ## Removing -/

section Remove

variable {p : PendingBlocks} {parent hash : Hash256} {todo : List Hash256} {held : Held}

theorem lookup_forgetAuthor (perAuthor : FinMap Address Nat) (author a : Address) :
    (forgetAuthor perAuthor author).lookup a =
      if a = author then
        match perAuthor.lookup author with
        | none => none
        | some count => if count - 1 = 0 then none else some (count - 1)
      else perAuthor.lookup a := by
  unfold forgetAuthor
  cases hcount : perAuthor.lookup author with
  | none =>
    by_cases ha : a = author
    · rw [if_pos ha, ha, hcount]
    · rw [if_neg ha]
  | some count =>
    by_cases hzero : count - 1 = 0
    · simp only [hzero, if_true, lookup_set]
    · simp only [hzero, if_false, lookup_set]

/-- A removed block no longer counts for its author. -/
theorem authored_remove (hheld : p.held.lookup hash = some held) (author : Address) :
    (p.remove hash).1.authored author + (if held.block.author = author then 1 else 0) =
      p.authored author := by
  have hset := total_set (fun h : Held => if h.block.author = author then 1 else 0) p.held hash none
  rw [authored, authored, remove_held]
  simpa [FinMap.weightAt, hheld] using hset

theorem lists_unlisted {waitingOn : FinMap Hash256 (Finset Hash256)} {missing : Finset Hash256}
    {par h : Hash256} :
    (∃ waiters, (waitingOn.alterAll (unlisted hash) missing).lookup par = some waiters ∧
        h ∈ waiters) ↔
      (∃ waiters, waitingOn.lookup par = some waiters ∧ h ∈ waiters) ∧
        (par ∈ missing → h ≠ hash) := by
  rw [lookup_alterAll]
  by_cases hpar : par ∈ missing
  · rw [if_pos hpar]
    cases hlook : waitingOn.lookup par with
    | none => simp [unlisted]
    | some waiters =>
      by_cases hempty : waiters.erase hash = ∅
      · -- the set is dropped: `hash` was its only member
        have honly : ∀ x ∈ waiters, x = hash := by
          intro x hx
          by_contra hne
          have hmem : x ∈ waiters.erase hash := Finset.mem_erase.mpr ⟨hne, hx⟩
          rw [hempty] at hmem
          exact absurd hmem (Finset.notMem_empty x)
        simp only [unlisted, hempty, if_true, reduceCtorEq, false_and, exists_false,
          some.injEq, exists_eq_left', false_iff, not_and]
        intro hmem hne
        exact hne hpar (honly h hmem)
      · simp [unlisted, hempty, hpar, and_comm]
  · simp [hpar]

/-- Taking out a block that is not among the children to walk keeps the indexes in
    step. -/
theorem AgreeBut.remove (h : p.AgreeBut parent todo) (hfree : hash ∉ todo) :
    (p.remove hash).1.AgreeBut parent todo := by
  cases hheld : p.held.lookup hash with
  | none =>
    have hsame : p.remove hash = (p, none) := by simp [PendingBlocks.remove, hheld]
    rw [hsame]
    exact h
  | some held =>
    have hlook : ∀ k, (p.remove hash).1.held.lookup k =
        if k = hash then none else p.held.lookup k := by
      intro k
      rw [remove_held, lookup_set]
    have hstate : (p.remove hash).1 =
        { p with
          held := p.held.set hash none
          order := p.order.erase (toLex (held.since, hash))
          perAuthor := forgetAuthor p.perAuthor held.block.author
          waitingOn := p.waitingOn.alterAll (unlisted hash) held.missing } := by
      simp [PendingBlocks.remove, hheld]
    have hwaits : ∀ k par, (p.remove hash).1.Waits k par ↔ k ≠ hash ∧ p.Waits k par := by
      intro k par
      simp only [Waits, hlook]
      by_cases hk : k = hash <;> simp [hk]
    have hlists : ∀ par k, (p.remove hash).1.Lists par k ↔
        p.Lists par k ∧ (par ∈ held.missing → k ≠ hash) := by
      intro par k
      rw [hstate]
      exact lists_unlisted
    refine ⟨?_, ?_, ?_, ?_, ?_, ?_⟩
    · intro k held' hk
      rw [hlook] at hk
      by_cases heq : k = hash
      · rw [if_pos heq] at hk
        cases hk
      · rw [if_neg heq] at hk
        exact h.keyed k held' hk
    · intro since k
      have hold := h.order since k
      rw [hstate]
      show toLex (since, k) ∈ p.order.erase (toLex (held.since, hash)) ↔
        ∃ held', (p.held.set hash none).lookup k = some held' ∧ held'.since = since
      rw [Finset.mem_erase, hold, lookup_set]
      by_cases hk : k = hash
      · subst hk
        simp only [hheld, some.injEq, exists_eq_left', if_true, reduceCtorEq, false_and,
          exists_false, iff_false, not_and]
        intro hne heq
        exact hne (by rw [heq])
      · simp only [if_neg hk]
        have hne : toLex (since, k) ≠ toLex (held.since, hash) := by
          intro heq
          exact hk (congrArg Prod.snd (toLex.injective heq))
        simp [hne]
    · intro author
      have hcount := authored_remove hheld author
      have hbefore := h.perAuthor author
      rw [hstate]
      show (forgetAuthor p.perAuthor held.block.author).lookup author = _
      rw [← hstate, lookup_forgetAuthor]
      by_cases hauthor : author = held.block.author
      · subst hauthor
        rw [if_pos rfl] at hcount ⊢
        rw [hbefore, if_neg (by omega)]
        have hless : p.authored held.block.author - 1 =
            (p.remove hash).1.authored held.block.author := by omega
        simp only [hless]
      · rw [if_neg (Ne.symm hauthor)] at hcount
        rw [if_neg hauthor, hbefore, ← hcount, add_zero]
    · intro par waiters hpar
      rw [hstate] at hpar
      rw [lookup_alterAll] at hpar
      split at hpar
      · cases hold : p.waitingOn.lookup par with
        | none =>
          rw [hold] at hpar
          cases hpar
        | some old =>
          rw [hold, unlisted] at hpar
          split at hpar
          · cases hpar
          · next hne => exact some.inj hpar ▸ hne
      · exact h.nonempty par waiters hpar
    · intro par k
      rw [hwaits, hlists, h.waiting]
      by_cases hk : k = hash
      · -- the removed block is listed only where it waited
        subst hk
        simp only [ne_eq, not_true, false_and, imp_false, false_iff, not_or, not_and, not_not,
          hfree, and_false, not_false_iff, and_true]
        intro hlist
        obtain ⟨held', hlook', hmem⟩ := (h.waiting par k).mpr (Or.inl hlist)
        rw [hheld] at hlook'
        exact some.inj hlook' ▸ hmem
      · simp [hk]
    · intro k hk hlist
      exact h.apart k hk ((hlists parent k).mp hlist).1

/-- What leaves with a removal is what the area held. -/
theorem remove_entries (p : PendingBlocks) (hash : Hash256) :
    (p.remove hash).1.entries + ((p.remove hash).2.map Held.entry).toList = p.entries := by
  rw [entries, remove_held, remove_snd]
  exact (entries_set p hash none).trans (add_zero _)

theorem remove_counters (p : PendingBlocks) (hash : Hash256) :
    (p.remove hash).1.evictedFull = p.evictedFull ∧
      (p.remove hash).1.evictedExpired = p.evictedExpired := by
  unfold PendingBlocks.remove
  split <;> exact ⟨rfl, rfl⟩

end Remove

/-! ## What leaves the area -/

/-- From `p` to `q` exactly the blocks `out` left, none came, and a block that stayed
    lost at most the missing parents in `released`. -/
structure Sheds (released : Hash256 → Prop) (p q : PendingBlocks)
    (out : Multiset PendingEntry) : Prop where
  entries : q.entries + out = p.entries
  stays : ∀ hash held', q.held.lookup hash = some held' →
    ∃ held, p.held.lookup hash = some held ∧ held'.entry = held.entry ∧
      ∀ m ∈ held.missing, m ∈ held'.missing ∨ released m

section Sheds

variable {p q r : PendingBlocks} {released : Hash256 → Prop} {out out' : Multiset PendingEntry}

theorem Sheds.refl (released : Hash256 → Prop) (p : PendingBlocks) : Sheds released p p 0 where
  entries := by rw [add_zero]
  stays _ held hheld := ⟨held, hheld, rfl, fun _ hm => Or.inl hm⟩

theorem Sheds.trans (h : Sheds released p q out) (h' : Sheds released q r out') :
    Sheds released p r (out + out') where
  entries := by
    rw [← h.entries, ← h'.entries, add_assoc, add_comm out]
  stays hash held'' hheld := by
    obtain ⟨held', hheld', hentry, hmissing⟩ := h'.stays hash held'' hheld
    obtain ⟨held, hheld, hentry', hmissing'⟩ := h.stays hash held' hheld'
    refine ⟨held, hheld, hentry.trans hentry', fun m hm => ?_⟩
    rcases hmissing' m hm with hm | hm
    · exact hmissing m hm
    · exact Or.inr hm

theorem remove_sheds (released : Hash256 → Prop) (p : PendingBlocks) (hash : Hash256) :
    Sheds released p (p.remove hash).1 ((p.remove hash).2.map Held.entry).toList where
  entries := remove_entries p hash
  stays k held hheld := by
    rw [remove_held, lookup_set] at hheld
    split at hheld
    · cases hheld
    · exact ⟨held, hheld, rfl, fun _ hm => Or.inl hm⟩

/-- The length of the area is the number of its entries. -/
theorem len_eq_card (p : PendingBlocks) : p.len = p.entries.card := by
  rw [len, entries, card_map]

theorem Sheds.len_le (h : Sheds released p q out) : q.len + out.card = p.len := by
  rw [len_eq_card, len_eq_card, ← h.entries, card_add]

theorem Sheds.authored_le (h : Sheds released p q out) (author : Address) :
    q.authored author ≤ p.authored author := by
  rw [authored_eq_countP, authored_eq_countP, ← h.entries, countP_add]
  exact Nat.le_add_right _ _

end Sheds

section RemoveAll

variable {p : PendingBlocks} {parent : Hash256}

theorem removeAll_agree (h : p.AgreeBut parent []) (hashes : List Hash256) :
    (p.removeAll hashes).1.AgreeBut parent [] := by
  induction hashes generalizing p with
  | nil => exact h
  | cons hash rest ih => exact ih (h.remove (List.not_mem_nil))

theorem removeAll_sheds (released : Hash256 → Prop) (p : PendingBlocks) (hashes : List Hash256) :
    Sheds released p (p.removeAll hashes).1 (p.removeAll hashes).2 := by
  induction hashes generalizing p with
  | nil => exact Sheds.refl released p
  | cons hash rest ih =>
    show Sheds released p ((p.remove hash).1.removeAll rest).1
      ↑(((p.remove hash).2.map Held.entry).toList ++ ((p.remove hash).1.removeAll rest).2)
    exact (remove_sheds released p hash).trans (ih _)

theorem removeAll_counters (p : PendingBlocks) (hashes : List Hash256) :
    (p.removeAll hashes).1.evictedFull = p.evictedFull ∧
      (p.removeAll hashes).1.evictedExpired = p.evictedExpired := by
  induction hashes generalizing p with
  | nil => exact ⟨rfl, rfl⟩
  | cons hash rest ih =>
    obtain ⟨hfull, hexpired⟩ := ih (p.remove hash).1
    obtain ⟨hfull', hexpired'⟩ := remove_counters p hash
    exact ⟨hfull.trans hfull', hexpired.trans hexpired'⟩

/-- Distinct held blocks are all removed. -/
theorem length_removeAll {hashes : List Hash256} (hnodup : hashes.Nodup)
    (hheld : ∀ hash ∈ hashes, (p.held.lookup hash).isSome) :
    (p.removeAll hashes).2.length = hashes.length := by
  induction hashes generalizing p with
  | nil => rfl
  | cons hash rest ih =>
    obtain ⟨hfirst, hrest⟩ := List.nodup_cons.mp hnodup
    have hlater : ∀ k ∈ rest, ((p.remove hash).1.held.lookup k).isSome := by
      intro k hk
      have hne : k ≠ hash := by
        rintro rfl
        exact hfirst hk
      rw [remove_held, lookup_set_of_ne _ _ hne]
      exact hheld k (List.mem_cons_of_mem _ hk)
    obtain ⟨held, hhead⟩ := isSome_iff_exists.mp (hheld hash List.mem_cons_self)
    show (((p.remove hash).2.map Held.entry).toList ++
      ((p.remove hash).1.removeAll rest).2).length = _
    rw [List.length_append, ih hrest hlater, remove_snd, hhead]
    simp [add_comm]

theorem coe_byRound (entries : List PendingEntry) :
    (byRound entries : Multiset PendingEntry) = entries :=
  coe_eq_coe.mpr (List.mergeSort_perm _ _)

end RemoveAll

/-! ## Holding -/

section Hold

variable {p : PendingBlocks}

/-- With nothing left to walk, the parent named does not matter. -/
theorem AgreeBut.agree {parent parent' : Hash256} (h : p.AgreeBut parent []) :
    p.AgreeBut parent' [] where
  keyed := h.keyed
  order := h.order
  perAuthor := h.perAuthor
  nonempty := h.nonempty
  waiting par hash := by
    rw [h.waiting]
    simp
  apart hash hmem := by cases hmem

/-- No index depends on the counters. -/
theorem Agree.counters (h : p.Agree) (full expired refused : Nat) : ({ p with
      evictedFull := full
      evictedExpired := expired
      refusedPerAuthor := refused }).Agree :=
  ⟨h.keyed, h.order, h.perAuthor, h.nonempty, h.waiting, h.apart⟩

theorem exists_held (h : 0 < p.len) : ∃ hash held, p.held.lookup hash = some held := by
  obtain ⟨e, he⟩ := card_pos_iff_exists_mem.mp h
  exact ⟨e.1, e.2, Finmap.lookup_eq_some_iff.mpr he⟩

/-- The arrival order lists held blocks only, and every one of them. -/
theorem Agree.oldest_held (h : p.Agree) {key : Nat ×ₗ Hash256} (hkey : key ∈ p.order) :
    ∃ held, p.held.lookup (ofLex key).2 = some held := by
  obtain ⟨held, hheld, -⟩ := (h.order (ofLex key).1 (ofLex key).2).mp hkey
  exact ⟨held, hheld⟩

/-- The eviction loop ends with room for one more; every block it dropped is counted. -/
theorem makeRoom_spec (h : p.Agree) {turns : Nat} (hturns : p.len < maxPendingBlocks + turns) :
    ∃ out, Sheds (fun _ => False) p (makeRoom turns p) out ∧ (makeRoom turns p).Agree ∧
      (makeRoom turns p).evictedFull = p.evictedFull + out.card ∧
      (makeRoom turns p).evictedExpired = p.evictedExpired ∧
      (makeRoom turns p).len < maxPendingBlocks := by
  induction turns generalizing p with
  | zero => exact ⟨0, Sheds.refl _ p, h, rfl, rfl, hturns⟩
  | succ turns ih =>
    unfold makeRoom
    by_cases hfull : maxPendingBlocks ≤ p.len
    · rw [if_pos hfull]
      cases hhead : p.order.sort.head? with
      | none =>
        -- a full area has an oldest block
        have hpos : 0 < p.len := lt_of_lt_of_le (by decide) hfull
        obtain ⟨hash, held, hheld⟩ := exists_held hpos
        have hmem : toLex (held.since, hash) ∈ p.order.sort :=
          (Finset.mem_sort _).mpr ((h.order _ _).mpr ⟨held, hheld, rfl⟩)
        rw [List.head?_eq_none_iff.mp hhead] at hmem
        cases hmem
      | some oldest =>
        have hmem : oldest ∈ p.order :=
          (Finset.mem_sort _).mp (List.mem_of_mem_head? (by rw [hhead]; rfl))
        obtain ⟨held, hheld⟩ := h.oldest_held hmem
        have hsheds := remove_sheds (fun _ => False) p (ofLex oldest).2
        rw [remove_snd, hheld] at hsheds
        have hagree : (p.remove (ofLex oldest).2).1.countEvicted.Agree :=
          Agree.counters (AgreeBut.remove h List.not_mem_nil) _ _ _
        obtain ⟨hcfull, hcexpired⟩ := remove_counters p (ofLex oldest).2
        have hlen := hsheds.len_le
        simp only [map_some, toList_some, coe_card, List.length_singleton] at hlen
        obtain ⟨out, hout, hagree', hcfull', hcexpired', hroom⟩ := ih hagree
            (show (p.remove (ofLex oldest).2).1.len < maxPendingBlocks + turns by omega)
        have hone : (p.remove (ofLex oldest).2).1.countEvicted.evictedFull =
            p.evictedFull + 1 := congrArg (· + 1) hcfull
        refine ⟨([held.entry] : List PendingEntry) + out,
          hsheds.trans ⟨hout.entries, hout.stays⟩, hagree', ?_, hcexpired'.trans hcexpired, hroom⟩
        rw [hcfull', card_add, coe_card, List.length_singleton]
        omega
    · rw [if_neg hfull]
      exact ⟨0, Sheds.refl _ p, h, rfl, rfl, Nat.lt_of_not_le hfull⟩

variable {block : DagBlock} {transactions : List Transaction} {missing : List Hash256} {now : Nat}

theorem insertHeld_lookup (k : Hash256) :
    (p.insertHeld block transactions missing now).held.lookup k =
      if k = block.hash then
        some { block, transactions, missing := missing.toFinset, since := now }
      else p.held.lookup k :=
  lookup_set _ _ _ _

theorem insertHeld_entries (hnew : p.held.lookup block.hash = none) :
    (p.insertHeld block transactions missing now).entries =
      p.entries + {(block, transactions)} := by
  have hset := entries_set p block.hash
    (some { block, transactions, missing := missing.toFinset, since := now })
  rw [hnew] at hset
  exact (add_zero _).symm.trans hset

theorem insertHeld_authored (hnew : p.held.lookup block.hash = none) (author : Address) :
    (p.insertHeld block transactions missing now).authored author =
      p.authored author + if block.author = author then 1 else 0 := by
  rw [authored_eq_countP, authored_eq_countP, insertHeld_entries hnew]
  by_cases hauthor : block.author = author
  · simp [hauthor, countP_eq_card_filter, filter_singleton]
  · simp [hauthor, countP_eq_card_filter]

theorem lists_enlisted {waitingOn : FinMap Hash256 (Finset Hash256)} {missing : Finset Hash256}
    {hash par h : Hash256} :
    (∃ waiters, (waitingOn.alterAll (enlisted hash) missing).lookup par = some waiters ∧
        h ∈ waiters) ↔
      (∃ waiters, waitingOn.lookup par = some waiters ∧ h ∈ waiters) ∨
        (par ∈ missing ∧ h = hash) := by
  rw [lookup_alterAll]
  by_cases hpar : par ∈ missing
  · cases waitingOn.lookup par with
    | none => simp [enlisted, hpar]
    | some waiters => simp [enlisted, hpar, or_comm]
  · simp [hpar]

/-- Adding a new block keeps the indexes in step. -/
theorem Agree.insertHeld (h : p.Agree) (hnew : p.held.lookup block.hash = none) :
    (p.insertHeld block transactions missing now).Agree := by
  have hwaits : ∀ k par, (p.insertHeld block transactions missing now).Waits k par ↔
      p.Waits k par ∨ (par ∈ missing ∧ k = block.hash) := by
    intro k par
    simp only [Waits, insertHeld_lookup]
    by_cases hk : k = block.hash
    · subst hk
      simp [hnew]
    · simp [hk]
  refine ⟨?_, ?_, ?_, ?_, ?_, ?_⟩
  · intro k held hk
    rw [insertHeld_lookup] at hk
    split at hk
    · next heq =>
        obtain rfl := some.inj hk
        exact heq.symm
    · exact h.keyed k held hk
  · intro since k
    show toLex (since, k) ∈ insert (toLex (now, block.hash)) p.order ↔ _
    rw [Finset.mem_insert, h.order]
    simp only [insertHeld_lookup]
    by_cases hk : k = block.hash
    · subst hk
      simp [hnew, eq_comm]
    · simp [hk]
  · intro author
    have hbefore := h.perAuthor author
    show (p.perAuthor.set block.author _).lookup author = _
    rw [lookup_set, insertHeld_authored hnew]
    by_cases hauthor : author = block.author
    · subst hauthor
      rw [hbefore]
      by_cases hzero : p.authored block.author = 0 <;> simp [hzero]
    · rw [if_neg hauthor, if_neg (Ne.symm hauthor), add_zero, hbefore]
  · intro par waiters hpar
    change (p.waitingOn.alterAll (enlisted block.hash) missing.toFinset).lookup par = _ at hpar
    rw [lookup_alterAll] at hpar
    split at hpar
    · exact some.inj hpar ▸ Finset.insert_ne_empty _ _
    · exact h.nonempty par waiters hpar
  · intro par k
    have hlists : (p.insertHeld block transactions missing now).Lists par k ↔
        p.Lists par k ∨ (par ∈ missing.toFinset ∧ k = block.hash) := lists_enlisted
    rw [hwaits, hlists, h.waiting]
    simp
  · intro k hk
    cases hk

end Hold

/-! ## Releasing -/

section Release

variable {p : PendingBlocks} {parent child : Hash256} {rest : List Hash256} {held : Held}

theorem unmiss_entries (hheld : p.held.lookup child = some held) :
    (p.setHeld child (held.without parent)).entries = p.entries := by
  have hset := entries_set p child (some (held.without parent))
  rw [hheld] at hset
  exact add_right_cancel hset

/-- A child that no longer misses the walked parent is walked. -/
theorem AgreeBut.unmiss (h : p.AgreeBut parent (child :: rest)) (hrest : child ∉ rest)
    (hheld : p.held.lookup child = some held) :
    (p.setHeld child (held.without parent)).AgreeBut parent rest := by
  have hlook : ∀ k, (p.setHeld child (held.without parent)).held.lookup k =
      if k = child then some (held.without parent) else p.held.lookup k :=
    fun k => lookup_set _ _ _ _
  refine ⟨?_, ?_, ?_, h.nonempty, ?_, fun k hk => h.apart k (List.mem_cons_of_mem _ hk)⟩
  · intro k held' hk
    rw [hlook] at hk
    split at hk
    · next heq =>
        obtain rfl := some.inj hk
        exact (h.keyed child held hheld).trans heq.symm
    · exact h.keyed k held' hk
  · intro since k
    show toLex (since, k) ∈ p.order ↔ _
    rw [h.order]
    simp only [hlook]
    by_cases hk : k = child
    · subst hk
      simp [hheld, Held.without]
    · simp [hk]
  · intro author
    rw [authored_eq_countP, unmiss_entries hheld, ← authored_eq_countP]
    exact h.perAuthor author
  · intro par k
    have hwaiting := h.waiting par k
    simp only [Waits, hlook] at hwaiting ⊢
    show _ ↔ p.Lists par k ∨ _
    by_cases hk : k = child
    · subst hk
      simp only [hheld, some.injEq, exists_eq_left'] at hwaiting
      simp only [Held.without, hrest]
      by_cases hpar : par = parent
      · have hapart := h.apart k List.mem_cons_self
        subst hpar
        simp [hapart]
      · simp [hpar, hwaiting]
    · simp only [List.mem_cons, hk, false_or] at hwaiting ⊢
      exact hwaiting

theorem unmiss_sheds (hheld : p.held.lookup child = some held) :
    Sheds (· = parent) p (p.setHeld child (held.without parent)) 0 where
  entries := by
    rw [add_zero, unmiss_entries hheld]
  stays k held' hk := by
    rw [setHeld, lookup_set] at hk
    split at hk
    · next heq =>
        obtain rfl := some.inj hk
        refine ⟨held, heq ▸ hheld, rfl, fun m hm => ?_⟩
        by_cases hmp : m = parent
        · exact Or.inr hmp
        · exact Or.inl (Finset.mem_erase.mpr ⟨hmp, hm⟩)
    · exact ⟨held', hk, rfl, fun m hm => Or.inl hm⟩

/-- What walking one child does: the child is dealt with, and it leaves the area only if
    it missed nothing but the parent. -/
structure Walked (parent : Hash256) (todo : List Hash256) (p q : PendingBlocks)
    (out : List PendingEntry) : Prop where
  agree : q.AgreeBut parent todo
  sheds : Sheds (· = parent) p q out
  counters : q.evictedFull = p.evictedFull ∧ q.evictedExpired = p.evictedExpired
  ready : ∀ entry ∈ out, ∃ held, p.held.lookup entry.1.hash = some held ∧ held.entry = entry ∧
    ∀ m ∈ held.missing, m = parent

theorem releaseChild_walked (h : p.AgreeBut parent (child :: rest)) (hrest : child ∉ rest) :
    Walked parent rest p (p.releaseChild parent child).1
      (p.releaseChild parent child).2.toList := by
  -- a child to walk is held: it still misses the parent
  obtain ⟨held, hheld, -⟩ := (h.waiting parent child).mpr (Or.inr ⟨rfl, List.mem_cons_self⟩)
  have hagree := h.unmiss hrest hheld
  have hsheds : Sheds (· = parent) p _ 0 := unmiss_sheds hheld
  unfold releaseChild
  simp only [hheld]
  by_cases hready : (held.without parent).missing = ∅
  · rw [if_pos hready]
    have hremoved : ((p.setHeld child (held.without parent)).remove child).2 =
        some (held.without parent) := by
      rw [remove_snd, setHeld, lookup_set_self]
    have hremove := remove_sheds (· = parent) (p.setHeld child (held.without parent)) child
    refine ⟨hagree.remove hrest, ?_, remove_counters _ _, ?_⟩
    · have hall := hsheds.trans hremove
      exact hall
    · intro entry hentry
      rw [hremoved] at hentry
      obtain rfl : entry = held.entry := by simpa [Held.entry, Held.without] using hentry
      refine ⟨held, (h.keyed child held hheld).symm ▸ hheld, rfl, fun m hm => ?_⟩
      by_contra hne
      have hmem : m ∈ (held.without parent).missing := Finset.mem_erase.mpr ⟨hne, hm⟩
      rw [hready] at hmem
      exact absurd hmem (Finset.notMem_empty m)
  · rw [if_neg hready]
    exact ⟨hagree, hsheds, ⟨rfl, rfl⟩, fun entry hentry => by cases hentry⟩

theorem releaseChildren_walked {todo : List Hash256} (h : p.AgreeBut parent todo)
    (hnodup : todo.Nodup) :
    Walked parent [] p (p.releaseChildren parent todo).1 (p.releaseChildren parent todo).2 := by
  induction todo generalizing p with
  | nil => exact ⟨h, Sheds.refl _ p, ⟨rfl, rfl⟩, fun entry hentry => by cases hentry⟩
  | cons child rest ih =>
    obtain ⟨hfirst, hrest⟩ := List.nodup_cons.mp hnodup
    have hchild := releaseChild_walked h hfirst
    have hwalk := ih hchild.agree hrest
    show Walked parent [] p ((p.releaseChild parent child).1.releaseChildren parent rest).1
      ((p.releaseChild parent child).2.toList ++
        ((p.releaseChild parent child).1.releaseChildren parent rest).2)
    refine ⟨hwalk.agree, ?_, ⟨hwalk.counters.1.trans hchild.counters.1,
      hwalk.counters.2.trans hchild.counters.2⟩, ?_⟩
    · exact hchild.sheds.trans hwalk.sheds
    · intro entry hentry
      rcases List.mem_append.mp hentry with hentry | hentry
      · exact hchild.ready entry hentry
      · obtain ⟨held', hheld', hentry', hmissing⟩ := hwalk.ready entry hentry
        obtain ⟨held, hheld, hsame, hlost⟩ := hchild.sheds.stays _ held' hheld'
        refine ⟨held, hheld, hsame.symm.trans hentry', fun m hm => ?_⟩
        rcases hlost m hm with hm' | hm'
        · exact hmissing m hm'
        · exact hm'

/-- Taking the children of a parent out of the index leaves them to be walked. -/
theorem Agree.detach (h : p.Agree) {children : Finset Hash256}
    (hchildren : p.waitingOn.lookup parent = some children) {todo : List Hash256}
    (htodo : ∀ hash, hash ∈ todo ↔ hash ∈ children) :
    ({ p with waitingOn := p.waitingOn.set parent none }).AgreeBut parent todo := by
  have hlists : ∀ par k, ({ p with waitingOn := p.waitingOn.set parent none }).Lists par k ↔
      par ≠ parent ∧ p.Lists par k := by
    intro par k
    simp only [Lists, lookup_set]
    by_cases hpar : par = parent <;> simp [hpar]
  refine ⟨h.keyed, h.order, h.perAuthor, ?_, ?_, fun k _ hlist => ((hlists _ _).mp hlist).1 rfl⟩
  · intro par waiters hpar
    rw [lookup_set] at hpar
    split at hpar
    · cases hpar
    · exact h.nonempty par waiters hpar
  · intro par k
    have hwaiting := h.waiting par k
    rw [hlists]
    show p.Waits k par ↔ _
    rw [hwaiting]
    by_cases hpar : par = parent
    · subst hpar
      simp [Lists, hchildren, htodo]
    · simp [hpar]

theorem releaseOn_walked (h : p.Agree) (parent : Hash256) (walk : Walk) :
    Walked parent [] p (p.releaseOn parent walk).1 (p.releaseOn parent walk).2 := by
  unfold releaseOn
  cases hchildren : p.waitingOn.lookup parent with
  | none =>
    exact ⟨h.agree, Sheds.refl _ p, ⟨rfl, rfl⟩, fun entry hentry => by cases hentry⟩
  | some children =>
    have hwalk := releaseChildren_walked (h.detach hchildren (walk.mem children))
      (walk.nodup children)
    refine ⟨hwalk.agree, ?_, hwalk.counters, ?_⟩
    · show Sheds (· = parent) p _ ↑(byRound _)
      rw [coe_byRound]
      exact ⟨hwalk.sheds.entries, hwalk.sheds.stays⟩
    · intro entry hentry
      exact hwalk.ready entry ((List.mergeSort_perm _ _).mem_iff.mp hentry)

end Release

/-! ## Runs -/

/-- The calls a node makes. -/
inductive Call where
  | hold (block : DagBlock) (transactions : List Transaction) (missing : List Hash256) (now : Nat)
  | releaseOn (parent : Hash256) (walk : Walk)
  | releaseUpToRound (currentRound : Nat) (walk : Walk)
  | drainAll (walk : Walk)
  | expire (now : Nat)

/-- What a call returns. -/
inductive Reply where
  | held (accepted : Bool)
  | released (entries : List PendingEntry)
  | expired (count : Nat)

def perform (p : PendingBlocks) : Call → PendingBlocks × Reply
  | .hold block transactions missing now =>
    let (p, accepted) := p.hold block transactions missing now
    (p, .held accepted)
  | .releaseOn parent walk =>
    let (p, entries) := p.releaseOn parent walk
    (p, .released entries)
  | .releaseUpToRound currentRound walk =>
    let (p, entries) := p.releaseUpToRound currentRound walk
    (p, .released entries)
  | .drainAll walk =>
    let (p, entries) := p.drainAll walk
    (p, .released entries)
  | .expire now =>
    let (p, count) := p.expire now
    (p, .expired count)

/-- The area after a sequence of calls on a new one. -/
def after (calls : List Call) : PendingBlocks := calls.foldl (fun p call => (p.perform call).1) new

/-- The block a call put into the area. -/
def accepted : Call → Reply → Multiset PendingEntry
  | .hold block transactions _ _, .held true => {(block, transactions)}
  | _, _ => 0

/-- The blocks a call gave back. -/
def returned : Reply → Multiset PendingEntry
  | .released entries => entries
  | _ => 0

/-- All blocks for which `hold` returned true, call by call. -/
def acceptedFrom (p : PendingBlocks) : List Call → Multiset PendingEntry
  | [] => 0
  | call :: rest => accepted call (p.perform call).2 + (p.perform call).1.acceptedFrom rest

/-- All blocks a release or drain gave back, call by call. -/
def returnedFrom (p : PendingBlocks) : List Call → Multiset PendingEntry
  | [] => 0
  | call :: rest => returned (p.perform call).2 + (p.perform call).1.returnedFrom rest

/-- The four indexes agree, and the area is bounded in all and for each author. -/
structure Consistent (p : PendingBlocks) : Prop where
  agree : p.Agree
  room : p.len ≤ maxPendingBlocks
  perAuthorRoom : ∀ author, p.authored author ≤ maxPendingPerAuthor

/-- The parents a call releases. -/
def Releases (call : Call) (parent : Hash256) : Prop := ∃ walk, call = .releaseOn parent walk

section Step

variable {p : PendingBlocks}

theorem new_consistent : new.Consistent where
  agree :=
    { keyed := fun hash held h => by simp [new] at h
      order := fun since hash => by simp [new]
      perAuthor := fun author => by
        exact Finmap.lookup_empty author
      nonempty := fun par waiters h => by simp [new] at h
      waiting := fun par hash => by simp [new, Waits, Lists]
      apart := fun hash hmem => by cases hmem }
  room := Nat.zero_le _
  perAuthorRoom author := Nat.zero_le _

theorem Consistent.of_sheds {q : PendingBlocks} {released : Hash256 → Prop}
    {out : Multiset PendingEntry} (h : p.Consistent) (hsheds : Sheds released p q out)
    (hagree : q.Agree) : q.Consistent where
  agree := hagree
  room := by
    have hlen := hsheds.len_le
    have hroom := h.room
    omega
  perAuthorRoom author := le_trans (hsheds.authored_le author) (h.perAuthorRoom author)

/-- One call: consistency is kept, every block is accounted for, and a block held
    afterwards was held before, with at most the released parent less to miss, or came
    with this very call. -/
structure Stepped (p : PendingBlocks) (call : Call) (q : PendingBlocks) (reply : Reply) :
    Prop where
  consistent : q.Consistent
  ledger : ∃ full expired : Multiset PendingEntry,
    q.evictedFull = p.evictedFull + full.card ∧
      q.evictedExpired = p.evictedExpired + expired.card ∧
      q.entries + returned reply + full + expired = p.entries + accepted call reply
  tracks : ∀ hash held', q.held.lookup hash = some held' →
    (∃ held, p.held.lookup hash = some held ∧ held'.entry = held.entry ∧
      ∀ m ∈ held.missing, m ∈ held'.missing ∨ Releases call m) ∨
    ∃ block transactions missing now, call = .hold block transactions missing now ∧
      reply = .held true ∧ hash = block.hash ∧ held'.entry = (block, transactions) ∧
      held'.missing = missing.toFinset

/-- A call that takes in no block: what left was given back or expired. -/
theorem Stepped.of_sheds {q : PendingBlocks} {call : Call} {reply : Reply}
    {released : Hash256 → Prop} (expired : Multiset PendingEntry) (h : p.Consistent)
    (hsheds : Sheds released p q (returned reply + expired)) (hagree : q.Agree)
    (hfull : q.evictedFull = p.evictedFull)
    (hexpired : q.evictedExpired = p.evictedExpired + expired.card)
    (hreleased : ∀ m, released m → Releases call m) (hcall : accepted call reply = 0) :
    Stepped p call q reply where
  consistent := h.of_sheds hsheds hagree
  ledger := by
    refine ⟨0, expired, hfull, hexpired, ?_⟩
    rw [hcall, add_zero, add_zero, add_assoc]
    exact hsheds.entries
  tracks hash held' hheld' := by
    obtain ⟨held, hheld, hentry, hmissing⟩ := hsheds.stays hash held' hheld'
    exact Or.inl ⟨held, hheld, hentry, fun m hm => (hmissing m hm).imp_right (hreleased m)⟩

theorem Agree.authorCount (h : p.Agree) (author : Address) :
    (p.perAuthor.lookup author).getD 0 = p.authored author := by
  rw [h.perAuthor]
  by_cases hzero : p.authored author = 0 <;> simp [hzero]

theorem hold_stepped (h : p.Consistent) (block : DagBlock) (transactions : List Transaction)
    (missing : List Hash256) (now : Nat) :
    Stepped p (.hold block transactions missing now)
      (p.perform (.hold block transactions missing now)).1
      (p.perform (.hold block transactions missing now)).2 := by
  -- a refusal changes at most a counter that no index depends on
  have hrefused : ∀ refused, Stepped p (.hold block transactions missing now)
      { p with refusedPerAuthor := refused } (.held false) := by
    intro refused
    have hsheds := Sheds.refl (fun _ => False) p
    exact .of_sheds 0 h ⟨hsheds.entries, hsheds.stays⟩ (Agree.counters h.agree _ _ _) rfl rfl
      (fun m hm => hm.elim) rfl
  show Stepped p _ (p.hold block transactions missing now).1
    (.held (p.hold block transactions missing now).2)
  unfold hold
  by_cases hcontains : p.contains block.hash
  · rw [if_pos hcontains]
    exact hrefused p.refusedPerAuthor
  rw [if_neg hcontains]
  by_cases hcap : maxPendingPerAuthor ≤ (p.perAuthor.lookup block.author).getD 0
  · rw [if_pos hcap]
    exact hrefused _
  rw [if_neg hcap]
  rw [h.agree.authorCount] at hcap
  have hnone : p.held.lookup block.hash = none := by
    exact not_isSome_iff_eq_none.mp hcontains
  obtain ⟨out, hsheds, hagree, hfull, hexpired, hroom⟩ :=
    makeRoom_spec h.agree (show p.len < maxPendingBlocks + p.len from
      Nat.lt_add_of_pos_left (by decide))
  have hstill : (makeRoom p.len p).held.lookup block.hash = none := by
    cases hlook : (makeRoom p.len p).held.lookup block.hash with
    | none => rfl
    | some held =>
      obtain ⟨held', hheld', -⟩ := hsheds.stays _ held hlook
      rw [hnone] at hheld'
      cases hheld'
  have hentries : ((makeRoom p.len p).insertHeld block transactions missing now).entries =
      (makeRoom p.len p).entries + {(block, transactions)} := insertHeld_entries hstill
  refine ⟨⟨hagree.insertHeld hstill, ?_, ?_⟩, ⟨out, 0, hfull, hexpired, ?_⟩, ?_⟩
  · rw [len_eq_card, hentries, card_add, ← len_eq_card, card_singleton]
    omega
  · intro author
    have hless := hsheds.authored_le author
    have hbound := h.perAuthorRoom author
    rw [insertHeld_authored hstill]
    split
    · next heq =>
        subst heq
        omega
    · omega
  · show ((makeRoom p.len p).insertHeld block transactions missing now).entries + 0 + out + 0 =
      p.entries + {(block, transactions)}
    rw [hentries, ← hsheds.entries, add_zero, add_zero]
    exact add_right_comm _ _ _
  · intro hash held' hheld'
    rw [insertHeld_lookup] at hheld'
    split at hheld'
    · next heq =>
        obtain rfl := some.inj hheld'
        exact Or.inr ⟨block, transactions, missing, now, rfl, rfl, heq, rfl, rfl⟩
    · obtain ⟨held, hheld, hentry, hmissing⟩ := hsheds.stays hash held' hheld'
      exact Or.inl ⟨held, hheld, hentry, fun m hm => (hmissing m hm).imp_right False.elim⟩

/-- The blocks `expire` finds stale are held, and each is found once. -/
theorem Agree.stale_held (h : p.Agree) (now : Nat) :
    (p.stale now).Nodup ∧ ∀ hash ∈ p.stale now, (p.held.lookup hash).isSome := by
  have hsub : (p.order.sort.takeWhile fun key =>
      decide (maxPendingAge < now - (ofLex key).1)).Sublist p.order.sort :=
    List.takeWhile_sublist _
  constructor
  · refine List.Nodup.map_on ?_ ((Finset.sort_nodup _ _).sublist hsub)
    intro x hx y hy heq
    -- two arrival times of one hash are both its `since`
    have hx' := (h.order (ofLex x).1 (ofLex x).2).mp ((Finset.mem_sort _).mp (hsub.subset hx))
    have hy' := (h.order (ofLex y).1 (ofLex y).2).mp ((Finset.mem_sort _).mp (hsub.subset hy))
    obtain ⟨held, hheld, hsince⟩ := hx'
    obtain ⟨held', hheld', hsince'⟩ := hy'
    rw [heq, hheld'] at hheld
    obtain rfl := some.inj hheld
    exact ofLex.injective (Prod.ext (hsince.symm.trans hsince') heq)
  · intro hash hmem
    obtain ⟨key, hkey, rfl⟩ := List.mem_map.mp hmem
    obtain ⟨held, hheld⟩ := h.oldest_held ((Finset.mem_sort _).mp (hsub.subset hkey))
    rw [hheld]
    rfl

theorem expire_stepped (h : p.Consistent) (now : Nat) :
    Stepped p (.expire now) (p.perform (.expire now)).1 (p.perform (.expire now)).2 := by
  have hsheds := removeAll_sheds (fun _ => False) p (p.stale now)
  have hagree := removeAll_agree h.agree (p.stale now)
  obtain ⟨hfull, hexpired⟩ := removeAll_counters p (p.stale now)
  obtain ⟨hnodup, hheld⟩ := h.agree.stale_held now
  have hcount : (p.removeAll (p.stale now)).1.evictedExpired + (p.stale now).length =
      p.evictedExpired + (p.removeAll (p.stale now)).2.length := by
    rw [hexpired, length_removeAll hnodup hheld]
  rw [← zero_add ((p.removeAll (p.stale now)).2 : Multiset PendingEntry)] at hsheds
  exact .of_sheds _ h ⟨hsheds.entries, hsheds.stays⟩ (Agree.counters hagree _ _ _) hfull hcount
    (fun m hm => hm.elim) rfl

/-- `release_up_to_round` and `drain_all` only remove. -/
theorem removal_stepped (h : p.Consistent) {call : Call} (hashes : List Hash256)
    (hcall : accepted call (.released (byRound (p.removeAll hashes).2)) = 0) :
    Stepped p call (p.removeAll hashes).1 (.released (byRound (p.removeAll hashes).2)) := by
  have hsheds : Sheds (fun _ => False) p (p.removeAll hashes).1
      (byRound (p.removeAll hashes).2) := by
    rw [coe_byRound]
    exact removeAll_sheds _ p hashes
  obtain ⟨hfull, hexpired⟩ := removeAll_counters p hashes
  rw [← add_zero (byRound (p.removeAll hashes).2 : Multiset PendingEntry)] at hsheds
  exact .of_sheds 0 h hsheds (removeAll_agree h.agree _) hfull hexpired (fun m hm => hm.elim) hcall

/-- **Step lemma.** -/
theorem perform_stepped (h : p.Consistent) (call : Call) :
    Stepped p call (p.perform call).1 (p.perform call).2 := by
  cases call with
  | hold block transactions missing now => exact hold_stepped h block transactions missing now
  | releaseOn parent walk =>
    have hwalk := releaseOn_walked h.agree parent walk
    have hsheds := hwalk.sheds
    rw [← add_zero ((p.releaseOn parent walk).2 : Multiset PendingEntry)] at hsheds
    exact .of_sheds 0 h hsheds hwalk.agree.agree hwalk.counters.1 hwalk.counters.2
      (fun m hm => hm ▸ ⟨walk, rfl⟩) rfl
  | releaseUpToRound currentRound walk =>
    exact removal_stepped h _ rfl
  | drainAll walk => exact removal_stepped h _ rfl
  | expire now => exact expire_stepped h now

end Step

/-! ## The whole run -/

theorem after_append (calls : List Call) (call : Call) :
    after (calls ++ [call]) = ((after calls).perform call).1 := by
  simp [after]

theorem acceptedFrom_append (p : PendingBlocks) (calls : List Call) (call : Call) :
    p.acceptedFrom (calls ++ [call]) = p.acceptedFrom calls +
      accepted call ((calls.foldl (fun p call => (p.perform call).1) p).perform call).2 := by
  induction calls generalizing p with
  | nil => simp [acceptedFrom]
  | cons first rest ih =>
    show accepted first _ + (p.perform first).1.acceptedFrom (rest ++ [call]) = _
    rw [ih, ← add_assoc]
    rfl

theorem returnedFrom_append (p : PendingBlocks) (calls : List Call) (call : Call) :
    p.returnedFrom (calls ++ [call]) = p.returnedFrom calls +
      returned ((calls.foldl (fun p call => (p.perform call).1) p).perform call).2 := by
  induction calls generalizing p with
  | nil => simp [returnedFrom]
  | cons first rest ih =>
    show returned _ + (p.perform first).1.returnedFrom (rest ++ [call]) = _
    rw [ih, ← add_assoc]
    rfl

/-- Where every accepted block is: in the area, given back, or counted as evicted. -/
def Conserved (calls : List Call) : Prop :=
  ∃ full expired : Multiset PendingEntry,
    full.card = (after calls).evictedFull ∧ expired.card = (after calls).evictedExpired ∧
      new.acceptedFrom calls = (after calls).entries + new.returnedFrom calls + full + expired

/-- `entry` was accepted by a call of the run with the given missing list, has been held
    ever since, and `rest` are the calls after that one. -/
structure HeldSince (calls : List Call) (entry : PendingEntry) (missing : List Hash256)
    (rest : List Call) : Prop where
  call : ∃ before now, calls = before ++ Call.hold entry.1 entry.2 missing now :: rest ∧
    ((after before).hold entry.1 entry.2 missing now).2 = true ∧
    ∀ k, (after (before ++ Call.hold entry.1 entry.2 missing now :: rest.take k)).contains
      entry.1.hash = true

/-- What a held block still misses is what its missing list names and no later call
    released. -/
def Tracked (calls : List Call) : Prop :=
  ∀ hash held, (after calls).held.lookup hash = some held →
    ∃ missing rest, HeldSince calls held.entry missing rest ∧
      ∀ m ∈ missing, m ∈ held.missing ∨ ∃ call ∈ rest, Releases call m

theorem after_consistent (calls : List Call) : (after calls).Consistent := by
  induction calls using List.reverseRecOn with
  | nil => exact new_consistent
  | append_singleton calls call ih =>
    rw [after_append]
    exact (perform_stepped ih call).consistent

theorem after_conserved (calls : List Call) : Conserved calls := by
  induction calls using List.reverseRecOn with
  | nil => exact ⟨0, 0, rfl, rfl, rfl⟩
  | append_singleton calls call ih =>
    obtain ⟨full, expired, hfull, hexpired, hbefore⟩ := ih
    obtain ⟨full', expired', hfull', hexpired', hstep⟩ :=
      (perform_stepped (after_consistent calls) call).ledger
    refine ⟨full + full', expired + expired', ?_, ?_, ?_⟩
    · rw [card_add, hfull, after_append, hfull']
    · rw [card_add, hexpired, after_append, hexpired']
    · rw [acceptedFrom_append, returnedFrom_append, hbefore, after_append]
      show (after calls).entries + new.returnedFrom calls + full + expired +
          accepted call ((after calls).perform call).2 =
        ((after calls).perform call).1.entries +
          (new.returnedFrom calls + returned ((after calls).perform call).2) +
            (full + full') + (expired + expired')
      calc (after calls).entries + new.returnedFrom calls + full + expired +
            accepted call ((after calls).perform call).2
          = (after calls).entries + accepted call ((after calls).perform call).2 +
              (new.returnedFrom calls + full + expired) := by abel
        _ = ((after calls).perform call).1.entries +
              returned ((after calls).perform call).2 + full' + expired' +
              (new.returnedFrom calls + full + expired) := by rw [hstep]
        _ = _ := by abel

/-- A block that stays held through one more call. -/
theorem HeldSince.append {calls rest : List Call} {entry : PendingEntry} {missing : List Hash256}
    (h : HeldSince calls entry missing rest) (call : Call)
    (hheld : (after (calls ++ [call])).contains entry.1.hash = true) :
    HeldSince (calls ++ [call]) entry missing (rest ++ [call]) := by
  obtain ⟨before, now, rfl, haccepted, hever⟩ := h.call
  refine ⟨before, now, by simp, haccepted, fun k => ?_⟩
  by_cases hk : k ≤ rest.length
  · rw [List.take_append_of_le_length hk]
    exact hever k
  · rw [List.take_of_length_le (by simp; omega)]
    simpa using hheld

theorem after_tracked (calls : List Call) : Tracked calls := by
  induction calls using List.reverseRecOn with
  | nil =>
    intro hash held hheld
    simp [after, new] at hheld
  | append_singleton calls call ih =>
    intro hash held' hheld'
    have hkeyed := (after_consistent (calls ++ [call])).agree.keyed hash held' hheld'
    have hcontains : (after (calls ++ [call])).contains held'.entry.1.hash = true := by
      show ((after (calls ++ [call])).held.lookup held'.block.hash).isSome = true
      rw [hkeyed, hheld']
      rfl
    have hstep := perform_stepped (after_consistent calls) call
    have hlook : ((after calls).perform call).1.held.lookup hash = some held' := by
      rw [← after_append]
      exact hheld'
    rcases hstep.tracks hash held' hlook with
      ⟨held, hheld, hentry, hmissing⟩ | ⟨block, transactions, missing, now, hcall, hreply, -,
        hentry, hmissing⟩
    · -- held before the call
      obtain ⟨missing, rest, hsince, htrack⟩ := ih hash held hheld
      rw [← hentry] at hsince
      refine ⟨missing, rest ++ [call], hsince.append call hcontains, fun m hm => ?_⟩
      rcases htrack m hm with hm' | ⟨earlier, hearlier, hreleases⟩
      · rcases hmissing m hm' with hm'' | hreleases
        · exact Or.inl hm''
        · exact Or.inr ⟨call, List.mem_append_right _ (List.mem_singleton_self _), hreleases⟩
      · exact Or.inr ⟨earlier, List.mem_append_left _ hearlier, hreleases⟩
    · -- accepted by the call
      subst hcall
      refine ⟨missing, [], ⟨calls, now, ?_, ?_, fun k => ?_⟩, fun m hm => ?_⟩
      · rw [hentry]
      · rw [hentry]
        exact Reply.held.inj hreply
      · rw [hentry] at hcontains ⊢
        simpa using hcontains
      · rw [hmissing]
        exact Or.inl (List.mem_toFinset.mpr hm)

/-- **The pending area over every run.**  After any calls on a new area the four indexes
    agree and the area is within its bounds; every block that was accepted is in exactly one
    place, and what `release_on` gives back was accepted with a missing list all of whose
    hashes have been released since. -/
theorem pending_area_invariant_and_conservation (calls : List Call) :
    (after calls).Consistent ∧ Conserved calls ∧
      ∀ parent walk entry, entry ∈ ((after calls).releaseOn parent walk).2 →
        ∃ missing rest, HeldSince calls entry missing rest ∧
          ∀ m ∈ missing, m = parent ∨ ∃ call ∈ rest, Releases call m := by
  have hconsistent := after_consistent calls
  refine ⟨hconsistent, after_conserved calls, fun parent walk entry hentry => ?_⟩
  obtain ⟨held, hheld, rfl, hready⟩ :=
    (releaseOn_walked hconsistent.agree parent walk).ready entry hentry
  obtain ⟨missing, rest, hsince, htrack⟩ := after_tracked calls _ held hheld
  exact ⟨missing, rest, hsince, fun m hm => (htrack m hm).imp_left (hready m)⟩

end PendingBlocks

end ArcChain
