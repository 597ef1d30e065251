/-
Speculative execution against execution in order.

One round of re-execution is enough: it runs in index order, so what a
transaction reads there is not overwritten afterwards.  The result is that
of execution in order if the first round left no transaction behind that
later turns out to write (`InOrder`); otherwise a transaction that was
validated on the accounts of the block's start stays validated although a
lower one has changed them, and a transaction that failed on them may
succeed at the end of the block although its turn was earlier.
-/
import ArcChain.State.Speculative

namespace ArcChain

open Word StoreProg SpeculativeScheduler Payment MVHashMap List Ledger Finmap PipelineState

variable {x : Account}

section Rounds

variable {accounts : FinMap Address Account} {payments : List Payment} {i k : Nat} {p : Payment}
  {a : Address} {m : MVHashMap}

variable {s : SpeculativeScheduler}

/-- The versions a payment finds in its turn. -/
def turnVersions (accounts : FinMap Address Account) (payments : List Payment) (i : Nat) :
    Address → Version :=
  versionsAfter (versionsOf accounts) (payments.take i)

/-- A lower payment that passes its checks at the start meets this one. -/
def Conflicting (accounts : FinMap Address Account) (payments : List Payment) (i : Nat)
    (p : Payment) : Prop :=
  ∃ (j : Nat) (r : Payment),
    j < i ∧ payments[j]? = some r ∧ r.Accepted (versionsOf accounts) ∧ p.Meets r

/-- The multi-version map has the versions of a payment made in its turn. -/
def Settled (accounts : FinMap Address Account) (payments : List Payment) (m : MVHashMap)
    (k : Nat) (p : Payment) : Prop :=
  ∀ a, m.data.lookup (a, k) =
    if ¬ p.Replayed (versionsOf accounts) ∧ p.Touches a then
      some (turnVersions accounts payments (k + 1) a) else none

/-- The result of a payment made in its turn. -/
structure FinalResult (accounts : FinMap Address Account) (payments : List Payment) (i : Nat)
    (p : Payment) (r : SpeculativeResult) : Prop where
  index : r.txIndex = i
  success : r.success = true ↔ ¬ p.Replayed (versionsOf accounts)
  writes : ¬ p.Replayed (versionsOf accounts) →
    r.accessSet.writes = p.writes (turnVersions accounts payments i p.sender)
      (turnVersions accounts payments i p.recipient)

theorem turnVersions_succ (hp : payments[i]? = some p) : turnVersions accounts payments (i + 1) =
      p.settle (turnVersions accounts payments i) (versionsOf accounts) :=
  versionsAfter_take_succ hp

/-- Where the lower payments are settled, a payment reads the versions of its turn. -/
theorem seen_eq_turnVersions (hi : i ≤ payments.length)
    (hsettled : ∀ (k : Nat) (q : Payment), k < i → payments[k]? = some q →
      Settled accounts payments m k q) :
    m.seen accounts i = turnVersions accounts payments i := by
  funext a
  induction i with
  | zero => rfl
  | succ i ih =>
    obtain ⟨q, hq⟩ : ∃ q, payments[i]? = some q := ⟨_, List.getElem?_eq_getElem (by omega)⟩
    have hread := ih (by omega) fun k q' hk => hsettled k q' (by omega)
    have hlookup := hsettled i q (Nat.lt_succ_self i) hq a
    rw [MVHashMap.seen, MVHashMap.read]
    by_cases htouch : ¬ q.Replayed (versionsOf accounts) ∧ q.Touches a
    · rw [if_pos htouch] at hlookup
      rw [hlookup]
      rfl
    · -- the payment before this one leaves the account alone
      rw [if_neg htouch] at hlookup
      rw [hlookup, turnVersions_succ hq, Payment.settle]
      by_cases hreplayed : q.Replayed (versionsOf accounts)
      · rw [if_pos hreplayed]
        exact hread
      · rw [if_neg hreplayed, apply_of_not_touches fun h => htouch ⟨hreplayed, h⟩]
        exact hread

/-- The accounts of a payment that no lower one meets are as at the start. -/
theorem turnVersions_eq_start (h : ∀ (k : Nat) (q : Payment), k < i → payments[k]? = some q →
      ¬ q.Replayed (versionsOf accounts) → ¬ p.Meets q) (ha : p.Touches a) (hk : k ≤ i) :
    turnVersions accounts payments k a = versionsOf accounts a := by
  induction k with
  | zero => rfl
  | succ k ih =>
    have hprev := ih (by omega)
    cases hq : payments[k]? with
    | none =>
      have hlength : payments.length ≤ k := List.getElem?_eq_none_iff.mp hq
      rw [turnVersions, take_of_length_le (by omega), ← take_of_length_le hlength]
      exact hprev
    | some q =>
      rw [turnVersions_succ hq, Payment.settle]
      split
      · exact hprev
      rename_i hlive
      have hmeets := h k q (by omega) hq hlive
      rw [apply_of_not_touches fun hq' => hmeets (meets_iff.mpr ⟨a, ha, hq'⟩)]
      exact hprev

/-! ## The first round -/

/-- The results of the first round. -/
def firstResults (accounts : FinMap Address Account) (payments : List Payment) :
    List SpeculativeResult :=
  payments.mapIdx fun i p => speculatePayment i p accounts .new

/-- Every account a payment touches is stored. -/
def Stored (accounts : FinMap Address Account) (payments : List Payment) : Prop :=
  ∀ p ∈ payments, ∀ a, p.Touches a → accounts.lookup a ≠ none

theorem stored_iff : Stored accounts payments ↔ ∀ p ∈ payments,
    accounts.lookup p.sender ≠ none ∧ accounts.lookup p.recipient ≠ none := by
  constructor
  · intro h p hp
    exact ⟨h p hp _ (.inl rfl), h p hp _ (.inr rfl)⟩
  · rintro h p hp a (rfl | rfl)
    · exact (h p hp).1
    · exact (h p hp).2

instance : Decidable (Stored accounts payments) := decidable_of_iff' _ stored_iff

theorem seen_new : MVHashMap.new.seen accounts i = versionsOf accounts := by
  funext a
  have hread : MVHashMap.new.read a i = none := read_eq_none_iff.mpr fun k _ => lookup_empty (a, k)
  rw [MVHashMap.seen, hread]
  rfl

theorem Stored.sender (h : Stored accounts payments) (hp : payments[i]? = some p) :
    accounts.lookup p.sender ≠ none :=
  h p (mem_of_getElem? hp) _ (.inl rfl)

theorem Stored.recipient (h : Stored accounts payments) (hp : payments[i]? = some p) :
    accounts.lookup p.recipient ≠ none :=
  h p (mem_of_getElem? hp) _ (.inr rfl)

/-- The scheduler after the first round. -/
def firstRound (accounts : FinMap Address Account) (payments : List Payment) :
    SpeculativeScheduler :=
  (firstResults accounts payments).foldl recordResult (.new payments.length)

theorem speculatePayment_new (h : Stored accounts payments) (hp : payments[i]? = some p) :
    (speculatePayment i p accounts .new).success = decide (p.Accepted (versionsOf accounts)) ∧
      (speculatePayment i p accounts .new).accessSet.writes =
        if p.Accepted (versionsOf accounts) then
          p.writes (versionsOf accounts p.sender) (versionsOf accounts p.recipient) else [] := by
  rw [speculatePayment_eq (h.sender hp) (h.recipient hp), seen_new]
  exact ⟨rfl, rfl⟩

theorem nodup_writes_speculatePayment (hsender : accounts.lookup p.sender ≠ none)
    (hrecipient : accounts.lookup p.recipient ≠ none) :
    ((speculatePayment i p accounts m).accessSet.writes.map Prod.fst).Nodup := by
  rw [speculatePayment_eq hsender hrecipient]
  dsimp only
  split
  · exact nodup_writes
  · exact nodup_nil

theorem firstRound_spec (h : Stored accounts payments) : (firstRound accounts payments).slots =
        (firstResults accounts payments).map (fun r => ⟨.executed, some r⟩) ∧
      ∀ a (k : Nat) p, payments[k]? = some p →
        (firstRound accounts payments).mvHashmap.data.lookup (a, k) =
          if p.Accepted (versionsOf accounts) then
            (p.writes (versionsOf accounts p.sender) (versionsOf accounts p.recipient)).lookup a
          else none := by
  have hlength : (firstResults accounts payments).length = payments.length := length_mapIdx
  have hget : ∀ j : Nat, (firstResults accounts payments)[j]? =
      (payments[j]?).map fun p => speculatePayment j p accounts .new := fun j =>
    List.getElem?_mapIdx
  obtain ⟨hslots, hlookup⟩ := foldl_recordResult payments.length
    (firstResults accounts payments) (le_of_eq hlength)
    (by
      intro j r hj
      rw [hget] at hj
      obtain ⟨p, -, rfl⟩ := Option.map_eq_some_iff.mp hj
      rfl)
    (by
      intro r hr
      obtain ⟨j, hj⟩ := List.getElem?_of_mem hr
      rw [hget] at hj
      obtain ⟨p, hp, rfl⟩ := Option.map_eq_some_iff.mp hj
      exact nodup_writes_speculatePayment (h.sender hp) (h.recipient hp))
  constructor
  · rw [hlength, Nat.sub_self, replicate_zero, append_nil] at hslots
    exact hslots
  · intro a k p hp
    refine (hlookup a k).trans ?_
    rw [hget, hp]
    show List.lookup a _ = _
    rw [(speculatePayment_new h hp).2]
    split <;> rfl

/-- What validation finds in the first round. -/
theorem readsCurrent_firstRound (h : Stored accounts payments) (hp : payments[i]? = some p) :
    readsCurrent (firstRound accounts payments).mvHashmap i (speculatePayment i p accounts .new) =
        true ↔ ¬ Conflicting accounts payments i p := by
  have hi : i < payments.length := (List.getElem?_eq_some_iff.mp hp).1
  -- a first-round read has no writer as its source, so it is current only if there is none
  have hcurrent : readsCurrent (firstRound accounts payments).mvHashmap i
      (speculatePayment i p accounts .new) = true ↔
      ∀ a, p.Touches a → (firstRound accounts payments).mvHashmap.read a i = none := by
    rw [readsCurrent, all_eq_true]
    constructor
    · intro hall a ha
      have hread := hall (a, MVHashMap.new.seen accounts i a, (MVHashMap.new.read a i).map Prod.snd)
        ((mem_reads (h.sender hp) (h.recipient hp)).mpr ⟨ha, rfl⟩)
      have hnew : MVHashMap.new.read a i = none :=
        read_eq_none_iff.mpr fun k _ => lookup_empty (a, k)
      cases hm : (firstRound accounts payments).mvHashmap.read a i with
      | none => rfl
      | some e =>
        simp only [hm, hnew] at hread
        simp at hread
    · intro hnone e he
      obtain ⟨ha, -⟩ := (mem_reads (h.sender hp) (h.recipient hp)).mp he
      obtain ⟨b, v, src⟩ := e
      simp only [hnone b ha]
  rw [hcurrent]
  constructor
  · rintro hnone ⟨j, r, hj, hr, haccepted, hmeets⟩
    obtain ⟨a, hpa, hra⟩ := meets_iff.mp hmeets
    have hlookup := read_eq_none_iff.mp (hnone a hpa) j hj
    rw [(firstRound_spec h).2 a j r hr, if_pos haccepted] at hlookup
    rcases hra with rfl | rfl
    · unfold Payment.writes at hlookup
      split at hlookup <;> simp at hlookup
    · unfold Payment.writes at hlookup
      split at hlookup
      · rename_i hself
        simp [hself] at hlookup
      · rename_i hself
        simp [beq_eq_false_iff_ne.mpr hself] at hlookup
  · intro hnot a ha
    rw [read_eq_none_iff]
    intro j hj
    obtain ⟨r, hr⟩ : ∃ r, payments[j]? = some r := ⟨_, List.getElem?_eq_getElem (by omega)⟩
    rw [(firstRound_spec h).2 a j r hr]
    split
    · rename_i haccepted
      apply lookup_writes_of_not_touches
      intro hra
      exact hnot ⟨j, r, hj, hr, haccepted, meets_iff.mpr ⟨a, ha, hra⟩⟩
    · rfl

/-! ## Re-execution -/

/-- What holds once the conflicting payments below an index have run again. -/
structure Reexecuted (accounts : FinMap Address Account) (payments : List Payment) (k : Nat)
    (s : SpeculativeScheduler) : Prop where
  length : s.slots.length = payments.length
  settled : ∀ (i : Nat) (p : Payment), i < k → payments[i]? = some p →
    Settled accounts payments s.mvHashmap i p
  /-- The versions of the payments still to come are those of the first round. -/
  rest : ∀ a (i : Nat), k ≤ i → s.mvHashmap.data.lookup (a, i) =
    (firstRound accounts payments).mvHashmap.data.lookup (a, i)
  /-- A payment has its final result; if it ran again, its reads are still current. -/
  done : ∀ (i : Nat) (p : Payment), i < k → payments[i]? = some p →
    ∃ r, FinalResult accounts payments i p r ∧
      (s.slots[i]? = some ⟨.validated, some r⟩ ∨
        s.slots[i]? = some ⟨.executed, some r⟩ ∧ readsCurrent s.mvHashmap i r = true)
  /-- The slots still to come are as validation left them. -/
  slots : ∀ (i : Nat), k ≤ i → s.slots[i]? = (firstRound accounts payments).validate.1.slots[i]?

theorem readsCurrent_congr {m' : MVHashMap} {r : SpeculativeResult}
    (h : ∀ a, ∀ k < i, m.data.lookup (a, k) = m'.data.lookup (a, k)) :
    readsCurrent m i r = readsCurrent m' i r := by
  unfold readsCurrent
  congr 1
  funext ⟨a, v, source⟩
  simp only [read_congr fun k hk => h a k hk]

section

variable (h : Stored accounts payments)
include h

/-- A payment that has just run is current. -/
theorem readsCurrent_speculatePayment (hp : payments[i]? = some p) :
    readsCurrent m i (speculatePayment i p accounts m) = true := by
  rw [readsCurrent, all_eq_true]
  rintro ⟨a, v, source⟩ he
  obtain ⟨-, heq⟩ := (mem_reads (h.sender hp) (h.recipient hp)).mp he
  have hversion : v = m.seen accounts i a := congrArg Prod.fst heq
  have hsource : source = (m.read a i).map Prod.snd := congrArg Prod.snd heq
  cases hread : m.read a i with
  | none => simp only [hread]
  | some e =>
    rw [MVHashMap.seen] at hversion
    subst hversion hsource
    simp [hread]

/-- A payment that no lower one has conflicted with is settled by the first round. -/
theorem settled_firstRound
    (hin : InOrder (versionsOf accounts) payments) (hp : payments[i]? = some p)
    (hnot : ¬ Conflicting accounts payments i p) :
    Settled accounts payments (firstRound accounts payments).mvHashmap i p ∧
      FinalResult accounts payments i p (speculatePayment i p accounts .new) := by
  obtain ⟨hsuccess, hwrites⟩ := speculatePayment_new h hp
  by_cases hreplayed : p.Replayed (versionsOf accounts)
  · have hrefused : ¬ p.Accepted (versionsOf accounts) := hreplayed.not_accepted []
    refine ⟨fun a => ?_, rfl, ?_, fun hlive => absurd hreplayed hlive⟩
    · rw [(firstRound_spec h).2 a i p hp, if_neg hrefused, if_neg fun hlive => hlive.1 hreplayed]
    · rw [hsuccess]
      simp [hrefused, hreplayed]
  · obtain ⟨hpayable, hmeets⟩ := hin i p hp hreplayed
    have hstart : ∀ a, p.Touches a →
        turnVersions accounts payments i a = versionsOf accounts a := fun a ha =>
      turnVersions_eq_start (fun k q hk hq hlive hpq => hnot (hmeets k q hk hq hlive hpq)) ha
        (le_refl i)
    have hsender := hstart p.sender (.inl rfl)
    have hrecipient := hstart p.recipient (.inr rfl)
    have haccepted : p.Accepted (versionsOf accounts) := by
      have hturn : p.Accepted (turnVersions accounts payments i) := hpayable.1
      rwa [Payment.Accepted, hsender] at hturn
    refine ⟨fun a => ?_, rfl, ?_, fun _ => ?_⟩
    · rw [(firstRound_spec h).2 a i p hp, if_pos haccepted, ← hsender, ← hrecipient,
        lookup_writes (show p.Payable (turnVersions accounts payments i) from hpayable),
        turnVersions_succ hp, Payment.settle]
      simp [hreplayed]
    · rw [hsuccess]
      simp [haccepted, hreplayed]
    · rw [hwrites, if_pos haccepted, hsender, hrecipient]

/-- A payment that runs again on the versions of its turn is settled. -/
theorem settled_recordResult
    (hin : InOrder (versionsOf accounts) payments) (hp : payments[i]? = some p)
    (hseen : s.mvHashmap.seen accounts i = turnVersions accounts payments i)
    (hrest : ∀ a, s.mvHashmap.data.lookup (a, i) =
      (firstRound accounts payments).mvHashmap.data.lookup (a, i)) :
    Settled accounts payments
        (s.recordResult (speculatePayment i p accounts s.mvHashmap)).mvHashmap i p ∧
      FinalResult accounts payments i p (speculatePayment i p accounts s.mvHashmap) := by
  have heq := speculatePayment_eq (m := s.mvHashmap) (i := i) (h.sender hp) (h.recipient hp)
  rw [hseen] at heq
  have hlookup : ∀ a, (s.recordResult (speculatePayment i p accounts s.mvHashmap)).mvHashmap.data.lookup
      (a, i) = ((speculatePayment i p accounts s.mvHashmap).accessSet.writes.lookup a).or
        (s.mvHashmap.data.lookup (a, i)) := by
    intro a
    refine (lookup_writes (i := i)
      (nodup_writes_speculatePayment (h.sender hp) (h.recipient hp))).trans ?_
    rw [if_pos rfl]
  by_cases hreplayed : p.Replayed (versionsOf accounts)
  · -- it failed in the first round and fails again
    have hrefused : ¬ p.Accepted (turnVersions accounts payments i) := hreplayed.not_accepted _
    have hfirst : ¬ p.Accepted (versionsOf accounts) := hreplayed.not_accepted []
    refine ⟨fun a => ?_, rfl, ?_, fun hlive => absurd hreplayed hlive⟩
    · rw [hlookup, hrest, (firstRound_spec h).2 a i p hp, heq]
      simp [hrefused, hfirst, hreplayed]
    · rw [heq]
      simp [hrefused, hreplayed]
  · obtain ⟨hpayable, -⟩ := hin i p hp hreplayed
    have haccepted : p.Accepted (turnVersions accounts payments i) := hpayable.1
    refine ⟨fun a => ?_, rfl, ?_, fun _ => ?_⟩
    · rw [hlookup, hrest, (firstRound_spec h).2 a i p hp, heq]
      simp only [haccepted, if_true]
      rw [lookup_writes (show p.Payable (turnVersions accounts payments i) from hpayable),
        turnVersions_succ hp, Payment.settle]
      by_cases htouch : p.Touches a
      · simp [htouch, hreplayed]
      · simp [htouch, lookup_writes_of_not_touches htouch]
    · rw [heq]
      simp [haccepted, hreplayed]
    · rw [heq]
      simp [haccepted]

/-- A payment whose slot is validated has its final result there. -/
theorem slots_validate (hp : payments[i]? = some p) : (firstRound accounts payments).slots[i]? =
        some ⟨.executed, some (speculatePayment i p accounts .new)⟩ ∧
      (¬ Conflicting accounts payments i p → (firstRound accounts payments).validate.1.slots[i]? =
          some ⟨.validated, some (speculatePayment i p accounts .new)⟩) ∧
      (i ∈ (firstRound accounts payments).validate.2 ↔ Conflicting accounts payments i p) := by
  have hslot : (firstRound accounts payments).slots[i]? =
      some ⟨.executed, some (speculatePayment i p accounts .new)⟩ := by
    rw [(firstRound_spec h).1, List.getElem?_map, firstResults, List.getElem?_mapIdx, hp]
    rfl
  have hcurrent := readsCurrent_firstRound h hp
  refine ⟨hslot, fun hnot => ?_, ?_⟩
  · rw [validate, List.getElem?_mapIdx, hslot]
    simp [validateSlot, hcurrent.mpr hnot]
  · have hlt : i < (firstRound accounts payments).slots.length :=
      (List.getElem?_eq_some_iff.mp hslot).1
    rw [validate, mem_filter, mem_range, hslot]
    simp only [hlt, true_and, Option.elim_some, conflicts, Bool.not_eq_true']
    rw [← Bool.not_eq_true, hcurrent, Classical.not_not]

end

variable {transactions : List Transaction}

/-- The transactions are the payments. -/
def PaymentsOf (transactions : List Transaction) (payments : List Payment) : Prop :=
  transactions.map Transaction.payment = payments.map some

instance : Decidable (PaymentsOf transactions payments) := inferInstanceAs (Decidable (_ = _))

theorem PaymentsOf.getElem? (hof : PaymentsOf transactions payments) (hp : payments[i]? = some p) :
    ∃ tx, transactions[i]? = some tx ∧ tx.payment = some p := by
  have h := congrArg (fun l : List (Option Payment) => l[i]?) hof
  simp only [List.getElem?_map, hp] at h
  exact Option.map_eq_some_iff.mp h

theorem PaymentsOf.length (hof : PaymentsOf transactions payments) :
    transactions.length = payments.length := by
  have h := congrArg List.length hof
  rwa [length_map, length_map] at h

/-- The scheduler once the conflicting payments below an index have run again. -/
def reexecuteBelow (transactions : List Transaction) (accounts : FinMap Address Account)
    (s : SpeculativeScheduler) (k : Nat) : SpeculativeScheduler :=
  reexecute transactions accounts s.validate.1
    ((List.range k).filter fun idx => (s.slots[idx]?).elim false (conflicts s.mvHashmap idx))

theorem reexecute_append {l l' : List Nat} : reexecute transactions accounts s (l ++ l') =
      reexecute transactions accounts (reexecute transactions accounts s l) l' :=
  foldl_append

private theorem below_succ {i k : Nat} (hi : i < k + 1) : i < k ∨ i = k := by omega

/-- A conflicting payment runs again, on the versions of its turn. -/
theorem Reexecuted.again (hprev : Reexecuted accounts payments k s) (h : Stored accounts payments)
    (hin : InOrder (versionsOf accounts) payments) (hp : payments[k]? = some p) :
    Reexecuted accounts payments (k + 1)
      (s.recordResult (speculatePayment k p accounts s.mvHashmap)) := by
  have hk : k < payments.length := (List.getElem?_eq_some_iff.mp hp).1
  have hseen : s.mvHashmap.seen accounts k = turnVersions accounts payments k :=
    seen_eq_turnVersions (by omega) fun i q hi hq => hprev.settled i q hi hq
  obtain ⟨hsettled, hfinal⟩ := settled_recordResult h hin hp hseen
    fun a => hprev.rest a k (le_refl k)
  have hother : ∀ a (i : Nat), i ≠ k →
      (s.recordResult (speculatePayment k p accounts s.mvHashmap)).mvHashmap.data.lookup (a, i)
        = s.mvHashmap.data.lookup (a, i) := by
    intro a i hi
    refine (lookup_writes (nodup_writes_speculatePayment (h.sender hp) (h.recipient hp))).trans ?_
    exact if_neg hi
  have hslots : (s.recordResult (speculatePayment k p accounts s.mvHashmap)).slots =
      s.slots.set k ⟨.executed, some (speculatePayment k p accounts s.mvHashmap)⟩ := rfl
  refine ⟨?_, ?_, ?_, ?_, ?_⟩
  · rw [hslots, length_set, hprev.length]
  · intro i q hi hq
    rcases below_succ hi with hlt | rfl
    · intro a
      rw [hother a i (by omega)]
      exact hprev.settled i q hlt hq a
    · obtain rfl := Option.some.inj (hp.symm.trans hq)
      exact hsettled
  · intro a i hi
    rw [hother a i (by omega)]
    exact hprev.rest a i (by omega)
  · intro i q hi hq
    rcases below_succ hi with hlt | rfl
    · obtain ⟨r, hr, hstatus⟩ := hprev.done i q hlt hq
      refine ⟨r, hr, ?_⟩
      rw [hslots, List.getElem?_set_ne (by omega),
        readsCurrent_congr fun a j hj => hother a j (by omega)]
      exact hstatus
    · obtain rfl := Option.some.inj (hp.symm.trans hq)
      refine ⟨_, hfinal, .inr ⟨?_, ?_⟩⟩
      · rw [hslots, List.getElem?_set_self (by rw [hprev.length]; omega)]
      · rw [readsCurrent_congr fun a j hj => hother a j (by omega)]
        exact readsCurrent_speculatePayment h hp
  · intro i hi
    rw [hslots, List.getElem?_set_ne (by omega)]
    exact hprev.slots i (by omega)

/-- The result a payment without conflict has from the first round stands. -/
theorem Reexecuted.keep (hprev : Reexecuted accounts payments k s) (h : Stored accounts payments)
    (hin : InOrder (versionsOf accounts) payments) (hp : payments[k]? = some p)
    (hnot : ¬ Conflicting accounts payments k p) :
    Reexecuted accounts payments (k + 1) s := by
  obtain ⟨hsettled, hfinal⟩ := settled_firstRound h hin hp hnot
  obtain ⟨-, hvalid, -⟩ := slots_validate h hp
  refine ⟨hprev.length, ?_, fun a i hi => hprev.rest a i (by omega), ?_,
    fun i hi => hprev.slots i (by omega)⟩
  · intro i q hi hq
    rcases below_succ hi with hlt | rfl
    · exact hprev.settled i q hlt hq
    · obtain rfl := Option.some.inj (hp.symm.trans hq)
      intro a
      rw [← hsettled a]
      exact hprev.rest a i (le_refl i)
  · intro i q hi hq
    rcases below_succ hi with hlt | rfl
    · exact hprev.done i q hlt hq
    · obtain rfl := Option.some.inj (hp.symm.trans hq)
      exact ⟨_, hfinal, .inl ((hprev.slots i (le_refl i)).trans (hvalid hnot))⟩

/-- **Round.**  Re-execution settles the payments one after another. -/
theorem reexecuted_below (hof : PaymentsOf transactions payments) (h : Stored accounts payments)
    (hin : InOrder (versionsOf accounts) payments) (hk : k ≤ payments.length) :
    Reexecuted accounts payments k
      (reexecuteBelow transactions accounts (firstRound accounts payments) k) := by
  induction k with
  | zero =>
    refine ⟨?_, fun i _ hi => absurd hi (Nat.not_lt_zero i), fun _ _ _ => rfl,
      fun i _ hi => absurd hi (Nat.not_lt_zero i), fun _ _ => rfl⟩
    show (firstRound accounts payments).validate.1.slots.length = _
    rw [validate, length_mapIdx, (firstRound_spec h).1, length_map, firstResults, length_mapIdx]
  | succ k ih =>
    have hprev := ih (by omega)
    obtain ⟨p, hp⟩ : ∃ p, payments[k]? = some p := ⟨_, List.getElem?_eq_getElem (by omega)⟩
    obtain ⟨hslot, -, hconflict⟩ := slots_validate h hp
    rw [validate, mem_filter] at hconflict
    rw [reexecuteBelow, range_succ, filter_append, reexecute_append,
      filter_singleton, Bool.cond_eq_ite]
    split
    · obtain ⟨tx, htx, hpayment⟩ := hof.getElem? hp
      have hnext := hprev.again h hin hp
      simpa [reexecute, reexecuteBelow, htx, speculativeExecuteTx, hpayment] using hnext
    · rename_i hclear
      exact hprev.keep h hin hp fun hc => hclear (hconflict.mpr hc).2

/-! ## The outcome of the executor -/

/-- Every slot is validated and has its final result. -/
structure Done (accounts : FinMap Address Account) (payments : List Payment)
    (slots : List Slot) : Prop where
  length : slots.length = payments.length
  slot : ∀ (i : Nat) (p : Payment), payments[i]? = some p →
    ∃ r, slots[i]? = some ⟨.validated, some r⟩ ∧ FinalResult accounts payments i p r

/-- Validation leaves validated slots alone. -/
theorem Done.validate (hdone : Done accounts payments s.slots) : s.validate.1 = s := by
  have hslots : s.slots.mapIdx (validateSlot s.mvHashmap) = s.slots := by
    apply ext_getElem?
    intro i
    rw [List.getElem?_mapIdx]
    cases hp : payments[i]? with
    | some p =>
      obtain ⟨r, hr, -⟩ := hdone.slot i p hp
      rw [hr]
      rfl
    | none =>
      have hi : payments.length ≤ i := List.getElem?_eq_none_iff.mp hp
      rw [List.getElem?_eq_none (by rw [hdone.length]; exact hi)]
      rfl
  rw [SpeculativeScheduler.validate, hslots]

/-- After the round of re-execution, validation finds no conflict. -/
theorem Reexecuted.validate (h : Reexecuted accounts payments payments.length s) :
    Done accounts payments s.validate.1.slots ∧ s.validate.2 = [] := by
  refine ⟨⟨?_, ?_⟩, ?_⟩
  · rw [SpeculativeScheduler.validate, length_mapIdx, h.length]
  · intro i p hp
    have hi : i < payments.length := (List.getElem?_eq_some_iff.mp hp).1
    obtain ⟨r, hr, hstatus⟩ := h.done i p hi hp
    refine ⟨r, ?_, hr⟩
    rw [SpeculativeScheduler.validate, List.getElem?_mapIdx]
    rcases hstatus with hstatus | ⟨hstatus, hreads⟩
    · rw [hstatus]
      rfl
    · rw [hstatus]
      simp [validateSlot, hreads]
  · rw [SpeculativeScheduler.validate, filter_eq_nil_iff]
    intro i hi
    rw [mem_range, h.length] at hi
    obtain ⟨r, -, hstatus⟩ := h.done i _ hi (List.getElem?_eq_getElem hi)
    rcases hstatus with hstatus | ⟨hstatus, hreads⟩
    · simp [hstatus, conflicts]
    · simp [hstatus, conflicts, hreads]

/-- **Rounds.**  The executor ends with every payment validated in its turn. -/
theorem executeSpeculative_done (hof : PaymentsOf transactions payments)
    (h : Stored accounts payments) (hin : InOrder (versionsOf accounts) payments) :
    ∃ s : SpeculativeScheduler, Done accounts payments s.slots ∧
      executeSpeculative transactions accounts = s.finalize := by
  -- the first round runs the payments
  have hfirst : (transactions.mapIdx fun idx tx =>
      speculativeExecuteTx idx tx accounts (SpeculativeScheduler.new transactions.length).mvHashmap) =
      firstResults accounts payments := by
    apply ext_getElem?
    intro i
    rw [firstResults, List.getElem?_mapIdx, List.getElem?_mapIdx]
    cases hp : payments[i]? with
    | some p =>
      obtain ⟨tx, htx, hpayment⟩ := hof.getElem? hp
      rw [htx]
      simp [speculativeExecuteTx, hpayment, SpeculativeScheduler.new]
    | none =>
      rw [List.getElem?_eq_none (by
        rw [hof.length]
        exact List.getElem?_eq_none_iff.mp hp)]
      rfl
  have hagain := reexecuted_below hof h hin (le_refl payments.length)
  obtain ⟨hdone, hnone⟩ := hagain.validate
  have hconflicts : (firstRound accounts payments).slots.length = payments.length := by
    rw [(firstRound_spec h).1, length_map, firstResults, length_mapIdx]
  have hbelow : reexecuteBelow transactions accounts (firstRound accounts payments) payments.length =
      reexecute transactions accounts (firstRound accounts payments).validate.1
        (firstRound accounts payments).validate.2 := by
    rw [reexecuteBelow, validate, hconflicts]
  rw [hbelow] at hdone hnone
  have hrun : executeSpeculative transactions accounts = (validationRounds transactions accounts 3
        (firstRound accounts payments)).validate.1.finalize := by
    rw [executeSpeculative, hfirst, hof.length]
    rfl
  rw [hrun, validationRounds]
  split
  · -- without a conflict nothing runs again
    rename_i hempty
    rw [hempty] at hdone
    exact ⟨_, hdone, rfl⟩
  · rw [validationRounds, if_pos hnone]
    exact ⟨_, hdone.validate.symm ▸ hdone, rfl⟩

end Rounds

/-! ## Ledgers that differ in versions -/

/-- The second ledger is the first with these versions in its accounts. -/
structure Carries (s : Ledger) (versions : Address → Version) (t : Ledger) : Prop where
  rest : t = { s with accounts := t.accounts }
  accounts : ∀ a, t.accounts.lookup a =
    (s.accounts.lookup a).map fun x => x.withVersion (versions a)

namespace Carries

variable {s t u : Ledger} {versions versions' : Address → Version} {a : Address} {p : Payment}

theorem refl : Carries s (versionsOf s.accounts) s := by
  refine ⟨rfl, fun a => ?_⟩
  unfold versionsOf
  cases s.accounts.lookup a with
  | none => rfl
  | some x => rfl

theorem unique (ht : Carries s versions t) (hu : Carries s versions u) : t = u := by
  have haccounts : t.accounts = u.accounts :=
    ext_lookup fun a => (ht.accounts a).trans (hu.accounts a).symm
  rw [ht.rest, hu.rest, haccounts]

section

variable (h : Carries s versions t)
include h

theorem lookup (hx : s.accounts.lookup a = some x) :
    t.accounts.lookup a = some (x.withVersion (versions a)) := by
  rw [h.accounts, hx]
  rfl

theorem accountOr (hx : s.accounts.lookup a = some x) :
    t.accountOr a = x.withVersion (versions a) :=
  accountOr_of_lookup (h.lookup hx)

/-- Storing new versions of stored accounts. -/
theorem of_lookup (hrest : u = { t with accounts := u.accounts })
    (haccounts : ∀ a, u.accounts.lookup a =
      (s.accounts.lookup a).map fun x => x.withVersion (versions' a)) : Carries s versions' u := by
  refine ⟨?_, haccounts⟩
  rw [hrest]
  conv => lhs; rw [h.rest]

/-- One account gets a new version. -/
theorem put (hx : s.accounts.lookup a = some x) {v : Version}
    (hversions : ∀ b, versions' b = if b = a then v else versions b) :
    Carries s versions' (t.putAccount a (x.withVersion v)) := by
  apply h.of_lookup rfl
  intro b
  rw [lookup_putAccount, hversions]
  split
  · rename_i heq
    rw [heq, hx]
    rfl
  · exact h.accounts b

/-- A payment between two accounts. -/
theorem pay {y : Account} (hx : s.accounts.lookup p.sender = some x)
    (hy : s.accounts.lookup p.recipient = some y) :
    Carries s (p.apply versions)
      ((t.putAccount p.sender (x.withVersion (p.apply versions p.sender))).putAccount p.recipient
        (y.withVersion (p.apply versions p.recipient))) := by
  have hfirst := h.put (v := p.apply versions p.sender) hx fun b => rfl
  refine hfirst.put hy fun b => ?_
  by_cases hb : b = p.recipient
  · rw [if_pos hb, hb]
  · by_cases hb' : b = p.sender
    · rw [if_neg hb, if_pos hb', hb']
    · rw [if_neg hb, if_neg hb', apply_of_not_touches fun htouch => htouch.elim hb' hb]

/-- A payment to oneself. -/
theorem paySelf (hself : p.recipient = p.sender) (hx : s.accounts.lookup p.sender = some x) :
    Carries s (p.apply versions)
      (t.putAccount p.sender (x.withVersion (p.apply versions p.sender))) := by
  refine h.put hx fun b => ?_
  by_cases hb : b = p.sender
  · rw [if_pos hb, hb]
  · rw [if_neg hb, apply_of_not_touches fun htouch => htouch.elim hb (hself ▸ hb)]

end

end Carries

section Payments

variable [Externals] {c : Context} {s t : Ledger} {versions : Address → Version} {tx : Transaction}
  {p : Payment}

/-- The checks of `execute_tx` before the arm pass. -/
def Transaction.WellFormed (tx : Transaction) : Prop :=
  tx.txType = tx.body.txType ∧ (tx.gasMeter.charge tx.body.gasCost).2 = none

instance : Decidable tx.WellFormed := inferInstanceAs (Decidable (_ ∧ _))

/-- The transaction makes the payment. -/
structure Payment.OfSides (p : Payment) (tx : Transaction) (recipient : Address) (amount : Nat) :
    Prop where
  sender : tx.sender = p.sender
  recipient : recipient = p.recipient
  nonce : tx.nonce = p.nonce
  amount : amount = p.amount

omit [Externals] in
theorem Payment.ofSides_transfer {body : TransferBody} (hbody : tx.body = .transfer body)
    (hpayment : tx.payment = some p) : p.OfSides tx body.recipient body.amount := by
  obtain rfl : ⟨tx.sender, body.recipient, tx.nonce, body.amount⟩ = p := by
    simpa [Transaction.payment, hbody] using hpayment
  exact ⟨rfl, rfl, rfl, rfl⟩

omit [Externals] in
theorem Payment.ofSides_settle {body : SettleBody} (hbody : tx.body = .settle body)
    (hpayment : tx.payment = some p) : p.OfSides tx body.agentId body.amount := by
  obtain rfl : ⟨tx.sender, body.agentId, tx.nonce, body.amount⟩ = p := by
    simpa [Transaction.payment, hbody] using hpayment
  exact ⟨rfl, rfl, rfl, rfl⟩

section Turn

/-- What a payable payment does. -/
def Paid (s : Ledger) (versions : Address → Version) {α : Type} :
    Except StateError α → Ledger → List StateRecord → Prop :=
  fun r u _ => r.isOk = true ∧ Carries s versions u

variable (hcarries : Carries s versions t) (hstored : ∀ a, p.Touches a → s.accounts.lookup a ≠ none)
  (hcache : ∀ a, p.Touches a → c.accountOf t a = t.accounts.lookup a)

include hcarries hstored

include hcache in
omit [Externals] in
theorem paid_transfer {body : TransferBody} (hof : p.OfSides tx body.recipient body.amount)
    (hpayable : p.Payable versions) :
    wp (executeTransfer c tx body) t (Paid s (p.apply versions)) := by
  obtain ⟨x, hx⟩ := Option.ne_none_iff_exists'.mp (hstored p.sender (.inl rfl))
  obtain ⟨y, hy⟩ := Option.ne_none_iff_exists'.mp (hstored p.recipient (.inr rfl))
  have hsender := (hcache p.sender (.inl rfl)).trans (hcarries.lookup hx)
  have hrecipient := (hcache p.recipient (.inr rfl)).trans (hcarries.lookup hy)
  obtain ⟨⟨hcovers, hnonce⟩, hnext, -, hroom⟩ := hpayable
  obtain ⟨hs, hr, hn, ha⟩ := hof
  have hbump : checkedAdd (versions p.sender).nonce 1 = some ((versions p.sender).nonce + 1) :=
    checkedAdd_eq_some.mpr ⟨rfl, hnext⟩
  by_cases hself : p.recipient = p.sender
  · have hpaid := hcarries.paySelf hself hx
    simp only [Payment.apply, hself] at hpaid
    simp [executeTransfer, hs, hr, hn, ha, hself, hsender, hbump, ← hnonce, hcovers]
    exact ⟨rfl, hpaid⟩
  · have hpaid := hcarries.pay hx hy
    have hroom := hroom hself
    simp only [Payment.apply, hself] at hpaid
    have hcredit : checkedAdd (versions p.recipient).balance p.amount =
        some ((versions p.recipient).balance + p.amount) := checkedAdd_eq_some.mpr ⟨rfl, hroom⟩
    simp [executeTransfer, hs, hr, hn, ha, hself, hsender, hrecipient, hbump, hcredit, checkedSub,
      ← hnonce, hcovers]
    exact ⟨rfl, hpaid⟩

omit [Externals] in
theorem paid_settle {body : SettleBody} (hof : p.OfSides tx body.agentId body.amount)
    (hpayable : p.Payable versions) :
    wp (executeSettle tx body) t (Paid s (p.apply versions)) := by
  obtain ⟨x, hx⟩ := Option.ne_none_iff_exists'.mp (hstored p.sender (.inl rfl))
  obtain ⟨y, hy⟩ := Option.ne_none_iff_exists'.mp (hstored p.recipient (.inr rfl))
  obtain ⟨⟨hcovers, hnonce⟩, hnext, hbalance, hroom⟩ := hpayable
  obtain ⟨hs, hr, hn, ha⟩ := hof
  have hsender := hcarries.accountOr hx
  simp [executeSettle, hs, hr, hn, ha, hsender, ← hnonce, hcovers]
  have hspent : (x.withVersion (versions p.sender)).spend p.amount =
      x.withVersion ⟨(versions p.sender).balance - p.amount, (versions p.sender).nonce + 1⟩ := by
    have hlt : (versions p.sender).nonce + 1 < 2 ^ 64 := by
      have hmax : u64Max + 1 = 2 ^ 64 := rfl
      omega
    unfold Account.spend Account.bumped
    rw [show ((x.withVersion (versions p.sender)).withBalance
      ((x.withVersion (versions p.sender)).balance - p.amount)).nonce =
        (versions p.sender).nonce from rfl, Nat.mod_eq_of_lt hlt]
    rfl
  rw [hspent, accountOr_putAccount]
  refine ⟨rfl, ?_⟩
  by_cases hself : p.recipient = p.sender
  · -- the credit gives back what was debited
    have hpaid := hcarries.paySelf hself hx
    simp only [Payment.apply, hself] at hpaid
    have hback : saturatingAdd ((versions p.sender).balance - p.amount) p.amount =
        (versions p.sender).balance := by
      rw [saturatingAdd, Nat.sub_add_cancel hcovers]
      exact min_eq_left hbalance
    simp only [hself, if_true, Account.balance_withVersion, hback, putAccount_putAccount]
    exact hpaid
  · have hpaid := hcarries.pay hx hy
    have hroom := hroom hself
    simp only [Payment.apply, hself] at hpaid
    have hcredit : saturatingAdd (versions p.recipient).balance p.amount =
        (versions p.recipient).balance + p.amount := min_eq_left hroom
    simp only [hself, if_false, hcarries.accountOr hy, Account.balance_withVersion, hcredit]
    exact hpaid

omit [Externals] hcarries hstored in
private theorem isOk_map {ε α β : Type} (f : α → β) (x : Except ε α) : (x.map f).isOk = x.isOk := by
  cases x <;> rfl

include hcache in
/-- A payable payment executes. -/
theorem executeTx_payable (hv3 : c.protocolV3 = false) (hpayment : tx.payment = some p)
    (hformed : tx.WellFormed) (hpayable : p.Payable versions) :
    wp (executeTx c tx) t (Paid s (p.apply versions)) := by
  obtain ⟨htype, hgas⟩ := hformed
  simp only [executeTx, requireTxType, hv3, htype, wp_require_bind, wp_chargeGas_bind, hgas,
    if_false, forall_const, not_true_eq_false, false_imp_iff, and_true,
    reduceCtorEq, implies_true]
  cases hbody : tx.body with
  | transfer body =>
    have hof := ofSides_transfer hbody hpayment
    simp only [executeBody, hv3, wp_flatGas_consumed]
    exact wp_mono (paid_transfer hcarries hstored hcache hof hpayable) fun r u _ hpaid =>
      ⟨(isOk_map _ r).trans hpaid.1, hpaid.2⟩
  | settle body =>
    have hof := ofSides_settle hbody hpayment
    simp only [executeBody, wp_flatGas_consumed]
    exact wp_mono (paid_settle hcarries hstored hof hpayable) fun r u _ hpaid =>
      ⟨(isOk_map _ r).trans hpaid.1, hpaid.2⟩
  | _ => simp [Transaction.payment, hbody] at hpayment

include hcache in
/-- A payment with a used nonce fails and changes nothing. -/
theorem executeTx_replayed (hv3 : c.protocolV3 = false) (hpayment : tx.payment = some p)
    (hnonce : (versions p.sender).nonce ≠ p.nonce) :
    wp (executeTx c tx) t fun r u _ => r.isOk = false ∧ u = t := by
  obtain ⟨x, hx⟩ := Option.ne_none_iff_exists'.mp (hstored p.sender (.inl rfl))
  have hsender := (hcache p.sender (.inl rfl)).trans (hcarries.lookup hx)
  have hor := hcarries.accountOr hx
  have hensure : t.ensure p.sender = t := ensure_of_lookup (hcarries.lookup hx)
  have herror : ∀ {α : Type} {e : StateError}, (Except.error e : Except StateError α).isOk = false :=
    rfl
  simp only [executeTx, requireTxType, hv3, wp_require_bind, wp_chargeGas_bind,
    Bool.false_eq_true, if_false]
  cases hbody : tx.body with
  | transfer body =>
    obtain ⟨hs, -, hn, -⟩ := ofSides_transfer hbody hpayment
    simp only [executeBody, hv3, wp_flatGas_consumed]
    simp [executeTransfer, hs, hn, hsender, hnonce, Except.map, herror]
  | settle body =>
    obtain ⟨hs, -, hn, -⟩ := ofSides_settle hbody hpayment
    simp only [executeBody, wp_flatGas_consumed]
    simp [executeSettle, hs, hn, hor, hnonce, hensure, Except.map, herror]
  | _ => simp [Transaction.payment, hbody] at hpayment

end Turn

/-! ## The pipeline against execution in order -/

variable {payments : List Payment} {transactions : List Transaction} {i k : Nat}

/-- Whether the payment succeeds in its turn. -/
def paidFlag (s : Ledger) (p : Payment) : Bool := !decide (p.Replayed (versionsOf s.accounts))

/-- The lists that the executor handles as execution in order does. -/
structure Resolvable (c : Context) (s : Ledger) (transactions : List Transaction)
    (payments : List Payment) : Prop where
  wellFormed : ∀ tx ∈ transactions, tx.WellFormed
  /-- No GPU copy stands in for an account of the list. -/
  uncached : ∀ p ∈ payments, ∀ a, p.Touches a → c.gpuCache.lookup a = none
  inOrder : InOrder (versionsOf s.accounts) payments

/-- A payment in its turn. -/
theorem executeTx_turn (hv3 : c.protocolV3 = false) (hpayment : tx.payment = some p)
    (hp : payments[k]? = some p) (hformed : tx.WellFormed) (hstored : Stored s.accounts payments)
    (hin : InOrder (versionsOf s.accounts) payments)
    (hcache : ∀ a, p.Touches a → c.accountOf t a = t.accounts.lookup a)
    (hcarries : Carries s (turnVersions s.accounts payments k) t) :
    Carries s (turnVersions s.accounts payments (k + 1)) ((executeTx c tx).run t).store ∧
      ((executeTx c tx).run t).result.isOk = paidFlag s p := by
  have hmem := mem_of_getElem? hp
  rw [turnVersions_succ hp, Payment.settle, paidFlag]
  by_cases hreplayed : p.Replayed (versionsOf s.accounts)
  · have hnonce : (turnVersions s.accounts payments k p.sender).nonce ≠ p.nonce :=
      hreplayed.nonce_ne _
    obtain ⟨hfails, hsame⟩ :=
      executeTx_replayed hcarries (hstored p hmem) hcache hv3 hpayment hnonce
    rw [if_pos hreplayed, hfails, hsame]
    exact ⟨hcarries, by simp [hreplayed]⟩
  · obtain ⟨hok, hpaid⟩ := executeTx_payable hcarries (hstored p hmem) hcache hv3 hpayment hformed
      (hin k p hp hreplayed).1
    rw [if_neg hreplayed, hok]
    exact ⟨hpaid, by simp [hreplayed]⟩

/-- Execution in order, from the turn of a payment. -/
theorem runInOrder_drop (hv3 : c.protocolV3 = false) (hof : PaymentsOf transactions payments)
    (hstored : Stored s.accounts payments) (hres : Resolvable c s transactions payments)
    (hk : k ≤ payments.length) (hcarries : Carries s (turnVersions s.accounts payments k) t) :
    Carries s (turnVersions s.accounts payments payments.length)
        (runInOrder c (transactions.drop k) t).1 ∧
      (runInOrder c (transactions.drop k) t).2 = (payments.drop k).map (paidFlag s) := by
  induction hn : payments.length - k generalizing k t with
  | zero =>
    obtain rfl : k = payments.length := by omega
    rw [drop_of_length_le (le_of_eq hof.length), drop_length]
    exact ⟨hcarries, rfl⟩
  | succ n ih =>
    obtain ⟨p, hp⟩ : ∃ p, payments[k]? = some p := ⟨_, List.getElem?_eq_getElem (by omega)⟩
    obtain ⟨tx, htx, hpayment⟩ := hof.getElem? hp
    obtain ⟨hnext, hflag⟩ := executeTx_turn hv3 hpayment hp
      (hres.wellFormed tx (mem_of_getElem? htx)) hstored hres.inOrder
      (fun a ha => by
        rw [Context.accountOf, hres.uncached p (mem_of_getElem? hp) a ha, Option.none_or])
      hcarries
    obtain ⟨hlast, hflags⟩ := ih (by omega) hnext (by omega)
    obtain ⟨hltx, rfl⟩ := List.getElem?_eq_some_iff.mp htx
    obtain ⟨hlp, rfl⟩ := List.getElem?_eq_some_iff.mp hp
    rw [drop_eq_getElem_cons hltx, drop_eq_getElem_cons hlp]
    exact ⟨hlast, by rw [runInOrder, hflag, hflags, map_cons]⟩

end Payments

/-! ## Applying the results -/

section Apply

variable {gpu : Bool} {state : PipelineState} {c : Context} {s : Ledger}
  {versions : Address → Version} {p : Payment} {payments : List Payment} {k : Nat}

/-- Where the GPU cache has an account of the payments, it has the ledger's copy. -/
def CacheCurrent (gpu : Bool) (payments : List Payment) (state : PipelineState) : Prop :=
  ∀ p ∈ payments, ∀ a, p.Touches a → state.context.gpuCache.lookup a = none ∨
    (gpu = true ∧ state.context.gpuCache.lookup a = state.ledger.accounts.lookup a)

section

variable {a : Address} (h : CacheCurrent gpu payments state)
include h

theorem CacheCurrent.accountOf (hp : p ∈ payments) (ha : p.Touches a) :
    state.context.accountOf state.ledger a = state.ledger.accounts.lookup a := by
  rw [Context.accountOf]
  rcases h p hp a ha with hnone | ⟨-, hsame⟩
  · rw [hnone, Option.none_or]
  · rw [hsame, Option.or_self]

theorem CacheCurrent.updateAccount : CacheCurrent gpu payments (state.updateAccount gpu a x) := by
  intro p hp b hb
  have hold := h p hp b hb
  unfold PipelineState.updateAccount
  simp only [lookup_putAccount]
  cases gpu with
  | false => simpa using hold
  | true =>
    simp only [if_true, FinMap.lookup_set]
    by_cases heq : b = a
    · simp [heq]
    · simpa [heq] using hold

end

/-- What the pipeline holds once the results below an index are applied. -/
structure Applied (gpu : Bool) (c : Context) (s : Ledger) (payments : List Payment) (k : Nat)
    (state : PipelineState) : Prop where
  protocol : state.context.protocolV3 = c.protocolV3
  cache : CacheCurrent gpu payments state
  carries : Carries s (turnVersions s.accounts payments k) state.ledger
  success : state.success =
    (payments.take k).map (paidFlag s) ++ List.replicate (payments.length - k) false

theorem protocolV3_updateAccount {a : Address} :
    (state.updateAccount gpu a x).context.protocolV3 = state.context.protocolV3 := by
  cases gpu <;> rfl

/-- Applying writes gives the named accounts their new versions. -/
theorem applyWrites_spec {ws : List (Address × Version)}
    (htouch : ∀ w ∈ ws, ∃ p ∈ payments, p.Touches w.1) (hnodup : (ws.map Prod.fst).Nodup)
    (hstored : Stored s.accounts payments) (hcache : CacheCurrent gpu payments state)
    (hcarries : Carries s versions state.ledger) :
    Carries s (fun a => (ws.lookup a).getD (versions a)) (state.applyWrites gpu ws).ledger ∧
      CacheCurrent gpu payments (state.applyWrites gpu ws) ∧
      (state.applyWrites gpu ws).context.protocolV3 = state.context.protocolV3 ∧
      (state.applyWrites gpu ws).success = state.success := by
  induction ws generalizing state versions with
  | nil => exact ⟨hcarries, hcache, rfl, rfl⟩
  | cons w ws ih =>
    obtain ⟨a, v⟩ := w
    obtain ⟨hnot, hrest⟩ := nodup_cons.mp hnodup
    obtain ⟨p, hp, ha⟩ := htouch (a, v) mem_cons_self
    obtain ⟨x, hx⟩ := Option.ne_none_iff_exists'.mp (hstored p hp a ha)
    have hold : state.context.accountOrNew state.ledger a = x.withVersion (versions a) := by
      rw [Context.accountOrNew, hcache.accountOf hp ha, hcarries.lookup hx, Option.getD_some]
    have hnext : Carries s (fun b => if b = a then v else versions b)
        (state.updateAccount gpu a ((state.context.accountOrNew state.ledger a).withVersion v)).ledger
        := by
      rw [hold]
      exact hcarries.put hx fun b => rfl
    obtain ⟨hledger, hcache', hprotocol, hsuccess⟩ :=
      ih (fun w' hw' => htouch w' (mem_cons_of_mem _ hw')) hrest hcache.updateAccount hnext
    refine ⟨?_, hcache', hprotocol.trans protocolV3_updateAccount, hsuccess⟩
    have hversions : (fun b => (List.lookup b ((a, v) :: ws)).getD (versions b)) =
        fun b => (ws.lookup b).getD (if b = a then v else versions b) := by
      funext b
      by_cases hb : b = a
      · subst hb
        have hlookup : ws.lookup b = none := by
          rw [lookup_eq_none_iff]
          intro e he
          exact bne_iff_ne.mpr fun heq => hnot (mem_map.mpr ⟨e, he, heq.symm⟩)
        simp [hlookup]
      · simp [lookup_cons, beq_eq_false_iff_ne.mpr hb, hb]
    rw [hversions]
    exact hledger

/-- Applying the result of a payment in its turn. -/
theorem Applied.applyResult (h : Applied gpu c s payments k state) (hp : payments[k]? = some p)
    (hstored : Stored s.accounts payments) (hin : InOrder (versionsOf s.accounts) payments)
    (hlive : ¬ p.Replayed (versionsOf s.accounts)) {r : SpeculativeResult}
    (hr : FinalResult s.accounts payments k p r) :
    Applied gpu c s payments (k + 1) (state.applyResult gpu r) := by
  obtain ⟨hindex, hsuccess, hwrites⟩ := hr
  have hk : k < payments.length := (List.getElem?_eq_some_iff.mp hp).1
  have hpayable : p.Payable (turnVersions s.accounts payments k) := (hin k p hp hlive).1
  have hmem := mem_of_getElem? hp
  have htouch : ∀ w ∈ r.accessSet.writes, ∃ q ∈ payments, q.Touches w.1 := by
    intro w hw
    rw [hwrites hlive] at hw
    refine ⟨p, hmem, ?_⟩
    unfold Payment.writes at hw
    split at hw
    · obtain rfl := mem_singleton.mp hw
      exact .inl rfl
    rcases mem_cons.mp hw with rfl | hw
    · exact .inl rfl
    · obtain rfl := mem_singleton.mp hw
      exact .inr rfl
  have hnodup : (r.accessSet.writes.map Prod.fst).Nodup := by
    rw [hwrites hlive]
    exact nodup_writes
  obtain ⟨hledger, hcache, hprotocol, hflags⟩ :=
    applyWrites_spec htouch hnodup hstored h.cache h.carries
  rw [PipelineState.applyResult, if_pos (hsuccess.mpr hlive)]
  refine ⟨hprotocol.trans h.protocol, hcache, ?_, ?_⟩
  · -- the versions written are those after the payment
    have hversions : (fun a => (r.accessSet.writes.lookup a).getD
        (turnVersions s.accounts payments k a)) = turnVersions s.accounts payments (k + 1) := by
      funext a
      rw [hwrites hlive, lookup_writes hpayable, turnVersions_succ hp, Payment.settle]
      split
      · rfl
      · rename_i ha
        exact (apply_of_not_touches ha).symm
    rw [← hversions]
    exact hledger
  · show ((state.applyWrites gpu r.accessSet.writes).success).set r.txIndex true = _
    have hlength : ((payments.take k).map (paidFlag s)).length = k := by
      rw [length_map, length_take]
      omega
    have hrest : payments.length - k = (payments.length - (k + 1)) + 1 := by omega
    rw [hflags, h.success, hindex, set_append_right _ _ (le_of_eq hlength), hlength,
      hrest, replicate_succ, take_add_one, hp]
    simp [paidFlag, hlive]

/-- A payment that is put off leaves the pipeline as it is. -/
theorem Applied.skip (h : Applied gpu c s payments k state) (hp : payments[k]? = some p)
    (hreplayed : p.Replayed (versionsOf s.accounts)) : Applied gpu c s payments (k + 1) state := by
  refine ⟨h.protocol, h.cache, ?_, ?_⟩
  · rw [turnVersions_succ hp, Payment.settle, if_pos hreplayed]
    exact h.carries
  · have hk : k < payments.length := (List.getElem?_eq_some_iff.mp hp).1
    have hrest : payments.length - k = (payments.length - (k + 1)) + 1 := by omega
    rw [h.success, hrest, replicate_succ, take_add_one, hp]
    simp [paidFlag, hreplayed]

/-- The results of the executor applied in index order. -/
theorem applied_take (gpu : Bool) {slots : List Slot} (hdone : Done s.accounts payments slots)
    (hstored : Stored s.accounts payments) (hin : InOrder (versionsOf s.accounts) payments)
    (huncached : ∀ p ∈ payments, ∀ a, p.Touches a → c.gpuCache.lookup a = none)
    (hk : k ≤ payments.length) :
    Applied gpu c s payments k (((slots.take k).filterMap Slot.resolved?).foldl
      (applyResult gpu) ⟨c, s, List.replicate payments.length false⟩) := by
  induction k with
  | zero =>
    exact ⟨rfl, fun p hp a ha => .inl (huncached p hp a ha), Carries.refl, by simp⟩
  | succ k ih =>
    have hprev := ih (by omega)
    obtain ⟨p, hp⟩ : ∃ p, payments[k]? = some p := ⟨_, List.getElem?_eq_getElem (by omega)⟩
    obtain ⟨r, hslot, hr⟩ := hdone.slot k p hp
    rw [take_add_one, hslot]
    by_cases hreplayed : p.Replayed (versionsOf s.accounts)
    · have hfailed : r.success = false := by
        rw [← Bool.not_eq_true]
        exact fun hok => hr.success.mp hok hreplayed
      simpa [Slot.resolved?, hfailed] using hprev.skip hp hreplayed
    · have hok : r.success = true := hr.success.mpr hreplayed
      simpa [Slot.resolved?, hok] using hprev.applyResult hp hstored hin hreplayed hr

end Apply

section Main

variable [Externals] {c : Context} {s : Ledger} {payments : List Payment}
  {transactions : List Transaction}

/-- A replayed payment that is put off to the end changes nothing there. -/
theorem fallBack_replayed {gpu : Bool} {state : PipelineState} {p : Payment} {i : Nat}
    (h : Applied gpu c s payments payments.length state) (hv3 : c.protocolV3 = false)
    (hof : PaymentsOf transactions payments) (hstored : Stored s.accounts payments)
    (hp : payments[i]? = some p) (hreplayed : p.Replayed (versionsOf s.accounts)) :
    state.fallBack transactions i = state := by
  obtain ⟨tx, htx, hpayment⟩ := hof.getElem? hp
  have hmem := mem_of_getElem? hp
  have hnonce : (turnVersions s.accounts payments payments.length p.sender).nonce ≠ p.nonce :=
    hreplayed.nonce_ne _
  obtain ⟨hfails, hsame⟩ := executeTx_replayed h.carries (hstored p hmem)
    (fun a ha => h.cache.accountOf hmem ha) (h.protocol.trans hv3) hpayment hnonce
  have hflag : state.success.set i false = state.success := by
    have hget : state.success[i]? = some false := by
      rw [h.success, take_length, Nat.sub_self, replicate_zero, append_nil, List.getElem?_map, hp]
      simp [paidFlag, hreplayed]
    obtain ⟨hi, hvalue⟩ := List.getElem?_eq_some_iff.mp hget
    rw [← hvalue, set_getElem_self]
  rw [fallBack, htx]
  dsimp only
  rw [hfails, hsame, hflag]

end Main

namespace Sample

/-- Two transfers of one account whose nonces are in the wrong order. -/
def swappedNonces : List Transaction :=
  [tx 21 1 (.transfer ⟨address 22, 5, none⟩), tx 21 0 (.transfer ⟨address 23, 5, none⟩)]

/-- Two transfers of one account in the order of their nonces, a settlement that spends the
    first, and a replay of the first. -/
def orderedPayments : List Transaction :=
  [tx 21 4 (.transfer ⟨address 22, 5, none⟩), tx 21 5 (.transfer ⟨address 23, 5, none⟩),
    tx 22 0 (.settle ⟨address 23, .zero, 3, 0, none⟩), tx 21 3 (.transfer ⟨address 22, 5, none⟩)]

end Sample

end ArcChain
