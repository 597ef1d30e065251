/-
Worker capacity reservations (`arc-assign`, `reservation.rs`): a request
holds one call slot on each of its workers until it ends.  `mayTake` looks
at the ledger before any slot is taken; that this is enough for a whole
list of workers, with repetitions, is `holds_le_slots`.
-/
import ArcChain.Lib.AssocMap
import ArcChain.Crypto.Hash

namespace ArcChain

open Word AssocMap List

def maxSlotsPerWorker : UInt32 := 64

inductive ReservationError where
  | unknownWorker
  | noFreeSlot
  | notHeld
  | alreadyExpired

/-- The slots of each worker, and `expires_at` of each (worker, request). -/
structure ReservationLedger where
  capacity : AssocMap Address UInt32
  held : AssocMap (Address × Hash256) UInt64

/-- The request is refund-eligible. -/
def ended (height expiresAt : UInt64) : Bool := expiresAt.toNat ≤ saturatingAdd height.toNat 1

namespace ReservationLedger

def new : ReservationLedger := ⟨∅, ∅⟩

variable (l : ReservationLedger)

def setCapacity (worker : Address) (slots : UInt32) : ReservationLedger :=
  { l with capacity := l.capacity.insert worker (min slots maxSlotsPerWorker) }

/-- `held.retain`, with the number of holds dropped. -/
def retainHeld (keep : Address × Hash256 → UInt64 → Bool) : Nat × ReservationLedger :=
  let held := retain keep l.held
  (l.held.keys.length - held.keys.length, { l with held := held })

def removeWorker (worker : Address) : Nat × ReservationLedger :=
  { l with capacity := l.capacity.erase worker }.retainHeld fun k _ => k.1 ≠ worker

/-- The holds on a worker. -/
def holds (worker : Address) : Nat := (l.held.keys.filter (·.1 = worker)).length

/-- The holds, clamped to 32 bits. -/
def heldOn (worker : Address) : Nat := min (l.holds worker) (2 ^ 32 - 1)

/-- `capacity.get(worker)`, 0 if there is none. -/
def slots (worker : Address) : Nat := ((l.capacity.lookup worker).getD 0).toNat

def free (worker : Address) : Nat := l.slots worker - l.heldOn worker

/-- The error, if there is one. -/
def mayTake (request : Hash256) (worker : Address) : Option ReservationError :=
  if worker ∉ l.capacity then some .unknownWorker
  else if (worker, request) ∉ l.held ∧ l.free worker = 0 then some .noFreeSlot
  else none

/-- `held.entry((worker, request)).or_insert(expires_at)`. -/
def take (request : Hash256) (expiresAt : UInt64) (l : ReservationLedger) (worker : Address) :
    ReservationLedger :=
  if (worker, request) ∈ l.held then l
  else { l with held := l.held.insert (worker, request) expiresAt }

def reserveAll (workers : List Address) (request : Hash256) (expiresAt height : UInt64) :
    Option ReservationError × ReservationLedger :=
  if ended height expiresAt then (some .alreadyExpired, l)
  else
    match workers.findSome? (l.mayTake request) with
    | some e => (some e, l)
    | none => (none, workers.foldl (take request expiresAt) l)

def release (request : Hash256) : Nat × ReservationLedger := l.retainHeld fun k _ => k.2 ≠ request

def reassign (request : Hash256) (source target : Address) :
    Option ReservationError × ReservationLedger :=
  match l.held.lookup (source, request) with
  | none => (some .notHeld, l)
  | some expiresAt =>
    if source = target then (none, l)
    else
      match l.mayTake request target with
      | some e => (some e, l)
      | none =>
        (none, take request expiresAt { l with held := l.held.erase (source, request) } target)

def sweep (height : UInt64) : Nat × ReservationLedger :=
  l.retainHeld fun _ expiresAt => !ended height expiresAt

inductive Call where
  | setCapacity (worker : Address) (slots : UInt32)
  | removeWorker (worker : Address)
  | reserveAll (workers : List Address) (request : Hash256) (expiresAt height : UInt64)
  | release (request : Hash256)
  | reassign (request : Hash256) (source target : Address)
  | sweep (height : UInt64)

/-- One call: its error, if there is one, and the ledger after it. -/
def step : Call → Option ReservationError × ReservationLedger
  | .setCapacity worker slots => (none, l.setCapacity worker slots)
  | .removeWorker worker => (none, (l.removeWorker worker).2)
  | .reserveAll workers request expiresAt height => l.reserveAll workers request expiresAt height
  | .release request => (none, (l.release request).2)
  | .reassign request source target => l.reassign request source target
  | .sweep height => (none, (l.sweep height).2)

/-- Every hold is on a worker with a capacity. -/
def Backed : Prop := ∀ k ∈ l.held, k.1 ∈ l.capacity

variable {l} {t : ReservationLedger} {k : Address × Hash256} {w : Address} {request : Hash256}
  {expiresAt : UInt64}

theorem mem_retainHeld {keep : Address × Hash256 → UInt64 → Bool} :
    k ∈ (l.retainHeld keep).2.held ↔ ∃ e, l.held.lookup k = some e ∧ keep k e = true := by
  simp only [mem_iff_lookup, retainHeld, lookup_retain_eq_some]

theorem mayTake_none (h : l.mayTake request w = none) :
    w ∈ l.capacity ∧ ((w, request) ∉ l.held → l.heldOn w < l.slots w) := by
  simp only [mayTake, free] at h
  grind

theorem capacity_take : (take request expiresAt l w).capacity = l.capacity := by
  unfold take
  split <;> rfl

theorem mem_take : k ∈ (take request expiresAt l w).held ↔ k ∈ l.held ∨ k = (w, request) := by
  unfold take
  split
  · rename_i hheld
    exact ⟨.inl, fun h => h.elim id fun heq => heq ▸ hheld⟩
  · rw [AList.mem_insert, or_comm]

/-- Taking a slot on each worker adds the holds of the listed workers and no others. -/
theorem takes_spec (request : Hash256) (expiresAt : UInt64) (workers : List Address)
    (l : ReservationLedger) :
    (workers.foldl (take request expiresAt) l).capacity = l.capacity ∧
      ∀ k, k ∈ (workers.foldl (take request expiresAt) l).held ↔
        k ∈ l.held ∨ k.1 ∈ workers ∧ k.2 = request := by
  induction workers generalizing l with
  | nil => simp
  | cons w workers ih =>
    obtain ⟨hcapacity, hheld⟩ := ih (take request expiresAt l w)
    refine ⟨hcapacity.trans capacity_take, fun k => (hheld k).trans ?_⟩
    rw [mem_take, mem_cons, Prod.ext_iff]
    tauto

/-- One more hold on a worker that had a free slot. -/
theorem holds_le_slots (hok : l.mayTake request w = none) (hnew : (w, request) ∉ l.held)
    (hadded : ∀ k ∈ t.held, k ∈ l.held ∨ k.2 = request) : t.holds w ≤ l.slots w := by
  have hsub : t.held.keys.filter (·.1 = w) ⊆ (w, request) :: l.held.keys.filter (·.1 = w) := by
    intro k hk
    obtain ⟨hkt, hkw⟩ := mem_filter.mp hk
    rw [mem_cons, mem_filter]
    rcases hadded k hkt with hold | hrequest
    · exact .inr ⟨hold, hkw⟩
    · exact .inl (Prod.ext (of_decide_eq_true hkw) hrequest)
  have hle : t.holds w ≤ l.holds w + 1 :=
    (subperm_of_subset (t.held.keys_nodup.filter _) hsub).length_le
  have hroom := (mayTake_none hok).2 hnew
  -- the clamp of `heldOn` is out of reach of a 32-bit capacity
  have hwidth : l.slots w < 2 ^ 32 := UInt32.toNat_lt _
  rw [heldOn] at hroom
  omega

/-- What a call guarantees: that holds stay backed, that a hold it adds fits, and that a failure
    changes nothing. -/
structure Kept (l : ReservationLedger) (o : Option ReservationError × ReservationLedger) :
    Prop where
  backed : o.2.Backed
  fits : ∀ k ∈ o.2.held, k ∉ l.held → o.2.holds k.1 ≤ o.2.slots k.1
  unchanged : o.1 ≠ none → o.2 = l

theorem Kept.same (h : l.Backed) {o : Option ReservationError} : Kept l (o, l) :=
  ⟨h, fun _ hk hnew => absurd hk hnew, fun _ => rfl⟩

/-- A call that adds no hold. -/
theorem Kept.drops (h : ∀ k ∈ t.held, k ∈ l.held ∧ k.1 ∈ t.capacity) : Kept l (none, t) :=
  ⟨fun k hk => (h k hk).2, fun k hk hnew => absurd (h k hk).1 hnew, nofun⟩

/-- A call that takes slots for a request. -/
theorem Kept.takes (request : Hash256) (h : l.Backed) (hcapacity : t.capacity = l.capacity)
    (hheld : ∀ k ∈ t.held, k ∈ l.held ∨ k.2 = request ∧ l.mayTake request k.1 = none) :
    Kept l (none, t) := by
  refine ⟨fun k hk => ?_, fun k hk hnew => ?_, nofun⟩
  · rw [hcapacity]
    rcases hheld k hk with hold | ⟨-, hok⟩
    · exact h k hold
    · exact (mayTake_none hok).1
  · obtain ⟨hrequest, hok⟩ := (hheld k hk).resolve_left hnew
    rw [slots, hcapacity]
    exact holds_le_slots hok (hrequest ▸ hnew) fun k' hk' => (hheld k' hk').imp_right And.left

/-- **Step lemma.** -/
theorem Kept.step (h : l.Backed) (call : Call) : Kept l (l.step call) := by
  cases call with
  | setCapacity worker slots =>
    exact drops fun k hk => ⟨hk, (AList.mem_insert _).mpr (.inr (h k hk))⟩
  | removeWorker worker =>
    refine drops fun k hk => ?_
    obtain ⟨e, he, hne⟩ := mem_retainHeld.mp hk
    have hmem := mem_iff_lookup.mpr ⟨e, he⟩
    exact ⟨hmem, AList.mem_erase.mpr ⟨of_decide_eq_true hne, h k hmem⟩⟩
  | release | sweep =>
    refine drops fun k hk => ?_
    obtain ⟨e, he, -⟩ := mem_retainHeld.mp hk
    have hmem := mem_iff_lookup.mpr ⟨e, he⟩
    exact ⟨hmem, h k hmem⟩
  | reserveAll workers request expiresAt height =>
    rw [ReservationLedger.step, reserveAll]
    split
    · exact same h
    split
    · exact same h
    -- every worker was checked before the first slot was taken
    rename_i hok
    obtain ⟨hcapacity, hheld⟩ := takes_spec request expiresAt workers l
    refine takes request h hcapacity fun k hk => ((hheld k).mp hk).imp_right ?_
    exact fun ⟨hmem, hrequest⟩ => ⟨hrequest, findSome?_eq_none_iff.mp hok _ hmem⟩
  | reassign request source target =>
    rw [ReservationLedger.step, reassign]
    split
    · exact same h
    split
    · exact same h
    split
    · exact same h
    -- the target was checked while the source still held its slot
    rename_i hok
    refine takes request h capacity_take fun k hk => (mem_take.mp hk).imp ?_ ?_
    · exact fun hold => (AList.mem_erase.mp hold).2
    · rintro rfl
      exact ⟨rfl, hok⟩

/-- **Run lemma.** -/
theorem backed_run (calls : List Call) :
    (calls.foldl (fun l call => (l.step call).2) new).Backed := by
  induction calls using List.reverseRecOn with
  | nil => exact nofun
  | append_singleton calls call ih =>
    rw [foldl_append]
    exact (Kept.step ih call).backed

/-- **No double booking.**  In every run each hold is on a worker with a capacity and stands once;
    a call that adds a hold leaves the worker within its capacity, a call that fails changes
    nothing, and a sweep leaves no request that has ended. -/
theorem ledger_never_double_books (calls : List Call) (call : Call) :
    let l := calls.foldl (fun l call => (l.step call).2) new
    let t := (l.step call).2
    l.Backed ∧ l.held.keys.Nodup ∧ (∀ k ∈ t.held, k ∉ l.held → t.holds k.1 ≤ t.slots k.1) ∧
      ((l.step call).1 ≠ none → t = l) ∧
      ∀ height, call = .sweep height → ∀ k expiresAt, t.held.lookup k = some expiresAt →
        ¬ expiresAt.toNat ≤ height.toNat + 1 := by
  intro l t
  have hkept := Kept.step (backed_run calls) call
  refine ⟨backed_run calls, l.held.keys_nodup, hkept.fits, hkept.unchanged, ?_⟩
  rintro height rfl k expiresAt hk hended
  have hkeep := (lookup_retain_eq_some.mp hk).2
  -- an expiry has 64 bits, so the saturation in `ended` changes nothing
  have hwidth : expiresAt.toNat ≤ u64Max := Nat.le_of_lt_succ expiresAt.toNat_lt
  have hends : ended height expiresAt = true := decide_eq_true (Nat.le_min.mpr ⟨hended, hwidth⟩)
  rw [hends] at hkeep
  cases hkeep

end ReservationLedger

end ArcChain
