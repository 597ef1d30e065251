/-
The coordinator's books (`arc-assign`, `book.rs`): the latest lease of each
worker, and the workers excluded for the epoch.

Both keep one entry a worker, and both forget.  An evicted lease takes the
highest nonce with it, so replays are ignored only until then
(`accepted_nonces_increase`).  A fault does not replace an exclusion for
failures, which can be forgiven (`fault_excludes_iff`).
-/
import ArcChain.Lib.AssocMap
import ArcChain.Crypto.Hash

namespace ArcChain

open AssocMap Option

/-! ## Exclusions -/

inductive Participant where
  | coordinator
  | worker (address : Address)

inductive Finding where
  | agrees
  | fault (stage : Nat) (participant : Participant) (expectedDigest foundDigest : Hash256)

inductive Exclusion where
  | fault (certificate : Hash256) (stage : Nat) (expectedDigest foundDigest : Hash256)
  | failures (count : Nat)

/-- Exclusions and consecutive-failure counts for the current epoch. -/
structure Exclusions where
  excluded : AssocMap Address Exclusion
  failures : AssocMap Address Nat

def failuresBeforeExclusion : Nat := 3

namespace Exclusions

variable (x : Exclusions)

def fault (certificate : Hash256) : Finding → Option Address × Exclusions
  | .fault stage (.worker w) expected found =>
    -- `entry(worker).or_insert(..)`
    let entry := (x.excluded.lookup w).getD (.fault certificate stage expected found)
    (some w, ⟨x.excluded.insert w entry, x.failures.erase w⟩)
  | _ => (none, x)

def callFailed (w : Address) : Bool × Exclusions :=
  if w ∈ x.excluded then (false, x)
  else
    let count := (x.failures.lookup w).getD 0 + 1
    if count < failuresBeforeExclusion then
      (false, { x with failures := x.failures.insert w count })
    else (true, ⟨x.excluded.insert w (.failures count), x.failures.erase w⟩)

def callSucceeded (w : Address) : Exclusions := { x with failures := x.failures.erase w }

def forgiveFailures (w : Address) : Bool × Exclusions :=
  match x.excluded.lookup w with
  | some (.failures _) => (true, ⟨x.excluded.erase w, x.failures.erase w⟩)
  | _ => (false, { x with failures := x.failures.erase w })

def isExcluded (w : Address) : Bool := (x.excluded.lookup w).isSome

/-- The calls that stay within one epoch and member set. -/
inductive Call where
  | fault (certificate : Hash256) (finding : Finding)
  | callFailed (w : Address)
  | callSucceeded (w : Address)
  | forgiveFailures (w : Address)

def step : Call → Exclusions
  | .fault certificate finding => (x.fault certificate finding).2
  | .callFailed w => (x.callFailed w).2
  | .callSucceeded w => x.callSucceeded w
  | .forgiveFailures w => (x.forgiveFailures w).2

end Exclusions

structure Offer where
  worker : Address
  transportId : String
  ramHeadroomBytes : Nat
  claimedMacsPerS : Option Nat
  residentLayers : List (Nat × Nat)
  residentOutput : Bool
  digest : Hash256

/-- A worker eligible for placement, over the type of link measurements. -/
structure Candidate (Link : Type) where
  worker : Address
  transportId : String
  macsPerS : Nat
  ramHeadroomBytes : Nat
  maxConcurrency : Nat
  link : Link
  residentLayers : List (Nat × Nat)
  residentOutput : Bool

/-- What the other books answer: `challenges.measured`, `ledger.free` and `probes.link`. -/
structure Answers (Link : Type) where
  measured : Address → Option Nat
  free : Address → Nat
  link : Address → Option Link

variable {Link : Type}

/-- One round of `candidates_from`. -/
def candidateOf (books : Answers Link) (x : Exclusions) (offer : Offer) :
    Option (Candidate Link × Hash256) :=
  if x.isExcluded offer.worker then none
  else do
    let measured ← books.measured offer.worker
    let slots := books.free offer.worker
    if slots = 0 then none
    else
      let link ← books.link offer.worker
      some (⟨offer.worker, offer.transportId, offer.claimedMacsPerS.elim measured (min measured ·),
        offer.ramHeadroomBytes, slots, link, offer.residentLayers, offer.residentOutput⟩,
        offer.digest)

def candidatesFrom (offers : List Offer) (books : Answers Link) (x : Exclusions) :
    List (Candidate Link) × List Hash256 :=
  (offers.filterMap (candidateOf books x)).unzip

/-- The worker is excluded, and is no candidate whatever it offers. -/
def Exclusions.Out (x : Exclusions) (w : Address) : Prop :=
  x.isExcluded w = true ∧ ∀ (Link : Type) (offers : List Offer) (books : Answers Link),
    ∀ candidate ∈ (candidatesFrom offers books x).1, candidate.worker ≠ w

/-- The worker is excluded for a fault. -/
def Exclusions.Faulty (x : Exclusions) (w : Address) : Prop :=
  ∃ certificate stage expected found,
    x.excluded.lookup w = some (.fault certificate stage expected found)

section Faults

open Exclusions

variable {x : Exclusions} {w : Address}

theorem worker_candidateOf {offer : Offer} {books : Answers Link} {c : Candidate Link × Hash256}
    (h : candidateOf books x offer = some c) : x.isExcluded c.1.worker = false := by
  unfold candidateOf at h
  split at h
  · cases h
  rename_i hout
  simp only [bind_eq_bind, bind_eq_some_iff] at h
  obtain ⟨measured, -, h⟩ := h
  split at h
  · cases h
  · obtain ⟨link, -, h⟩ := bind_eq_some_iff.mp h
    obtain rfl := Option.some.inj h
    exact Bool.eq_false_iff.mpr hout

theorem Exclusions.Faulty.out (h : x.Faulty w) : x.Out w := by
  obtain ⟨c, stage, e, f, h⟩ := h
  have hexcluded : x.isExcluded w = true := by rw [isExcluded, h, isSome_some]
  refine ⟨hexcluded, ?_⟩
  rintro Link offers books candidate hmem rfl
  rw [candidatesFrom, List.unzip_fst, List.mem_map] at hmem
  obtain ⟨c, hc, rfl⟩ := hmem
  obtain ⟨offer, -, hoffer⟩ := List.mem_filterMap.mp hc
  rw [worker_candidateOf hoffer] at hexcluded
  cases hexcluded

/-- **Step lemma.**  No call of the epoch replaces the entry of a fault. -/
theorem Exclusions.Faulty.step (h : x.Faulty w) (call : Call) : (x.step call).Faulty w := by
  obtain ⟨c, stage, e, f, h⟩ := h
  suffices hentry : (x.step call).excluded.lookup w = x.excluded.lookup w from
    ⟨c, stage, e, f, hentry.trans h⟩
  cases call with
  | fault certificate finding =>
    match finding with
    | .agrees | .fault _ .coordinator _ _ => rfl
    | .fault _ (.worker v) _ _ =>
      refine (lookup_insert ..).trans ?_
      split
      · -- `or_insert` leaves the entry that is there
        rename_i heq
        rw [← heq, h, getD_some]
      · rfl
  | callFailed v =>
    rw [Exclusions.step, callFailed]
    split
    · rfl
    -- only a worker that is not excluded is counted
    rename_i hnew
    have hne : w ≠ v := fun heq => hnew (heq ▸ mem_iff_lookup.mpr ⟨_, h⟩)
    dsimp only
    split
    · rfl
    · exact AList.lookup_insert_ne hne
  | callSucceeded v => rfl
  | forgiveFailures v =>
    rw [Exclusions.step, forgiveFailures]
    split
    · rename_i hfailures
      have hne : w ≠ v := fun heq => by rw [← heq, h] at hfailures; cases hfailures
      exact AList.lookup_erase_ne hne
    · rfl

/-- **Run lemma.** -/
theorem Exclusions.Faulty.run (h : x.Faulty w) (calls : List Call) :
    (calls.foldl Exclusions.step x).Faulty w := by
  induction calls generalizing x with
  | nil => exact h
  | cons call calls ih => exact ih (h.step call)

/-- **A proven fault excludes for the epoch** exactly if the worker was not already excluded for
    failures. -/
theorem fault_excludes_iff (x : Exclusions) (w : Address) (certificate expected found : Hash256)
    (stage : Nat) :
    (∀ calls, (List.foldl step
      (x.fault certificate (.fault stage (.worker w) expected found)).2 calls).Out w) ↔
      ∀ n, x.excluded.lookup w ≠ some (.failures n) := by
  generalize hy : (x.fault certificate (.fault stage (.worker w) expected found)).2 = y
  have hentry : y.excluded.lookup w =
      some ((x.excluded.lookup w).getD (.fault certificate stage expected found)) := by
    rw [← hy]
    exact AList.lookup_insert _
  constructor
  · -- forgiving the failures lets the worker back in
    intro hout n hn
    have hforgiven := (hout [.forgiveFailures w]).1
    rw [hn, getD_some] at hentry
    rw [List.foldl_cons, List.foldl_nil, step, forgiveFailures, hentry,
      isExcluded, AList.lookup_erase] at hforgiven
    cases hforgiven
  · intro hnone calls
    have hfaulty : y.Faulty w := by
      rw [Faulty, hentry]
      match hx : x.excluded.lookup w with
      | none => exact ⟨_, _, _, _, rfl⟩
      | some (.fault c s e f) => exact ⟨c, s, e, f, rfl⟩
      | some (.failures n) => exact absurd hx (hnone n)
    exact (hfaulty.run calls).out

end Faults

/-- Three failed calls, then a fault, then a reconnect. -/
theorem forgiven_after_fault :
    (List.foldl Exclusions.step ⟨∅, ∅⟩ [.callFailed .zero, .callFailed .zero, .callFailed .zero,
      .fault .zero (.fault 0 (.worker .zero) .zero .zero), .forgiveFailures .zero]).isExcluded
        .zero = false := by
  decide

/-! ## Leases -/

structure LeaseBody where
  version : Nat
  worker : Address
  transportId : String
  artifactId : Hash256
  executionProfile : String
  backend : String
  kernelSet : Hash256
  operators : Finset String
  ramHeadroomBytes : Nat
  claimedMacsPerS : Nat
  maxConcurrency : Nat
  warmRows : List (String × Nat)
  residentLayers : List (Nat × Nat)
  issuedAtHeight : Nat
  expiresAtHeight : Nat
  nonce : Nat

structure CapabilityLease where
  body : LeaseBody
  signature : Signature

inductive LeaseError where
  | signature
  | notMember
  | wrongModel
  | missingOperator (operator : String)
  | expired (expired now : Nat)
  | notYetValid
  | version (version : Nat)

structure LeaseRequirements where
  members : Finset Address
  artifactId : Hash256
  executionProfile : String
  operator : String
  height : Nat

inductive Offered where
  | accepted
  | stale

/-- The latest valid lease per worker. -/
abbrev LeaseBook := AssocMap Address CapabilityLease

/-- `retain_current`, with the workers evicted. -/
def LeaseBook.retainCurrent (book : LeaseBook) (members : Finset Address) (height : Nat) :
    List Address × LeaseBook :=
  let keep := fun w (lease : CapabilityLease) => w ∈ members ∧ height < lease.body.expiresAtHeight
  ((retain (fun w lease => ¬ keep w lease) book).keys.mergeSort, retain (keep · ·) book)

inductive LeaseCall where
  | offer (offered : CapabilityLease) (req : LeaseRequirements)
  | retainCurrent (members : Finset Address) (height : Nat)

section Leases

-- whether a signature verifies for the worker, over the transcript of the body
variable (verifies : LeaseBody → Signature → Bool)

/-- `lease::validate`. -/
def validateLease (lease : CapabilityLease) (req : LeaseRequirements) : Except LeaseError Unit :=
  let b := lease.body
  if b.version ≠ 1 then .error (.version b.version)
  else if ¬ verifies b lease.signature then .error .signature
  else if b.worker ∉ req.members then .error .notMember
  else if b.artifactId ≠ req.artifactId ∨ b.executionProfile ≠ req.executionProfile then
    .error .wrongModel
  else if req.operator ∉ b.operators then .error (.missingOperator req.operator)
  else if req.height < b.issuedAtHeight then .error .notYetValid
  else if b.expiresAtHeight ≤ req.height then .error (.expired b.expiresAtHeight req.height)
  else .ok ()

def LeaseBook.offer (book : LeaseBook) (offered : CapabilityLease) (req : LeaseRequirements) :
    Except LeaseError Offered × LeaseBook :=
  match validateLease verifies offered req with
  | .error e => (.error e, book)
  | .ok () =>
    if (book.lookup offered.body.worker).any (offered.body.nonce ≤ ·.body.nonce) then
      (.ok .stale, book)
    else (.ok .accepted, book.insert offered.body.worker offered)

/-- One call on the book, and on the nonces of the leases accepted for `w` since it was last
    evicted, newest first. -/
def leaseStep (w : Address) : LeaseBook × List Nat → LeaseCall → LeaseBook × List Nat
  | (book, accepted), .offer offered req =>
    match book.offer verifies offered req with
    | (.ok .accepted, book) =>
      (book, if offered.body.worker = w then offered.body.nonce :: accepted else accepted)
    | (_, book) => (book, accepted)
  | (book, accepted), .retainCurrent members height =>
    let kept := book.retainCurrent members height
    (kept.2, if w ∈ kept.1 then [] else accepted)

/-- The nonces decrease from the newest on, and the book holds none older. -/
structure Increasing (w : Address) (s : LeaseBook × List Nat) : Prop where
  decreasing : s.2.Pairwise (· > ·)
  held : ∀ n ∈ s.2, ∃ lease, s.1.lookup w = some lease ∧ n ≤ lease.body.nonce

variable {verifies} {w : Address} {s : LeaseBook × List Nat}

/-- **Step lemma.** -/
theorem Increasing.step (h : Increasing w s) (call : LeaseCall) :
    Increasing w (leaseStep verifies w s call) := by
  obtain ⟨book, accepted⟩ := s
  cases call with
  | offer offered req =>
    rw [leaseStep, LeaseBook.offer]
    cases validateLease verifies offered req with
    | error e => exact h
    | ok _ =>
      by_cases hstale : (book.lookup offered.body.worker).any (offered.body.nonce ≤ ·.body.nonce)
      · rw [if_pos hstale]
        exact h
      rw [if_neg hstale]
      dsimp only
      split
      · rename_i heq
        subst heq
        -- the held lease, if there is one, is older than the offered one
        have hnewer : ∀ n ∈ accepted, n < offered.body.nonce := fun n hn => by
          obtain ⟨lease, hlease, hle⟩ := h.held n hn
          rw [hlease, any_some, decide_eq_true_iff] at hstale
          omega
        refine ⟨.cons hnewer h.decreasing, fun n hn => ⟨offered, AList.lookup_insert _, ?_⟩⟩
        rcases List.mem_cons.mp hn with rfl | hn
        · exact Nat.le_refl _
        · exact (hnewer n hn).le
      · rename_i hne
        refine ⟨h.decreasing, fun n hn => ?_⟩
        rw [lookup_insert, if_neg (Ne.symm hne)]
        exact h.held n hn
  | retainCurrent members height =>
    dsimp only [leaseStep]
    split
    · exact ⟨.nil, nofun⟩
    -- a worker that is not among the evicted keeps its lease
    rename_i hkept
    refine ⟨h.decreasing, fun n hn => ?_⟩
    obtain ⟨lease, hlease, hle⟩ := h.held n hn
    refine ⟨lease, lookup_retain_eq_some.mpr ⟨hlease, ?_⟩, hle⟩
    by_contra hgone
    refine hkept (List.mem_mergeSort.mpr (mem_iff_lookup.mpr ⟨lease, ?_⟩))
    exact lookup_retain_eq_some.mpr ⟨hlease, decide_eq_true fun h => hgone (decide_eq_true h)⟩

/-- **Replay protection**, until the worker is evicted: the nonces of the leases accepted for it
    since then increase. -/
theorem accepted_nonces_increase (calls : List LeaseCall) :
    (calls.foldl (leaseStep verifies w) (∅, [])).2.Pairwise (· > ·) := by
  have hrun : Increasing w (calls.foldl (leaseStep verifies w) (∅, [])) := by
    induction calls using List.reverseRecOn with
    | nil => exact ⟨.nil, nofun⟩
    | append_singleton calls call ih =>
      rw [List.foldl_append]
      exact ih.step call
  exact hrun.decreasing

end Leases

namespace SampleLease

def offer (nonce expires height : Nat) : LeaseCall :=
  .offer ⟨⟨1, .zero, "", .zero, "", "", .zero, {""}, 0, 0, 0, [], [], 0, expires, nonce⟩,
    .secp256k1 []⟩ ⟨{.zero}, .zero, "", "", height⟩

def accepted (calls : List LeaseCall) : List Nat :=
  (calls.foldl (leaseStep (fun _ _ => true) .zero) (∅, [])).2

/-- Once the newer lease is evicted, the older one is accepted. -/
theorem older_lease_accepted : accepted [offer 2 5 1] = [2] ∧
    accepted [offer 2 5 1, .retainCurrent {.zero} 5, offer 1 9 6] = [1] := by
  decide +kernel

end SampleLease

end ArcChain
