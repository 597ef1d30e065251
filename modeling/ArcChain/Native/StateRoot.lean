/-
State roots as native blocks compute them: of the state as it is, and of
the state a block is about to publish (`projected_native_root`), which a
sealed header commits before anything is written.

A private chain commits its accounts alone; a recovery-bound chain commits
every consensus section.
-/
import ArcChain.Lib.Merkle
import ArcChain.Native.Db

namespace ArcChain

open Word

variable [NativeExternals]

namespace NativeDb

variable (db : NativeDb)

/-! ## Replacements -/

/-- The account replacements of a record, in order. -/
def setAccounts (accounts : FinMap Address Account) (updates : List (Address × Account)) :
    FinMap Address Account := FinMap.setAll accounts updates

/-- One storage row. -/
def setStorageRow (storage : FinMap Address (FinMap Hash256 Bytes)) (a : Address) (key : Hash256)
    (value : Option Bytes) : FinMap Address (FinMap Hash256 Bytes) :=
  FinMap.set storage a (some (FinMap.set ((storage.lookup a).getD ∅) key value))

/-- The storage replacements of a record, in order. -/
def setStorageRows (storage : FinMap Address (FinMap Hash256 Bytes))
    (updates : List (Address × Hash256 × Bytes)) : FinMap Address (FinMap Hash256 Bytes) :=
  updates.foldl (fun m e => setStorageRow m e.1 e.2.1 (some e.2.2)) storage

/-! ## The full consensus root -/

def commitSection (label : Bytes) (hash : Hash256) : Bytes :=
  beBytes 8 label.length ++ label ++ hash.toBytes

def commitSerialized (label : Bytes) (bytes : Bytes) : Bytes :=
  commitSection label (Crypto.blake3DeriveKey "ARC-full-state-section-v1"
    (beBytes 8 label.length ++ label ++ beBytes 8 bytes.length ++ bytes))

/-- A counted sequence. -/
def serializeList {α : Type} (f : α → Bytes) (l : List α) : Bytes :=
  leBytes 8 l.length ++ l.flatMap f

/-- A byte string. -/
def serializeBytes (b : Bytes) : Bytes := leBytes 8 b.length ++ b

/-- The storage section: accounts in order, the rows of each in order. -/
def storageSection (storage : FinMap Address (FinMap Hash256 Bytes)) :
    List (Address × List (Hash256 × Bytes)) :=
  (FinMap.toSortedList storage).map fun e => (e.1, FinMap.toSortedList e.2)

/-- `consensus_state_root_from_sections`, with the other sections of the state. -/
def consensusStateRoot (context : RecoveryContext) (accounts : List (Address × Account))
    (storage : List (Address × List (Hash256 × Bytes))) : Hash256 :=
  Crypto.blake3DeriveKey "ARC-full-consensus-state-v1"
    (commitSection (asciiBytes "domain") context.domainHash ++
      commitSerialized (asciiBytes "accounts")
        (serializeList (fun e => e.1.toBytes ++ e.2.serialize) accounts) ++
      commitSerialized (asciiBytes "storage")
        (serializeList (fun e => e.1.toBytes ++
          serializeList (fun r => r.1.toBytes ++ serializeBytes r.2) e.2) storage) ++
      commitSerialized (asciiBytes "contracts")
        (serializeList (fun e => e.1.toBytes ++ serializeBytes e.2)
          (FinMap.toSortedList db.ledger.contracts)) ++
      commitSerialized (asciiBytes "identities") db.identities ++
      commitSerialized (asciiBytes "validators")
        (serializeList (fun e => e.1.toBytes ++ leBytes 8 e.2)
          (FinMap.toSortedList db.ledger.validators)) ++
      commitSerialized (asciiBytes "staking_pool") (leBytes 8 db.ledger.stakingPool) ++
      commitSerialized (asciiBytes "community_rewards_v1_activation_height")
        (match db.communityRewardsV1ActivationHeight with
          | none => [0]
          | some height => 1 :: leBytes 8 height))

/-! ## Roots -/

/-- The leaf of an account in the account tree. -/
def accountLeaf (account : Account) : Hash256 := hashBytes account.serialize

/-- The root of the account tree built from scratch. -/
def accountRoot (accounts : FinMap Address Account) : Hash256 :=
  Merkle.root hashPair .zero ((FinMap.toSortedList accounts).map fun e => accountLeaf e.2)

/-- `compute_state_root` on a state that has built no tree yet. -/
def computeStateRoot : Hash256 :=
  match db.recoveryContext with
  | some context => db.consensusStateRoot context (FinMap.toSortedList db.ledger.accounts)
      (storageSection db.ledger.storage)
  | none => if db.useJmt = true then NativeExternals.jmtStateRoot db.ledger.accounts
      else accountRoot db.ledger.accounts

/-- Replace the entry of a key in a section, or add one at the end. -/
def replaceEntry {ν : Type} (key : Hash256) (f : Option ν → ν) :
    List (Hash256 × ν) → List (Hash256 × ν)
  | [] => [(key, f none)]
  | (k, v) :: rest =>
    if k = key then (k, f (some v)) :: rest else (k, v) :: replaceEntry key f rest

/-- Sort a section by its keys. -/
def sortSection {ν : Type} (entries : List (Hash256 × ν)) : List (Hash256 × ν) :=
  entries.insertionSort fun a b => a.1 ≤ b.1

/-- The rows of one account with one of them replaced. -/
def replaceRow (key : Hash256) (value : Bytes) (rows : Option (List (Hash256 × Bytes))) :
    List (Hash256 × Bytes) :=
  match rows with
  | none => [(key, value)]
  | some rows =>
    if rows.any (fun e => e.1 == key) = true then replaceEntry key (fun _ => value) rows
    else sortSection (rows ++ [(key, value)])

def computeRecoveryStateRootWith (context : RecoveryContext)
    (replacements : List (Address × Account))
    (storageReplacements : List (Address × Hash256 × Bytes)) : Hash256 :=
  let accounts := replacements.foldl (fun l e => replaceEntry e.1 (fun _ => e.2) l)
    (FinMap.toSortedList db.ledger.accounts)
  let storage := storageReplacements.foldl
    (fun l e => replaceEntry e.1 (replaceRow e.2.1 e.2.2) l)
    (storageSection db.ledger.storage)
  db.consensusStateRoot context (sortSection accounts) (sortSection storage)

def projectedNativeRoot (replacements : List (Address × Account))
    (storageReplacements : List (Address × Hash256 × Bytes)) : Hash256 :=
  match db.recoveryContext with
  | some context => db.computeRecoveryStateRootWith context replacements storageReplacements
  | none =>
    let accounts := setAccounts db.ledger.accounts replacements
    if db.useJmt = true then NativeExternals.jmtStateRoot accounts else accountRoot accounts

end NativeDb

end ArcChain
