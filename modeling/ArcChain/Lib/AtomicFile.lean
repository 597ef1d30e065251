/-
A file that is replaced through a temporary file: what a crash and what a
power cut leave of it.  A rename is visible at once but survives a power cut
for certain only after the directory was synced; the contents of a file
survive only after the file was synced.  `Holds P` says that whatever a
power cut leaves, the file's contents satisfy `P`.
-/
import Mathlib

/-- A file's contents and whether they were synced. -/
structure FileImage where
  bytes : List UInt8
  synced : Bool
deriving DecidableEq, Repr

/-- One path on disk: the file of the last synced directory entry, the files renamed over
    it since (newest first), and the temporary file beside it. -/
structure AtomicFile where
  linked : Option FileImage
  renamed : List FileImage
  temporary : Option FileImage
deriving DecidableEq, Repr

namespace AtomicFile

open List

/-- No file was ever written. -/
def missing : AtomicFile := { linked := none, renamed := [], temporary := none }

/-- The contents a read sees: those of the newest rename. -/
def read (f : AtomicFile) : Option (List UInt8) :=
  (f.renamed.head?.or f.linked).map FileImage.bytes

/-- Create (or truncate) the temporary file. -/
def create (f : AtomicFile) : AtomicFile := { f with temporary := some ⟨[], false⟩ }

/-- Write the temporary file's contents. -/
def write (bytes : List UInt8) (f : AtomicFile) : AtomicFile :=
  { f with temporary := some ⟨bytes, false⟩ }

/-- Sync the temporary file. -/
def sync (f : AtomicFile) : AtomicFile :=
  { f with temporary := f.temporary.map fun image => { image with synced := true } }

/-- Rename the temporary file over the path. -/
def rename (f : AtomicFile) : AtomicFile :=
  match f.temporary with
  | some image => { f with renamed := image :: f.renamed, temporary := none }
  | none => f

/-- Sync the directory: the newest rename is durable. -/
def syncDirectory (f : AtomicFile) : AtomicFile :=
  { f with linked := f.renamed.head?.or f.linked, renamed := [] }

/-- What a power cut leaves of a file: its contents if they were synced, else anything. -/
def FileImage.afterCut (torn : List UInt8) (image : FileImage) : FileImage :=
  if image.synced then image else ⟨torn, true⟩

/-- A power cut: the `lost` newest renames are undone, contents that were not synced are
    `torn`, and nothing is known about the temporary file. -/
def powerCut (lost : Nat) (torn : List UInt8) (temporary : Option FileImage) (f : AtomicFile) :
    AtomicFile :=
  { linked := ((f.renamed.drop lost).head?.or f.linked).map (FileImage.afterCut torn),
    renamed := [], temporary }

/-- Whatever survives a power cut, the path holds a file with contents in `P`. -/
structure Holds (P : List UInt8 → Prop) (f : AtomicFile) : Prop where
  linked : ∃ image, f.linked = some image ∧ image.synced = true ∧ P image.bytes
  renamed : ∀ image ∈ f.renamed, image.synced = true ∧ P image.bytes

variable {P Q : List UInt8 → Prop} {f : AtomicFile}

section

variable (h : f.Holds P)
include h

/-- `Holds` speaks of the path only, not of the temporary file. -/
theorem Holds.congr {g : AtomicFile} (hlinked : g.linked = f.linked)
    (hrenamed : g.renamed = f.renamed) : g.Holds P where
  linked := by
    rw [hlinked]
    exact h.linked
  renamed := by
    rw [hrenamed]
    exact h.renamed

/-- Either the newest of some renames or the linked file. -/
theorem Holds.head_or {l : List FileImage} (hl : ∀ image ∈ l, image ∈ f.renamed) :
    ∃ image, l.head?.or f.linked = some image ∧ image.synced = true ∧ P image.bytes := by
  cases l with
  | nil => exact h.linked
  | cons image rest =>
    have himage := h.renamed image (hl image mem_cons_self)
    exact ⟨image, rfl, himage⟩

theorem Holds.read : ∃ bytes, f.read = some bytes ∧ P bytes := by
  obtain ⟨image, hhead, -, hP⟩ := h.head_or (l := f.renamed) fun _ hmem => hmem
  refine ⟨image.bytes, ?_, hP⟩
  rw [AtomicFile.read, hhead]
  rfl

theorem Holds.syncDirectory : f.syncDirectory.Holds P where
  linked := h.head_or (l := f.renamed) fun _ hmem => hmem
  renamed _ hmem := absurd hmem not_mem_nil

theorem Holds.powerCut (lost : Nat) (torn : List UInt8)
    (temporary : Option FileImage) : (f.powerCut lost torn temporary).Holds P where
  linked := by
    obtain ⟨image, hhead, hsynced, hP⟩ :=
      h.head_or (l := f.renamed.drop lost) fun _ hmem => mem_of_mem_drop hmem
    refine ⟨image, ?_, hsynced, hP⟩
    rw [AtomicFile.powerCut, hhead, Option.map_some, FileImage.afterCut, if_pos hsynced]
  renamed _ hmem := absurd hmem not_mem_nil

/-- Renaming a synced temporary file over the path keeps what its contents satisfy. -/
theorem Holds.rename {bytes : List UInt8}
    (htemp : f.temporary = some ⟨bytes, true⟩) (hP : P bytes) : f.rename.Holds P := by
  rw [AtomicFile.rename, htemp]
  refine ⟨h.linked, ?_⟩
  intro image hmem
  rcases mem_cons.mp hmem with rfl | hmem
  · exact ⟨rfl, hP⟩
  · exact h.renamed image hmem

end

/-- Once the directory is synced after a rename, the renamed contents are durable. -/
theorem holds_syncDirectory_of_renamed {bytes : List UInt8}
    (hhead : f.renamed.head? = some ⟨bytes, true⟩) (hP : P bytes) : f.syncDirectory.Holds P where
  linked := by
    refine ⟨⟨bytes, true⟩, ?_, rfl, hP⟩
    rw [AtomicFile.syncDirectory, hhead]
    rfl
  renamed _ hmem := absurd hmem not_mem_nil

end AtomicFile
