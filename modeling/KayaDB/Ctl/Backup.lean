import KayaDB.Library.Ascii
import KayaDB.Server.RaftFiles

/-! Backups of a stopped node. An incremental one leaves out every file that the
destination has with the same length, whatever its bytes. That suits files which
are written once, but the hard state of a Raft group never changes its length. -/

namespace KayaDB.Ctl
open Ascii
open Raft (Bytes)

abbrev Path := List Text

/-- A directory as it is read, entry by entry. -/
inductive Listing where
  | nil
  | file (name : Text) (bytes : Bytes) (rest : Listing)
  | dir (name : Text) (inner rest : Listing)
  | special (name : Text) (rest : Listing)

abbrev Files := Path → Option Bytes

structure BackupReport where
  copied : Nat
  skipped : Nat
  bytesCopied : Nat

/-- The name up to its last dot, unless that is its first character. -/
def fileStem (name : Text) : Text :=
  match name.reverse.dropWhile (· ≠ 46) with
  | _ :: last :: stem => (last :: stem).reverse
  | _ => name

def tmpName (name : Text) : Text := fileStem name ++ ascii ".kaya-backup-tmp"

def sameSize (dest : Files) (path : Path) (len : Nat) : Bool := (dest path).any fun bytes => bytes.length == len

theorem sameSize_iff {dest : Files} {path : Path} {len : Nat} :
    sameSize dest path len = true ↔ ∃ bytes, dest path = some bytes ∧ bytes.length = len := by
  unfold sameSize
  cases dest path <;> simp

def copyFileAtomic (dest : Files) (dir : Path) (name : Text) (bytes : Bytes) : Files :=
  Function.update (Function.update dest (dir ++ [tmpName name]) none) (dir ++ [name]) (some bytes)

def copyFile (incremental : Bool) (state : Files × BackupReport) (dir : Path) (name : Text) (bytes : Bytes) :
    Files × BackupReport :=
  if incremental && sameSize state.1 (dir ++ [name]) bytes.length then
    (state.1, { state.2 with skipped := state.2.skipped + 1 })
  else
    (copyFileAtomic state.1 dir name bytes,
      { state.2 with copied := state.2.copied + 1, bytesCopied := state.2.bytesCopied + bytes.length })

/-- Links and other special files are skipped. -/
def copyTree (incremental : Bool) (dir : Path) (state : Files × BackupReport) : Listing → Files × BackupReport
  | .nil => state
  | .dir name inner rest => copyTree incremental dir (copyTree incremental (dir ++ [name]) state inner) rest
  | .file name bytes rest => copyTree incremental dir (copyFile incremental state dir name bytes) rest
  | .special _ rest => copyTree incremental dir state rest

def Listing.files (dir : Path) : Listing → List (Path × Text × Bytes)
  | .nil => []
  | .file name bytes rest => (dir, name, bytes) :: rest.files dir
  | .dir name inner rest => inner.files (dir ++ [name]) ++ rest.files dir
  | .special _ rest => rest.files dir

theorem copyTree_eq (incremental : Bool) (listing : Listing) : ∀ (dir : Path) (state : Files × BackupReport),
    copyTree incremental dir state listing = (listing.files dir).foldl
      (fun state file => copyFile incremental state file.1 file.2.1 file.2.2) state := by
  induction listing with
  | nil => exact fun _ _ => rfl
  | special name rest ih => exact ih
  | file name bytes rest ih => exact fun dir state => ih dir _
  | dir name inner rest ihInner ihRest =>
    intro dir state
    rw [copyTree, ihInner, ihRest, Listing.files, List.foldl_append]

def place (file : Path × Text × Bytes) : Path := file.1 ++ [file.2.1]

/-- A directory has a name once, and the backup's own names are not used in it. -/
structure Proper (files : List (Path × Text × Bytes)) : Prop where
  distinct : (files.map place).Nodup
  plain : ∀ file ∈ files, ∀ dir name, place file ≠ dir ++ [tmpName name]

/-- What an incremental backup leaves at the place of a file. -/
def due (before : Files) (file : Path × Text × Bytes) : Option Bytes :=
  if sameSize before (place file) file.2.2.length then before (place file) else some file.2.2

section
variable (state : Files × BackupReport) (file : Path × Text × Bytes)

theorem copyFile_due : (copyFile true state file.1 file.2.1 file.2.2).1 (place file) = due state.1 file := by
  unfold copyFile due
  rw [Bool.true_and, ← place]
  split
  · rfl
  · exact Function.update_self _ _ _

theorem copyFile_other {path : Path} (apart : path ≠ place file) (plain : ∀ dir name, path ≠ dir ++ [tmpName name]) :
    (copyFile true state file.1 file.2.1 file.2.2).1 path = state.1 path := by
  unfold copyFile
  split
  · rfl
  · exact (Function.update_of_ne apart _ _).trans (Function.update_of_ne (plain _ _) _ _)

end

theorem copyFiles_due (files : List (Path × Text × Bytes)) : ∀ state : Files × BackupReport, Proper files →
    (∀ file ∈ files, (files.foldl (fun state file => copyFile true state file.1 file.2.1 file.2.2) state).1
      (place file) = due state.1 file) ∧
    ∀ path, path ∉ files.map place → (∀ dir name, path ≠ dir ++ [tmpName name]) →
      (files.foldl (fun state file => copyFile true state file.1 file.2.1 file.2.2) state).1 path = state.1 path := by
  induction files with
  | nil => exact fun state _ => ⟨(fun _ inside => nomatch inside), fun _ _ _ => rfl⟩
  | cons first rest ih =>
    intro state proper
    obtain ⟨fresh, distinct⟩ := List.nodup_cons.mp proper.distinct
    obtain ⟨dues, still⟩ := ih (copyFile true state first.1 first.2.1 first.2.2)
      ⟨distinct, fun file inside => proper.plain file (List.mem_cons_of_mem _ inside)⟩
    refine ⟨fun file inside => ?_, fun path outside plain => ?_⟩
    · have plain := proper.plain file inside
      rcases List.mem_cons.mp inside with rfl | later
      · exact (still _ fresh plain).trans (copyFile_due state file)
      · refine (dues file later).trans ?_
        rw [due, sameSize, copyFile_other state first (fun same => fresh (same ▸ List.mem_map_of_mem later)) plain]
        rfl
    · obtain ⟨apart, outside⟩ := List.ne_and_not_mem_of_not_mem_cons outside
      exact (still path outside plain).trans (copyFile_other state first apart plain)

/-- Every regular file of the source is in the destination, byte for byte. -/
def Complete (listing : Listing) (dest : Files) : Prop :=
  ∀ file ∈ listing.files [], dest (place file) = some file.2.2

/-- An incremental backup is complete exactly if no file of the destination has
the length of the source's and other bytes. -/
theorem incremental_backup_complete_iff {listing : Listing} (proper : Proper (listing.files [])) (dest : Files)
    (report : BackupReport) : Complete listing (copyTree true [] (dest, report) listing).1 ↔
      ∀ file ∈ listing.files [], ∀ old, dest (place file) = some old → old.length = file.2.2.length →
        old = file.2.2 := by
  rw [copyTree_eq]
  have dues := (copyFiles_due _ (dest, report) proper).1
  refine forall₂_congr fun file inside => ?_
  rw [dues file inside, due]
  split
  next same =>
    obtain ⟨old, found, length⟩ := sameSize_iff.mp same
    rw [found]
    refine ⟨fun left other also _ => ?_, fun unchanged => congrArg some (unchanged old found length)⟩
    exact Option.some.inj (also.symm.trans (found.trans left))
  next differs =>
    exact ⟨fun _ old found length => absurd (sameSize_iff.mpr ⟨old, found, length⟩) differs, fun _ => rfl⟩

/-- A node that has nothing but the hard state of its Raft group. -/
def votingNode (term : Nat) : Listing :=
  .file (ascii "raft-hard-state") (Server.RaftFiles.encodeHardState ⟨term, none, 0, 0⟩) .nil

/-- What a first, full backup of the node in its first term leaves. -/
def firstBackup : Files × BackupReport := copyTree false [] ((fun _ => none), ⟨0, 0, 0⟩) (votingNode 1)

theorem incremental_backup_complete_when_unchanged :
    Complete (votingNode 1) (copyTree true [] firstBackup (votingNode 1)).1 := by
  have proper : Proper ((votingNode 1).files []) := by
    refine ⟨List.nodup_singleton _, fun file inside dir name same => ?_⟩
    cases List.mem_singleton.mp inside
    have last := congrArg (fun path => path.getLast?.bind List.getLast?) same
    simp [place, tmpName, ascii] at last
  refine (incremental_backup_complete_iff proper _ _).mpr fun file inside old found _ => ?_
  cases List.mem_singleton.mp inside
  exact (Option.some.inj found).symm

/-- The hard state of the second term is taken for that of the first. -/
theorem incremental_backup_keeps_old_term :
    ¬ Complete (votingNode 2) (copyTree true [] firstBackup (votingNode 2)).1 := by
  intro complete
  have kept : (copyTree true [] firstBackup (votingNode 2)).1 [ascii "raft-hard-state"] =
      some (Server.RaftFiles.encodeHardState ⟨1, none, 0, 0⟩) := rfl
  have same := Option.some.inj (kept.symm.trans (complete _ List.mem_cons_self))
  exact absurd (congrArg (fun bytes => bytes[8]?) same) (by decide)

end KayaDB.Ctl
