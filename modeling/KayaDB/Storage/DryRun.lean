import KayaDB.Manifest.Replay
import KayaDB.Storage.SnapshotInstall
import KayaDB.Wal.Recovery

/-! Recovery that is only to report. It goes through the data directory with the
routines that opening the engine uses: the manifest and the temporary files are
looked at, and the log is recovered, which cuts off what it does not read. -/

namespace KayaDB.DryRun
open Raft (Bytes)
open Wal (WalConfig WalDir WalRecoveryReport SegmentFile recoverSegments recoverWal readSegment_reads decoded follow)
open Manifest (ManifestState ManifestWarning fromUtf8 replayManifest)
open Storage (Files openTables relativePath trim)
open Framing

structure DirEntry where
  path : String
  isDir : Bool

/-- The segments of the log, what is listed in `sst`, and the files outside the log. -/
structure DataDir where
  wal : WalDir
  sst : List DirEntry
  files : Files

structure RecoveryReport where
  manifestRecordsReplayed : Nat
  liveSstableCount : Nat
  walRecordsReplayed : Nat
  walTruncatedBytes : Nat
  tmpFilesRemoved : Nat
  lastLsn : Option UInt64
  lastSequence : Option UInt64
  wal : WalRecoveryReport
  manifestWarnings : List ManifestWarning

def recoveryReport (wal : WalRecoveryReport) (temps live : Nat)
    (replayed : ManifestState × Nat × List ManifestWarning) : RecoveryReport where
  manifestRecordsReplayed := replayed.2.1
  liveSstableCount := live
  walRecordsReplayed := wal.records.length
  walTruncatedBytes := wal.truncatedBytes
  tmpFilesRemoved := temps
  lastLsn := wal.lastLsn
  lastSequence := (wal.records.getLast?.map fun found => found.record.sequence).filter fun sequence => 0 < sequence
  wal := wal
  manifestWarnings := replayed.2.2

/-- The file that `CURRENT` names, unless it is missing or empty. -/
def currentManifest (files : Files) : Except String (Option String) :=
  match files.content "CURRENT" with
  | none | some [] => .ok none
  | some bytes =>
    match fromUtf8 bytes with
    | none => .error "CURRENT file is not valid UTF-8"
    | some text => (relativePath (String.ofList (trim text.toList))).map some

def replayNamed (files : Files) (named : Option String) : ManifestState × Nat × List ManifestWarning :=
  match named.bind files.content with
  | none => (.default, 0, [])
  | some bytes => replayManifest bytes

def removeAll (files : Files) (paths : List String) : Files :=
  { files with content := fun path => if path ∈ paths then none else files.content path }

def isTemp (path : String) : Bool := ".tmp".toList.isSuffixOf path.toList

namespace DataDir

def scanTempFiles (dir : DataDir) : List String :=
  (if (dir.files.content "CURRENT.tmp").isSome then ["CURRENT.tmp"] else []) ++
    (dir.sst.filter fun entry => !entry.isDir && isTemp entry.path).map DirEntry.path

def recover (config : WalConfig) (dir : DataDir) : Except String RecoveryReport × DataDir :=
  let (walReport, left) := recoverWal config dir.wal
  ((currentManifest dir.files).map fun named =>
    recoveryReport walReport dir.scanTempFiles.length (replayNamed dir.files named).1.liveTables.length
      (replayNamed dir.files named), { dir with wal := left })

/-- What opening the engine reports: the temporary files are removed first, and the
live tables are those that were opened. -/
def openReport (config : WalConfig) (capacity : Nat) (dir : DataDir) : Guarded RecoveryReport :=
  let files := removeAll dir.files dir.scanTempFiles
  match currentManifest files with
  | .error message => .error (.error message)
  | .ok named => do
    let tables ← openTables files capacity (replayNamed files named).1.liveTables
    .ok (recoveryReport (recoverWal config dir.wal).1 dir.scanTempFiles.length tables.length (replayNamed files named))

/-- The directory is as before, and an engine that is opened next finds as many
records, tables and temporary files as were reported. -/
structure OnlyReports (config : WalConfig) (capacity : Nat) (dir : DataDir) : Prop where
  unchanged : (dir.recover config).2 = dir
  same : ∀ dry opened, (dir.recover config).1 = .ok dry →
    (dir.recover config).2.openReport config capacity = .ok opened →
      dry.walRecordsReplayed = opened.walRecordsReplayed ∧ dry.liveSstableCount = opened.liveSstableCount ∧
        dry.tmpFilesRemoved = opened.tmpFilesRemoved

end DataDir

def Whole (max : Nat) : Option UInt64 → List SegmentFile → Prop
  | _, [] => True
  | expected, file :: rest =>
    ∃ records last, Reads (decoded max) follow expected file.volatile records last [] ∧ Whole max last rest

theorem recoverSegments_eq_iff (max : Nat) (files : List SegmentFile) : ∀ expected,
    (recoverSegments max expected files).2 = files ↔ Whole max expected files := by
  induction files with
  | nil => exact fun _ => iff_of_true rfl trivial
  | cons file rest ih =>
    intro expected
    obtain ⟨left, reads, ended, lengths⟩ :=
      readSegment_reads max file.id file.volatile.length expected 0 file.volatile le_rfl
    simp only [recoverSegments, Whole]
    generalize Wal.readSegment max file.id file.volatile.length expected 0 file.volatile = scan at reads ended lengths ⊢
    cases stopped : scan.stopped with
    | none =>
      obtain rfl := ended.mp stopped
      simp only [List.cons.injEq, true_and, ih]
      constructor
      · exact fun whole => ⟨_, _, reads, whole⟩
      · rintro ⟨records, last, others, whole⟩
        obtain ⟨-, rfl, -⟩ := reads.unique others
        exact whole
    | some warning =>
      have stuck : left ≠ [] := by
        intro none
        cases stopped.symm.trans (ended.mpr none)
      have shorter : scan.validLen < file.volatile.length := by
        have positive := List.length_pos_iff.mpr stuck
        omega
      apply iff_of_false
      · intro same
        have sizes := congrArg (fun cut => cut.volatile.length) (List.cons.inj same).1
        simp only [SegmentFile.truncate, List.length_take] at sizes
        omega
      · rintro ⟨records, last, others, -⟩
        exact stuck (others.unique reads).2.2

theorem length_openTables {files : Files} {capacity : Nat} {tables : List Manifest.TableMetadata} :
    ∀ {opened}, openTables files capacity tables = .ok opened → opened.length = tables.length := by
  induction tables with
  | nil =>
    intro opened same
    cases same
    rfl
  | cons metadata rest ih =>
    intro opened same
    obtain ⟨bytes, -, same⟩ := Guarded.bind_eq_ok.mp same
    obtain ⟨reader, -, same⟩ := Guarded.bind_eq_ok.mp same
    obtain ⟨others, found, same⟩ := Guarded.bind_eq_ok.mp same
    cases same
    simp [ih found]

theorem isTemp_of_mem {dir : DataDir} {path : String} (inside : path ∈ dir.scanTempFiles) : isTemp path := by
  obtain marker | listed := List.mem_append.mp inside
  · split at marker
    · obtain rfl := List.mem_singleton.mp marker
      decide
    · cases marker
  · obtain ⟨entry, chosen, rfl⟩ := List.mem_map.mp listed
    have both := (List.mem_filter.mp chosen).2
    exact (Bool.and_eq_true_iff.mp both).2

theorem currentManifest_removeAll (dir : DataDir) :
    currentManifest (removeAll dir.files dir.scanTempFiles) = currentManifest dir.files := by
  have kept : "CURRENT" ∉ dir.scanTempFiles := fun inside => absurd (isTemp_of_mem inside) (by decide)
  simp [currentManifest, removeAll, kept]

theorem replayNamed_removeAll (files : Files) (paths : List String) (named : Option String) :
    replayNamed (removeAll files paths) named =
      if ∃ rel ∈ named, rel ∈ paths then (.default, 0, []) else replayNamed files named := by
  cases named with
  | none => simp [replayNamed]
  | some rel =>
    by_cases removed : rel ∈ paths
    · simp [replayNamed, removeAll, removed]
    · simp [replayNamed, removeAll, removed]

namespace DataDir

/-- The log is whole, and `CURRENT` names no temporary file that tells of tables. -/
structure Sound (config : WalConfig) (dir : DataDir) : Prop where
  log : Whole config.maxRecordBytes none dir.wal.files
  manifest : ∀ rel ∈ dir.scanTempFiles, currentManifest dir.files = .ok (some rel) →
    (replayNamed dir.files (some rel)).1.liveTables = []

theorem recover_eq_iff (config : WalConfig) (dir : DataDir) :
    (dir.recover config).2 = dir ↔ Whole config.maxRecordBytes none dir.wal.files := by
  rw [← recoverSegments_eq_iff]
  constructor
  · exact fun same => congrArg (fun left => left.wal.files) same
  · intro same
    have kept : (recoverWal config dir.wal).2 = dir.wal := (WalDir.mk.injEq _ _ _ _).mpr same
    simp [recover, kept]

variable {dir : DataDir} {config : WalConfig}

theorem recover_ok {dry : RecoveryReport} (done : (dir.recover config).1 = .ok dry) :
    ∃ named, currentManifest dir.files = .ok named ∧
      dry = recoveryReport (recoverWal config dir.wal).1 dir.scanTempFiles.length
        (replayNamed dir.files named).1.liveTables.length (replayNamed dir.files named) := by
  unfold recover at done
  cases named : currentManifest dir.files with
  | error message =>
    rw [named] at done
    cases done
  | ok named =>
    rw [named] at done
    cases done
    exact ⟨_, rfl, rfl⟩

theorem openReport_ok {capacity : Nat} {opened : RecoveryReport} {named : Option String}
    (current : currentManifest dir.files = .ok named) (done : dir.openReport config capacity = .ok opened) :
    opened = recoveryReport (recoverWal config dir.wal).1 dir.scanTempFiles.length
      (replayNamed (removeAll dir.files dir.scanTempFiles) named).1.liveTables.length
      (replayNamed (removeAll dir.files dir.scanTempFiles) named) := by
  simp only [openReport, currentManifest_removeAll, current] at done
  obtain ⟨tables, found, done⟩ := Guarded.bind_eq_ok.mp done
  cases done
  rw [length_openTables found]

theorem onlyReports_iff (config : WalConfig) (capacity : Nat) (dir : DataDir) :
    dir.OnlyReports config capacity ↔ dir.Sound config := by
  constructor
  · rintro ⟨unchanged, same⟩
    refine ⟨(recover_eq_iff config dir).mp unchanged, fun rel temp current => ?_⟩
    -- opening has removed the manifest and finds no table
    have nothing : replayNamed (removeAll dir.files dir.scanTempFiles) (some rel) = (.default, 0, []) := by
      simp [replayNamed_removeAll, temp]
    have counts := same (recoveryReport _ _ (replayNamed dir.files (some rel)).1.liveTables.length _)
      (recoveryReport _ _ 0 _) (by simp [recover, current]; rfl) (by
        rw [unchanged]
        simp only [openReport, currentManifest_removeAll, current, nothing]
        rfl)
    exact List.eq_nil_of_length_eq_zero counts.2.1
  · rintro ⟨log, manifest⟩
    have unchanged := (recover_eq_iff config dir).mpr log
    refine ⟨unchanged, fun dry opened reported found => ?_⟩
    rw [unchanged] at found
    obtain ⟨named, current, rfl⟩ := recover_ok reported
    obtain rfl := openReport_ok current found
    refine ⟨rfl, ?_, rfl⟩
    change (replayNamed dir.files named).1.liveTables.length =
      (replayNamed (removeAll dir.files dir.scanTempFiles) named).1.liveTables.length
    rw [replayNamed_removeAll]
    split
    · rename_i removed
      obtain ⟨rel, rfl, temp⟩ := removed
      rw [manifest rel temp current]
      rfl
    · rfl

end DataDir

def tornStart : DataDir where
  wal := ⟨[⟨1, [0x4b], [0x4b]⟩], List.pairwise_singleton _ _⟩
  sst := []
  files := ⟨fun _ => none, fun _ => true⟩

theorem tornStart_not_onlyReports : ¬ tornStart.OnlyReports ⟨1000, 1000, ⟨1, 0, 0⟩⟩ 0 := by
  intro only
  have log := congrArg (fun left => left.wal.files) only.unchanged
  revert log
  decide

end KayaDB.DryRun
