import KayaDB.Wal.Recovery

/-! The log directory as its writer sees it: the segments that are closed and the
active one, which counts as empty until its first record creates it. -/

namespace KayaDB.Wal
open Raft (Bytes)
open Framing

def olderFiles (id : Nat) (files : List SegmentFile) : List SegmentFile := files.filter fun file => file.id < id

def activeFile (id : Nat) (files : List SegmentFile) : SegmentFile :=
  (files.find? fun file => file.id = id).getD ⟨id, [], []⟩

section Files
variable {id : Nat} {bytes : Bytes} {files : List SegmentFile}
  {low : Nat}

section
variable (ordered : files.Pairwise fun first second => first.id < second.id)
include ordered

theorem files_around :
    files = olderFiles id files ++ (files.find? fun file => file.id = id).toList ++ files.filter fun file => id < file.id := by
  induction files with
  | nil => rfl
  | cons file rest ih =>
    obtain ⟨below, later⟩ := List.pairwise_cons.mp ordered
    have ih := ih later
    unfold olderFiles at ih ⊢
    rcases lt_trichotomy file.id id with small | same | large
    · simp only [List.filter_cons, List.find?_cons, small, small.ne, not_lt.mpr small.le, decide_true, decide_false,
        if_true, Bool.false_eq_true, if_false, List.cons_append]
      exact congrArg (file :: ·) ih
    · have above : ∀ other ∈ rest, id < other.id := fun other inside => same ▸ below other inside
      have none : rest.filter (fun other => decide (other.id < id)) = [] :=
        List.filter_eq_nil_iff.mpr fun other inside => by simpa using (above other inside).le
      have all : rest.filter (fun other => decide (id < other.id)) = rest :=
        List.filter_eq_self.mpr fun other inside => by simpa using above other inside
      simp [same, none, all]
    · have above : ∀ other ∈ rest, id < other.id := fun other inside => large.trans (below other inside)
      have none : rest.filter (fun other => decide (other.id < id)) = [] :=
        List.filter_eq_nil_iff.mpr fun other inside => by simpa using (above other inside).le
      have absent : rest.find? (fun other => decide (other.id = id)) = .none :=
        List.find?_eq_none.mpr fun other inside => by simpa using (above other inside).ne'
      have all : rest.filter (fun other => decide (id < other.id)) = rest :=
        List.filter_eq_self.mpr fun other inside => by simpa using above other inside
      simp [large, large.ne', not_lt.mpr large.le, none, absent, all]

theorem files_split (top : ∀ file ∈ files, file.id ≤ id) :
    files = olderFiles id files ++ (files.find? fun file => file.id = id).toList := by
  have newer : files.filter (fun file => decide (id < file.id)) = [] :=
    List.filter_eq_nil_iff.mpr fun file inside => by simpa using top file inside
  have split : files = olderFiles id files ++ _ ++ _ := files_around ordered
  rwa [newer, List.append_nil] at split

theorem find_appendTo :
    (appendTo id bytes files).find? (fun file => file.id = id) =
      some { activeFile id files with volatile := (activeFile id files).volatile ++ bytes } := by
  induction files with
  | nil => simp [appendTo, activeFile]
  | cons file rest ih =>
    obtain ⟨below, later⟩ := List.pairwise_cons.mp ordered
    simp only [appendTo]
    split
    next small =>
      have absent : (file :: rest).find? (fun file => decide (file.id = id)) = none := by
        rw [List.find?_eq_none]
        intro other inside
        rcases List.mem_cons.mp inside with rfl | also
        · simp only [decide_eq_true_eq]
          omega
        · have := below other also
          simp only [decide_eq_true_eq]
          omega
      simp [activeFile, absent]
    next large =>
      split
      next same => simp [activeFile, same]
      next differ =>
        rw [List.find?_cons_of_neg (by simpa using differ), ih later]
        unfold activeFile
        rw [List.find?_cons_of_neg (by simpa using differ)]

end

theorem older_appendTo (below : low ≤ id) : olderFiles low (appendTo id bytes files) = olderFiles low files := by
  have fresh : decide (id < low) = false := decide_eq_false (not_lt.mpr below)
  unfold olderFiles
  induction files with
  | nil => simp [appendTo, fresh]
  | cons file rest ih =>
    simp only [appendTo]
    split
    · simp [fresh]
    next large =>
      split
      next same => simp [same, fresh]
      next differ => rw [List.filter_cons, List.filter_cons, ih]

theorem find_appendTo_other (other : low ≠ id) :
    (appendTo id bytes files).find? (fun file => file.id = low) = files.find? fun file => file.id = low := by
  have absent : decide (id = low) = false := decide_eq_false other.symm
  induction files with
  | nil => simp [appendTo, absent]
  | cons file rest ih =>
    simp only [appendTo]
    split
    · simp [absent]
    next large =>
      split
      next same => simp [same, absent]
      next differ => rw [List.find?_cons, List.find?_cons, ih]

theorem find_update (change : SegmentFile → SegmentFile) (same : ∀ file, (change file).id = file.id) :
    (files.map fun file => if file.id = id then change file else file).find? (fun file => file.id = id) =
      (files.find? fun file => file.id = id).map change := by
  induction files with
  | nil => rfl
  | cons file rest ih =>
    by_cases here : file.id = id
    · simp [here, same]
    · simp [here, ih]

theorem older_update (below : low ≤ id) (change : SegmentFile → SegmentFile)
    (same : ∀ file, (change file).id = file.id) :
    olderFiles low (files.map fun file => if file.id = id then change file else file) = olderFiles low files := by
  unfold olderFiles
  induction files with
  | nil => rfl
  | cons file rest ih =>
    by_cases here : file.id = id
    · simp [here, same, ih, not_lt.mpr below]
    · simp [here, List.filter_cons, ih]

theorem find_update_other (other : low ≠ id) (change : SegmentFile → SegmentFile)
    (same : ∀ file, (change file).id = file.id) :
    (files.map fun file => if file.id = id then change file else file).find? (fun file => file.id = low) =
      files.find? fun file => file.id = low := by
  induction files with
  | nil => rfl
  | cons file rest ih =>
    by_cases here : file.id = id
    · simp [here, same, ih, other.symm]
    · simp [here, List.find?_cons, ih]

end Files

namespace WalWriter

def older (wal : WalWriter) : List SegmentFile := olderFiles wal.activeSegmentId wal.dir.files

def active (wal : WalWriter) : SegmentFile := activeFile wal.activeSegmentId wal.dir.files

variable (wal : WalWriter)

def withDir (dir : WalDir) : WalWriter := { wal with dir }

@[simp] theorem older_append (bytes : Bytes) : (wal.withDir (wal.dir.append wal.activeSegmentId bytes)).older = wal.older :=
  older_appendTo le_rfl

@[simp] theorem active_append (bytes : Bytes) :
    (wal.withDir (wal.dir.append wal.activeSegmentId bytes)).active =
      { wal.active with volatile := wal.active.volatile ++ bytes } := by
  change activeFile wal.activeSegmentId (appendTo wal.activeSegmentId bytes wal.dir.files) = _
  unfold activeFile
  rw [find_appendTo wal.dir.ordered]
  rfl

section
variable (change : SegmentFile → SegmentFile) (same : ∀ file, (change file).id = file.id)

theorem older_change : (wal.withDir (wal.dir.update wal.activeSegmentId change same)).older = wal.older :=
  older_update le_rfl change same

theorem active_change (nothing : ∀ id, change ⟨id, [], []⟩ = ⟨id, [], []⟩) :
    (wal.withDir (wal.dir.update wal.activeSegmentId change same)).active = change wal.active := by
  change ((wal.dir.files.map fun file => if file.id = wal.activeSegmentId then change file else file).find?
    fun file => file.id = wal.activeSegmentId).getD ⟨wal.activeSegmentId, [], []⟩ = _
  rw [find_update change same]
  unfold active activeFile
  cases wal.dir.files.find? fun file => decide (file.id = wal.activeSegmentId) with
  | none => exact (nothing _).symm
  | some file => rfl

end

theorem active_fsync : (wal.withDir (wal.dir.fsyncFile wal.activeSegmentId)).active = wal.active.fsync :=
  wal.active_change SegmentFile.fsync (fun _ => rfl) fun _ => rfl

theorem active_fsyncPart (bytes : Nat) :
    (wal.withDir (wal.dir.fsyncPart wal.activeSegmentId bytes)).active = wal.active.fsyncPart bytes :=
  wal.active_change (SegmentFile.fsyncPart · bytes) _ fun id => by simp [SegmentFile.fsyncPart]

variable {wal}

theorem top_append {bytes : Bytes} (top : ∀ file ∈ wal.dir.files, file.id ≤ wal.activeSegmentId) :
    ∀ file ∈ (wal.dir.append wal.activeSegmentId bytes).files, file.id ≤ wal.activeSegmentId := by
  intro file inside
  rcases mem_appendTo inside with same | old
  · exact same.le
  · exact top file old

theorem top_change {change : SegmentFile → SegmentFile} (same : ∀ file, (change file).id = file.id)
    (top : ∀ file ∈ wal.dir.files, file.id ≤ wal.activeSegmentId) :
    ∀ file ∈ (wal.dir.update wal.activeSegmentId change same).files, file.id ≤ wal.activeSegmentId := by
  intro file inside
  obtain ⟨old, held, rfl⟩ := List.mem_map.mp inside
  split
  · exact (same old).trans_le (top old held)
  · exact top old held

theorem active_rotate (top : ∀ file ∈ wal.dir.files, file.id ≤ wal.activeSegmentId) :
    wal.rotate.active = ⟨wal.activeSegmentId + 1, [], []⟩ := by
  have absent : wal.dir.files.find? (fun file => decide (file.id = wal.activeSegmentId + 1)) = none := by
    rw [List.find?_eq_none]
    intro file inside
    have := top file inside
    simp only [decide_eq_true_eq]
    omega
  unfold active activeFile rotate
  rw [absent]
  rfl

theorem older_rotate (top : ∀ file ∈ wal.dir.files, file.id ≤ wal.activeSegmentId) (filled : wal.active.volatile ≠ []) :
    wal.rotate.older = wal.older ++ [wal.active] := by
  have all : wal.rotate.older = wal.dir.files := by
    apply List.filter_eq_self.mpr
    intro file inside
    exact decide_eq_true (Nat.lt_succ_of_le (top file inside))
  rw [all]
  nth_rewrite 1 [files_split wal.dir.ordered top]
  unfold active activeFile at filled ⊢
  cases found : wal.dir.files.find? fun file => decide (file.id = wal.activeSegmentId) with
  | none =>
    rw [found] at filled
    exact absurd rfl filled
  | some file => rfl

theorem fileLen_active : wal.dir.fileLen wal.activeSegmentId = wal.active.volatile.length := by
  unfold WalDir.fileLen WalDir.find active activeFile
  cases wal.dir.files.find? fun file => decide (file.id = wal.activeSegmentId) with
  | none => rfl
  | some file => rfl

/-- What recovery finds after a crash: all of the closed segments, if they can be
read through, and what can be read of the active one. -/
theorem recover_crash (config : WalConfig) (top : ∀ file ∈ wal.dir.files, file.id ≤ wal.activeSegmentId)
    {records first : List WalRecord} {next last : Option UInt64} {rest : Bytes}
    (through : Through (decoded config.maxRecordBytes) follow none (wal.older.map SegmentFile.stable) records next)
    (reads : Reads (decoded config.maxRecordBytes) follow next wal.active.stable first last rest) :
    (recoverWal config wal.dir.crash).1.log = records ++ first := by
  have recovers := recoverSegments_recovers config.maxRecordBytes (wal.dir.files.map SegmentFile.crash) none
  have contents : (wal.dir.files.map SegmentFile.crash).map SegmentFile.volatile = wal.dir.files.map SegmentFile.stable := by
    rw [List.map_map]
    rfl
  change Recovers _ _ _ none _ (recoverWal config wal.dir.crash).1.log _ at recovers
  rw [contents, files_split wal.dir.ordered top, List.map_append] at recovers
  unfold active activeFile at reads
  cases found : wal.dir.files.find? fun file => decide (file.id = wal.activeSegmentId) with
  | none =>
    rw [found] at reads recovers
    obtain ⟨rfl, -⟩ := (Reads.ended next).unique reads
    rw [Option.toList_none, List.map_nil, List.append_nil] at recovers
    rw [List.append_nil]
    exact (Recovers.unique (.whole through) recovers).1
  | some file =>
    rw [found] at reads recovers
    exact (Recovers.unique (.append through (.cut (framed _) reads)) recovers).1

end WalWriter

end KayaDB.Wal
