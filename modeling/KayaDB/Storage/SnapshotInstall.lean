import KayaDB.Storage.FileEngine
import KayaDB.Storage.SnapshotCodec

/-! Installing a snapshot from its bytes. The length fields are checked to be
there, but what they tell of is taken as if it were there, and so are the fields
of a fixed width. Nothing in the engine changes before all tables are open. -/

namespace KayaDB.Storage
open Raft (Bytes fromLeBytes)
open Manifest (fromUtf8)
open Sst (Libraries OpenFits openWithCache safe_openWithCache_iff)
open Guarded

def readU32 (cur : Bytes) : Guarded (Nat × Bytes) :=
  match takeU32 cur with
  | .ok read => .ok read
  | .error message => .error (.error message)

def readPath (bytes : Bytes) : Guarded String :=
  match fromUtf8 bytes with
  | some path => .ok path
  | none => .error (.error "bad path in snapshot")

def readU64 (bytes : Bytes) : UInt64 := UInt64.ofNat (fromLeBytes bytes)

def decodeTable (cur : Bytes) : Guarded (Manifest.TableMetadata × Bytes) := do
  let (tableId, cur) ← take cur 8
  let (level, cur) ← take cur 4
  let (pathLen, cur) ← readU32 cur
  let (path, cur) ← take cur pathLen
  let path ← readPath path
  let (smallestLen, cur) ← readU32 cur
  let (smallestKey, cur) ← take cur smallestLen
  let (largestLen, cur) ← readU32 cur
  let (largestKey, cur) ← take cur largestLen
  let (minSequence, cur) ← take cur 8
  let (maxSequence, cur) ← take cur 8
  let (entryCount, cur) ← take cur 8
  let (fileSize, cur) ← take cur 8
  let (footerChecksum, cur) ← take cur 4
  .ok ({ tableId := readU64 tableId, level := UInt32.ofNat (fromLeBytes level), path, smallestKey, largestKey,
         minSequence := readU64 minSequence, maxSequence := readU64 maxSequence, entryCount := readU64 entryCount,
         fileSize := readU64 fileSize, footerChecksum := UInt32.ofNat (fromLeBytes footerChecksum) }, cur)

/-- Only the byte one announces a value. -/
def decodeValue (hasVal cur : Bytes) : Guarded (Option Bytes × Bytes) :=
  if hasVal = [1] then do
    let (valueLen, cur) ← readU32 cur
    let (value, cur) ← take cur valueLen
    .ok (some value, cur)
  else .ok (none, cur)

def decodeRow (cur : Bytes) : Guarded (SnapshotRow × Bytes) := do
  let (keyLen, cur) ← readU32 cur
  let (key, cur) ← take cur keyLen
  let (hasVal, cur) ← take cur 1
  let (value, cur) ← decodeValue hasVal cur
  let (sequence, cur) ← take cur 8
  .ok (⟨key, value, readU64 sequence⟩, cur)

def decodeMany {α : Type} (decode : Bytes → Guarded (α × Bytes)) : Nat → Bytes → Guarded (List α × Bytes)
  | 0, cur => .ok ([], cur)
  | count + 1, cur => do
    let (first, cur) ← decode cur
    let (rest, cur) ← decodeMany decode count cur
    .ok (first :: rest, cur)

/-- The cutoff is read, but what is left still starts with it. -/
def decodeView (data : Bytes) : Guarded (SnapshotView × Bytes) := do
  let (numTables, cur) ← readU32 data
  let (pinned, cur) ← decodeMany decodeTable numTables cur
  let (numRows, cur) ← readU32 cur
  let (rows, cur) ← decodeMany decodeRow numRows cur
  let (cutoff, _) ← take cur 8
  .ok (⟨pinned, rows, readU64 cutoff⟩, cur)

/-- A file is written if it has a path and some content; errors are ignored. -/
def Files.restore (files : Files) (path : String) (content : Bytes) : Files :=
  if path ≠ "" ∧ content ≠ [] then
    match relativePath path with
    | .ok rel => files.writeStart rel content
    | .error _ => files
  else files

def restoreFrom : Nat → Bytes → Files → Files
  | 0, _, files => files
  | count + 1, cur, files =>
    if cur.length < 4 then files
    else
      let pathLen := fromLeBytes (cur.take 4)
      let cur := cur.drop 4
      if cur.length < pathLen then files
      else
        let path := (fromUtf8 (cur.take pathLen)).getD ""
        let cur := cur.drop pathLen
        if cur.length < 8 then files
        else
          let contentLen := fromLeBytes (cur.take 8)
          let cur := cur.drop 8
          if cur.length < contentLen then files
          else restoreFrom count (cur.drop contentLen) (files.restore path (cur.take contentLen))

/-- A count that cannot be one is taken for the sign that there are no files. -/
def restoreFiles (files : Files) (cur : Bytes) : Files :=
  let count := fromLeBytes (cur.take 4)
  if 4 ≤ cur.length ∧ 0 < count ∧ count < 4096 ∧ 4 + count ≤ cur.length then restoreFrom count (cur.drop 4) files else files

def openTables (files : Files) (capacity : Nat) : List Manifest.TableMetadata → Guarded (List LiveTable)
  | [] => .ok []
  | metadata :: rest => do
    let bytes ← files.readFile metadata.path
    let (reader, cache) ← openWithCache bytes capacity
    let others ← openTables files capacity rest
    .ok (⟨metadata, reader, cache⟩ :: others)

def newestTablesFirst (tables : List LiveTable) : List LiveTable :=
  tables.insertionSort fun first second => second.metadata.tableId ≤ first.metadata.tableId

def memtableOf (rows : List SnapshotRow) : Memtable :=
  rows.foldl (fun memtable row =>
    match row.value with
    | some value => memtable.put row.key value row.sequence.toNat
    | none => memtable.delete row.key row.sequence.toNat) .new

namespace FileEngine

/-- The engine once the tables of the snapshot are open. -/
def adopt (engine : FileEngine) (view : SnapshotView) (opened : List LiveTable) : FileEngine :=
  { engine with
    liveSstables := newestTablesFirst opened
    liveTables := view.pinnedTables
    memtable := memtableOf view.memtableData
    lastSequence := view.cutoffSeq
    refcounts := fun tableId => engine.refcounts tableId + view.pinnedTables.countP fun table => table.tableId = tableId }

/-- The engine is also told after an error, since files may have been written. -/
def installSnapshot (engine : FileEngine) (data : Bytes) : Guarded Unit × FileEngine :=
  if data = [] then (.ok (), engine)
  else
    match decodeView data with
    | .error stop => (.error stop, engine)
    | .ok (view, cur) =>
      let written := { engine with disk := restoreFiles engine.disk cur }
      match openTables written.disk engine.blockCacheCapacity view.pinnedTables with
      | .error stop => (.error stop, written)
      | .ok opened => (.ok (), written.adopt view opened)

end FileEngine

/-- There are this many bytes, and the others are as told. -/
def Room (cur : Bytes) (len : Nat) (next : Bytes → Prop) : Prop := len ≤ cur.length ∧ next (cur.drop len)

/-- If there is a length field, what is behind it is as told. -/
def AfterLength (cur : Bytes) (next : Nat → Bytes → Prop) : Prop :=
  4 ≤ cur.length → next (fromLeBytes (cur.take 4)) (cur.drop 4)

/-- A table that is not cut off within a field. The bytes may end before a length
field, and what is behind a path that is no text does not matter. -/
def TableFits (cur : Bytes) (next : String → Bytes → Prop) : Prop :=
  Room cur 12 fun cur => AfterLength cur fun pathLen cur => Room cur pathLen fun rest =>
    ∀ path, fromUtf8 (cur.take pathLen) = some path →
      AfterLength rest fun smallestLen cur => Room cur smallestLen fun cur =>
        AfterLength cur fun largestLen cur => Room cur (largestLen + 36) (next path)

def TablesFit : Nat → Bytes → (List String → Bytes → Prop) → Prop
  | 0, cur, next => next [] cur
  | count + 1, cur, next => TableFits cur fun path cur => TablesFit count cur fun paths => next (path :: paths)

def RowFits (cur : Bytes) (next : Bytes → Prop) : Prop :=
  AfterLength cur fun keyLen cur => Room cur (keyLen + 1) fun rest =>
    if (cur.drop keyLen).take 1 = [1] then AfterLength rest fun valueLen cur => Room cur (valueLen + 8) next
    else Room rest 8 next

def RowsFit : Nat → Bytes → (Bytes → Prop) → Prop
  | 0, cur, next => next cur
  | count + 1, cur, next => RowFits cur fun cur => RowsFit count cur next

/-- The files under these paths, up to the first that is not there or no table,
can be opened. -/
def FilesFit (files : Files) (capacity : Nat) : List String → Prop
  | [] => True
  | path :: rest =>
    ∀ bytes, files.readFile path = .ok bytes →
      OpenFits bytes ∧ ∀ opened, openWithCache bytes capacity = .ok opened → FilesFit files capacity rest

/-- No field of the snapshot is cut off, and the table files it names, with what
is written to them before, can be opened. -/
def SnapshotFits (engine : FileEngine) (data : Bytes) : Prop :=
  AfterLength data fun numTables cur => TablesFit numTables cur fun paths cur =>
    AfterLength cur fun numRows cur => RowsFit numRows cur fun cur =>
      8 ≤ cur.length ∧ FilesFit (restoreFiles engine.disk cur) engine.blockCacheCapacity paths

variable {cur : Bytes} {next : List String → Bytes → Prop} {count : Nat} {files : Files}

theorem ensures_readU32_iff {post : Nat × Bytes → Prop} :
    Ensures (readU32 cur) post ↔ AfterLength cur fun len rest => post (len, rest) := by
  unfold readU32 takeU32 AfterLength
  by_cases short : cur.length < 4
  · simp only [short, if_true]
    exact ⟨fun _ long => absurd short (Nat.not_lt.mpr long), fun _ => ensures_error _⟩
  · simp only [short, if_false, ensures_ok_iff]
    exact ⟨fun held _ => held, fun held => held (Nat.not_lt.mp short)⟩

theorem ensures_readPath_iff {bytes : Bytes} {post : String → Prop} :
    Ensures (readPath bytes) post ↔ ∀ path, fromUtf8 bytes = some path → post path := by
  unfold readPath
  cases fromUtf8 bytes with
  | none => exact ⟨fun _ => nofun, fun _ => ensures_error _⟩
  | some path => exact ensures_ok_iff.trans ⟨fun held _ same => Option.some.inj same ▸ held, fun held => held path rfl⟩

theorem ensures_take_room {len : Nat} {post : Bytes × Bytes → Prop} :
    Ensures (take cur len) post ↔ Room cur len fun rest => post (cur.take len, rest) := ensures_take_iff

theorem room_add {first second : Nat} {next : Bytes → Bytes → Prop} :
    (Room cur first fun middle => Room middle second (next middle)) ↔
      Room cur (first + second) (next (cur.drop first)) := by
  unfold Room
  dsimp only
  rw [List.length_drop, List.drop_drop]
  exact ⟨fun held => ⟨by omega, held.2.2⟩, fun held => ⟨by omega, by omega, held.2⟩⟩

theorem ensures_decodeTable_iff {next : String → Bytes → Prop} :
    Ensures (decodeTable cur) (fun read => next read.1.path read.2) ↔ TableFits cur next := by
  unfold decodeTable TableFits
  simp only [ensures_bind_iff, ensures_take_room, ensures_readU32_iff, ensures_readPath_iff, ensures_ok_iff, room_add,
    Nat.reduceAdd]

theorem ensures_decodeValue_iff {hasVal : Bytes} {next : Bytes → Prop} :
    Ensures (decodeValue hasVal cur) (fun read => next read.2) ↔
      if hasVal = [1] then AfterLength cur fun valueLen cur => Room cur valueLen next else next cur := by
  unfold decodeValue
  split
  · simp only [ensures_bind_iff, ensures_take_room, ensures_readU32_iff, ensures_ok_iff]
  · exact ensures_ok_iff

theorem ensures_decodeRow_iff {cur : Bytes} {next : Bytes → Prop} :
    Ensures (decodeRow cur) (fun read => next read.2) ↔ RowFits cur next := by
  have value := fun hasVal rest => @ensures_decodeValue_iff hasVal rest fun rest => Room rest 8 next
  unfold decodeRow RowFits
  simp only [ensures_bind_iff, ensures_take_room, ensures_readU32_iff, ensures_ok_iff, room_add, value]

theorem ensures_decodeTables_iff :
    Ensures (decodeMany decodeTable count cur) (fun read => next (read.1.map Manifest.TableMetadata.path) read.2) ↔
      TablesFit count cur next := by
  induction count generalizing cur next with
  | zero => exact ensures_ok_iff
  | succ count ih =>
    unfold TablesFit
    rw [← ensures_decodeTable_iff]
    simp only [decodeMany, ensures_bind_iff, ensures_ok_iff, List.map_cons, ← ih]

theorem ensures_decodeRows_iff {next : Bytes → Prop} :
    Ensures (decodeMany decodeRow count cur) (fun read => next read.2) ↔ RowsFit count cur next := by
  induction count generalizing cur next with
  | zero => exact ensures_ok_iff
  | succ count ih =>
    unfold RowsFit
    rw [← ensures_decodeRow_iff]
    simp only [decodeMany, ensures_bind_iff, ensures_ok_iff, ← ih]

theorem ensures_decodeView_iff {data : Bytes} :
    Ensures (decodeView data) (fun read => next (read.1.pinnedTables.map Manifest.TableMetadata.path) read.2) ↔
      AfterLength data fun numTables cur => TablesFit numTables cur fun paths cur =>
        AfterLength cur fun numRows cur => RowsFit numRows cur fun cur => 8 ≤ cur.length ∧ next paths cur := by
  unfold decodeView
  simp only [ensures_bind_iff, ensures_take_iff, ensures_readU32_iff, ensures_ok_iff, ← ensures_decodeTables_iff,
    ← ensures_decodeRows_iff]

theorem safe_openTables_iff (small : files.Small) (capacity : Nat) (tables : List Manifest.TableMetadata) :
    Safe (openTables files capacity tables) ↔ FilesFit files capacity (tables.map Manifest.TableMetadata.path) := by
  induction tables with
  | nil => exact iff_of_true (safe_ok _) trivial
  | cons metadata rest ih =>
    simp only [openTables, List.map_cons, FilesFit, safe_bind_iff, safe_ok, implies_true, and_true, ih]
    refine ⟨fun safe bytes read => ?_, fun fits => ⟨files.safe_readFile _, fun bytes read => ?_⟩⟩
    · obtain ⟨opens, others⟩ := safe.2 bytes read
      exact ⟨(safe_openWithCache_iff (small.readFile read) capacity).mp opens, others⟩
    · obtain ⟨opens, others⟩ := fits bytes read
      exact ⟨(safe_openWithCache_iff (small.readFile read) capacity).mpr opens, others⟩

def Shrinks {α : Type} (cur : Bytes) (result : Guarded (α × Bytes)) : Prop :=
  ∀ read, result = .ok read → read.2.length ≤ cur.length

section Shrinks
variable {α β : Type} {cur : Bytes}

theorem shrinks_ok (value : α) : Shrinks cur (.ok (value, cur)) := fun _ same => Except.ok.inj same ▸ Nat.le_refl _

theorem shrinks_take (len : Nat) : Shrinks cur (take cur len) := by
  intro read same
  unfold take at same
  split at same
  · cases same
    exact List.drop_sublist len cur |>.length_le
  · exact nomatch same

theorem shrinks_readU32 : Shrinks cur (readU32 cur) := by
  intro read same
  unfold readU32 takeU32 at same
  split at same
  next found =>
    cases same
    split at found
    · exact nomatch found
    · cases found
      exact List.drop_sublist 4 cur |>.length_le
  next => exact nomatch same

theorem Shrinks.bind {first : Guarded (α × Bytes)} {later : α × Bytes → Guarded (β × Bytes)} (here : Shrinks cur first)
    (next : ∀ read : α × Bytes, Shrinks read.2 (later read)) : Shrinks cur (first >>= later) := by
  intro read same
  obtain ⟨middle, start, rest⟩ := bind_eq_ok.mp same
  exact (next middle read rest).trans (here middle start)

theorem shrinks_decodeTable (cur : Bytes) : Shrinks cur (decodeTable cur) := by
  refine (shrinks_take 8).bind fun _ => (shrinks_take 4).bind fun _ => shrinks_readU32.bind fun _ => ?_
  refine (shrinks_take _).bind fun path read same => ?_
  obtain ⟨text, _, rest⟩ := bind_eq_ok.mp same
  refine Shrinks.bind shrinks_readU32 (fun _ => (shrinks_take _).bind fun _ => ?_) read rest
  refine shrinks_readU32.bind fun _ => (shrinks_take _).bind fun _ => (shrinks_take 8).bind fun _ => ?_
  refine (shrinks_take 8).bind fun _ => (shrinks_take 8).bind fun _ => (shrinks_take 8).bind fun _ => ?_
  exact (shrinks_take 4).bind fun _ => shrinks_ok _

theorem shrinks_decodeValue (hasVal cur : Bytes) : Shrinks cur (decodeValue hasVal cur) := by
  unfold decodeValue
  split
  · exact shrinks_readU32.bind fun _ => (shrinks_take _).bind fun _ => shrinks_ok _
  · exact shrinks_ok none

theorem shrinks_decodeRow (cur : Bytes) : Shrinks cur (decodeRow cur) := by
  refine shrinks_readU32.bind fun _ => (shrinks_take _).bind fun _ => (shrinks_take 1).bind fun _ => ?_
  exact (shrinks_decodeValue _ _).bind fun _ => (shrinks_take 8).bind fun _ => shrinks_ok _

theorem shrinks_decodeMany {decode : Bytes → Guarded (α × Bytes)} (each : ∀ cur, Shrinks cur (decode cur)) (count : Nat)
    (cur : Bytes) : Shrinks cur (decodeMany decode count cur) := by
  induction count generalizing cur with
  | zero => exact shrinks_ok []
  | succ count ih => exact (each cur).bind fun _ => (ih _).bind fun _ => shrinks_ok _

theorem shrinks_decodeView (data : Bytes) : Shrinks data (decodeView data) := by
  refine shrinks_readU32.bind fun _ => (shrinks_decodeMany shrinks_decodeTable _ _).bind fun _ => ?_
  refine shrinks_readU32.bind fun _ => (shrinks_decodeMany shrinks_decodeRow _ _).bind fun rows read same => ?_
  obtain ⟨_, _, last⟩ := bind_eq_ok.mp same
  cases last
  exact Nat.le_refl _

end Shrinks

theorem Files.Small.restore (small : files.Small) {content : Bytes} (short : content.length < 2 ^ 63)
    (path : String) : (files.restore path content).Small := by
  unfold Files.restore
  split
  · split
    · exact small.writeStart short _
    · exact small
  · exact small

theorem small_restoreFrom (count : Nat) (short : cur.length < 2 ^ 63) (small : files.Small) :
    (restoreFrom count cur files).Small := by
  induction count generalizing cur files with
  | zero => exact small
  | succ count ih =>
    unfold restoreFrom
    dsimp only
    split_ifs
    · exact small
    · exact small
    · exact small
    · exact small
    · apply ih
      · simp only [List.length_drop]
        omega
      · apply small.restore
        simp only [List.length_take, List.length_drop]
        omega

theorem small_restoreFiles (small : files.Small) (short : cur.length < 2 ^ 63) : (restoreFiles files cur).Small := by
  unfold restoreFiles
  dsimp only
  split
  · refine small_restoreFrom _ ?_ small
    rw [List.length_drop]
    omega
  · exact small

namespace FileEngine
variable {engine : FileEngine} {data : Bytes}
variable (libraries : Libraries)

/-- The tables, the memtable and all reads are the same. -/
structure Unchanged (libraries : Libraries) (before after : FileEngine) : Prop where
  liveTables : after.liveTables = before.liveTables
  liveSstables : after.liveSstables = before.liveSstables
  memtable : after.memtable = before.memtable
  get : ∀ key readAt, (after.getInner libraries key readAt).1 = (before.getInner libraries key readAt).1
  scan : ∀ front limit readAt,
    (after.scanPrefixInner libraries front limit readAt).1 = (before.scanPrefixInner libraries front limit readAt).1

/-- Installing ends without a fault, and with an error it changes nothing. -/
def Harmless (engine : FileEngine) (data : Bytes) : Prop :=
  Safe (engine.installSnapshot data).1 ∧
    ∀ message, (engine.installSnapshot data).1 = .error (.error message) →
      Unchanged libraries engine (engine.installSnapshot data).2

theorem unchanged_disk (engine : FileEngine) (disk : Files) :
    Unchanged libraries engine { engine with disk } := by
  refine ⟨rfl, rfl, rfl, fun key readAt => ?_, fun front limit readAt => ?_⟩
  · unfold getInner
    dsimp only
    split
    · rfl
    · rfl
  · unfold scanPrefixInner
    dsimp only
    split
    · rfl
    · rfl

theorem unchanged_of_error {stop : Stop} (failed : (engine.installSnapshot data).1 = .error stop) :
    Unchanged libraries engine (engine.installSnapshot data).2 := by
  have same := unchanged_disk libraries engine engine.disk
  revert failed
  unfold installSnapshot
  split
  · exact nofun
  · split
    · exact fun _ => same
    · dsimp only
      split
      · exact fun _ => unchanged_disk libraries engine _
      · exact nofun

theorem safe_installSnapshot {first : UInt8} {rest : Bytes} :
    Safe (engine.installSnapshot (first :: rest)).1 ↔ Ensures (decodeView (first :: rest)) fun read =>
      Safe (openTables (restoreFiles engine.disk read.2) engine.blockCacheCapacity read.1.pinnedTables) := by
  unfold installSnapshot
  rw [if_neg nofun]
  cases decodeView (first :: rest) with
  | error stop =>
    refine ⟨fun safe => ⟨?_, nofun⟩, fun ensures => ?_⟩
    · exact safe_error_iff.mpr (safe_error_iff.mp safe)
    · exact safe_error_iff.mpr (safe_error_iff.mp ensures.1)
  | ok read =>
    rw [ensures_ok_iff]
    dsimp only
    cases openTables (restoreFiles engine.disk read.2) engine.blockCacheCapacity read.1.pinnedTables with
    | error stop => exact safe_error_iff.trans safe_error_iff.symm
    | ok opened => exact iff_of_true (safe_ok _) (safe_ok _)

theorem safe_installSnapshot_iff (short : data.length < 2 ^ 63) (small : engine.disk.Small) :
    Safe (engine.installSnapshot data).1 ↔ SnapshotFits engine data := by
  cases data with
  | nil => exact iff_of_true (safe_ok _) fun long => absurd long (by decide)
  | cons first rest =>
    unfold SnapshotFits
    rw [safe_installSnapshot, ← ensures_decodeView_iff]
    refine ensures_congr fun read decoded => safe_openTables_iff (small_restoreFiles small ?_) _ _
    exact (shrinks_decodeView _ read decoded).trans_lt short

/-- Snapshot bytes are harmless if no field of theirs is cut off and the files
they name can be opened. -/
theorem harmless_iff (short : data.length < 2 ^ 63) (small : engine.disk.Small) :
    Harmless libraries engine data ↔ SnapshotFits engine data := by
  rw [← safe_installSnapshot_iff short small]
  exact and_iff_left fun message failed => unchanged_of_error libraries failed

def bare : FileEngine where
  limits := ⟨16, 16, 16, 1024⟩
  blockCacheCapacity := 0
  disk := ⟨fun _ => none, fun _ => true⟩
  memtable := .new
  liveTables := []
  lastSequence := 0
  liveSstables := []
  refcounts := fun _ => 0

def oneRow : Bytes :=
  SnapshotView.encode ⟨[], [⟨[97], some [49], 1⟩], 1⟩ fun _ => []

theorem harmless_oneRow : Harmless Sst.noCodecs bare oneRow := by
  have small : bare.disk.Small := fun _ _ held => nomatch held
  refine (harmless_iff Sst.noCodecs (by decide) small).mpr fun _ _ _ => ⟨by decide, ?_⟩
  dsimp only
  rw [if_pos (by decide)]
  exact fun _ => ⟨by decide, by decide, trivial⟩

/-- A table is announced and nothing follows. -/
theorem announced_not_harmless : ¬ Harmless Sst.noCodecs bare [1, 0, 0, 0] := fun harmless => harmless.1 rfl

end FileEngine

end KayaDB.Storage
