import KayaDB.Storage.Compaction
import KayaDB.Storage.Policy
import KayaDB.Storage.Wal

/-! The storage engine: writes go to the log and the memtable, the memtable is
flushed to tables, and compaction merges tables. Secondary indexes, of which
there are none unless asked for, the change feed and statistics are left out. -/

namespace KayaDB.Storage
open Raft (Bytes)
open Versions

structure LimitsConfig where
  maxKeyLen : Nat
  maxValueLen : Nat
  maxScanResults : Nat
  maxScanBytes : Nat
deriving DecidableEq, Repr

/-- `tableSize` is the size of the file a table's entries are encoded to. -/
structure EngineConfig where
  durability : DurabilityMode
  wal : WalConfig
  memtableMaxBytes : Nat
  limits : LimitsConfig
  compaction : CompactionPolicy
  tableSize : List SstEntry → Nat

inductive ManifestEdit where
  | createTable (table : TableMetadata)
  | deleteTable (tableId : Nat)
deriving DecidableEq, Repr

/-- What tables there are on disk: the synced manifest, whether the file `CURRENT`
names it yet, and the table files, the one written last first. -/
structure Disk where
  manifest : List ManifestEdit
  current : Bool
  tables : List Sstable

/-- `liveSstables` is ordered from the highest table number down; `liveTables`
is what the manifest tells, in the order of creation. `refcounts` counts the
snapshots that hold a table. -/
structure Engine where
  config : EngineConfig
  wal : WalWriter
  disk : Disk
  memtable : Memtable
  liveTables : List TableMetadata
  liveSstables : List Sstable
  nextTableId : Nat
  refcounts : Nat → Nat
  gcWatermark : UInt64

def indexSysPrefix : Bytes := [0, 105, 100, 120, 47]

def txnSysPrefix : Bytes := [0, 116, 120, 110, 47]

def rejectIfSystemKey (key : Bytes) : Except String Unit :=
  if indexSysPrefix <+: key then
    .error "keys under reserved system prefix \\x00idx/ are not writable via public API"
  else if txnSysPrefix <+: key then
    .error "keys under reserved system prefix \\x00txn/ are not writable via public API"
  else .ok ()

def LimitsConfig.validateKey (limits : LimitsConfig) (key : Bytes) : Except String Unit :=
  if key.isEmpty then .error "empty keys are not supported in MVP"
  else if limits.maxKeyLen < key.length then .error s!"key length {key.length} exceeds max {limits.maxKeyLen}"
  else .ok ()

def LimitsConfig.validateValue (limits : LimitsConfig) (value : Bytes) : Except String Unit :=
  if limits.maxValueLen < value.length then
    .error s!"value length {value.length} exceeds max {limits.maxValueLen}"
  else .ok ()

def LimitsConfig.validateScanPrefix (limits : LimitsConfig) (front : Bytes) : Except String Unit :=
  if limits.maxKeyLen < front.length then
    .error s!"scan prefix length {front.length} exceeds max key length {limits.maxKeyLen}"
  else .ok ()

inductive ReadTimestamp where
  | latest
  | at (ts : UInt64)
deriving DecidableEq, Repr

def ReadTimestamp.asNat : ReadTimestamp → Nat
  | .latest => 2 ^ 64 - 1
  | .at ts => ts.toNat

/-- The rows a scan gives out: deleted keys are skipped, and the scan ends when
the bytes would exceed their limit, which never stops the first row, or when
there are enough rows. -/
def collectRows (maxBytes limit : Nat) : Nat → Nat → List (Bytes × Option Bytes) → List (Bytes × Bytes)
  | _, _, [] => []
  | count, total, (_, none) :: rest => collectRows maxBytes limit count total rest
  | count, total, (key, some value) :: rest =>
    let size := key.length + value.length
    if count ≠ 0 ∧ maxBytes < total + size then []
    else (key, value) :: if limit ≤ count + 1 then [] else collectRows maxBytes limit (count + 1) (total + size) rest

/-- What the log tells is put into the memtable. -/
def applyPayload (memtable : Memtable) (payload : WalPayload) (sequence : Nat) : Memtable :=
  match payload with
  | .put key value => memtable.put key value sequence
  | .delete key => memtable.delete key sequence
  | .noop => memtable

def newestFirst (tables : List Sstable) : List Sstable :=
  tables.insertionSort fun first second => second.metadata.tableId ≤ first.metadata.tableId

def ManifestEdit.apply (liveTables : List TableMetadata) : ManifestEdit → List TableMetadata
  | .createTable table => liveTables ++ [table]
  | .deleteTable tableId => liveTables.filter fun table => table.tableId ≠ tableId

def replayManifest (edits : List ManifestEdit) : List TableMetadata := edits.foldl ManifestEdit.apply []

namespace Disk

def readTable (disk : Disk) (table : TableMetadata) : Option Sstable :=
  (disk.tables.find? fun file => file.metadata.tableId = table.tableId).map fun file =>
    ⟨table, file.entries, file.sorted⟩

def named (disk : Disk) : List Sstable := (replayManifest disk.manifest).filterMap disk.readTable

def loadManifest (disk : Disk) : List TableMetadata := if disk.current then replayManifest disk.manifest else []

/-- New tables are written and synced first, then the edits, then `CURRENT`. -/
def publish (disk : Disk) (tables : List Sstable) (edits : List ManifestEdit) : Disk :=
  ⟨disk.manifest ++ edits, true, tables ++ disk.tables⟩

end Disk

namespace Engine
variable (engine : Engine)

/-- Sequence numbers go on from the last log record read; those in the tables are
not looked at. -/
def openFrom (config : EngineConfig) (segments : List Segment) (disk : Disk) : Engine :=
  let (records, segments) := recoverWal segments
  let last := records.getLast?
  let liveTables := disk.loadManifest
  { config
    wal := .openAt segments (last.elim 1 fun record => record.lsn + 1) (last.elim 1 fun record => record.sequence + 1)
    memtable := records.foldl (fun memtable record => applyPayload memtable record.payload record.sequence) .new
    disk
    liveTables
    liveSstables := newestFirst (liveTables.filterMap disk.readTable)
    nextTableId := ((liveTables.map fun table => table.tableId + 1).max?).getD 1
    refcounts := fun _ => 0
    gcWatermark := 0 }

def fresh (config : EngineConfig) : Engine := openFrom config [] ⟨[], false, []⟩

/-- The memtable answers first, then the tables from the highest number down. -/
def getInner (key : Bytes) (readAt : ReadTimestamp) : Option Bytes :=
  let readTs := readAt.asNat
  match engine.memtable.getAt key readTs with
  | some entry => entry.value
  | none => (engine.liveSstables.findSome? fun table => table.getAt key readTs).bind Entry.value

/-- All versions a scan looks at, in the order it merges them. -/
def scanEntries (front : Bytes) (readTs : Nat) : List SstEntry :=
  (engine.liveSstables.reverse.flatMap fun table => table.scanPrefixAt front readTs) ++
    (engine.memtable.rawScanPrefix front).filter fun entry => entry.sequence ≤ readTs

def scanPrefixInner (front : Bytes) (limit : Option Nat) (readAt : ReadTimestamp) :
    Except String (List (Bytes × Bytes)) :=
  match engine.config.limits.validateScanPrefix front with
  | .error message => .error message
  | .ok () =>
    let maxResults := engine.config.limits.maxScanResults
    let merged := (engine.scanEntries front readAt.asNat).foldl (absorb maxResults) []
    let effectiveLimit := limit.elim maxResults fun limit => min limit maxResults
    .ok (collectRows engine.config.limits.maxScanBytes effectiveLimit 0 0
      (merged.map fun row => (row.key, row.value)))

def flushTable : Sstable :=
  ⟨⟨engine.nextTableId, 0, engine.config.tableSize engine.memtable.entries⟩, engine.memtable.entries,
    engine.memtable.sorted⟩

def flushNonempty : Engine :=
  let table := engine.flushTable
  { engine with
    disk := engine.disk.publish [table] [.createTable table.metadata]
    nextTableId := engine.nextTableId + 1
    liveSstables := table :: engine.liveSstables
    liveTables := engine.liveTables ++ [table.metadata]
    memtable := .new }

def flush : Engine := if engine.memtable.isEmpty then engine else engine.flushNonempty

def maybeAutoFlush : Engine :=
  if 0 < engine.config.memtableMaxBytes ∧ engine.config.memtableMaxBytes ≤ engine.memtable.approximateBytes then
    engine.flush
  else engine

/-- With a hybrid clock in use, the next number is not below its reading. -/
def prepareHlcWriteSequence (clock : Option UInt64) : WalWriter :=
  clock.elim engine.wal fun reading => engine.wal.ensureMinSequence (max reading.toNat 1)

def logged (wal : WalWriter) (payload : WalPayload) (sequence : Nat) : Engine :=
  { engine with wal, memtable := applyPayload engine.memtable payload sequence }

/-- Log, then memtable, then perhaps a flush. -/
def write (payload : WalPayload) (durability : Option DurabilityMode) (clock : Option UInt64) :
    Engine × Except String AppendResult :=
  let wal := engine.prepareHlcWriteSequence clock
  match wal.append engine.config.wal payload (durability.getD engine.config.durability) with
  | .error message => ({ engine with wal }, .error message)
  | .ok (wal, result) =>
    ((engine.logged wal payload result.sequence).maybeAutoFlush, .ok result)

def writePut (key value : Bytes) (durability : Option DurabilityMode) (clock : Option UInt64) :
    Engine × Except String AppendResult :=
  match engine.config.limits.validateKey key, engine.config.limits.validateValue value with
  | .error message, _ => (engine, .error message)
  | .ok (), .error message => (engine, .error message)
  | .ok (), .ok () => engine.write (.put key value) durability clock

def writeDelete (key : Bytes) (durability : Option DurabilityMode) (clock : Option UInt64) :
    Engine × Except String AppendResult :=
  match engine.config.limits.validateKey key with
  | .error message => (engine, .error message)
  | .ok () => engine.write (.delete key) durability clock

def put (key value : Bytes) (durability : Option DurabilityMode) (clock : Option UInt64) :
    Engine × Except String AppendResult :=
  match engine.config.limits.validateKey key, rejectIfSystemKey key, engine.config.limits.validateValue value with
  | .error message, _, _ => (engine, .error message)
  | .ok (), .error message, _ => (engine, .error message)
  | .ok (), .ok (), .error message => (engine, .error message)
  | .ok (), .ok (), .ok () => engine.writePut key value durability clock

def delete (key : Bytes) (durability : Option DurabilityMode) (clock : Option UInt64) :
    Engine × Except String AppendResult :=
  match engine.config.limits.validateKey key, rejectIfSystemKey key with
  | .error message, _ => (engine, .error message)
  | .ok (), .error message => (engine, .error message)
  | .ok (), .ok () => engine.writeDelete key durability clock

def pinned (tableId : Nat) : Bool := decide (0 < engine.refcounts tableId)

def candidate : Option CompactionCandidate :=
  engine.config.compaction.pickCompaction engine.liveTables engine.pinned

/-- The versions compaction collects, from the lowest table number up. -/
def inputEntries (inputs : List Nat) : List SstEntry :=
  (engine.liveSstables.reverse.filter fun table => table.metadata.tableId ∈ inputs).flatMap Sstable.entries

def leftTables (inputs : List Nat) : List Sstable :=
  engine.liveSstables.filter fun table => table.metadata.tableId ∉ inputs

/-- The table a compaction writes, unless garbage collection leaves nothing. -/
def outputTable (chosen : CompactionCandidate) : Option Sstable :=
  let entries := outEntries (engine.inputEntries chosen.inputTableIds) engine.gcWatermark.toNat
  if entries.isEmpty then none
  else some ⟨⟨engine.nextTableId, chosen.outputLevel, engine.config.tableSize entries⟩, entries,
    outEntries_sorted _ _⟩

def compactInputs (chosen : CompactionCandidate) : Engine :=
  let left := engine.leftTables chosen.inputTableIds
  let known := engine.liveTables.filter fun table => table.tableId ∉ chosen.inputTableIds
  let deleted := chosen.inputTableIds.map ManifestEdit.deleteTable
  match engine.outputTable chosen with
  | none =>
    { engine with
      disk := engine.disk.publish [] deleted
      liveSstables := newestFirst left
      liveTables := known }
  | some table =>
    { engine with
      disk := engine.disk.publish [table] (.createTable table.metadata :: deleted)
      nextTableId := engine.nextTableId + 1
      liveSstables := newestFirst (left ++ [table])
      liveTables := known ++ [table.metadata] }

def compact : Engine := engine.candidate.elim engine engine.compactInputs

/-- The tables a snapshot refers to stay out of compaction until it is released. -/
def pinTables (tables : List Nat) : Engine :=
  { engine with refcounts := fun id => engine.refcounts id + tables.count id }

def releaseTables (tables : List Nat) : Engine :=
  { engine with refcounts := fun id => engine.refcounts id - tables.count id }

def setGcWatermark (ts : UInt64) : Engine :=
  if engine.gcWatermark < ts then { engine with gcWatermark := ts } else engine

end Engine
end KayaDB.Storage
