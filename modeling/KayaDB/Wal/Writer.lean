import KayaDB.Wal.Codec

/-! The log writer over a directory of segment files. Every disk operation may
fail, having done none or part of its work; strict appends may share one sync
(group commit). The clock and the faults are inputs of each call. -/

namespace KayaDB.Wal
open Raft (Bytes)
open Storage (WalPayload DurabilityMode)

/-- A segment file: what is read from it, and what a crash leaves of it. -/
structure SegmentFile where
  id : Nat
  volatile : Bytes
  stable : Bytes
deriving DecidableEq, Repr

/-- A disk operation fails at once, or when that many bytes were written. -/
inductive Fault where
  | refused
  | cut (bytes : Nat)
deriving DecidableEq, Repr

namespace SegmentFile
variable (file : SegmentFile)

def fsync : SegmentFile := { file with stable := file.volatile }

/-- A sync that fails may have made some more bytes durable. -/
def fsyncPart (bytes : Nat) : SegmentFile :=
  if file.stable.length ≤ bytes then { file with stable := file.volatile.take bytes } else file

def truncate (len : Nat) : SegmentFile :=
  { file with volatile := file.volatile.take len, stable := file.stable.take len }

def crash : SegmentFile := { file with volatile := file.stable }

end SegmentFile

/-- The segment files of the log directory, in the order of their numbers. -/
structure WalDir where
  files : List SegmentFile
  ordered : files.Pairwise fun first second => first.id < second.id
deriving DecidableEq

/-- Appending to a file that does not exist creates it. -/
def appendTo (id : Nat) (bytes : Bytes) : List SegmentFile → List SegmentFile
  | [] => [⟨id, bytes, []⟩]
  | file :: rest =>
    if id < file.id then ⟨id, bytes, []⟩ :: file :: rest
    else if file.id = id then { file with volatile := file.volatile ++ bytes } :: rest
    else file :: appendTo id bytes rest

variable {files : List SegmentFile} {bytes : Bytes} {id : Nat}

theorem mem_appendTo {file : SegmentFile} (inside : file ∈ appendTo id bytes files) :
    file.id = id ∨ file ∈ files := by
  induction files with
  | nil =>
    cases List.mem_singleton.mp inside
    exact .inl rfl
  | cons first rest ih =>
    simp only [appendTo] at inside
    split at inside
    · rcases List.mem_cons.mp inside with rfl | old
      · exact .inl rfl
      · exact .inr old
    · split at inside
      next same =>
        rcases List.mem_cons.mp inside with rfl | old
        · exact .inl same
        · exact .inr (List.mem_cons_of_mem _ old)
      next =>
        rcases List.mem_cons.mp inside with rfl | later
        · exact .inr List.mem_cons_self
        · exact (ih later).imp_right (List.mem_cons_of_mem _)

theorem ordered_appendTo (ordered : files.Pairwise fun first second => first.id < second.id) :
    (appendTo id bytes files).Pairwise fun first second => first.id < second.id := by
  induction files with
  | nil => exact List.pairwise_singleton _ _
  | cons first rest ih =>
    obtain ⟨below, later⟩ := List.pairwise_cons.mp ordered
    simp only [appendTo]
    split
    next small =>
      refine List.pairwise_cons.mpr ⟨fun file inside => ?_, ordered⟩
      rcases List.mem_cons.mp inside with rfl | also
      · exact small
      · exact small.trans (below file also)
    next large =>
      split
      · exact List.pairwise_cons.mpr ⟨below, later⟩
      next differ =>
        refine List.pairwise_cons.mpr ⟨fun file inside => ?_, ih later⟩
        rcases mem_appendTo inside with same | old
        · omega
        · exact below file old

namespace WalDir

def empty : WalDir := ⟨[], List.Pairwise.nil⟩

def find (dir : WalDir) (id : Nat) : Option SegmentFile := dir.files.find? fun file => file.id = id

def append (dir : WalDir) (id : Nat) (bytes : Bytes) : WalDir := ⟨appendTo id bytes dir.files, ordered_appendTo dir.ordered⟩

def update (dir : WalDir) (id : Nat) (change : SegmentFile → SegmentFile) (same : ∀ file, (change file).id = file.id) :
    WalDir :=
  ⟨dir.files.map fun file => if file.id = id then change file else file, by
    have number (file : SegmentFile) : (if file.id = id then change file else file).id = file.id := by
      split
      · exact same file
      · rfl
    rw [List.pairwise_map]
    exact dir.ordered.imp fun less => by rwa [number, number]⟩

def fsyncFile (dir : WalDir) (id : Nat) : WalDir := dir.update id SegmentFile.fsync fun _ => rfl

def fsyncPart (dir : WalDir) (id bytes : Nat) : WalDir :=
  dir.update id (SegmentFile.fsyncPart · bytes) fun file => by
    unfold SegmentFile.fsyncPart
    split <;> rfl

def crash (dir : WalDir) : WalDir :=
  ⟨dir.files.map SegmentFile.crash, by rw [List.pairwise_map]; exact dir.ordered⟩

def fileLen (dir : WalDir) (id : Nat) : Nat := ((dir.find id).map fun file => file.volatile.length).getD 0

end WalDir

structure WalBatchConfig where
  batchMaxRecords : Nat
  batchMaxBytes : Nat
  batchFlushIntervalUs : Nat
deriving DecidableEq, Repr

structure WalConfig where
  segmentMaxBytes : Nat
  maxRecordBytes : Nat
  batch : WalBatchConfig
deriving DecidableEq, Repr

structure AppendResult where
  lsn : UInt64
  sequence : UInt64
  segmentId : Nat
  offset : Nat
  encodedLen : Nat
  durable : Bool
deriving DecidableEq, Repr

/-- `started` tells that a batch has been begun; the clock is not modelled.
Waiting appends are kept with the result they return when the batch is synced. -/
structure WalBatchWriter where
  pendingCount : Nat
  pendingBytes : Nat
  started : Bool
  waiters : List (WalRecord × AppendResult)
deriving DecidableEq, Repr

def WalBatchConfig.enabled (config : WalBatchConfig) : Bool :=
  decide (1 < config.batchMaxRecords) || decide (0 < config.batchMaxBytes) || decide (config.batchFlushIntervalUs ≠ 0)

namespace WalBatchWriter

def new : WalBatchWriter := ⟨0, 0, false, []⟩

def hasPending (batch : WalBatchWriter) : Bool := decide (0 < batch.pendingCount)

def intervalExpired (config : WalBatchConfig) (batch : WalBatchWriter) (elapsed : Bool) : Bool :=
  decide (config.batchFlushIntervalUs ≠ 0) && batch.started && elapsed

def shouldFlushNow (config : WalBatchConfig) (batch : WalBatchWriter) (elapsed : Bool) : Bool :=
  let countFull := decide (1 < config.batchMaxRecords) && decide (config.batchMaxRecords ≤ batch.pendingCount)
  let bytesFull := decide (0 < config.batchMaxBytes) && decide (config.batchMaxBytes ≤ batch.pendingBytes)
  countFull || bytesFull || batch.intervalExpired config elapsed

/-- Whether the batch is to be synced now; otherwise the append waits. -/
def afterRecordAppended (config : WalBatchConfig) (batch : WalBatchWriter) (record : WalRecord) (result : AppendResult)
    (elapsed : Bool) : WalBatchWriter × Bool :=
  let batch := { batch with
    pendingCount := batch.pendingCount + 1
    pendingBytes := batch.pendingBytes + result.encodedLen
    started := true }
  if batch.shouldFlushNow config elapsed then (batch, true)
  else ({ batch with waiters := batch.waiters ++ [(record, result)] }, false)

end WalBatchWriter

structure WalWriter where
  dir : WalDir
  activeSegmentId : Nat
  activeLen : Nat
  activeDirSynced : Bool
  nextLsn : UInt64
  nextSequence : UInt64
  batch : WalBatchWriter
deriving DecidableEq

/-- How the disk treats one append: the sync of an expired batch, the sync before
a rotation, the append itself, the sync of the directory, the sync of the file. -/
structure Faults where
  expiredFlush : Option Fault
  pendingFlush : Option Fault
  append : Option Fault
  dirSync : Bool
  fsync : Option Fault
deriving DecidableEq, Repr

def Faults.none : Faults := ⟨.none, .none, .none, false, .none⟩

structure AppendCall where
  payload : WalPayload
  mode : DurabilityMode
  expiredBefore : Bool
  expiredAfter : Bool
  faults : Faults
deriving DecidableEq, Repr

/-- The writer after a call, what the call returned, if it did not begin to wait,
and the waiting appends that returned meanwhile. -/
structure Appended where
  wal : WalWriter
  returned : Option (Except String (WalRecord × AppendResult))
  released : List (WalRecord × AppendResult)

namespace WalWriter
variable (config : WalConfig)

def openAt (dir : WalDir) (nextLsn nextSequence : UInt64) : WalWriter :=
  let active := ((dir.files.map SegmentFile.id).max?).getD 1
  { dir
    activeSegmentId := active
    activeLen := dir.fileLen active
    activeDirSynced := (dir.find active).isSome
    nextLsn
    nextSequence
    batch := .new }

/-- Sync the active file; the appends that waited for it return. A failure drops
them. -/
def flushStrictBatch (wal : WalWriter) (fault : Option Fault) : WalWriter × Except String (List (WalRecord × AppendResult)) :=
  match fault with
  | none =>
    ({ wal with dir := wal.dir.fsyncFile wal.activeSegmentId, batch := .new }, .ok wal.batch.waiters)
  | some .refused => ({ wal with batch := .new }, .error "fsync failed")
  | some (.cut bytes) =>
    ({ wal with dir := wal.dir.fsyncPart wal.activeSegmentId bytes, batch := .new }, .error "fsync failed")

def rotate (wal : WalWriter) : WalWriter :=
  { wal with activeSegmentId := wal.activeSegmentId + 1, activeLen := 0, activeDirSynced := false }

/-- A batch whose interval has passed is synced first. -/
def flushExpired (wal : WalWriter) (call : AppendCall) :
    WalWriter × Except String (List (WalRecord × AppendResult)) :=
  if config.batch.enabled && wal.batch.hasPending && wal.batch.intervalExpired config.batch call.expiredBefore then
    wal.flushStrictBatch call.faults.expiredFlush
  else (wal, .ok [])

def rotates (wal : WalWriter) (encodedLen : Nat) : Bool :=
  decide (0 < wal.activeLen ∧ config.segmentMaxBytes < wal.activeLen + encodedLen)

/-- Before the segment is closed, a batch that is waiting is synced. -/
def flushPending (wal : WalWriter) (encodedLen : Nat) (call : AppendCall) :
    WalWriter × Except String (List (WalRecord × AppendResult)) :=
  if wal.rotates config encodedLen && wal.batch.hasPending then wal.flushStrictBatch call.faults.pendingFlush
  else (wal, .ok [])

def advance (wal : WalWriter) (offset encodedLen : Nat) : WalWriter :=
  { wal with activeLen := offset + encodedLen, nextLsn := wal.nextLsn + 1, nextSequence := wal.nextSequence + 1 }

/-- The record is in the file; make it durable as the mode asks. -/
def settle (wal : WalWriter) (record : WalRecord) (offset encodedLen : Nat) (call : AppendCall) :
    Appended :=
  let result (durable : Bool) : AppendResult :=
    ⟨record.lsn, record.sequence, wal.activeSegmentId, offset, encodedLen, durable⟩
  match call.mode with
  | .relaxed => ⟨wal.advance offset encodedLen, some (.ok (record, result false)), []⟩
  | .strict =>
    if !config.batch.enabled then
      match wal.flushStrictBatch call.faults.fsync with
      | (wal, .error reason) => ⟨wal, some (.error reason), []⟩
      | (wal, .ok released) => ⟨wal.advance offset encodedLen, some (.ok (record, result true)), released⟩
    else
      match wal.batch.afterRecordAppended config.batch record (result true) call.expiredAfter with
      | (batch, false) => ⟨{ wal.advance offset encodedLen with batch }, none, []⟩
      | (batch, true) =>
        match ({ wal.advance offset encodedLen with batch } : WalWriter).flushStrictBatch call.faults.fsync with
        | (wal, .error reason) => ⟨wal, some (.error reason), []⟩
        | (wal, .ok released) => ⟨wal, some (.ok (record, result true)), released⟩

def writeRecord (wal : WalWriter) (record : WalRecord) (encoded : Bytes) (call : AppendCall) : Appended :=
  match call.faults.append with
  | some .refused => ⟨wal, some (.error "io error"), []⟩
  | some (.cut bytes) =>
    ⟨{ wal with dir := wal.dir.append wal.activeSegmentId (encoded.take bytes) }, some (.error "io error"), []⟩
  | none =>
    let offset := wal.dir.fileLen wal.activeSegmentId
    let written := { wal with dir := wal.dir.append wal.activeSegmentId encoded }
    if !wal.activeDirSynced && call.faults.dirSync then ⟨written, some (.error "fsync failed"), []⟩
    else ({ written with activeDirSynced := true } : WalWriter).settle config record offset encoded.length call

/-- The bytes of the next record, unless it is too large. -/
def encodeNext (record : WalRecord) : Except String Bytes := do
  let encoded ← encodeRecord record
  if 2 ^ 32 ≤ encoded.length then .error "encoded WAL record length does not fit into u32"
  if config.maxRecordBytes < encoded.length then
    .error s!"encoded WAL record exceeds configured max: {encoded.length} > {config.maxRecordBytes}"
  return encoded

def append (wal : WalWriter) (call : AppendCall) : Appended :=
  match wal.flushExpired config call with
  | (wal, .error reason) => ⟨wal, some (.error reason), []⟩
  | (wal, .ok expired) =>
    let record := WalRecord.new wal.nextLsn wal.nextSequence call.payload
    match encodeNext config record with
    | .error reason => ⟨wal, some (.error reason), expired⟩
    | .ok encoded =>
      match wal.flushPending config encoded.length call with
      | (wal, .error reason) => ⟨wal, some (.error reason), expired⟩
      | (wal, .ok pending) =>
        let ready := if wal.rotates config encoded.length then wal.rotate else wal
        let appended := ready.writeRecord config record encoded call
        { appended with released := expired ++ pending ++ appended.released }

end WalWriter

end KayaDB.Wal
