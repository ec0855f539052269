import KayaDB.Storage.Table

/-! The write-ahead log. Records are appended to numbered segment files; a strict append
syncs the active file. Files are modelled by their records, with what is written apart
from what has been synced. Group commit, off by default, is left out. -/

namespace KayaDB.Storage
open Raft (Bytes)

inductive WalPayload where
  | put (key value : Bytes)
  | delete (key : Bytes)
  | noop
deriving DecidableEq, Repr

structure WalRecord where
  lsn : Nat
  sequence : Nat
  payload : WalPayload
deriving DecidableEq, Repr

def walHeaderLen : Nat := 40

def WalPayload.encodedLen : WalPayload → Nat
  | .put key value => 8 + key.length + value.length
  | .delete key => 4 + key.length
  | .noop => 0

def WalRecord.encodedLen (record : WalRecord) : Nat := walHeaderLen + record.payload.encodedLen

def WalPayload.entry (payload : WalPayload) (sequence : Nat) : Option SstEntry :=
  match payload with
  | .put key value => some ⟨key, sequence, some value⟩
  | .delete key => some ⟨key, sequence, none⟩
  | .noop => none

inductive DurabilityMode where
  | strict
  | relaxed
deriving DecidableEq, Repr

structure WalConfig where
  segmentMaxBytes : Nat
  maxRecordBytes : Nat
deriving DecidableEq, Repr

/-- A segment file: its content, and the content it had when last synced, to
which a crash takes it back. -/
structure Segment where
  id : Nat
  content : List WalRecord
  durable : List WalRecord
deriving DecidableEq, Repr

namespace Segment

def fileLen (segment : Segment) : Nat := (segment.content.map WalRecord.encodedLen).sum

def sync (segment : Segment) : Segment := { segment with durable := segment.content }

def crash (segment : Segment) : Segment := { segment with content := segment.durable }

end Segment

/-- The segment files, in the order of their numbers, and where the next record
goes. -/
structure WalWriter where
  segments : List Segment
  activeSegmentId : Nat
  activeLen : Nat
  nextLsn : Nat
  nextSequence : Nat
deriving DecidableEq, Repr

structure AppendResult where
  lsn : Nat
  sequence : Nat
  durable : Bool
deriving DecidableEq, Repr

namespace WalWriter

def ensureMinSequence (wal : WalWriter) (minSeq : Nat) : WalWriter :=
  { wal with nextSequence := max wal.nextSequence minSeq }

/-- Appending to a file that does not exist creates it. -/
def appendFile (segments : List Segment) (id : Nat) (record : WalRecord) : List Segment :=
  if segments.any fun segment => segment.id = id then
    segments.map fun segment =>
      if segment.id = id then { segment with content := segment.content ++ [record] } else segment
  else segments ++ [⟨id, [record], []⟩]

def fsyncFile (segments : List Segment) (id : Nat) : List Segment :=
  segments.map fun segment => if segment.id = id then segment.sync else segment

/-- The record does not fit into the active segment any more. -/
def rotates (config : WalConfig) (wal : WalWriter) (record : WalRecord) : Bool :=
  decide (0 < wal.activeLen ∧ config.segmentMaxBytes < wal.activeLen + record.encodedLen)

def rotate (wal : WalWriter) : WalWriter :=
  { wal with activeSegmentId := wal.activeSegmentId + 1, activeLen := 0 }

def write (wal : WalWriter) (record : WalRecord) (mode : DurabilityMode) : WalWriter :=
  let written := appendFile wal.segments wal.activeSegmentId record
  { wal with
    segments := match mode with
      | .relaxed => written
      | .strict => fsyncFile written wal.activeSegmentId
    activeLen := wal.activeLen + record.encodedLen
    nextLsn := wal.nextLsn + 1
    nextSequence := wal.nextSequence + 1 }

def append (config : WalConfig) (wal : WalWriter) (payload : WalPayload) (mode : DurabilityMode) :
    Except String (WalWriter × AppendResult) :=
  let record : WalRecord := ⟨wal.nextLsn, wal.nextSequence, payload⟩
  if config.maxRecordBytes < record.encodedLen then
    .error s!"encoded WAL record exceeds configured max: {record.encodedLen} > {config.maxRecordBytes}"
  else
    let ready := if wal.rotates config record then wal.rotate else wal
    .ok (ready.write record mode, ⟨wal.nextLsn, wal.nextSequence, decide (mode = .strict)⟩)

theorem append_numbers {config : WalConfig} {wal after : WalWriter} {payload : WalPayload} {mode : DurabilityMode}
    {result : AppendResult} (appended : wal.append config payload mode = .ok (after, result)) :
    result.sequence = wal.nextSequence ∧ after.nextSequence = wal.nextSequence + 1 := by
  unfold append at appended
  dsimp only at appended
  split at appended
  · cases appended
  · cases appended
    refine ⟨rfl, ?_⟩
    unfold write
    dsimp only
    split <;> rfl

/-- Continue after the records recovered from the files. The active segment is
the one with the highest number, whether or not recovery got that far. -/
def openAt (segments : List Segment) (nextLsn nextSequence : Nat) : WalWriter :=
  let active := ((segments.map Segment.id).max?).getD 1
  { segments
    activeSegmentId := active
    activeLen := ((segments.find? fun segment => segment.id = active).map Segment.fileLen).getD 0
    nextLsn
    nextSequence }

end WalWriter

/-- Read records as long as their numbers are consecutive; the flag tells that
one was not. -/
def readRecords : Option Nat → List WalRecord → List WalRecord × Option Nat × Bool
  | expected, [] => ([], expected, false)
  | expected, record :: rest =>
    if expected.any fun lsn => lsn ≠ record.lsn then ([], expected, true)
    else
      let (records, next, stopped) := readRecords (some (record.lsn + 1)) rest
      (record :: records, next, stopped)

/-- Recovery reads the segments in order and stops at the first gap. The segment
with the gap is cut there; later segments are ignored but stay on disk. -/
def recoverSegments : Option Nat → List Segment → List WalRecord × List Segment
  | _, [] => ([], [])
  | expected, segment :: rest =>
    match readRecords expected segment.content with
    | (records, _, true) => (records, { segment with content := records } :: rest)
    | (records, next, false) =>
      let (more, others) := recoverSegments next rest
      (records ++ more, segment :: others)

def recoverWal (segments : List Segment) : List WalRecord × List Segment := recoverSegments none segments

end KayaDB.Storage
