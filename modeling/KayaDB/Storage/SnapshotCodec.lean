import KayaDB.Manifest.Codec

/-! The bytes of an engine snapshot: live tables, memtable rows, the sequence number it
was cut off at and the table files. Releasing a snapshot reads the numbers of its tables
from these bytes, over a layout of its own. -/

namespace KayaDB.Storage
open Raft (Bytes toLeBytes fromLeBytes)
open Manifest (asBytes)

/-- A row of the memtable; without a value it is deleted. -/
structure SnapshotRow where
  key : Bytes
  value : Option Bytes
  sequence : UInt64
deriving DecidableEq, Repr

structure SnapshotView where
  pinnedTables : List Manifest.TableMetadata
  memtableData : List SnapshotRow
  cutoffSeq : UInt64
deriving DecidableEq

def lenPrefixed (bytes : Bytes) : Bytes := toLeBytes 4 bytes.length ++ bytes

namespace SnapshotView

def encodeTable (table : Manifest.TableMetadata) : Bytes :=
  toLeBytes 8 table.tableId.toNat ++ toLeBytes 4 table.level.toNat ++ lenPrefixed (asBytes table.path) ++
    lenPrefixed table.smallestKey ++ lenPrefixed table.largestKey ++ toLeBytes 8 table.minSequence.toNat ++
    toLeBytes 8 table.maxSequence.toNat ++ toLeBytes 8 table.entryCount.toNat ++ toLeBytes 8 table.fileSize.toNat ++
    toLeBytes 4 table.footerChecksum.toNat

def encodeRow (row : SnapshotRow) : Bytes :=
  lenPrefixed row.key ++ (match row.value with
    | some value => 1 :: lenPrefixed value
    | none => [0]) ++ toLeBytes 8 row.sequence.toNat

def encodeFile (content : Manifest.TableMetadata → Bytes) (table : Manifest.TableMetadata) : Bytes :=
  lenPrefixed (asBytes table.path) ++ toLeBytes 8 (content table).length ++ content table

/-- `content` is what the table files hold. -/
def encode (view : SnapshotView) (content : Manifest.TableMetadata → Bytes) : Bytes :=
  toLeBytes 4 view.pinnedTables.length ++ view.pinnedTables.flatMap encodeTable ++
    toLeBytes 4 view.memtableData.length ++ view.memtableData.flatMap encodeRow ++ toLeBytes 8 view.cutoffSeq.toNat ++
    toLeBytes 4 view.pinnedTables.length ++ view.pinnedTables.flatMap (encodeFile content)

end SnapshotView

def takeU32 (cur : Bytes) : Except String (Nat × Bytes) :=
  if cur.length < 4 then .error "truncated snapshot u32" else .ok (fromLeBytes (cur.take 4), cur.drop 4)

def skipBytes (cur : Bytes) (len : Nat) (message : String) : Except String Bytes :=
  if cur.length < len then .error message else .ok (cur.drop len)

/-- The number of the first table, and what follows it. The five numbers behind
its keys take 36 bytes; 40 are skipped. -/
def skipTable (cur : Bytes) : Except String (Nat × Bytes) := do
  let rest ← skipBytes cur 8 "truncated snapshot table id"
  let rest ← skipBytes rest 4 "truncated level"
  let (pathLen, rest) ← takeU32 rest
  let rest ← skipBytes rest pathLen "truncated path"
  let (smallestLen, rest) ← takeU32 rest
  let rest ← skipBytes rest smallestLen "truncated smallest"
  let (largestLen, rest) ← takeU32 rest
  let rest ← skipBytes rest largestLen "truncated largest"
  let rest ← skipBytes rest 40 "truncated table footer"
  .ok (fromLeBytes (cur.take 8), rest)

/-- The numbers read so far count as released when an error ends the reading. -/
def releasedFrom : Nat → Bytes → List Nat × Except String Unit
  | 0, _ => ([], .ok ())
  | count + 1, cur =>
    match skipTable cur with
    | .error message => ([], .error message)
    | .ok (tableId, rest) =>
      let (others, result) := releasedFrom count rest
      (tableId :: others, result)

def releasedTables (data : Bytes) : List Nat × Except String Unit :=
  if data.isEmpty then ([], .ok ())
  else
    match takeU32 data with
    | .error message => ([], .error message)
    | .ok (count, cur) => releasedFrom count cur

theorem takeU32_append {value : Nat} (small : value < 2 ^ 32) (rest : Bytes) :
    takeU32 (toLeBytes 4 value ++ rest) = .ok (value, rest) := by
  have length := Raft.length_toLeBytes 4 value
  unfold takeU32
  rw [if_neg (by rw [List.length_append]; omega), List.take_left' length, List.drop_left' length, Wal.fromLeBytes_of_lt small]

theorem skipBytes_append {front : Bytes} {len : Nat} (length : front.length = len) (rest : Bytes) (message : String) :
    skipBytes (front ++ rest) len message = .ok rest := by
  unfold skipBytes
  rw [if_neg (by rw [List.length_append]; omega), List.drop_left' length]

/-- The texts of a table are not longer than their length fields can say. -/
structure SnapshotView.Fits (table : Manifest.TableMetadata) : Prop where
  path : (asBytes table.path).length < 2 ^ 32
  smallest : table.smallestKey.length < 2 ^ 32
  largest : table.largestKey.length < 2 ^ 32

instance (table : Manifest.TableMetadata) : Decidable (SnapshotView.Fits table) :=
  decidable_of_iff ((asBytes table.path).length < 2 ^ 32 ∧ table.smallestKey.length < 2 ^ 32 ∧ table.largestKey.length < 2 ^ 32)
    ⟨fun ⟨path, smallest, largest⟩ => ⟨path, smallest, largest⟩, fun ⟨path, smallest, largest⟩ => ⟨path, smallest, largest⟩⟩

variable {table : Manifest.TableMetadata}

/-- A table is found by its number, and four bytes too many are skipped. -/
theorem skipTable_encodeTable (fits : SnapshotView.Fits table) {four : Bytes} (length : four.length = 4)
    (rest : Bytes) :
    skipTable (SnapshotView.encodeTable table ++ (four ++ rest)) = .ok (table.tableId.toNat, rest) := by
  have numbers : (toLeBytes 8 table.minSequence.toNat ++ (toLeBytes 8 table.maxSequence.toNat ++
      (toLeBytes 8 table.entryCount.toNat ++ (toLeBytes 8 table.fileSize.toNat ++
        (toLeBytes 4 table.footerChecksum.toNat ++ four))))).length = 40 := by
    simp only [List.length_append, Raft.length_toLeBytes, length]
  have number := Wal.fromLeBytes_of_lt (show table.tableId.toNat < 256 ^ 8 from table.tableId.toNat_lt)
  unfold skipTable SnapshotView.encodeTable lenPrefixed
  simp only [List.append_assoc]
  rw [skipBytes_append (Raft.length_toLeBytes 8 _)]
  simp only [bind, Except.bind]
  rw [skipBytes_append (Raft.length_toLeBytes 4 _)]
  simp only [takeU32_append fits.path, skipBytes_append rfl, takeU32_append fits.smallest, takeU32_append fits.largest]
  have footer := skipBytes_append numbers rest "truncated table footer"
  simp only [List.append_assoc] at footer
  simp only [footer, List.take_left' (Raft.length_toLeBytes 8 _), number]

theorem releasedTables_single (fits : SnapshotView.Fits table) (rows : List SnapshotRow) (cutoff : UInt64)
    (content : Manifest.TableMetadata → Bytes) :
    releasedTables (SnapshotView.encode ⟨[table], rows, cutoff⟩ content) = ([table.tableId.toNat], .ok ()) := by
  have filled : ∀ rest : Bytes, (toLeBytes 4 1 ++ rest).isEmpty = false := fun _ => rfl
  unfold releasedTables SnapshotView.encode
  simp only [List.append_assoc, List.length_singleton, filled, Bool.false_eq_true, if_false, List.flatMap_singleton,
    takeU32_append (show 1 < 2 ^ 32 by decide), releasedFrom, skipTable_encodeTable fits (Raft.length_toLeBytes 4 _)]

theorem releasedTables_none (rows : List SnapshotRow) (cutoff : UInt64) (content : Manifest.TableMetadata → Bytes) :
    releasedTables (SnapshotView.encode ⟨[], rows, cutoff⟩ content) = ([], .ok ()) := by
  have filled : ∀ rest : Bytes, (toLeBytes 4 0 ++ rest).isEmpty = false := fun _ => rfl
  unfold releasedTables SnapshotView.encode
  simp only [List.append_assoc, List.length_nil, filled, Bool.false_eq_true, if_false,
    takeU32_append (show 0 < 2 ^ 32 by decide), releasedFrom]

end KayaDB.Storage
