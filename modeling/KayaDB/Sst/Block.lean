import KayaDB.Library.Guarded
import KayaDB.Wal.Codec

/-! Data blocks of a table file. A block lists entries one after another, in the
plain layout or with each key cut to what it does not share with the one before
it, starting anew with every eighth. A block may be stored compressed. -/

namespace KayaDB.Sst
open Raft (Bytes toLeBytes fromLeBytes)
open Storage (SstEntry)
open Wal (crc32c)
open Guarded
variable (bytes : Bytes)

def readLe (width : Nat) (message : String) (bytes : Bytes) (offset : Nat) : Guarded Nat := do
  let stop ← word (offset + width)
  refuse (bytes.length < stop) message
  let field ← slice bytes offset stop
  .ok (fromLeBytes field)

def readU16 : Bytes → Nat → Guarded Nat := readLe 2 "truncated u16"
def readU32 : Bytes → Nat → Guarded Nat := readLe 4 "truncated u32"
def readU64 : Bytes → Nat → Guarded Nat := readLe 8 "truncated u64"

def readU8 (offset : Nat) : Guarded UInt8 :=
  match bytes[offset]? with
  | some byte => .ok byte
  | none => .error (.error "truncated u8")

def entryKindPut : UInt8 := 1
def entryKindDelete : UInt8 := 2

/-- The value behind a key, by the kind of the entry. -/
def decodeValue (next valueLen : Nat) (kind : UInt8) : Guarded (Option Bytes × Nat) :=
  if kind = entryKindPut then do
    let value ← slice bytes next (next + valueLen)
    .ok (some value, next + valueLen)
  else if kind = entryKindDelete then .ok (none, next)
  else .error (.error s!"unknown entry kind: {kind.toNat}")

def decodeEntryLegacy (offset dataLen : Nat) : Guarded (SstEntry × Nat) := do
  let next ← word (offset + 17)
  refuse (dataLen < next) "truncated data block entry header"
  let keyLen ← readU32 bytes offset
  let valueLen ← readU32 bytes (offset + 4)
  let sequence ← readU64 bytes (offset + 8)
  let kind ← readU8 bytes (offset + 16)
  let stop ← word (next + keyLen + valueLen)
  refuse (dataLen < stop) "truncated entry key/value"
  let key ← slice bytes next (next + keyLen)
  let (value, next) ← decodeValue bytes (next + keyLen) valueLen kind
  .ok (⟨key, sequence, value⟩, next)

def decodeEntryPrefix (offset dataLen : Nat) (restartKey : Bytes) : Guarded (SstEntry × Nat) := do
  let next ← word (offset + 21)
  refuse (dataLen < next) "truncated prefix entry header"
  let shared ← readU32 bytes offset
  let nonSharedLen ← readU32 bytes (offset + 4)
  let valueLen ← readU32 bytes (offset + 8)
  let sequence ← readU64 bytes (offset + 12)
  let kind ← readU8 bytes (offset + 20)
  let stop ← word (next + nonSharedLen + valueLen)
  refuse (restartKey.length < shared ∨ dataLen < stop) "truncated prefix entry key/value"
  let front ← slice restartKey 0 shared
  let nonShared ← slice bytes next (next + nonSharedLen)
  let (value, next) ← decodeValue bytes (next + nonSharedLen) valueLen kind
  .ok (⟨front ++ nonShared, sequence, value⟩, next)

def decodeLegacyEntries (bytes : Bytes) (dataLen : Nat) : Nat → Nat → Guarded (List SstEntry)
  | 0, _ => .ok []
  | count + 1, offset => do
    let (entry, next) ← decodeEntryLegacy bytes offset dataLen
    let others ← decodeLegacyEntries bytes dataLen count next
    .ok (entry :: others)

def entriesBase : Nat := 8

/-- The restart offsets from this number on; each lies behind the one before. -/
def readRestarts (bytes : Bytes) (entriesEnd entriesSpan : Nat) : Nat → Nat → Option Nat → Guarded (List Nat)
  | 0, _, _ => .ok []
  | count + 1, number, previous => do
    let place ← word (entriesEnd + number * 4)
    let rel ← readU32 bytes place
    refuse (entriesSpan < rel) "restart offset out of entries range"
    refuse (∃ before ∈ previous, rel ≤ before) "restart offsets not monotonic"
    let others ← readRestarts bytes entriesEnd entriesSpan count (number + 1) (some rel)
    .ok (rel :: others)

/-- The restarts that are left, and the key to go on with. -/
def passRestarts (offset : Nat) (restartKey : Bytes) : List Nat → List Nat × Bytes
  | [] => ([], restartKey)
  | restart :: rest => if offset = entriesBase + restart then passRestarts offset [] rest else (restart :: rest, restartKey)

def decodePrefixEntries (bytes : Bytes) (entriesEnd : Nat) : Nat → Nat → List Nat → Bytes → Guarded (List SstEntry × Nat)
  | 0, offset, _, _ => .ok ([], offset)
  | count + 1, offset, restarts, restartKey => do
    let (restarts, restartKey) := passRestarts offset restartKey restarts
    let (entry, next) ← decodeEntryPrefix bytes offset entriesEnd restartKey
    let (others, last) ← decodePrefixEntries bytes entriesEnd count next restarts entry.key
    .ok (entry :: others, last)

def decodeRestartBlock (dataLen entryCount restartCount : Nat) : Guarded (List SstEntry) := do
  refuse (2 ^ 64 ≤ restartCount * 4) "restart array overflow"
  let least ← word (entriesBase + restartCount * 4)
  refuse (dataLen < least) "truncated restart array"
  let entriesEnd ← sub dataLen (restartCount * 4)
  let restarts ← readRestarts bytes entriesEnd (entriesEnd - entriesBase) restartCount 0 none
  let (entries, offset) ← decodePrefixEntries bytes entriesEnd entryCount entriesBase restarts []
  refuse (offset ≠ entriesEnd) "prefix entries region size mismatch"
  .ok entries

def decodeDataBlock : Guarded (List SstEntry) := do
  refuse (bytes.length < 12) "data block too short"
  let dataLen ← sub bytes.length 4
  let expectedCrc ← readU32 bytes dataLen
  let body ← slice bytes 0 dataLen
  refuse (expectedCrc ≠ (crc32c body).toNat) "SSTable data block CRC mismatch"
  let entryCount ← readU32 bytes 0
  let restartCount ← readU32 bytes 4
  if restartCount = 0 then decodeLegacyEntries bytes dataLen entryCount 8
  else decodeRestartBlock bytes dataLen entryCount restartCount

inductive CompressionCodec where
  | none
  | lz4
  | zstd
deriving DecidableEq, Repr

def blockStoreRaw : UInt8 := 0
def blockStoreLz4 : UInt8 := 1
def blockStoreZstd : UInt8 := 2

/-- The compression libraries. What they return is a vector, and so is its size
limited. -/
structure Libraries where
  compressLz4 : Bytes → Bytes
  decompressLz4 : Bytes → Except String Bytes
  encodeZstd : Bytes → Option Bytes
  decodeZstd : Bytes → Except String Bytes
  smallLz4 : ∀ {stored raw}, decompressLz4 stored = .ok raw → raw.length < 2 ^ 63
  smallZstd : ∀ {stored raw}, decodeZstd stored = .ok raw → raw.length < 2 ^ 63

def reportCorruption (label : String) : Except String Bytes → Guarded Bytes
  | .ok raw => .ok raw
  | .error message => .error (.error s!"{label} data block decompress failed: {message}")

def unwrapDataBlockFromStorage (libraries : Libraries) (stored : Bytes) (codec : CompressionCodec) : Guarded Bytes :=
  if codec = .none then .ok stored
  else
    match stored with
    | [] => .error (.error "compressed data block is empty")
    | kind :: content =>
      if kind = blockStoreRaw then .ok content
      else if kind = blockStoreLz4 then reportCorruption "LZ4" (libraries.decompressLz4 content)
      else if kind = blockStoreZstd then reportCorruption "ZSTD" (libraries.decodeZstd content)
      else .error (.error s!"unknown SSTable block store kind: {kind.toNat}")

end KayaDB.Sst
