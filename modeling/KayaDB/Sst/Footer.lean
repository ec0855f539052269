import KayaDB.Sst.Block

/-! The index of the blocks of a table file, and the footer that tells where the
index and the bloom filter are. There are footers of three lengths; the one at
hand is found by the length it states, and its version is looked at later. -/

namespace KayaDB.Sst
open Raft (Bytes toLeBytes fromLeBytes)
open Wal (crc32c)
open Guarded
variable (bytes : Bytes)

structure IndexEntry where
  separatorKey : Bytes
  blockOffset : Nat
  blockLen : Nat
  firstSeq : Nat
  lastSeq : Nat
deriving DecidableEq, Repr

def encodeIndexEntry (entry : IndexEntry) : Bytes :=
  toLeBytes 4 entry.separatorKey.length ++ toLeBytes 8 entry.blockOffset ++ toLeBytes 4 entry.blockLen ++
    toLeBytes 8 entry.firstSeq ++ toLeBytes 8 entry.lastSeq ++ entry.separatorKey

def indexBody (entries : List IndexEntry) : Bytes := toLeBytes 4 entries.length ++ entries.flatMap encodeIndexEntry

def finalizeIndexBlock (entries : List IndexEntry) : Bytes := indexBody entries ++ toLeBytes 4 (crc32c (indexBody entries)).toNat

def decodeIndexEntry (offset dataLen : Nat) : Guarded (IndexEntry × Nat) := do
  let next ← word (offset + 32)
  refuse (dataLen < next) "truncated index entry header"
  let sepLen ← readU32 bytes offset
  let blockOffset ← readU64 bytes (offset + 4)
  let blockLen ← readU32 bytes (offset + 12)
  let firstSeq ← readU64 bytes (offset + 16)
  let lastSeq ← readU64 bytes (offset + 24)
  let stop ← word (next + sepLen)
  refuse (dataLen < stop) "truncated index separator key"
  let separatorKey ← slice bytes next stop
  .ok (⟨separatorKey, blockOffset, blockLen, firstSeq, lastSeq⟩, stop)

def decodeIndexEntries (bytes : Bytes) (dataLen : Nat) : Nat → Nat → Guarded (List IndexEntry)
  | 0, _ => .ok []
  | count + 1, offset => do
    let (entry, next) ← decodeIndexEntry bytes offset dataLen
    let others ← decodeIndexEntries bytes dataLen count next
    .ok (entry :: others)

def decodeIndexBlock : Guarded (List IndexEntry) := do
  refuse (bytes.length < 8) "index block too short"
  let dataLen ← sub bytes.length 4
  let expectedCrc ← readU32 bytes dataLen
  let body ← slice bytes 0 dataLen
  refuse (expectedCrc ≠ (crc32c body).toNat) "SSTable index block CRC mismatch"
  let entryCount ← readU32 bytes 0
  decodeIndexEntries bytes dataLen entryCount 4

def sstMagic : Nat := 0x4b535354
def sstVersion : Nat := 3
def sstVersionV1 : Nat := 1
def sstVersionV2 : Nat := 2
def sstVersionV4 : Nat := 4
def sstFooterLen : Nat := 48
def sstFooterLenV2 : Nat := 64
def sstFooterLenV3 : Nat := 72

structure SstFooter where
  indexBlockOffset : Nat
  indexBlockLen : Nat
  tableMinSeq : Nat
  tableMaxSeq : Nat
  entryCount : Nat
  formatVersion : Nat
  bloomOffset : Nat
  bloomLen : Nat
  bloomHashCount : Nat
  compressionCodec : CompressionCodec
deriving DecidableEq, Repr

def CompressionCodec.asWire : CompressionCodec → Nat
  | .none => 0
  | .lz4 => 1
  | .zstd => 2

def CompressionCodec.fromWire (codec : Nat) : Guarded CompressionCodec :=
  if codec = 0 then .ok .none
  else if codec = 1 then .ok .lz4
  else if codec = 2 then .ok .zstd
  else .error (.error s!"unsupported SSTable compression codec: {codec}")

def SstFooter.physicalLen (footer : SstFooter) : Nat :=
  if footer.formatVersion ≤ sstVersionV1 then sstFooterLen
  else if footer.formatVersion = sstVersionV2 then sstFooterLenV2
  else sstFooterLenV3

def footerBody (footer : SstFooter) : Bytes :=
  toLeBytes 8 footer.indexBlockOffset ++ toLeBytes 4 footer.indexBlockLen ++ toLeBytes 8 footer.tableMinSeq ++
    toLeBytes 8 footer.tableMaxSeq ++ toLeBytes 8 footer.entryCount ++ toLeBytes 2 footer.formatVersion ++
    toLeBytes 2 footer.physicalLen ++
    (if sstFooterLenV2 ≤ footer.physicalLen then
      toLeBytes 8 footer.bloomOffset ++ toLeBytes 4 footer.bloomLen ++ toLeBytes 4 footer.bloomHashCount else []) ++
    (if footer.physicalLen = sstFooterLenV3 then toLeBytes 4 footer.compressionCodec.asWire ++ toLeBytes 4 0 else [])

def encodeFooter (footer : SstFooter) : Bytes :=
  footerBody footer ++ toLeBytes 4 (crc32c (footerBody footer)).toNat ++ toLeBytes 4 sstMagic

/-- The length that a footer of this length would state, if the file has room for one. -/
def statedLen (len : Nat) : Guarded Nat :=
  if len ≤ bytes.length then do
    let start ← sub bytes.length len
    let tail ← slice bytes start bytes.length
    readU16 tail 38
  else .ok 0

/-- The footer at the end of the file, by the length it states: the longest that
fits the file and states its own length. -/
def footerLen : Guarded Nat := do
  let v3 ← statedLen bytes sstFooterLenV3
  if v3 = sstFooterLenV3 then .ok sstFooterLenV3
  else do
    let v2 ← statedLen bytes sstFooterLenV2
    if v2 = sstFooterLenV2 then .ok sstFooterLenV2
    else do
      let v1 ← statedLen bytes sstFooterLen
      refuse (v1 ≠ sstFooterLen) s!"invalid SSTable footer_len: {v1}"
      .ok sstFooterLen

def decodeBloomPlace (fb : Bytes) (len : Nat) : Guarded (Nat × Nat × Nat) :=
  if sstFooterLenV2 ≤ len then do
    let bloomOffset ← readU64 fb 40
    let bloomLen ← readU32 fb 48
    let bloomHashCount ← readU32 fb 52
    .ok (bloomOffset, bloomLen, bloomHashCount)
  else .ok (0, 0, 0)

def decodeCodec (fb : Bytes) (len : Nat) : Guarded CompressionCodec :=
  if len = sstFooterLenV3 then do
    let codec ← readU32 fb 56
    CompressionCodec.fromWire codec
  else .ok .none

def decodeFooterFields (fb : Bytes) (len : Nat) : Guarded SstFooter := do
  let formatVersion ← readU16 fb 36
  refuse (formatVersion ∉ [sstVersionV1, sstVersionV2, sstVersion, sstVersionV4])
    s!"unsupported SSTable version: {formatVersion}"
  let (bloomOffset, bloomLen, bloomHashCount) ← decodeBloomPlace fb len
  let compressionCodec ← decodeCodec fb len
  let indexBlockOffset ← readU64 fb 0
  let indexBlockLen ← readU32 fb 8
  let tableMinSeq ← readU64 fb 12
  let tableMaxSeq ← readU64 fb 20
  let entryCount ← readU64 fb 28
  .ok { indexBlockOffset, indexBlockLen, tableMinSeq, tableMaxSeq, entryCount, formatVersion, bloomOffset, bloomLen,
        bloomHashCount, compressionCodec }

def hexWord (value : Nat) : String := "0x" ++ String.ofList ((Nat.toDigits 16 value).leftpad 8 '0')

def decodeFooter : Guarded SstFooter := do
  refuse (bytes.length < sstFooterLen) "file too short for SSTable footer"
  let magicStart ← sub bytes.length 4
  let magicField ← slice bytes magicStart bytes.length
  let magic ← readU32 magicField 0
  refuse (magic ≠ sstMagic) s!"bad SSTable magic: {hexWord magic} (expected {hexWord sstMagic})"
  let len ← footerLen bytes
  refuse (bytes.length < len) "file too short for SSTable footer"
  let footerStart ← sub bytes.length len
  let fb ← slice bytes footerStart bytes.length
  let crcLen ← sub len 8
  let expectedCrc ← readU32 fb crcLen
  let body ← slice fb 0 crcLen
  refuse (expectedCrc ≠ (crc32c body).toNat) "SSTable footer CRC mismatch"
  decodeFooterFields fb len

end KayaDB.Sst
