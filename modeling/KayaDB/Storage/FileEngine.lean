import KayaDB.Manifest.Codec
import KayaDB.Sst.Damage
import KayaDB.Storage.Engine

/-! The engine down to the bytes of its table files: what the disk holds under
which path, and the readers of the live tables with their caches. -/

namespace KayaDB.Storage
open Raft (Bytes)
open Sst (SstableReader BlockCache Libraries)
open Versions

/-- White space as Unicode counts it. -/
def isWhitespace (char : Char) : Bool :=
  let code := char.toNat
  decide (9 ≤ code ∧ code ≤ 13 ∨ code = 32 ∨ code = 133 ∨ code = 160 ∨ code = 5760 ∨ 8192 ≤ code ∧ code ≤ 8202 ∨
    code = 8232 ∨ code = 8233 ∨ code = 8239 ∨ code = 8287 ∨ code = 12288)

def trim (text : List Char) : List Char := ((text.dropWhile isWhitespace).reverse.dropWhile isWhitespace).reverse

/-- The second byte is a colon, so the first is a character by itself. -/
def hasDrive : List Char → Bool
  | first :: second :: _ => decide (first.toNat < 128) && second == ':'
  | _ => false

/-- The parts of a path that stays below the root, joined by slashes. -/
def relativePath (path : String) : Except String String :=
  let trimmed := trim (path.toList.map fun char => if char.toNat = 92 then '/' else char)
  let text := String.ofList trimmed
  if trimmed = [] ∨ trimmed = ['.'] then .ok ""
  else if trimmed.head? = some '/' ∨ hasDrive trimmed then .error s!"relative path must not be absolute: {text}"
  else
    let parts := trimmed.splitOn '/'
    if ['.', '.'] ∈ parts then .error s!"relative path must not contain '..': {text}"
    else .ok (String.ofList (List.intercalate ['/'] (parts.filter fun part => part ≠ [] ∧ part ≠ ['.'])))

/-- What is stored under which path, and where a file can be written. -/
structure Files where
  content : String → Option Bytes
  writable : String → Bool

namespace Files

/-- A vector in memory is shorter than this, so no longer file can be read. -/
def Small (files : Files) : Prop := ∀ path bytes, files.content path = some bytes → bytes.length < 2 ^ 63

def readFile (files : Files) (path : String) : Guarded Bytes :=
  match relativePath path with
  | .error message => .error (.error message)
  | .ok rel =>
    match files.content rel with
    | some bytes => .ok bytes
    | none => .error (.error "not found")

/-- Writing at the start of a file leaves what it holds further on. -/
def writeStart (files : Files) (rel : String) (bytes : Bytes) : Files :=
  if files.writable rel then
    { files with
      content := fun path =>
        if path = rel then some (bytes ++ ((files.content rel).getD []).drop bytes.length) else files.content path }
  else files

variable {bytes : Bytes} {files : Files}

theorem Small.writeStart (small : files.Small) (short : bytes.length < 2 ^ 63) (rel : String) :
    (files.writeStart rel bytes).Small := by
  unfold Files.writeStart
  split
  · intro path held same
    dsimp only at same
    split at same
    · cases same
      have old : ((files.content rel).getD []).length < 2 ^ 63 := by
        cases stored : files.content rel with
        | none => exact Nat.two_pow_pos 63
        | some before => exact small rel before stored
      simp only [List.length_append, List.length_drop]
      omega
    · exact small path held same
  · exact small

theorem Small.readFile (small : files.Small) {path : String} (read : files.readFile path = .ok bytes) :
    bytes.length < 2 ^ 63 := by
  unfold Files.readFile at read
  split at read
  · exact nomatch read
  · split at read
    next stored => exact small _ bytes (Except.ok.inj read ▸ stored)
    next => exact nomatch read

theorem safe_readFile (files : Files) (path : String) : Guarded.Safe (files.readFile path) := by
  unfold readFile
  split
  · exact Guarded.safe_error _
  · split
    · exact Guarded.safe_ok _
    · exact Guarded.safe_error _

end Files

structure LiveTable where
  metadata : Manifest.TableMetadata
  reader : SstableReader
  cache : Option BlockCache

/-- `liveSstables` is ordered from the highest table number down. -/
structure FileEngine where
  limits : LimitsConfig
  blockCacheCapacity : Nat
  disk : Files
  memtable : Memtable
  liveTables : List Manifest.TableMetadata
  lastSequence : UInt64
  liveSstables : List LiveTable
  refcounts : UInt64 → Nat

namespace FileEngine

/-- The first version that a table gives. The caches are those after the reads. -/
def lookup (libraries : Libraries) (key : Bytes) (readTs : Nat) :
    List LiveTable → Guarded (Option SstEntry) × List LiveTable
  | [] => (.ok none, [])
  | table :: rest =>
    match table.reader.getAt libraries table.cache key readTs with
    | (.error stop, cache) => (.error stop, { table with cache } :: rest)
    | (.ok (some entry), cache) => (.ok (some entry), { table with cache } :: rest)
    | (.ok none, cache) =>
      let (found, rest) := lookup libraries key readTs rest
      (found, { table with cache } :: rest)

def getInner (libraries : Libraries) (engine : FileEngine) (key : Bytes) (readAt : ReadTimestamp) :
    Guarded (Option Bytes) × FileEngine :=
  match engine.memtable.getAt key readAt.asNat with
  | some entry => (.ok entry.value, engine)
  | none =>
    let (found, liveSstables) := lookup libraries key readAt.asNat engine.liveSstables
    (found.map fun entry => entry.bind Entry.value, { engine with liveSstables })

def mergeTables (libraries : Libraries) (front : Bytes) (readTs maxResults : Nat) :
    List LiveTable → List SstEntry → Guarded (List SstEntry) × List LiveTable
  | [], merged => (.ok merged, [])
  | table :: rest, merged =>
    match table.reader.scanPrefixAt libraries table.cache front readTs with
    | (.error stop, cache) => (.error stop, { table with cache } :: rest)
    | (.ok entries, cache) =>
      let (result, rest) := mergeTables libraries front readTs maxResults rest (entries.foldl (absorb maxResults) merged)
      (result, { table with cache } :: rest)

/-- What a scan makes of the rows of the tables. -/
def finishScan (limits : LimitsConfig) (memtable : Memtable) (front : Bytes) (limit : Option Nat) (readTs : Nat)
    (merged : List SstEntry) : List (Bytes × Bytes) :=
  let visible := (memtable.rawScanPrefix front).filter fun entry => entry.sequence ≤ readTs
  let rows := visible.foldl (absorb limits.maxScanResults) merged
  let effectiveLimit := limit.elim limits.maxScanResults fun limit => min limit limits.maxScanResults
  collectRows limits.maxScanBytes effectiveLimit 0 0 (rows.map fun row => (row.key, row.value))

def scanPrefixInner (libraries : Libraries) (engine : FileEngine) (front : Bytes) (limit : Option Nat)
    (readAt : ReadTimestamp) : Guarded (List (Bytes × Bytes)) × FileEngine :=
  match engine.limits.validateScanPrefix front with
  | .error message => (.error (.error message), engine)
  | .ok () =>
    let (merged, oldestFirst) :=
      mergeTables libraries front readAt.asNat engine.limits.maxScanResults engine.liveSstables.reverse []
    (merged.map (finishScan engine.limits engine.memtable front limit readAt.asNat),
      { engine with liveSstables := oldestFirst.reverse })

end FileEngine

end KayaDB.Storage
