import KayaDB.Sst.Bloom
import KayaDB.Sst.Footer

/-! The table reader. It keeps the whole file and decodes blocks as they are
needed, through a cache of decoded blocks by their offsets if there is one. -/

namespace KayaDB.Sst
open Raft (Bytes)
open Storage (SstEntry Under)
open Guarded

/-- The offset used last stands last. -/
structure BlockCache where
  capacity : Nat
  blocks : List (Nat × List SstEntry)
deriving DecidableEq, Repr

namespace BlockCache
variable (cache : BlockCache)

def new (capacity : Nat) : BlockCache := ⟨capacity, []⟩

def lookup (blockOffset : Nat) : Option (List SstEntry) :=
  (cache.blocks.find? fun block => block.1 = blockOffset).map Prod.snd

def without (blockOffset : Nat) : List (Nat × List SstEntry) :=
  cache.blocks.filter fun block => block.1 ≠ blockOffset

/-- A block that is found becomes the one used last. -/
def get (blockOffset : Nat) : Option (List SstEntry × BlockCache) :=
  (cache.lookup blockOffset).map fun entries => (entries, { cache with blocks := cache.without blockOffset ++ [(blockOffset, entries)] })

/-- A full cache drops the block not used for longest. -/
def insert (blockOffset : Nat) (entries : List SstEntry) : BlockCache :=
  if cache.capacity = 0 then cache
  else
    let kept := if (cache.lookup blockOffset).isSome then cache.without blockOffset
      else if cache.capacity ≤ cache.blocks.length then cache.blocks.tail
      else cache.blocks
    { cache with blocks := kept ++ [(blockOffset, entries)] }

variable {entries : List SstEntry} {offset : Nat} {blocks : BlockCache}

theorem lookup_mem (found : blocks.lookup offset = some entries) : (offset, entries) ∈ blocks.blocks := by
  obtain ⟨block, here, same⟩ := Option.map_eq_some_iff.mp found
  have named : block.1 = offset := by simpa using List.find?_some here
  have whole : block = (offset, entries) := Prod.ext named same
  exact whole ▸ List.mem_of_find?_eq_some here

theorem mem_get {after : BlockCache} (found : blocks.get offset = some (entries, after)) :
    (offset, entries) ∈ blocks.blocks ∧ ∀ block ∈ after.blocks, block ∈ blocks.blocks := by
  obtain ⟨stored, here, same⟩ := Option.map_eq_some_iff.mp found
  cases same
  refine ⟨lookup_mem here, fun block held => ?_⟩
  cases List.mem_append.mp held with
  | inl kept => exact List.mem_of_mem_filter kept
  | inr last => exact List.mem_singleton.mp last ▸ lookup_mem here

theorem mem_insert {block : Nat × List SstEntry} (held : block ∈ (blocks.insert offset entries).blocks) :
    block ∈ blocks.blocks ∨ block = (offset, entries) := by
  unfold insert at held
  split at held
  · exact .inl held
  · cases List.mem_append.mp held with
    | inr last => exact .inr (List.mem_singleton.mp last)
    | inl kept =>
      refine .inl ?_
      split_ifs at kept
      · exact List.mem_of_mem_filter kept
      · exact List.mem_of_mem_tail kept
      · exact kept

end BlockCache

structure SstableReader where
  bytes : Bytes
  footer : SstFooter
  index : List IndexEntry
  bloom : Option BloomFilter
deriving DecidableEq, Repr

def openBloom (bytes : Bytes) (footer : SstFooter) (idxEnd contentEnd : Nat) : Guarded (Option BloomFilter) :=
  if 0 < footer.bloomLen then do
    let bloomEnd ← word (footer.bloomOffset + footer.bloomLen)
    refuse (footer.bloomOffset < idxEnd ∨ contentEnd < bloomEnd) "bloom filter range invalid"
    let bits ← slice bytes footer.bloomOffset bloomEnd
    let bloom ← BloomFilter.fromBytes bits footer.bloomHashCount
    .ok (some bloom)
  else .ok none

def openWithCache (bytes : Bytes) (blockCacheCapacity : Nat) : Guarded (SstableReader × Option BlockCache) := do
  let footer ← decodeFooter bytes
  let idxEnd ← word (footer.indexBlockOffset + footer.indexBlockLen)
  let contentEnd ← sub bytes.length footer.physicalLen
  refuse (contentEnd < idxEnd) "index block range exceeds content area"
  let bloom ← openBloom bytes footer idxEnd contentEnd
  let indexBytes ← slice bytes footer.indexBlockOffset idxEnd
  let index ← decodeIndexBlock indexBytes
  .ok (⟨bytes, footer, index, bloom⟩, if 0 < blockCacheCapacity then some (.new blockCacheCapacity) else none)

namespace SstableReader
variable (libraries : Libraries)

def decodeBlock (reader : SstableReader) (entry : IndexEntry) : Guarded (List SstEntry) := do
  let stop ← word (entry.blockOffset + entry.blockLen)
  refuse (reader.footer.indexBlockOffset < stop) "data block offset out of bounds"
  let stored ← slice reader.bytes entry.blockOffset stop
  let raw ← unwrapDataBlockFromStorage libraries stored reader.footer.compressionCodec
  decodeDataBlock raw

/-- A block from the cache or else from the file, and the cache then. -/
def readDataBlock (reader : SstableReader) (entry : IndexEntry) (cache : Option BlockCache) :
    Guarded (List SstEntry) × Option BlockCache :=
  match cache.bind fun blocks => blocks.get entry.blockOffset with
  | some (entries, blocks) => (.ok entries, some blocks)
  | none =>
    match reader.decodeBlock libraries entry with
    | .ok entries => (.ok entries, cache.map fun blocks => blocks.insert entry.blockOffset entries)
    | .error stop => (.error stop, cache)

/-- What the loop over the index does after a block: it goes on or returns. -/
inductive Flow (σ ρ : Type) where
  | next (state : σ)
  | done (result : ρ)

/-- The loop over the index: skip an entry, or read its block and go on with what
the body makes of it. -/
def forBlocks {σ ρ : Type} (read : IndexEntry → Option BlockCache → Guarded (List SstEntry) × Option BlockCache)
    (skip : σ → IndexEntry → Bool) (body : σ → IndexEntry → List SstEntry → Flow σ ρ) (finish : σ → ρ) :
    List IndexEntry → σ → Option BlockCache → Guarded ρ × Option BlockCache
  | [], state, cache => (.ok (finish state), cache)
  | entry :: rest, state, cache =>
    if skip state entry then forBlocks read skip body finish rest state cache
    else
      match read entry cache with
      | (.error stop, cache) => (.error stop, cache)
      | (.ok block, cache) =>
        match body state entry block with
        | .done result => (.ok result, cache)
        | .next state => forBlocks read skip body finish rest state cache

/-- The entries of a block, for a point lookup: an answer, or none yet. -/
def lookIn (multiVersion : Bool) (key : Bytes) (readTs : Nat) : List SstEntry → Flow Unit (Option SstEntry)
  | [] => .next ()
  | entry :: rest =>
    if entry.key < key then lookIn multiVersion key readTs rest
    else if key < entry.key then .done none
    else if entry.sequence ≤ readTs then .done (some entry)
    else if !multiVersion then .done none
    else lookIn multiVersion key readTs rest

def multiVersion (reader : SstableReader) : Bool := decide (sstVersionV4 ≤ reader.footer.formatVersion)

/-- The state tells whether a block was read already. -/
def getBody (multiVersion : Bool) (key : Bytes) (readTs : Nat) (_ : Bool) (entry : IndexEntry) (block : List SstEntry) :
    Flow Bool (Option SstEntry) :=
  match lookIn multiVersion key readTs block with
  | .done result => .done result
  | .next () => if !multiVersion then .done none else if key < entry.separatorKey then .done none else .next true

def mightContain (reader : SstableReader) (key : Bytes) : Guarded Bool :=
  match reader.bloom with
  | some bloom => bloom.mightContain key
  | none => .ok true

def skipGet (key : Bytes) (started : Bool) (entry : IndexEntry) : Bool := !started && decide (entry.separatorKey < key)

def getAt (reader : SstableReader) (cache : Option BlockCache) (key : Bytes) (readTs : Nat) :
    Guarded (Option SstEntry) × Option BlockCache :=
  match reader.mightContain key with
  | .error stop => (.error stop, cache)
  | .ok false => (.ok none, cache)
  | .ok true =>
    forBlocks (reader.readDataBlock libraries) (skipGet key) (getBody reader.multiVersion key readTs) (fun _ => none) reader.index
      false cache

/-- The rows found, the key at hand and whether it has got its version. -/
structure ScanState where
  result : List SstEntry
  currentKey : Option Bytes
  selected : Bool
deriving DecidableEq, Repr

def scanIn (front : Bytes) (readTs : Nat) : ScanState → List SstEntry → Flow ScanState (List SstEntry)
  | state, [] => .next state
  | state, entry :: rest =>
    if !front.isEmpty && !decide (Under front entry) then
      if entry.key < front then scanIn front readTs state rest else .done state.result
    else
      let selected := if state.currentKey = some entry.key then state.selected else false
      if selected then scanIn front readTs ⟨state.result, some entry.key, true⟩ rest
      else if entry.sequence ≤ readTs then scanIn front readTs ⟨state.result ++ [entry], some entry.key, true⟩ rest
      else scanIn front readTs ⟨state.result, some entry.key, false⟩ rest

def skipScan (front : Bytes) (_ : ScanState) (entry : IndexEntry) : Bool :=
  !entry.separatorKey.isEmpty && decide (entry.separatorKey < front)

def scanPrefixAt (reader : SstableReader) (cache : Option BlockCache) (front : Bytes) (readTs : Nat) :
    Guarded (List SstEntry) × Option BlockCache :=
  forBlocks (reader.readDataBlock libraries) (skipScan front) (fun state _ block => scanIn front readTs state block)
    ScanState.result reader.index ⟨[], none, false⟩ cache

def allEntries (reader : SstableReader) (cache : Option BlockCache) :
    Guarded (List SstEntry) × Option BlockCache :=
  forBlocks (reader.readDataBlock libraries) (fun _ _ => false) (fun result _ block => .next (result ++ block)) id reader.index []
    cache

inductive Call where
  | getAt (key : Bytes) (readTs : Nat)
  | scanPrefixAt (front : Bytes) (readTs : Nat)
  | allEntries
deriving DecidableEq, Repr

/-- A call, with a point lookup answered by one row or none. -/
def call (reader : SstableReader) (cache : Option BlockCache) :
    Call → Guarded (List SstEntry) × Option BlockCache
  | .getAt key readTs =>
    let (found, cache) := reader.getAt libraries cache key readTs
    (found.map Option.toList, cache)
  | .scanPrefixAt front readTs => reader.scanPrefixAt libraries cache front readTs
  | .allEntries => reader.allEntries libraries cache

def answers (libraries : Libraries) (reader : SstableReader) : List Call → Option BlockCache → List (Guarded (List SstEntry))
  | [], _ => []
  | call :: rest, cache =>
    let (answer, cache) := reader.call libraries cache call
    answer :: reader.answers libraries rest cache

end SstableReader

end KayaDB.Sst
