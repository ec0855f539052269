import KayaDB.Storage.Cdc
import KayaDB.Storage.Kv

/-! Secondary indexes. An index lists, for the keys under a prefix, a part of their
value together with the key. Definitions and entries are rows under reserved keys, each
written by itself; names in messages are quoted without escapes. -/

namespace KayaDB.Storage
open Raft (Bytes toLeBytes fromLeBytes)
open Ascii (Text)
open Programs EngineProgram
variable (indexes : Indexes)

namespace Engine

/-- A write with options of its own, and with a reading of the hybrid clock if that is in use. -/
def performWith (engine : Engine) (request : WriteRequest) (durability : Option DurabilityMode) (clock : Option UInt64) :
    Engine × Except String Unit :=
  let written := match request.raw, request.value with
    | false, some value => engine.put request.key value durability clock
    | false, none => engine.delete request.key durability clock
    | true, some value => engine.writePut request.key value durability clock
    | true, none => engine.writeDelete request.key durability clock
  (written.1, written.2.map fun _ => ())

/-- An engine together with what the hybrid clock will read, one reading for each write. -/
structure Clocked where
  engine : Engine
  clocks : List (Option UInt64)

/-- The engine as a store whose writes have all the same options. -/
def clockedStore (durability : Option DurabilityMode) : Store Bytes Bytes WriteRequest Clocked where
  get state key := state.engine.getInner key .latest
  scan state front := state.engine.scanPrefixInner front none .latest
  perform state request :=
    let done := state.engine.performWith request durability (state.clocks.headD none)
    (⟨done.1, state.clocks.tail⟩, done.2)

end Engine

/-- `front` takes the first bytes of a value, `field` one of the fields between delimiters. -/
inductive IndexExtractor where
  | wholeValue
  | front (len : UInt16)
  | field (delimiter : UInt8) (index : UInt16)
deriving DecidableEq, Repr

/-- The field number `index`, with `current` the part of the field `fieldI` that has been read. -/
def extractField (delimiter : UInt8) (index : UInt16) : UInt16 → Bytes → Bytes → Option Bytes
  | fieldI, current, [] => if fieldI = index then some current else none
  | fieldI, current, byte :: rest =>
    if byte = delimiter then
      if fieldI = index then some current
      else extractField delimiter index (if fieldI = 65535 then fieldI else fieldI + 1) [] rest
    else extractField delimiter index fieldI (current ++ [byte]) rest

def beBytes (width value : Nat) : Bytes := (toLeBytes width value).reverse

def fromBeBytes (bytes : Bytes) : Nat := fromLeBytes bytes.reverse

namespace IndexExtractor

def extract (extractor : IndexExtractor) (value : Bytes) : Option Bytes :=
  match extractor with
  | .wholeValue => some value
  | .front len => some (value.take (min len.toNat value.length))
  | .field delimiter index => extractField delimiter index 0 [] value

def tag : IndexExtractor → UInt8
  | .wholeValue => 0
  | .front _ => 1
  | .field _ _ => 2

def encodeParams : IndexExtractor → Bytes
  | .wholeValue => []
  | .front len => beBytes 2 len.toNat
  | .field delimiter index => delimiter :: beBytes 2 index.toNat

end IndexExtractor

structure IndexDef where
  name : Text
  primaryPrefix : Bytes
  unique : Bool
  extractor : IndexExtractor
deriving DecidableEq, Repr

inductive BackfillStatus where
  | idle
  | running
  | paused
  | complete
deriving DecidableEq, Repr

/-- `lastKey` is the last key the backfill has dealt with. -/
structure BackfillProgress where
  status : BackfillStatus
  scanned : Nat
  indexed : Nat
  lastKey : Option Bytes
deriving DecidableEq, Repr

inductive BackfillMode where
  | sync
  | online
deriving DecidableEq, Repr

def indexMetaPrefix : Bytes := indexSysPrefix ++ [109, 101, 116, 97, 47]

def indexDataPrefix : Bytes := indexSysPrefix ++ [100, 97, 116, 97, 47]

def isIndexSystemKey (key : Bytes) : Bool := decide (indexSysPrefix <+: key)

def validateIndexName (name : Text) : Except String Unit :=
  if name = [] ∨ 64 < name.length then .error "index name must be 1..=64 bytes"
  else if name.all fun byte => isAlphanumeric byte || byte = 95 || byte = 45 then .ok ()
  else .error "index name must be ASCII alphanumeric, '_' or '-'"

def encodeMetaKey (name : Text) : Bytes := indexMetaPrefix ++ name

def encodeMetaValue (index : IndexDef) : Bytes :=
  let params := index.extractor.encodeParams
  [2, if index.unique then 1 else 0, index.extractor.tag] ++ beBytes 2 params.length ++ params ++
    beBytes 4 index.primaryPrefix.length ++ index.primaryPrefix

def encodeDataScanPrefix (name : Text) (valuePrefix : Bytes) : Bytes :=
  indexDataPrefix ++ beBytes 2 name.length ++ name ++ valuePrefix

/-- The secondary value comes first, so that scans can ask for a part of it; the
length of the primary key, which comes last, tells the two apart. -/
def encodeDataKey (name : Text) (secondary primary : Bytes) : Bytes :=
  indexDataPrefix ++ beBytes 2 name.length ++ name ++ secondary ++ primary ++ beBytes 4 primary.length

/-- The two parts of what follows the name. -/
def decodeEntry (afterName : Bytes) : Option (Bytes × Bytes) :=
  if afterName.length < 4 then none
  else
    let pkLen := fromBeBytes (afterName.drop (afterName.length - 4))
    if afterName.length < 4 + pkLen then none
    else
      let body := afterName.take (afterName.length - 4)
      some (body.take (body.length - pkLen), body.drop (body.length - pkLen))

def decodeDataKey (name : Text) (key : Bytes) : Option (Bytes × Bytes) :=
  if ¬ indexDataPrefix <+: key then none
  else
    let rest := key.drop indexDataPrefix.length
    if rest.length < 2 then none
    else
      let nameLen := fromBeBytes (rest.take 2)
      if rest.length < 2 + nameLen + 4 then none
      else if (rest.drop 2).take nameLen ≠ name then none
      else decodeEntry (rest.drop (2 + nameLen))

abbrev Indexes := SortedMap Text IndexDef

def insertIndexEntriesForNamed (name : Text) (key value : Bytes) : EngineProgram Bool :=
  match indexes.get name with
  | none => .done false
  | some index =>
    if ¬ index.primaryPrefix <+: key then .done false
    else
      match index.extractor.extract value with
      | none => .done false
      | some secondary => do
        writePut (encodeDataKey name secondary key) []
        return true

def syncRows (indexes : Indexes) (name : Text) : Nat → Nat → List (Bytes × Bytes) → EngineProgram BackfillProgress
  | scanned, indexed, [] => .done ⟨.complete, scanned, indexed, none⟩
  | scanned, indexed, (key, value) :: rest =>
    if isIndexSystemKey key then syncRows indexes name scanned indexed rest
    else do
      let written ← insertIndexEntriesForNamed indexes name key value
      syncRows indexes name (scanned + 1) (if written then indexed + 1 else indexed) rest

/-- One scan of the prefix, within the limits of every scan. -/
def syncBackfill (name : Text) (primaryPrefix : Bytes) : EngineProgram BackfillProgress := do
  let rows ← scanPrefix primaryPrefix
  syncRows indexes name 0 0 rows

/-- The entry of a value that has a secondary. -/
def IndexDef.insert (index : IndexDef) (key value : Bytes) : EngineProgram Unit :=
  match index.extractor.extract value with
  | none => .done ()
  | some secondary => writePut (encodeDataKey index.name secondary key) []

def IndexDef.maintainAfterPut (index : IndexDef) (key : Bytes) (oldValue : Option Bytes) (newValue : Bytes) :
    EngineProgram Unit :=
  match oldValue.bind index.extractor.extract with
  | none => index.insert key newValue
  | some oldSec =>
    if index.extractor.extract newValue ≠ some oldSec then do
      writeDelete (encodeDataKey index.name oldSec key)
      index.insert key newValue
    else do
      -- The secondary has not changed: see that its entry exists.
      match ← get (encodeDataKey index.name oldSec key) with
      | some _ => return
      | none => writePut (encodeDataKey index.name oldSec key) []

/-- For one index after the other, in the order of their names. -/
def forEach (maintain : IndexDef → EngineProgram Unit) : List IndexDef → EngineProgram Unit
  | [] => .done ()
  | index :: rest => do
    maintain index
    forEach maintain rest

def matching (key : Bytes) : List IndexDef :=
  (indexes.entries.map Prod.snd).filter fun index => index.primaryPrefix <+: key

def maintainIndexesAfterPut (key : Bytes) (oldValue : Option Bytes) (newValue : Bytes) :
    EngineProgram Unit :=
  if isIndexSystemKey key then .done ()
  else forEach (fun index => index.maintainAfterPut key oldValue newValue) (matching indexes key)

/-- The row of the key is written first, then those of its entries. -/
def indexedPut (key value : Bytes) : EngineProgram Unit := do
  let old ← get key
  put key value
  maintainIndexesAfterPut indexes key old value

structure IndexDb where
  engine : Engine
  indexes : Indexes
  indexBackfill : SortedMap Text BackfillProgress

def quotedName (name : Text) : String := "\"" ++ String.ofList (name.map fun byte => Char.ofNat byte.toNat) ++ "\""

namespace IndexDb
variable (db : IndexDb)

def exec {α : Type} (db : IndexDb) (durability : Option DurabilityMode) (clocks : List (Option UInt64))
    (program : EngineProgram α) : IndexDb × Except String α :=
  let done := program.run (Engine.clockedStore durability) ⟨db.engine, clocks⟩
  ({ db with engine := done.1.engine }, done.2)

def validateIndex (name : Text) (primaryPrefix : Bytes) : Except String Unit := do
  validateIndexName name
  if (db.indexes.get name).isSome then .error s!"index {quotedName name} already exists"
  if primaryPrefix = [] then .error "primary_prefix must be non-empty"
  db.engine.config.limits.validateKey primaryPrefix

/-- The index is known as soon as its definition is written. -/
def register (index : IndexDef) (mode : BackfillMode) (clocks : List (Option UInt64)) :
    IndexDb × Except String Unit :=
  match db.exec none clocks (writePut (encodeMetaKey index.name) (encodeMetaValue index)) with
  | (db, .error reason) => (db, .error reason)
  | (db, .ok ()) =>
    let status := match mode with
      | .sync => .idle
      | .online => .running
    ({ db with
      indexes := db.indexes.insert index.name index
      indexBackfill := db.indexBackfill.insert index.name ⟨status, 0, 0, none⟩ }, .ok ())

def runSyncBackfill (name : Text) (primaryPrefix : Bytes) (clocks : List (Option UInt64)) :
    IndexDb × Except String Unit :=
  match db.exec none clocks (syncBackfill db.indexes name primaryPrefix) with
  | (db, .error reason) => (db, .error reason)
  | (db, .ok prog) => ({ db with indexBackfill := db.indexBackfill.insert name prog }, .ok ())

def createIndexWith (name : Text) (primaryPrefix : Bytes) (extractor : IndexExtractor)
    (mode : BackfillMode) (clocks : List (Option UInt64)) : IndexDb × Except String Unit :=
  match db.validateIndex name primaryPrefix with
  | .error reason => (db, .error reason)
  | .ok () =>
    match db.register ⟨name, primaryPrefix, false, extractor⟩ mode clocks with
    | (db, .error reason) => (db, .error reason)
    | (db, .ok ()) =>
      match mode with
      | .sync => db.runSyncBackfill name primaryPrefix clocks.tail
      | .online => (db, .ok ())

/-- The entries whose secondary value starts so, in the order of their keys. -/
def scanByIndex (name : Text) (valuePrefix : Bytes) : Except String (List (Bytes × Bytes)) :=
  if (db.indexes.get name).isNone then .error s!"unknown index {quotedName name}"
  else do
    let items ← db.engine.scanPrefixInner (encodeDataScanPrefix name valuePrefix) none .latest
    return items.filterMap fun row => (decodeDataKey name row.1).filter fun parts => valuePrefix <+: parts.1

end IndexDb
end KayaDB.Storage
