import KayaDB.Storage.Session

/-! Transactions of one engine. Writes are staged as intents in memory, at most
one transaction holds a key, and a commit checks again that no version newer than
the snapshot has come to its keys. -/

namespace KayaDB.Storage
open Raft (Bytes)
open Versions

inductive TxnError where
  | txnConflict
  | failed (message : String)
deriving DecidableEq, Repr

/-- A staged write; no value stands for a deletion. -/
structure Intent where
  txnId : UInt64
  value : Option Bytes
deriving DecidableEq, Repr

structure TxnMeta where
  snapshotTs : Nat
  keys : SortedSet Bytes
deriving DecidableEq

structure TxnTables where
  intents : Bytes → Option Intent
  txns : UInt64 → Option TxnMeta
  nextTxnId : UInt64

def unknownTxn (txnId : UInt64) : TxnError :=
  .failed s!"invalid argument: unknown or finished transaction {txnId.toNat}"

/-- The number after this one, up to the last there is. -/
def saturatingNext (id : UInt64) : UInt64 := if id = .ofNat (2 ^ 64 - 1) then id else id + 1

namespace TxnTables

def new : TxnTables := ⟨fun _ => none, fun _ => none, 1⟩

/-- Remove the intent on a key, if it is the transaction's own. -/
def dropIntent (txnId : UInt64) (intents : Bytes → Option Intent) (key : Bytes) : Bytes → Option Intent :=
  match intents key with
  | some intent => if intent.txnId = txnId then Function.update intents key none else intents
  | none => intents

def dropIntents (intents : Bytes → Option Intent) (txnId : UInt64) (keys : List Bytes) : Bytes → Option Intent :=
  keys.foldl (dropIntent txnId) intents

def remove (tables : TxnTables) (txnId : UInt64) (keys : SortedSet Bytes) : TxnTables :=
  { tables with
    txns := Function.update tables.txns txnId none
    intents := dropIntents tables.intents txnId keys.elems }

end TxnTables

/-- An engine with its transactions; `lastSequence` is the number of the last
write it accepted. -/
structure TxnEngine where
  engine : Engine
  lastSequence : Nat
  txn : TxnTables

/-- A write of a transaction; no value stands for a deletion. -/
abbrev TxnMutation := Bytes × Option Bytes

namespace Engine

/-- The number of the newest version of the key that a read finds. -/
def latestCommittedSeq (engine : Engine) (key : Bytes) : Option Nat :=
  match engine.memtable.getAt key ReadTimestamp.latest.asNat with
  | some entry => some entry.sequence
  | none => (engine.liveSstables.findSome? fun table => table.getAt key ReadTimestamp.latest.asNat).map Entry.sequence

/-- A mutation is written as a put or a delete of its own. -/
def mutationEvent (mutation : TxnMutation) (clock : Option UInt64) : Event :=
  match mutation.2 with
  | some value => .put mutation.1 value none clock
  | none => .delete mutation.1 none clock

def applyMutation (engine : Engine) (mutation : TxnMutation) (clock : Option UInt64) : Engine × Except String AppendResult :=
  match mutation.2 with
  | some value => engine.put mutation.1 value none clock
  | none => engine.delete mutation.1 none clock

end Engine

namespace TxnEngine
variable (db : TxnEngine)

/-- Open an engine: no transaction survives a restart. -/
def start (engine : Engine) (lastSequence : Nat) : TxnEngine := ⟨engine, lastSequence, .new⟩

def beginTxn : TxnEngine × UInt64 × Nat :=
  let id := db.txn.nextTxnId
  let txn : TxnTables :=
    { db.txn with
      nextTxnId := saturatingNext db.txn.nextTxnId
      txns := Function.update db.txn.txns id (some ⟨db.lastSequence, .ofList []⟩) }
  ({ db with txn }, id, db.lastSequence)

/-- Another transaction's intent or a version newer than the snapshot. -/
def checkWriteConflict (txnId : UInt64) (key : Bytes) (snapshotTs : Nat) : Except TxnError Unit :=
  match (db.txn.intents key).filter fun intent => intent.txnId ≠ txnId with
  | some _ => .error .txnConflict
  | none =>
    match (db.engine.latestCommittedSeq key).filter fun seq => snapshotTs < seq with
    | some _ => .error .txnConflict
    | none => .ok ()

def txnPrepareCommit (txnId : UInt64) : Except TxnError (List TxnMutation) :=
  match db.txn.txns txnId with
  | none => .error (unknownTxn txnId)
  | some info => do
    for key in info.keys.elems do
      db.checkWriteConflict txnId key info.snapshotTs
    return info.keys.elems.filterMap fun key =>
      match db.txn.intents key with
      | some intent => if intent.txnId = txnId then some (key, intent.value) else none
      | none => none

/-- The mutations, and the tables without the transaction. -/
def txnTakeCommit (txnId : UInt64) : TxnEngine × Except TxnError (List TxnMutation) :=
  match db.txnPrepareCommit txnId with
  | .error reason => (db, .error reason)
  | .ok mutations =>
    match db.txn.txns txnId with
    | none => (db, .error (unknownTxn txnId))
    | some info => ({ db with txn := db.txn.remove txnId info.keys }, .ok mutations)

def txnRollback (txnId : UInt64) : TxnEngine × Except TxnError Unit :=
  match db.txn.txns txnId with
  | none => (db, .error (unknownTxn txnId))
  | some info => ({ db with txn := db.txn.remove txnId info.keys }, .ok ())

def txnGet (txnId : UInt64) (key : Bytes) : Except TxnError (Option Bytes) :=
  match db.txn.txns txnId with
  | none => .error (unknownTxn txnId)
  | some info =>
    match (db.txn.intents key).filter fun intent => intent.txnId = txnId with
    | some intent => .ok intent.value
    | none => .ok (db.engine.getInner key (.at (.ofNat info.snapshotTs)))

def stageIntent (txnId : UInt64) (key : Bytes) (value : Option Bytes) : TxnEngine × Except TxnError Unit :=
  match db.txn.txns txnId with
  | none => (db, .error (unknownTxn txnId))
  | some info =>
    match db.checkWriteConflict txnId key info.snapshotTs with
    | .error reason => (db, .error reason)
    | .ok () =>
      let txn : TxnTables :=
        { db.txn with
          intents := Function.update db.txn.intents key (some ⟨txnId, value⟩)
          txns := Function.update db.txn.txns txnId (some { info with keys := info.keys.insert key }) }
      ({ db with txn }, .ok ())

def txnPut (txnId : UInt64) (key value : Bytes) : TxnEngine × Except TxnError Unit :=
  let limits := db.engine.config.limits
  match limits.validateKey key, rejectIfSystemKey key, limits.validateValue value with
  | .error message, _, _ => (db, .error (.failed message))
  | .ok (), .error message, _ => (db, .error (.failed message))
  | .ok (), .ok (), .error message => (db, .error (.failed message))
  | .ok (), .ok (), .ok () => db.stageIntent txnId key (some value)

def txnDelete (txnId : UInt64) (key : Bytes) : TxnEngine × Except TxnError Unit :=
  match db.engine.config.limits.validateKey key, rejectIfSystemKey key with
  | .error message, _ => (db, .error (.failed message))
  | .ok (), .error message => (db, .error (.failed message))
  | .ok (), .ok () => db.stageIntent txnId key none

/-- One write after the other, up to the first that fails; `clocks` are the
readings of the hybrid clock, if one is in use. -/
def applyMutations (db : TxnEngine) : List TxnMutation → List (Option UInt64) → TxnEngine × Except TxnError Nat
  | [], _ => (db, .ok db.lastSequence)
  | mutation :: mutations, clocks =>
    match db.engine.applyMutation mutation (clocks.headD none) with
    | (engine, .error message) => ({ db with engine }, .error (.failed message))
    | (engine, .ok result) => applyMutations { db with engine, lastSequence := result.sequence } mutations clocks.tail

def txnCommit (txnId : UInt64) (clocks : List (Option UInt64)) : TxnEngine × Except TxnError Nat :=
  match db.txnTakeCommit txnId with
  | (db, .error reason) => (db, .error reason)
  | (db, .ok mutations) => db.applyMutations mutations clocks

/-- A request to the engine that has nothing to do with transactions. -/
def request (event : Event) : TxnEngine :=
  { db with
    engine := db.engine.step event
    lastSequence := (db.engine.accepted event).elim db.lastSequence Entry.sequence }

end TxnEngine
end KayaDB.Storage
