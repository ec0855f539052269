import KayaDB.Raft.Command
import KayaDB.Storage.Kv

/-! Records of transactions across groups. A prepare stores intents and marks the
transaction's record, a commit materialises the intents, an abort drops them, and the
decision is kept apart; all under keys the public interface refuses. -/

namespace KayaDB.Storage
open Raft (Bytes Mutation u64Bytes)
open Programs EngineProgram
variable (txnId : UInt64)

inductive Txn2pcState where
  | preparing
  | prepared
  | committed
  | aborted
  | committing
deriving DecidableEq, Repr

namespace Txn2pcState

def asByte : Txn2pcState → UInt8
  | preparing => 1
  | prepared => 2
  | committed => 3
  | aborted => 4
  | committing => 5

def fromByte (byte : UInt8) : Except String Txn2pcState :=
  if byte = 1 then .ok preparing
  else if byte = 2 then .ok prepared
  else if byte = 3 then .ok committed
  else if byte = 4 then .ok aborted
  else if byte = 5 then .ok committing
  else .error s!"unknown 2PC txn state byte {byte}"

def name : Txn2pcState → String
  | preparing => "Preparing"
  | prepared => "Prepared"
  | committed => "Committed"
  | aborted => "Aborted"
  | committing => "Committing"

end Txn2pcState

def txnRecPrefix : Bytes := txnSysPrefix ++ [114, 101, 99, 47]

def txnIntentPrefix : Bytes := txnSysPrefix ++ [105, 110, 116, 101, 110, 116, 47]

def txnDecPrefix : Bytes := txnSysPrefix ++ [100, 101, 99, 47]

/-- The id with its highest byte first. -/
def txnIdBytes : Bytes := (u64Bytes txnId).reverse

def encodeRecKey : Bytes := txnRecPrefix ++ txnIdBytes txnId

def encodeDecKey : Bytes := txnDecPrefix ++ txnIdBytes txnId

def encodeIntentScanPrefix : Bytes := txnIntentPrefix ++ txnIdBytes txnId ++ [47]

def encodeIntentKey (userKey : Bytes) : Bytes := encodeIntentScanPrefix txnId ++ userKey

def userKeyFromIntentKey (intentKey : Bytes) : Option Bytes :=
  if encodeIntentScanPrefix txnId <+: intentKey then some (intentKey.drop (encodeIntentScanPrefix txnId).length)
  else none

def encodeIntentValue : Option Bytes → Bytes
  | some value => 1 :: value
  | none => [0]

def decodeIntentValue : Bytes → Except String (Option Bytes)
  | [] => .error "empty 2PC intent value"
  | tag :: rest =>
    if tag = 0 then
      if rest.isEmpty then .ok none else .error "2PC delete intent must be a single-byte tombstone"
    else if tag = 1 then .ok (some rest)
    else .error s!"unknown 2PC intent tag {tag}"

def setState (state : Txn2pcState) : EngineProgram Unit :=
  writePut (encodeRecKey txnId) [state.asByte]

def stageIntents (txnId : UInt64) : List Mutation → EngineProgram Unit
  | [] => .done ()
  | (userKey, value) :: rest =>
    if userKey.isEmpty then .fail "2PC prepare mutation key must not be empty"
    else if txnSysPrefix <+: userKey ∨ indexSysPrefix <+: userKey then
      .fail "2PC prepare mutations must not target system keys"
    else do
      writePut (encodeIntentKey txnId userKey) (encodeIntentValue value)
      stageIntents txnId rest

def applyTxnPrepare (mutations : List Mutation) : EngineProgram Unit := do
  setState txnId .preparing
  stageIntents txnId mutations
  setState txnId .prepared

def parseState : Option Bytes → Except String (Option Txn2pcState)
  | none => .ok none
  | some [] => .error "empty 2PC rec value"
  | some (byte :: _) => (Txn2pcState.fromByte byte).map some

def readTxn2pcState : EngineProgram (Option Txn2pcState) := do
  let found ← get (encodeRecKey txnId)
  Program.ofExcept (parseState found)

def parseDecision : Option Bytes → Except String (Option Bool)
  | none => .ok none
  | some [] => .error "empty 2PC decision value"
  | some (byte :: _) =>
    if byte = 1 then .ok (some true)
    else if byte = 0 then .ok (some false)
    else .error s!"unknown 2PC decision byte {byte}"

def readTxnDecision : EngineProgram (Option Bool) := do
  let found ← get (encodeDecKey txnId)
  Program.ofExcept (parseDecision found)

def decodeIntents (txnId : UInt64) : List (Bytes × Bytes) → Except String (List Mutation)
  | [] => .ok []
  | (key, raw) :: rest =>
    match userKeyFromIntentKey txnId key with
    | none => .error s!"intent key missing txn {txnId} prefix"
    | some userKey => do
      let value ← decodeIntentValue raw
      let later ← decodeIntents txnId rest
      return (userKey, value) :: later

def loadDurableIntents : EngineProgram (List Mutation) := do
  let rows ← scanPrefix (encodeIntentScanPrefix txnId)
  Program.ofExcept (decodeIntents txnId rows)

def deleteRows : List (Bytes × Bytes) → EngineProgram Unit
  | [] => .done ()
  | (key, _) :: rest => do
    writeDelete key
    deleteRows rest

def clearDurableIntents : EngineProgram Unit := do
  let rows ← scanPrefix (encodeIntentScanPrefix txnId)
  deleteRows rows

def applyMutations : List Mutation → EngineProgram Unit
  | [] => .done ()
  | (key, some value) :: rest => do
    put key value
    applyMutations rest
  | (key, none) :: rest => do
    delete key
    applyMutations rest

/-- Materialise the intents, clear them and settle the record. -/
def finishCommit : EngineProgram Unit := do
  let mutations ← loadDurableIntents txnId
  applyMutations mutations
  clearDurableIntents txnId
  setState txnId .committed

/-- The record says that the transaction is being committed before anything a
user can see is written. -/
def applyTxnCommit2pc : EngineProgram Unit := do
  match ← readTxn2pcState txnId with
  | some .committed => return
  | some .aborted => .fail s!"cannot commit aborted 2PC txn {txnId}"
  | some .committing => finishCommit txnId
  | some .preparing | some .prepared | none => do
    setState txnId .committing
    finishCommit txnId

def applyTxnAbort2pc : EngineProgram Unit := do
  match ← readTxn2pcState txnId with
  | some .aborted => return
  | some .committed => .fail s!"cannot abort {Txn2pcState.committed.name} 2PC txn {txnId}"
  | some .committing => .fail s!"cannot abort {Txn2pcState.committing.name} 2PC txn {txnId}"
  | some .preparing | some .prepared | none => do
    clearDurableIntents txnId
    setState txnId .aborted

/-- A record that is in doubt follows the decision; any other stays. -/
def resolveLocal2pcRecord (commit : Bool) : EngineProgram Unit := do
  match ← readTxn2pcState txnId with
  | some .preparing | some .prepared => if commit then applyTxnCommit2pc txnId else applyTxnAbort2pc txnId
  | _ => return

/-- The first decision is final. -/
def applyTxnDecision (commit : Bool) : EngineProgram Unit := do
  match ← readTxnDecision txnId with
  | some prev =>
    if prev ≠ commit then
      let known := if prev then "commit" else "abort"
      .fail s!"2PC decision for txn {txnId} already durable as {known} — cannot flip"
    else resolveLocal2pcRecord txnId commit
  | none => do
    writePut (encodeDecKey txnId) [if commit then 1 else 0]
    resolveLocal2pcRecord txnId commit

end KayaDB.Storage
