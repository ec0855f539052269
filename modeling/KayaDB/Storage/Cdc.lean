import KayaDB.Library.SortedMap
import KayaDB.Storage.CdcLog
import KayaDB.Storage.Recovery

/-! The change feed of an engine: every accepted write is also a line of the change
log, and each consumer has a position in memory and, once it has saved one, a
checkpoint in a file of its own. Index upkeep, which writes no events, is left out. -/

namespace KayaDB.Storage
open Raft (Bytes)
open Ascii

/-- A file: its content, and the content it had when last synced. -/
structure SimFile where
  volatile : Text
  stable : Text
deriving DecidableEq, Repr

namespace SimFile

def empty : SimFile := ⟨[], []⟩

end SimFile

structure CdcState where
  events : List CdcEvent
  consumerLastSeq : SortedMap Text Nat

structure CdcCursor where
  consumerId : Text
  lastSeq : Nat
deriving DecidableEq, Repr

/-- The change log and the cursor files by the name of their consumer. -/
structure CdcFiles where
  log : SimFile
  cursors : SortedMap Text SimFile

def isAlphanumeric (byte : UInt8) : Bool :=
  decide ((48 ≤ byte ∧ byte ≤ 57) ∨ (65 ≤ byte ∧ byte ≤ 90) ∨ (97 ≤ byte ∧ byte ≤ 122))

def validateConsumerId (id : Text) : Except String Unit :=
  if id = [] ∨ 64 < id.length then .error "cdc consumer_id must be 1..=64 bytes"
  else if id.all fun byte => isAlphanumeric byte || byte = 95 || byte = 45 then .ok ()
  else .error "cdc consumer_id must be ASCII alphanumeric, '_' or '-'"

structure CdcEngine where
  engine : Engine
  enableCdc : Bool
  cdc : CdcState
  files : CdcFiles

namespace CdcEngine

def enabled (db : CdcEngine) : Except String Unit :=
  if db.enableCdc then .ok () else .error "cdc is disabled (EngineConfig.enable_cdc = false)"

def cdcConsumerSeq (db : CdcEngine) (consumerId : Text) : Nat := (db.cdc.consumerLastSeq.get consumerId).getD 0

def cdcSubscribe (db : CdcEngine) (consumerId : Text) (fromSeq : Option Nat) : Except String CdcCursor := do
  db.enabled
  validateConsumerId consumerId
  return ⟨consumerId, fromSeq.getD (db.cdcConsumerSeq consumerId)⟩

/-- The events after the cursor, and the position of the consumer moved to the
last of them. -/
def deliver (db : CdcEngine) (cursor : CdcCursor) (limit : Nat) : CdcEngine × CdcCursor × List CdcEvent :=
  let out := (db.cdc.events.filter fun event => decide (cursor.lastSeq < event.seq)).take limit
  match out.getLast? with
  | none => (db, cursor, out)
  | some last =>
    ({ db with cdc := { db.cdc with consumerLastSeq := db.cdc.consumerLastSeq.insert cursor.consumerId last.seq } },
      { cursor with lastSeq := last.seq }, out)

def cdcPoll (db : CdcEngine) (cursor : CdcCursor) (limit : Nat) :
    Except String (CdcEngine × CdcCursor × List CdcEvent) := do
  db.enabled
  validateConsumerId cursor.consumerId
  return if limit = 0 then (db, cursor, []) else db.deliver cursor limit

section Polls
variable {db : CdcEngine} {consumerId : Text} {cursor : CdcCursor} {limit : Nat}

theorem cdcSubscribe_eq (enabled : db.enableCdc = true) (valid : validateConsumerId consumerId = .ok ())
    (fromSeq : Option Nat) : db.cdcSubscribe consumerId fromSeq = .ok ⟨consumerId, fromSeq.getD (db.cdcConsumerSeq consumerId)⟩ := by
  unfold cdcSubscribe CdcEngine.enabled
  rw [if_pos enabled, valid]
  rfl

theorem cdcSubscribe_invalid {message : String} {fromSeq : Option Nat} (enabled : db.enableCdc = true)
    (invalid : validateConsumerId consumerId = .error message) : db.cdcSubscribe consumerId fromSeq = .error message := by
  unfold cdcSubscribe CdcEngine.enabled
  rw [if_pos enabled, invalid]
  rfl

section
variable (enabled : db.enableCdc = true) (valid : validateConsumerId cursor.consumerId = .ok ())
include enabled valid

theorem cdcPoll_eq (positive : limit ≠ 0) : db.cdcPoll cursor limit = .ok (db.deliver cursor limit) := by
  unfold cdcPoll CdcEngine.enabled
  rw [if_pos enabled, valid, if_neg positive]
  rfl

theorem cdcPoll_zero : db.cdcPoll cursor 0 = .ok (db, cursor, []) := by
  unfold cdcPoll CdcEngine.enabled
  rw [if_pos enabled, valid, if_pos rfl]
  rfl

end

theorem deliver_out (db : CdcEngine) (cursor : CdcCursor) (limit : Nat) : (db.deliver cursor limit).2.2 =
    (db.cdc.events.filter fun event => decide (cursor.lastSeq < event.seq)).take limit := by
  unfold deliver
  dsimp only
  split <;> rfl

end Polls

end CdcEngine

end KayaDB.Storage
