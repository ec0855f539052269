import Mathlib.Algebra.Ring.Nat
import Mathlib.Order.Nat
import Mathlib.Order.Basic

/-! The in-memory Raft log. Terms and log indices are natural numbers; logical
indices start at one. A snapshot replaces the prefix up to `lastIncludedIndex`
and only its last term is remembered. -/

namespace KayaDB.Raft

abbrev Bytes := List UInt8

structure NodeId where
  val : UInt64
deriving DecidableEq, Repr

instance : LinearOrder NodeId := LinearOrder.lift' (fun node : NodeId => node.val.toNat) (by
  rintro ⟨first⟩ ⟨second⟩ same
  exact congrArg NodeId.mk (UInt64.toNat_inj.mp same))

structure LogEntry where
  term : Nat
  command : Bytes
deriving DecidableEq, Repr

structure MemLog where
  entries : List LogEntry
  lastIncludedIndex : Nat
  lastIncludedTerm : Nat
  snapshot : Option Bytes
deriving DecidableEq, Repr

namespace MemLog

def new : MemLog := ⟨[], 0, 0, none⟩

def lastIndex (log : MemLog) : Nat :=
  if log.entries.isEmpty then log.lastIncludedIndex else log.lastIncludedIndex + log.entries.length

def lastTerm (log : MemLog) : Nat := (log.entries.getLast?.map LogEntry.term).getD log.lastIncludedTerm

/-- Every index covered by the snapshot reports the snapshot's own term. -/
def termAt (log : MemLog) (index : Nat) : Option Nat :=
  if index = 0 then some 0
  else if index ≤ log.lastIncludedIndex then some log.lastIncludedTerm
  else log.entries[index - log.lastIncludedIndex - 1]?.map LogEntry.term

def get (log : MemLog) (index : Nat) : Option LogEntry :=
  if index = 0 ∨ index ≤ log.lastIncludedIndex then none
  else log.entries[index - log.lastIncludedIndex - 1]?

def append (log : MemLog) (entry : LogEntry) : MemLog := { log with entries := log.entries ++ [entry] }

def truncateFrom (log : MemLog) (fromIndex : Nat) : MemLog :=
  if fromIndex = 0 then { log with entries := [] }
  else if fromIndex ≤ log.lastIncludedIndex then { log with entries := [] }
  else if fromIndex - log.lastIncludedIndex - 1 < log.entries.length then
    { log with entries := log.entries.take (fromIndex - log.lastIncludedIndex - 1) }
  else log

def entriesFrom (log : MemLog) (fromIndex : Nat) : List LogEntry :=
  if fromIndex = 0 ∨ fromIndex ≤ log.lastIncludedIndex then []
  else if log.entries.length ≤ fromIndex - log.lastIncludedIndex - 1 then []
  else log.entries.drop (fromIndex - log.lastIncludedIndex - 1)

def installSnapshot (log : MemLog) (upToIndex : Nat) (upToTerm : Nat) (data : Bytes) : MemLog :=
  if upToIndex ≤ log.lastIncludedIndex then log
  else
    let firstToKeep := upToIndex + 1
    let currentLogicalFirst := log.lastIncludedIndex + 1
    { entries :=
        if currentLogicalFirst < firstToKeep then
          log.entries.drop (min (firstToKeep - currentLogicalFirst) log.entries.length)
        else []
      lastIncludedIndex := upToIndex
      lastIncludedTerm := upToTerm
      snapshot := some data }

def snapshotView (log : MemLog) : Option (Nat × Nat × Bytes) :=
  log.snapshot.map fun data => (log.lastIncludedIndex, log.lastIncludedTerm, data)

section
variable (log : MemLog)
variable (entry : LogEntry)
include log

theorem lastIndex_eq : log.lastIndex = log.lastIncludedIndex + log.entries.length := by
  unfold lastIndex
  split
  next empty => simp [List.isEmpty_iff.mp empty]
  next => rfl

@[simp] theorem append_entries : (log.append entry).entries = log.entries ++ [entry] := rfl

@[simp] theorem append_lastIncludedIndex :
    (log.append entry).lastIncludedIndex = log.lastIncludedIndex := rfl

@[simp] theorem append_lastIncludedTerm :
    (log.append entry).lastIncludedTerm = log.lastIncludedTerm := rfl

@[simp] theorem append_snapshot : (log.append entry).snapshot = log.snapshot := rfl

@[simp] theorem lastIndex_append : (log.append entry).lastIndex = log.lastIndex + 1 := by
  simp only [lastIndex_eq, append_entries, append_lastIncludedIndex, List.length_append, List.length_singleton]
  omega

@[simp] theorem truncateFrom_lastIncludedIndex (index : Nat) :
    (log.truncateFrom index).lastIncludedIndex = log.lastIncludedIndex := by
  unfold truncateFrom
  split
  · rfl
  · split
    · rfl
    · split <;> rfl

@[simp] theorem truncateFrom_lastIncludedTerm (index : Nat) :
    (log.truncateFrom index).lastIncludedTerm = log.lastIncludedTerm := by
  unfold truncateFrom
  split
  · rfl
  · split
    · rfl
    · split <;> rfl

@[simp] theorem truncateFrom_snapshot (index : Nat) : (log.truncateFrom index).snapshot = log.snapshot := by
  unfold truncateFrom
  split
  · rfl
  · split
    · rfl
    · split <;> rfl

theorem installSnapshot_cases (upToIndex upToTerm : Nat) (data : Bytes) :
    (log.installSnapshot upToIndex upToTerm data).lastIncludedIndex = log.lastIncludedIndex ∨
      (log.installSnapshot upToIndex upToTerm data).lastIncludedIndex = upToIndex := by
  unfold installSnapshot
  split
  · exact Or.inl rfl
  · exact Or.inr rfl

end

end MemLog
end KayaDB.Raft
