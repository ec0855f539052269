import KayaDB.Library.SortedMap
import KayaDB.Storage.Table

/-! The checker of operation histories. A history whose operations do not overlap
is replayed in the order it was recorded in; for others all orders are tried that
the times of the operations leave. -/

namespace KayaDB.Sim
open Raft (Bytes)

inductive Op where
  | put (key value : Bytes)
  | delete (key : Bytes)
  | get (key : Bytes)
  | scan (front : Bytes)
deriving DecidableEq, Repr

inductive OpResult where
  | ok
  | value (observed : Option Bytes)
  | scan (observed : List (Bytes × Bytes))
  | error (message : String)
deriving DecidableEq, Repr

structure HistoryEntry where
  startTick : Nat
  endTick : Nat
  op : Op
  result : OpResult
deriving DecidableEq, Repr

abbrev History := List HistoryEntry

variable (history : History)

abbrev Model := SortedMap Bytes Bytes

def Model.scan (model : Model) (front : Bytes) : List (Bytes × Bytes) :=
  (model.range front).takeWhile fun entry => front <+: entry.1

def report (found : List String) : Except (List String) Unit := if found.isEmpty then .ok () else .error found

def overlaps (a b : HistoryEntry) : Bool := a.startTick < b.endTick && b.startTick < a.endTick

def sequential : Bool :=
  (List.finRange history.length).all fun i => (List.finRange history.length).all fun j =>
    !(decide (i < j) && overlaps (history.get i) (history.get j))

end KayaDB.Sim
