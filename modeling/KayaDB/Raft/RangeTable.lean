import KayaDB.Raft.Command
import KayaDB.Storage.Table

/-! The range table: which group owns which keys. Splitting, merging and moving
ranges change the table only; the data of all groups is in one engine. Identifiers
and epochs are 64-bit counters that stop at their largest value. -/

namespace KayaDB.Raft

def saturatingAdd (value step : Nat) : Nat := min (value + step) (2 ^ 64 - 1)

/-- The keys from `startKey` up to but not including `endKey`; an empty `endKey`
leaves the range open. -/
structure StaticRange where
  startKey : Bytes
  endKey : Bytes
  groupId : Nat
  rangeId : Nat
  epoch : Nat
deriving DecidableEq, Repr

def StaticRange.contains (range : StaticRange) (key : Bytes) : Bool :=
  ¬ key < range.startKey ∧ (range.endKey = [] ∨ key < range.endKey)

structure StaticRangeTable where
  ranges : List StaticRange
  metaEpoch : Nat
  nextRangeId : Nat
  nextGroupId : Nat
deriving DecidableEq, Repr

namespace StaticRangeTable
variable (table : StaticRangeTable)

def singleGroup (groupId : Nat) : StaticRangeTable :=
  ⟨[⟨[], [], groupId, 1, 1⟩], 1, 2, max (saturatingAdd groupId 1) 1⟩

def lookupRange (key : Bytes) : Option StaticRange :=
  table.ranges.find? fun range => range.contains key

def lookup (key : Bytes) : Option Nat := (table.lookupRange key).map StaticRange.groupId

/-- The part from `splitKey` on goes to a group with the next free id. -/
def splitAt (splitKey : Bytes) :
    Except String (StaticRange × StaticRange × Nat) × StaticRangeTable :=
  if splitKey = [] then (.error "split_key must be non-empty", table)
  else
    match table.ranges.findIdx? fun range => range.contains splitKey with
    | none => (.error "split_key is not covered by any range", table)
    | some place =>
      match table.ranges[place]? with
      | none => (.error "split_key is not covered by any range", table)
      | some old =>
        if splitKey = old.startKey then (.error "split_key must be strictly greater than range start", table)
        else if old.endKey ≠ [] ∧ ¬ splitKey < old.endKey then
          (.error "split_key must be strictly less than range end", table)
        else
          let left := { old with endKey := splitKey, epoch := saturatingAdd old.epoch 1 }
          let right := ⟨splitKey, old.endKey, table.nextGroupId, table.nextRangeId, 1⟩
          (.ok (left, right, table.nextGroupId),
            ⟨(table.ranges.set place left).insertIdx (place + 1) right, saturatingAdd table.metaEpoch 1,
              saturatingAdd table.nextRangeId 1, saturatingAdd table.nextGroupId 1⟩)

/-- The right neighbour's keys go to the left range's group. -/
def mergeWithNext (leftStart : Bytes) : Except String StaticRange × StaticRangeTable :=
  match table.ranges.findIdx? fun range => range.startKey = leftStart with
  | none => (.error "no range with the given left_start", table)
  | some place =>
    match table.ranges[place]?, table.ranges[place + 1]? with
    | some left, some right =>
      if left.endKey ≠ right.startKey then (.error "left and right ranges are not adjacent", table)
      else
        let merged := { left with endKey := right.endKey, epoch := saturatingAdd (max left.epoch right.epoch) 1 }
        (.ok merged, { table with
          ranges := (table.ranges.set place merged).eraseIdx (place + 1)
          metaEpoch := saturatingAdd table.metaEpoch 1 })
    | _, _ => (.error "left range has no right neighbor to merge", table)

def moveRange (rangeStart : Bytes) (targetGroup : Nat) :
    Except String StaticRange × StaticRangeTable :=
  match table.ranges.findIdx? fun range => range.startKey = rangeStart with
  | none => (.error "no range with the given start_key", table)
  | some place =>
    match table.ranges[place]? with
    | none => (.error "no range with the given start_key", table)
    | some range =>
      if range.groupId = targetGroup then (.error "range already owned by the target group", table)
      else
        let moved := { range with groupId := targetGroup, epoch := saturatingAdd range.epoch 1 }
        (.ok moved, { table with
          ranges := table.ranges.set place moved
          nextGroupId := max table.nextGroupId (saturatingAdd targetGroup 1)
          metaEpoch := saturatingAdd table.metaEpoch 1 })

end StaticRangeTable

end KayaDB.Raft
