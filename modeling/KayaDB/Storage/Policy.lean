import KayaDB.Storage.Table

/-! How compaction chooses its input tables. Pinned tables are never taken. The
size ratio is compared exactly, where the source divides floating-point numbers. -/

namespace KayaDB.Storage

structure CompactionCandidate where
  inputTableIds : List Nat
  outputLevel : Nat
deriving DecidableEq, Repr

/-- Merge all tables that are not pinned as soon as there are two. -/
def L0MergePolicy.pickCompaction (liveTables : List TableMetadata) (pinned : Nat → Bool) :
    Option CompactionCandidate :=
  let eligible := (liveTables.filter fun table => !pinned table.tableId).map TableMetadata.tableId
  if eligible.length < 2 then none else some ⟨eligible, 0⟩

structure LevelStrategy where
  levelCount : Nat
  l0CompactionTrigger : Nat
deriving DecidableEq, Repr

/-- The lowest level with enough tables moves down by one. -/
def LevelStrategy.pickCompaction (strategy : LevelStrategy) (liveTables : List TableMetadata) (pinned : Nat → Bool) :
    Option CompactionCandidate :=
  (List.range strategy.levelCount).findSome? fun level =>
    let atLevel := (liveTables.filter fun table => table.level == level && !pinned table.tableId).map
      TableMetadata.tableId
    if level = 0 then
      if strategy.l0CompactionTrigger ≤ atLevel.length then some ⟨atLevel, 1⟩ else none
    else if 2 ≤ atLevel.length then some ⟨atLevel, level + 1⟩
    else none

structure TierStrategy where
  minTables : Nat
  ratioX1000 : Nat
deriving DecidableEq, Repr

/-- Go through the tables by size and collect runs of similar ones; the first
run that is long enough is taken. -/
def TierStrategy.findRun (strategy : TierStrategy) : List TableMetadata → List Nat → Nat → Option (List Nat)
  | [], run, _ => if strategy.minTables ≤ run.length then some run else none
  | table :: rest, run, runMax =>
    if run.isEmpty then strategy.findRun rest [table.tableId] table.fileSize
    else if table.fileSize * 1000 ≤ strategy.ratioX1000 * max runMax 1 then
      strategy.findRun rest (run ++ [table.tableId]) (max runMax table.fileSize)
    else if strategy.minTables ≤ run.length then some run
    else strategy.findRun rest [table.tableId] table.fileSize

def TierStrategy.pickCompaction (strategy : TierStrategy) (liveTables : List TableMetadata) (pinned : Nat → Bool) :
    Option CompactionCandidate :=
  let free := liveTables.filter fun table => !pinned table.tableId
  (SortedSet.ofList (free.map TableMetadata.level)).elems.findSome? fun level =>
    let tables := free.filter fun table => table.level = level
    if tables.length < strategy.minTables then none
    else
      let sorted := tables.insertionSort fun first second => first.fileSize ≤ second.fileSize
      (strategy.findRun sorted [] 0).map fun run => ⟨run, level + 1⟩

inductive CompactionPolicy where
  | l0Merge
  | leveled (strategy : LevelStrategy)
  | tiered (strategy : TierStrategy)
deriving DecidableEq, Repr

def CompactionPolicy.pickCompaction (policy : CompactionPolicy) (liveTables : List TableMetadata)
    (pinned : Nat → Bool) : Option CompactionCandidate :=
  match policy with
  | .l0Merge => L0MergePolicy.pickCompaction liveTables pinned
  | .leveled strategy => strategy.pickCompaction liveTables pinned
  | .tiered strategy => strategy.pickCompaction liveTables pinned

end KayaDB.Storage
