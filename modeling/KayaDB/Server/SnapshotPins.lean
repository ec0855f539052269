import KayaDB.Storage.SnapshotCodec
import KayaDB.Storage.FirstCommitter

/-! Snapshots and the tables they pin, over runs of an engine. A snapshot is released by
its bytes. The server releases the snapshot that it replaces by the payload the Raft log
holds, which is not the engine's own data. -/

namespace KayaDB.Server
open Raft Storage Runs
open Manifest (asBytes)

def encodeMember (member : ClusterMember) : Bytes :=
  toLeBytes 8 member.id.val.toNat ++ lenPrefixed (asBytes member.raftAddr) ++ lenPrefixed (asBytes member.clientAddr) ++
    [if member.isLearner then 1 else 0]

def buildSnapshotPayloadV2 (engineData : Bytes) (members : List ClusterMember) (rangeTable : Bytes) : Bytes :=
  toLeBytes 4 2 ++ lenPrefixed engineData ++ toLeBytes 4 members.length ++ members.flatMap encodeMember ++
    lenPrefixed rangeTable

/-- What the manifest and the disk tell of a table beyond what the engine's model
keeps. -/
structure Catalog where
  metadata : Storage.TableMetadata → Manifest.TableMetadata
  content : Manifest.TableMetadata → Bytes
  named : ∀ table, (metadata table).tableId = UInt64.ofNat table.tableId

/-- A snapshot that was taken, and the data its owner holds. -/
structure Taken where
  number : Nat
  view : SnapshotView
  data : Bytes
deriving DecidableEq

def Taken.tables (taken : Taken) : List Nat := taken.view.pinnedTables.map fun table => table.tableId.toNat

/-- `nodeSnapshot` is the payload in the log of the group and the number of the
snapshot it was made from. -/
structure PinRun where
  engine : Engine
  unreleased : List Taken
  taken : Nat
  nodeSnapshot : Option (Bytes × Nat)
  lastIncludedIndex : Nat

inductive PinEvent where
  | put (key value : Bytes) (durability : Option DurabilityMode) (clock : Option UInt64)
  | delete (key : Bytes) (durability : Option DurabilityMode) (clock : Option UInt64)
  | flush
  | compact
  | createSnapshot (cutoff : UInt64)
  | releaseSnapshot (number : Nat)
  | compactRaftLog (lastApplied : Nat) (cutoff : UInt64) (members : List ClusterMember) (rangeTable : Bytes)
deriving DecidableEq

namespace PinRun

def start (engine : Engine) : PinRun := ⟨engine, [], 0, none, 0⟩

def view (catalog : Catalog) (engine : Engine) (cutoff : UInt64) : SnapshotView where
  pinnedTables := engine.liveTables.map catalog.metadata
  memtableData := engine.memtable.entries.map fun entry => ⟨entry.key, entry.value, UInt64.ofNat entry.sequence⟩
  cutoffSeq := cutoff

def snapshot (catalog : Catalog) (run : PinRun) (cutoff : UInt64) : Taken :=
  ⟨run.taken, view catalog run.engine cutoff, (view catalog run.engine cutoff).encode catalog.content⟩

def createSnapshot (catalog : Catalog) (run : PinRun) (cutoff : UInt64) : PinRun :=
  { run with
    engine := run.engine.pinTables (run.engine.liveTables.map TableMetadata.tableId)
    unreleased := run.unreleased ++ [run.snapshot catalog cutoff]
    taken := run.taken + 1 }

/-- The counts go down by what is read from the data. -/
def releaseData (run : PinRun) (data : Bytes) (number : Nat) : PinRun :=
  { run with
    engine := run.engine.releaseTables (releasedTables data).1
    unreleased := run.unreleased.eraseP fun taken => taken.number = number }

def releaseSnapshot (run : PinRun) (number : Nat) : PinRun :=
  match run.unreleased.find? fun taken => taken.number = number with
  | none => run
  | some taken => run.releaseData taken.data number

/-- The log takes a snapshot only if it reaches further than the one it has. -/
def installSnapshot (run : PinRun) (lastApplied : Nat) (payload : Bytes) (number : Nat) : PinRun :=
  if lastApplied ≤ run.lastIncludedIndex then run
  else { run with nodeSnapshot := some (payload, number), lastIncludedIndex := lastApplied }

/-- Release what the log holds, take a snapshot and give it to the log. -/
def maybeCompactRaftLog (catalog : Catalog) (run : PinRun) (lastApplied : Nat) (cutoff : UInt64) (members : List ClusterMember)
    (rangeTable : Bytes) : PinRun :=
  if lastApplied = 0 ∨ lastApplied % 64 ≠ 0 then run
  else
    let released := run.nodeSnapshot.elim run fun held => run.releaseData held.1 held.2
    let taken := released.snapshot catalog cutoff
    (released.createSnapshot catalog cutoff).installSnapshot lastApplied
      (buildSnapshotPayloadV2 taken.data members rangeTable) taken.number

def step (catalog : Catalog) (run : PinRun) : PinEvent → PinRun
  | .put key value durability clock => { run with engine := (run.engine.put key value durability clock).1 }
  | .delete key durability clock => { run with engine := (run.engine.delete key durability clock).1 }
  | .flush => { run with engine := run.engine.flush }
  | .compact => { run with engine := run.engine.compact }
  | .createSnapshot cutoff => run.createSnapshot catalog cutoff
  | .releaseSnapshot number => run.releaseSnapshot number
  | .compactRaftLog lastApplied cutoff members rangeTable => run.maybeCompactRaftLog catalog lastApplied cutoff members rangeTable

/-- The pin count of each table is the number of unreleased snapshots with it. -/
def Exact (run : PinRun) : Prop :=
  ∀ id, run.engine.refcounts id = run.unreleased.countP fun taken => decide (id ∈ taken.tables)

/-- The condition on a step: a released snapshot has at most one table, and the
server replaces a snapshot only while none that has a table is unreleased. Table
numbers are machine words. -/
def Spares (run : PinRun) : PinEvent → Prop
  | .createSnapshot _ => ∀ table ∈ run.engine.liveTables, table.tableId < 2 ^ 64
  | .releaseSnapshot number => ∀ taken ∈ run.unreleased, taken.number = number →
      taken.view.pinnedTables.length ≤ 1 ∧ ∀ table ∈ taken.view.pinnedTables, SnapshotView.Fits table
  | .compactRaftLog .. => (∀ table ∈ run.engine.liveTables, table.tableId < 2 ^ 64) ∧
      (run.nodeSnapshot = none ∨ ∀ taken ∈ run.unreleased, taken.view.pinnedTables = [])
  | _ => True

instance (run : PinRun) : (event : PinEvent) → Decidable (run.Spares event)
  | .createSnapshot _ => inferInstanceAs (Decidable (∀ table ∈ run.engine.liveTables, table.tableId < 2 ^ 64))
  | .releaseSnapshot number => inferInstanceAs (Decidable (∀ taken ∈ run.unreleased, taken.number = number →
      taken.view.pinnedTables.length ≤ 1 ∧ ∀ table ∈ taken.view.pinnedTables, SnapshotView.Fits table))
  | .compactRaftLog .. => inferInstanceAs (Decidable ((∀ table ∈ run.engine.liveTables, table.tableId < 2 ^ 64) ∧
      (run.nodeSnapshot = none ∨ ∀ taken ∈ run.unreleased, taken.view.pinnedTables = [])))
  | .put .. | .delete .. | .flush | .compact => isTrue trivial

end PinRun

/-- The numbers of the live tables differ and are below the next one. -/
structure Distinct (engine : Engine) : Prop where
  nodup : (engine.liveTables.map TableMetadata.tableId).Nodup
  below : ∀ table ∈ engine.liveTables, table.tableId < engine.nextTableId

section Distinct
variable {engine : Engine}

theorem Distinct.fresh (config : EngineConfig) : Distinct (.fresh config) := ⟨List.nodup_nil, nofun⟩

theorem Distinct.join (distinct : Distinct engine) {kept : List Storage.TableMetadata} (part : kept.Sublist engine.liveTables)
    {table : Storage.TableMetadata} (new : table.tableId = engine.nextTableId) :
    ((kept ++ [table]).map TableMetadata.tableId).Nodup ∧ ∀ other ∈ kept ++ [table], other.tableId < engine.nextTableId + 1 := by
  constructor
  · rw [List.map_append, List.nodup_append]
    refine ⟨distinct.nodup.sublist (part.map _), List.nodup_singleton _, fun id old other same => ?_⟩
    obtain ⟨earlier, inside, rfl⟩ := List.mem_map.mp old
    have low := distinct.below earlier (part.subset inside)
    cases List.mem_singleton.mp same
    omega
  · intro other inside
    rcases List.mem_append.mp inside with old | last
    · exact Nat.lt_succ_of_lt (distinct.below other (part.subset old))
    · cases List.mem_singleton.mp last
      omega

theorem Distinct.flush (distinct : Distinct engine) : Distinct engine.flush := by
  unfold Engine.flush
  split
  · exact distinct
  · obtain ⟨nodup, below⟩ := distinct.join (List.Sublist.refl _) (show engine.flushTable.metadata.tableId = _ from rfl)
    exact ⟨nodup, below⟩

theorem Distinct.compact (distinct : Distinct engine) : Distinct engine.compact := by
  refine Engine.compact_elim distinct fun chosen _ => ?_
  unfold Engine.compactInputs
  dsimp only
  split
  · exact ⟨distinct.nodup.sublist (List.filter_sublist.map _),
      fun table inside => distinct.below table (List.filter_sublist.subset inside)⟩
  next table made =>
    obtain ⟨nodup, below⟩ := distinct.join List.filter_sublist (Engine.outputTable_id made)
    exact ⟨nodup, below⟩

theorem Distinct.moves {event : Storage.Event} {after : Engine} {added : Option SstEntry} (distinct : Distinct engine)
    (moved : engine.Moves event after added) : Distinct after := by
  cases moved with
  | refused | pins => exact ⟨distinct.nodup, distinct.below⟩
  | logged clock payload mode wal result appended =>
    have same : Distinct (engine.logged wal payload result.sequence) := ⟨distinct.nodup, distinct.below⟩
    unfold Engine.maybeAutoFlush
    split
    · exact same.flush
    · exact same
  | flush => exact distinct.flush
  | compact => exact distinct.compact
  | watermark ts =>
    unfold Engine.setGcWatermark
    split
    · exact ⟨distinct.nodup, distinct.below⟩
    · exact distinct

end Distinct

theorem countP_eraseP {α : Type} {choose count : α → Bool} {chosen : α} : ∀ {items : List α}, items.find? choose = some chosen →
    items.countP count = (items.eraseP choose).countP count + if count chosen then 1 else 0
  | item :: rest, found => by
    by_cases this : choose item
    · rw [List.find?_cons_of_pos this] at found
      cases found
      rw [List.eraseP_cons_of_pos this, List.countP_cons]
    · rw [List.find?_cons_of_neg this] at found
      rw [List.eraseP_cons_of_neg this, List.countP_cons, List.countP_cons, countP_eraseP found]
      omega

namespace PinRun
variable {catalog : Catalog} {run : PinRun} {event : PinEvent}
  {engine : Engine}

/-- The counts are exact, and each snapshot is released by the data it was
encoded to. -/
structure Kept (catalog : Catalog) (run : PinRun) : Prop where
  distinct : Distinct run.engine
  exact : run.Exact
  data : ∀ taken ∈ run.unreleased, taken.data = taken.view.encode catalog.content

theorem Kept.start (distinct : Distinct engine) (unpinned : ∀ id, engine.refcounts id = 0) :
    Kept catalog (.start engine) := ⟨distinct, unpinned, nofun⟩

theorem Kept.plain (kept : Kept catalog run) (distinct : Distinct engine)
    (same : engine.refcounts = run.engine.refcounts) : Kept catalog { run with engine } :=
  ⟨distinct, fun id => (congrFun same id).trans (kept.exact id), kept.data⟩

theorem tables_snapshot (words : ∀ table ∈ run.engine.liveTables, table.tableId < 2 ^ 64) (cutoff : UInt64) :
    (run.snapshot catalog cutoff).tables = run.engine.liveTables.map TableMetadata.tableId := by
  unfold Taken.tables snapshot view
  rw [List.map_map]
  refine List.map_congr_left fun table inside => ?_
  rw [Function.comp_apply, catalog.named, UInt64.toNat_ofNat_of_lt' (words table inside)]

theorem Kept.createSnapshot (kept : Kept catalog run) (words : ∀ table ∈ run.engine.liveTables, table.tableId < 2 ^ 64)
    (cutoff : UInt64) : Kept catalog (run.createSnapshot catalog cutoff) where
  distinct := ⟨kept.distinct.nodup, kept.distinct.below⟩
  exact id := by
    have added := @List.Nodup.count _ _ _ id _ kept.distinct.nodup
    simp only [PinRun.createSnapshot, Engine.pinTables, List.countP_append, List.countP_singleton, tables_snapshot words,
      decide_eq_true_eq, added, kept.exact id]
  data taken inside := by
    rcases List.mem_append.mp inside with old | new
    · exact kept.data taken old
    · cases List.mem_singleton.mp new
      rfl

theorem released_of_short {taken : Taken} (data : taken.data = taken.view.encode catalog.content)
    (short : taken.view.pinnedTables.length ≤ 1) (fits : ∀ table ∈ taken.view.pinnedTables, SnapshotView.Fits table) :
    (releasedTables taken.data).1 = taken.tables := by
  obtain ⟨number, ⟨tables, rows, cutoff⟩, bytes⟩ := taken
  dsimp only at data
  subst data
  cases tables with
  | nil => exact congrArg Prod.fst (releasedTables_none rows cutoff catalog.content)
  | cons table rest =>
    cases List.eq_nil_of_length_eq_zero (Nat.le_zero.mp (Nat.le_of_succ_le_succ short))
    exact congrArg Prod.fst (releasedTables_single (fits table List.mem_cons_self) rows cutoff catalog.content)

theorem nodup_of_short {tables : List Nat} (short : tables.length ≤ 1) : tables.Nodup := by
  cases tables with
  | nil => exact List.nodup_nil
  | cons id rest =>
    cases List.eq_nil_of_length_eq_zero (Nat.le_zero.mp (Nat.le_of_succ_le_succ short))
    exact List.nodup_singleton id

section
variable (kept : Kept catalog run)
include kept

theorem Kept.releaseSnapshot {number : Nat} (spares : run.Spares (.releaseSnapshot number)) :
    Kept catalog (run.releaseSnapshot number) := by
  unfold PinRun.releaseSnapshot
  cases found : run.unreleased.find? fun taken => taken.number = number with
  | none => exact kept
  | some taken =>
    have inside := List.mem_of_find?_eq_some found
    obtain ⟨short, fits⟩ := spares taken inside (by simpa using List.find?_some found)
    have released := released_of_short (kept.data taken inside) short fits
    refine ⟨⟨kept.distinct.nodup, kept.distinct.below⟩, fun id => ?_, fun other left => ?_⟩
    · have few : taken.tables.length ≤ 1 := by rwa [Taken.tables, List.length_map]
      have once := @List.Nodup.count _ _ _ id _ (nodup_of_short few)
      have before := kept.exact id
      rw [countP_eraseP found] at before
      simp only [releaseData, Engine.releaseTables, released, once, before, decide_eq_true_eq]
      omega
    · exact kept.data other (List.eraseP_sublist.subset left)

theorem Kept.releaseNothing (bare : ∀ taken ∈ run.unreleased, taken.view.pinnedTables = [])
    (data : Bytes) (number : Nat) : Kept catalog (run.releaseData data number) := by
  have none (items : List Taken) (part : items ⊆ run.unreleased) (id : Nat) :
      items.countP (fun taken => decide (id ∈ taken.tables)) = 0 := by
    refine List.countP_eq_zero.mpr fun taken inside => ?_
    simp [Taken.tables, bare taken (part inside)]
  have part := (List.eraseP_sublist (p := fun taken : Taken => decide (taken.number = number)) (l := run.unreleased)).subset
  refine ⟨⟨kept.distinct.nodup, kept.distinct.below⟩, fun id => ?_, fun other left => kept.data other (part left)⟩
  simp only [releaseData, Engine.releaseTables, kept.exact id, none _ (List.Subset.refl _), none _ part, Nat.zero_sub]

theorem Kept.maybeCompactRaftLog {lastApplied : Nat} {cutoff : UInt64} {members : List ClusterMember}
    {rangeTable : Bytes} (spares : run.Spares (.compactRaftLog lastApplied cutoff members rangeTable)) :
    Kept catalog (run.maybeCompactRaftLog catalog lastApplied cutoff members rangeTable) := by
  obtain ⟨words, replaces⟩ := spares
  unfold PinRun.maybeCompactRaftLog
  split
  · exact kept
  · have released : Kept catalog (run.nodeSnapshot.elim run fun held => run.releaseData held.1 held.2) ∧
        (run.nodeSnapshot.elim run fun held => run.releaseData held.1 held.2).engine.liveTables = run.engine.liveTables := by
      cases held : run.nodeSnapshot with
      | none => exact ⟨kept, rfl⟩
      | some payload =>
        have bare := replaces.resolve_left (by rw [held]; nofun)
        exact ⟨kept.releaseNothing bare _ _, rfl⟩
    have created := released.1.createSnapshot (by rwa [released.2]) cutoff
    dsimp only
    unfold PinRun.installSnapshot
    split
    · exact created
    · exact ⟨created.distinct, created.exact, created.data⟩

theorem Kept.step (spares : run.Spares event) : Kept catalog (run.step catalog event) := by
  cases event with
  | put key value durability clock =>
    exact kept.plain (kept.distinct.moves (run.engine.moves_step (.put key value durability clock)))
      (Engine.put_refcounts run.engine key value durability clock)
  | delete key durability clock =>
    exact kept.plain (kept.distinct.moves (run.engine.moves_step (.delete key durability clock)))
      (Engine.delete_refcounts run.engine key durability clock)
  | flush => exact kept.plain kept.distinct.flush (Engine.maintained_flush run.engine).refcounts
  | compact => exact kept.plain kept.distinct.compact (Engine.maintained_compact run.engine).refcounts
  | createSnapshot cutoff => exact kept.createSnapshot spares cutoff
  | releaseSnapshot number => exact kept.releaseSnapshot spares
  | compactRaftLog => exact kept.maybeCompactRaftLog spares

end

end PinRun

/-- In every run of steps that meet the condition, the pin counts are exact, and
when all snapshots are released compaction may take every table. -/
theorem pins_exact (catalog : Catalog) {engine : Engine} (distinct : Distinct engine) (unpinned : ∀ id, engine.refcounts id = 0)
    {run : PinRun} (reached : Reaches (PinRun.step catalog) PinRun.Spares (.start engine) run) :
    run.Exact ∧ (run.unreleased = [] → ∀ id, run.engine.pinned id = false) := by
  have kept := reached.invariant (PinRun.Kept catalog) (.start distinct unpinned) fun kept spares => kept.step spares
  refine ⟨kept.exact, fun none id => ?_⟩
  have zero := kept.exact id
  rw [none, List.countP_nil] at zero
  simp [Engine.pinned, zero]

def bareCatalog : Catalog where
  metadata table := ⟨UInt64.ofNat table.tableId, 0, "sst", [], [], 0, 0, 0, 0, 0⟩
  content _ := []
  named _ := rfl

def flushedPut (key : UInt8) : List PinEvent := [.put [key] [120] none none, .flush]

def PinRun.ofEvents (events : List PinEvent) : PinRun := events.foldl (PinRun.step bareCatalog) (.start (.fresh leveledConfig))

theorem pins_exact_single : (PinRun.ofEvents (flushedPut 97 ++ [.createSnapshot 1, .releaseSnapshot 0])).Exact := by
  have permits : Permits (PinRun.step bareCatalog) PinRun.Spares (.start (.fresh leveledConfig))
      (flushedPut 97 ++ [.createSnapshot 1, .releaseSnapshot 0]) := by
    refine ⟨trivial, trivial, ?_, ?_, trivial⟩
    · decide +kernel
    · decide +kernel
  exact (pins_exact bareCatalog (.fresh leveledConfig) (fun _ => rfl) permits.reaches).1

/-- Of two tables one stays pinned when the only snapshot is released, and the
server's second snapshot leaves the first one's pins. -/
theorem pins_left_over :
    ¬ (PinRun.ofEvents (flushedPut 97 ++ flushedPut 98 ++ [.createSnapshot 1, .releaseSnapshot 0])).Exact ∧
      ¬ (PinRun.ofEvents (flushedPut 97 ++ [.compactRaftLog 64 1 [] [], .compactRaftLog 128 1 [] []])).Exact := by
  constructor
  · intro exact
    exact absurd (exact 2) (by decide +kernel)
  · intro exact
    exact absurd (exact 1) (by decide +kernel)

end KayaDB.Server
