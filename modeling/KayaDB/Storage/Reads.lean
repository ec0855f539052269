import KayaDB.Library.Runs
import KayaDB.Storage.Engine

/-! What reads return. A get stops at the first source with an answer, a scan
merges all of them; both are compared with the versions written, of which a read
at a timestamp is to return the newest that is not above it. -/

namespace KayaDB.Storage
open Raft (Bytes)
open Versions

def History.get (written : List SstEntry) (key : Bytes) (ts : Nat) : Option Bytes :=
  (newest written key ts).bind Entry.value

/-- The keys under `front` that have a version a reader at `ts` may see. -/
def History.keys (written : List SstEntry) (front : Bytes) (ts : Nat) : List Bytes :=
  (SortedSet.ofList ((written.filter fun entry => Under front entry ∧ entry.sequence ≤ ts).map Entry.key)).elems

/-- A scan is to return the values of the first keys, within the limits. -/
def History.scan (limits : LimitsConfig) (written : List SstEntry) (front : Bytes) (limit : Option Nat) (ts : Nat) :
    Except String (List (Bytes × Bytes)) :=
  (limits.validateScanPrefix front).map fun _ =>
    collectRows limits.maxScanBytes (limit.elim limits.maxScanResults fun limit => min limit limits.maxScanResults) 0 0
      (((History.keys written front ts).take limits.maxScanResults).map fun key => (key, History.get written key ts))

namespace History
variable {limits : LimitsConfig} {written kept : List SstEntry} {front : Bytes} {ts : Nat}
  {value key : Bytes} {maxBytes limit : Nat}

theorem mem_keys (key : Bytes) : key ∈ keys written front ts ↔
    ∃ entry ∈ written, entry.key = key ∧ front <+: key ∧ entry.sequence ≤ ts := by
  unfold keys
  rw [← SortedSet.mem_def, SortedSet.mem_ofList, List.mem_map]
  refine exists_congr fun entry => ?_
  simp only [List.mem_filter, decide_eq_true_eq]
  constructor
  · rintro ⟨⟨inside, starts, seen⟩, rfl⟩
    exact ⟨inside, rfl, starts, seen⟩
  · rintro ⟨inside, rfl, starts, seen⟩
    exact ⟨⟨inside, starts, seen⟩, rfl⟩

theorem keys_sorted : (keys written front ts).Pairwise (· < ·) := SortedSet.sorted _

theorem mem_keys_of_get (starts : front <+: key) (found : get written key ts = some value) :
    key ∈ keys written front ts := by
  cases top : newest written key ts with
  | none => simp [get, top] at found
  | some entry =>
    have seen := isNewest_of_newest top
    exact (mem_keys key).mpr ⟨entry, seen.mem, seen.visible.1, starts, seen.visible.2⟩

theorem sublist_collectRows (rows : List (Bytes × Option Bytes)) : ∀ {count total},
    ((collectRows maxBytes limit count total rows).map fun row => (row.1, some row.2)).Sublist rows := by
  induction rows with
  | nil => exact List.Sublist.refl _
  | cons row rows ih =>
    intro count total
    obtain ⟨key, found⟩ := row
    cases found with
    | none => exact ih.cons _
    | some value =>
      simp only [collectRows]
      split
      · exact List.nil_sublist _
      · split
        · exact (List.nil_sublist _).cons_cons _
        · exact ih.cons_cons _

theorem mem_of_mem_collectRows {rows : List (Bytes × Option Bytes)} {count total : Nat}
    (inside : (key, value) ∈ collectRows maxBytes limit count total rows) : (key, some value) ∈ rows :=
  (sublist_collectRows rows).subset (List.mem_map.mpr ⟨_, inside, rfl⟩)

theorem get_of_mem_scan {limit : Option Nat} {rows : List (Bytes × Bytes)}
    (scanned : scan limits written front limit ts = .ok rows) (inside : (key, value) ∈ rows) :
    get written key ts = some value := by
  unfold scan at scanned
  cases valid : limits.validateScanPrefix front with
  | error => simp [valid, Except.map] at scanned
  | ok =>
    rw [valid] at scanned
    cases scanned
    obtain ⟨other, -, same⟩ := List.mem_map.mp (mem_of_mem_collectRows inside)
    obtain ⟨rfl, found⟩ := Prod.mk.inj same
    exact found

theorem scan_self (valid : limits.validateScanPrefix key = .ok ()) (room : 0 < limits.maxScanResults)
    (found : get written key ts = some value) (limit : Option Nat) :
    ∃ rest, scan limits written key limit ts = .ok ((key, value) :: rest) := by
  have inside : key ∈ keys written key ts := mem_keys_of_get List.prefix_rfl found
  obtain ⟨tail, first⟩ : ∃ tail, keys written key ts = key :: tail := by
    have sorted : (keys written key ts).Pairwise (· < ·) := keys_sorted
    have above : ∀ other ∈ keys written key ts, ¬ other < key := by
      intro other member
      obtain ⟨-, -, -, starts, -⟩ := (mem_keys other).mp member
      exact not_lt_of_isPrefix starts
    cases listed : keys written key ts with
    | nil => simp [listed] at inside
    | cons head tail =>
      rw [listed] at inside sorted above
      rcases List.mem_cons.mp inside with rfl | later
      · exact ⟨tail, rfl⟩
      · exact absurd ((List.pairwise_cons.mp sorted).1 key later) (above head List.mem_cons_self)
  obtain ⟨bound, positive⟩ := Nat.exists_eq_succ_of_ne_zero room.ne'
  unfold scan
  rw [valid, first, positive, List.take_succ_cons, List.map_cons, found]
  exact ⟨_, rfl⟩

end History

namespace Engine
variable {engine : Engine} {written : List SstEntry}

def sources (engine : Engine) : List (List SstEntry) :=
  engine.memtable.entries :: engine.liveSstables.map Sstable.entries

theorem lookup_tables (engine : Engine) (key : Bytes) (ts : Nat) :
    (engine.liveSstables.findSome? fun table => table.getAt key ts) =
      lookup (engine.liveSstables.map Sstable.entries) key ts := by
  simp only [lookup, List.findSome?_map, Function.comp_def, Sstable.getAt_eq_newest]

theorem getInner_eq (engine : Engine) (key : Bytes) (readAt : ReadTimestamp) :
    engine.getInner key readAt = (lookup engine.sources key readAt.asNat).bind Entry.value := by
  unfold getInner sources
  dsimp only
  rw [Memtable.getAt_eq_newest, lookup_tables]
  simp only [lookup, List.findSome?_cons]
  cases newest engine.memtable.entries key readAt.asNat <;> rfl

theorem mem_sources (entry : SstEntry) : entry ∈ engine.sources.flatten ↔
    entry ∈ engine.memtable.entries ∨ ∃ table ∈ engine.liveSstables, entry ∈ table.entries := by
  simp [sources]

theorem get_of_ordered (unique : Unique written) (same : ∀ entry, entry ∈ engine.sources.flatten ↔ entry ∈ written)
    (ordered : Ordered engine.sources) (key : Bytes) (readAt : ReadTimestamp) :
    engine.getInner key readAt = History.get written key readAt.asNat := by
  have held : Unique engine.sources.flatten := unique.subset fun entry => (same entry).mp
  rw [getInner_eq, lookup_of_ordered held ordered, History.get, newest_congr unique same]

/-- A scan meets, for each version it may return, that one or a newer one of the key. -/
theorem merged_scan (same : ∀ entry, entry ∈ engine.sources.flatten ↔ entry ∈ written) (front : Bytes) (ts : Nat) :
    Merged (written.filter fun entry => Under front entry ∧ entry.sequence ≤ ts)
      (merge (engine.scanEntries front ts)) := by
  have merged := merged_merge (engine.scanEntries front ts)
  refine ⟨merged.sorted, fun row inside => ?_, fun entry inside => ?_⟩
  · have found := merged.mem row inside
    simp only [List.mem_filter, decide_eq_true_eq, ← same, mem_sources]
    rcases List.mem_append.mp found with tabled | fresh
    · obtain ⟨table, member, held⟩ := List.mem_flatMap.mp tabled
      obtain ⟨starts, top⟩ := (Sstable.mem_scanFrom table.sorted).mp held
      exact ⟨Or.inr ⟨table, List.mem_reverse.mp member, top.mem⟩, starts, top.visible.2⟩
    · obtain ⟨held, seen⟩ := List.mem_filter.mp fresh
      obtain ⟨here, starts⟩ := (Memtable.mem_rawScanPrefix _ _ _).mp held
      exact ⟨Or.inl here, starts, of_decide_eq_true seen⟩
  · simp only [List.mem_filter, decide_eq_true_eq, ← same, mem_sources] at inside
    obtain ⟨place, starts, seen⟩ := inside
    have met : ∃ row ∈ engine.scanEntries front ts, row.key = entry.key ∧ entry.sequence ≤ row.sequence := by
      rcases place with here | ⟨table, member, here⟩
      · refine ⟨entry, List.mem_append_right _ (List.mem_filter.mpr ⟨?_, decide_eq_true seen⟩), rfl, le_rfl⟩
        exact (Memtable.mem_rawScanPrefix _ _ _).mpr ⟨here, starts⟩
      · obtain ⟨row, top⟩ := exists_isNewest here ⟨rfl, seen⟩
        have same : row.key = entry.key := top.visible.1
        have under : Under front row := show front <+: row.key from same ▸ starts
        have found := (Sstable.mem_scanFrom table.sorted).mpr ⟨under, same ▸ top⟩
        refine ⟨row, List.mem_append_left _ (List.mem_flatMap.mpr ⟨table, List.mem_reverse.mpr member, found⟩), same, ?_⟩
        exact top.greatest entry here ⟨rfl, seen⟩
    obtain ⟨row, found, key, newer⟩ := met
    obtain ⟨last, inside, also, more⟩ := merged.covers row found
    exact ⟨last, inside, also.trans key, newer.trans more⟩

theorem scan_of_sources (unique : Unique written) (same : ∀ entry, entry ∈ engine.sources.flatten ↔ entry ∈ written)
    (front : Bytes) (limit : Option Nat) (readAt : ReadTimestamp) :
    engine.scanPrefixInner front limit readAt =
      History.scan engine.config.limits written front limit readAt.asNat := by
  have merged := merged_scan same front readAt.asNat
  have value : ∀ row ∈ merge (engine.scanEntries front readAt.asNat),
      (row.key, row.value) = (row.key, History.get written row.key readAt.asNat) := by
    intro row inside
    have held := List.mem_filter.mp (merged.mem row inside)
    simp only [decide_eq_true_eq] at held
    have top : IsNewest written row.key readAt.asNat row := by
      refine ⟨held.1, ⟨rfl, held.2.2⟩, fun other member visible => ?_⟩
      refine merged.greatest inside (List.mem_filter.mpr ⟨member, decide_eq_true ⟨?_, visible.2⟩⟩) visible.1
      exact (show front <+: other.key from visible.1 ▸ held.2.1)
    rw [History.get, top.newest_eq unique, Option.bind_some]
  have rows : (merge (engine.scanEntries front readAt.asNat)).map (fun row => (row.key, row.value)) =
      (History.keys written front readAt.asNat).map fun key => (key, History.get written key readAt.asNat) := by
    rw [History.keys, ← merged.keys, List.map_map]
    exact List.map_congr_left value
  unfold scanPrefixInner History.scan
  cases engine.config.limits.validateScanPrefix front with
  | error => rfl
  | ok =>
    dsimp only
    rw [merge_window, List.map_take, rows, List.map_take]
    rfl

theorem mem_sources_flush (entry : SstEntry) :
    entry ∈ engine.flush.sources.flatten ↔ entry ∈ engine.sources.flatten := by
  unfold flush
  split
  · rfl
  · simp [sources, flushNonempty, flushTable, Memtable.new]

theorem ordered_flush (ordered : Ordered engine.sources) : Ordered engine.flush.sources := by
  unfold flush
  split
  · exact ordered
  · refine List.pairwise_cons.mpr ⟨fun _ _ recent inside => absurd inside List.not_mem_nil, ?_⟩
    exact ordered

theorem mem_inputEntries (inputs : List Nat) (entry : SstEntry) : entry ∈ engine.inputEntries inputs ↔
    ∃ table ∈ engine.liveSstables, table.metadata.tableId ∈ inputs ∧ entry ∈ table.entries := by
  simp [inputEntries, and_assoc]

def leftEntries (engine : Engine) (inputs : List Nat) : List SstEntry :=
  (engine.leftTables inputs).flatMap Sstable.entries

theorem mem_leftEntries (inputs : List Nat) (entry : SstEntry) : entry ∈ engine.leftEntries inputs ↔
    ∃ table ∈ engine.liveSstables, table.metadata.tableId ∉ inputs ∧ entry ∈ table.entries := by
  simp [leftEntries, leftTables, and_assoc]

theorem mem_sources_split (inputs : List Nat) (entry : SstEntry) : entry ∈ engine.sources.flatten ↔
    entry ∈ engine.memtable.entries ∨ entry ∈ engine.inputEntries inputs ∨ entry ∈ engine.leftEntries inputs := by
  rw [mem_sources, mem_inputEntries, mem_leftEntries, ← exists_or]
  refine or_congr Iff.rfl (exists_congr fun table => ?_)
  by_cases chosen : table.metadata.tableId ∈ inputs <;> simp [chosen]

/-- Tables are numbered in the order they were written and read backwards. -/
structure Numbered (engine : Engine) : Prop where
  sorted : engine.liveSstables.Pairwise fun first second => second.metadata.tableId < first.metadata.tableId
  below : ∀ table ∈ engine.liveSstables, table.metadata.tableId < engine.nextTableId

theorem newestFirst_eq {tables sorted : List Sstable} (perm : tables.Perm sorted)
    (descending : sorted.Pairwise fun first second => second.metadata.tableId < first.metadata.tableId) :
    newestFirst tables = sorted := by
  have total : Std.Total fun first second : Sstable => second.metadata.tableId ≤ first.metadata.tableId :=
    ⟨fun first second => le_total second.metadata.tableId first.metadata.tableId⟩
  have trans : IsTrans Sstable fun first second => second.metadata.tableId ≤ first.metadata.tableId :=
    ⟨fun _ _ _ one two => two.trans one⟩
  have distinct : ∀ first ∈ sorted, ∀ second ∈ sorted, first.metadata.tableId = second.metadata.tableId →
      first = second := by
    clear perm total trans
    induction sorted with
    | nil => exact fun _ inside => absurd inside List.not_mem_nil
    | cons head tail ih =>
      obtain ⟨top, rest⟩ := List.pairwise_cons.mp descending
      intro first one second two same
      rcases List.mem_cons.mp one with rfl | early <;> rcases List.mem_cons.mp two with rfl | late
      · rfl
      · exact absurd same (top second late).ne'
      · exact absurd same.symm (top first early).ne'
      · exact ih rest first early second late same
  have moved := (List.perm_insertionSort (fun first second : Sstable =>
    second.metadata.tableId ≤ first.metadata.tableId) tables).trans perm
  refine List.Perm.eq_of_pairwise ?_ (List.pairwise_insertionSort _ _) (descending.imp le_of_lt) moved
  intro first second one two before after
  exact distinct first (moved.mem_iff.mp one) second two (le_antisymm after before)

section
variable {chosen : CompactionCandidate}
  {table : Sstable}

theorem outputTable_id (made : engine.outputTable chosen = some table) :
    table.metadata.tableId = engine.nextTableId := by
  unfold outputTable at made
  dsimp only at made
  split at made
  · cases made
  · cases made
    rfl

theorem outputTable_entries (made : engine.outputTable chosen = some table) :
    table.entries = outEntries (engine.inputEntries chosen.inputTableIds) engine.gcWatermark.toNat := by
  unfold outputTable at made
  dsimp only at made
  split at made
  · cases made
  · cases made
    rfl

theorem mem_outputTable (entry : SstEntry) : (∃ table ∈ engine.outputTable chosen, entry ∈ table.entries) ↔
    entry ∈ outEntries (engine.inputEntries chosen.inputTableIds) engine.gcWatermark.toNat := by
  unfold outputTable
  dsimp only
  split
  next empty => simp [List.isEmpty_iff.mp empty]
  next => simp

theorem compactInputs_live (numbered : engine.Numbered) : (engine.compactInputs chosen).liveSstables =
    (engine.outputTable chosen).toList ++ engine.leftTables chosen.inputTableIds := by
  have descending : (engine.leftTables chosen.inputTableIds).Pairwise fun first second =>
      second.metadata.tableId < first.metadata.tableId := numbered.sorted.sublist List.filter_sublist
  unfold compactInputs
  dsimp only
  cases made : engine.outputTable chosen with
  | none => exact newestFirst_eq (List.Perm.refl _) descending
  | some table =>
    refine newestFirst_eq List.perm_append_comm (List.pairwise_cons.mpr ⟨fun other inside => ?_, descending⟩)
    rw [outputTable_id made]
    exact numbered.below other (List.mem_of_mem_filter inside)

theorem compactInputs_memtable : (engine.compactInputs chosen).memtable = engine.memtable := by
  unfold compactInputs
  dsimp only
  split <;> rfl

/-- What flushes and compactions leave alone. -/
structure Maintained (engine after : Engine) : Prop where
  config : after.config = engine.config
  wal : after.wal = engine.wal
  gcWatermark : after.gcWatermark = engine.gcWatermark
  refcounts : after.refcounts = engine.refcounts

theorem maintained_compactInputs (engine : Engine) (chosen : CompactionCandidate) :
    engine.Maintained (engine.compactInputs chosen) := by
  unfold compactInputs
  dsimp only
  split <;> exact ⟨rfl, rfl, rfl, rfl⟩

theorem Numbered.compactInputs (numbered : engine.Numbered) : (engine.compactInputs chosen).Numbered := by
  have descending : (engine.leftTables chosen.inputTableIds).Pairwise fun first second =>
      second.metadata.tableId < first.metadata.tableId := numbered.sorted.sublist List.filter_sublist
  have low : ∀ table ∈ engine.leftTables chosen.inputTableIds, table.metadata.tableId < engine.nextTableId :=
    fun table inside => numbered.below table (List.mem_of_mem_filter inside)
  have live : (engine.compactInputs chosen).liveSstables = _ := compactInputs_live numbered
  cases made : engine.outputTable chosen with
  | none =>
    have next : (engine.compactInputs chosen).nextTableId = engine.nextTableId := by
      simp [Engine.compactInputs, made]
    rw [made, Option.toList_none, List.nil_append] at live
    exact ⟨live ▸ descending, by rw [live, next]; exact low⟩
  | some table =>
    have next : (engine.compactInputs chosen).nextTableId = engine.nextTableId + 1 := by
      simp [Engine.compactInputs, made]
    have id := outputTable_id made
    rw [made, Option.toList_some, List.singleton_append] at live
    refine ⟨?_, fun other inside => ?_⟩
    · rw [live]
      exact List.pairwise_cons.mpr ⟨fun other inside => id ▸ low other inside, descending⟩
    · rw [live] at inside
      rw [next]
      rcases List.mem_cons.mp inside with rfl | inside
      · omega
      · exact Nat.lt_succ_of_lt (low other inside)

theorem mem_newestFirst (tables : List Sstable) (table : Sstable) : table ∈ newestFirst tables ↔ table ∈ tables :=
  (List.perm_insertionSort _ tables).mem_iff

theorem compactInputs_subset : (engine.compactInputs chosen).sources.flatten ⊆ engine.sources.flatten := by
  have left : ∀ table ∈ engine.leftTables chosen.inputTableIds, ∀ entry ∈ table.entries,
      entry ∈ engine.sources.flatten := fun table inside entry held =>
    (mem_sources entry).mpr (Or.inr ⟨table, List.mem_of_mem_filter inside, held⟩)
  intro entry found
  rcases (mem_sources entry).mp found with fresh | ⟨table, live, held⟩
  · rw [compactInputs_memtable] at fresh
    exact (mem_sources entry).mpr (Or.inl fresh)
  · unfold compactInputs at live
    dsimp only at live
    cases made : engine.outputTable chosen with
    | none =>
      rw [made] at live
      exact left table ((mem_newestFirst _ _).mp live) entry held
    | some output =>
      rw [made] at live
      rcases List.mem_append.mp ((mem_newestFirst _ _).mp live) with old | new
      · exact left table old entry held
      · rw [List.mem_singleton.mp new, outputTable_entries made] at held
        exact (mem_sources_split chosen.inputTableIds entry).mpr (Or.inr (Or.inl (outEntries_subset _ _ held)))

theorem mem_sources_compactInputs (numbered : engine.Numbered)
    (unique : Unique (engine.inputEntries chosen.inputTableIds)) (entry : SstEntry) :
    entry ∈ (engine.compactInputs chosen).sources.flatten ↔
      entry ∈ engine.memtable.entries ∨
        (entry ∈ engine.inputEntries chosen.inputTableIds ∧
          ¬ Obsolete (engine.inputEntries chosen.inputTableIds) engine.gcWatermark.toNat entry) ∨
        entry ∈ engine.leftEntries chosen.inputTableIds := by
  rw [mem_sources, compactInputs_memtable, compactInputs_live numbered, ← mem_outEntries unique, ← mem_outputTable,
    leftEntries, List.mem_flatMap, ← exists_or]
  refine or_congr Iff.rfl (exists_congr fun table => ?_)
  rw [List.mem_append, Option.mem_toList, or_and_right, Option.mem_def]

/-- The condition under which reading the tables by number still reads them by
age: for each key the input versions are newer than those only found elsewhere. -/
def OrderKept (engine : Engine) (chosen : CompactionCandidate) : Prop :=
  Newer (engine.inputEntries chosen.inputTableIds) (engine.leftEntries chosen.inputTableIds)

instance : Decidable (engine.OrderKept chosen) :=
  inferInstanceAs (Decidable (∀ recent ∈ engine.inputEntries chosen.inputTableIds,
    ∀ old ∈ engine.leftEntries chosen.inputTableIds,
      recent.key = old.key → old.sequence < recent.sequence ∨ old ∈ engine.inputEntries chosen.inputTableIds))

theorem newer_outEntries {inputs left : List SstEntry} {watermark : Nat} (unique : Unique inputs)
    (kept : Newer inputs left) : Newer (outEntries inputs watermark) left := by
  intro recent here old there same
  obtain ⟨inside, current⟩ := (mem_outEntries unique).mp here
  rcases kept recent inside old there same with older | copied
  · exact Or.inl older
  · rw [or_iff_not_imp_right, mem_outEntries unique, not_and, not_not]
    intro dropped
    have obsolete := dropped copied
    rcases Nat.lt_trichotomy old.sequence recent.sequence with less | equal | more
    · exact less
    · exact absurd (unique old copied recent inside same.symm equal ▸ obsolete) current
    · exact absurd ⟨more.trans obsolete.1, Or.inr ⟨old, copied, same.symm, more⟩⟩ current

theorem ordered_compactInputs (numbered : engine.Numbered) (unique : Unique (engine.inputEntries chosen.inputTableIds))
    (ordered : Ordered engine.sources) (kept : engine.OrderKept chosen) :
    Ordered (engine.compactInputs chosen).sources := by
  obtain ⟨top, tables⟩ := List.pairwise_cons.mp ordered
  have left : ((engine.leftTables chosen.inputTableIds).map Sstable.entries).Pairwise Newer :=
    tables.sublist (List.filter_sublist.map _)
  have newest : ∀ source ∈ (engine.leftTables chosen.inputTableIds).map Sstable.entries,
      Newer engine.memtable.entries source :=
    fun source inside => top source ((List.filter_sublist.map _).subset inside)
  unfold Ordered sources
  rw [compactInputs_memtable, compactInputs_live numbered]
  cases made : engine.outputTable chosen with
  | none => exact List.pairwise_cons.mpr ⟨newest, left⟩
  | some table =>
    have entries := outputTable_entries made
    have below : Newer (outEntries _ engine.gcWatermark.toNat) _ := newer_outEntries unique kept
    refine List.pairwise_cons.mpr ⟨fun source inside => ?_, List.pairwise_cons.mpr ⟨fun source inside => ?_, left⟩⟩
    · rcases List.mem_cons.mp inside with rfl | inside
      · intro recent here old there same
        rw [entries, mem_outEntries unique, mem_inputEntries] at there
        obtain ⟨⟨input, live, -, held⟩, -⟩ := there
        exact top input.entries (List.mem_map_of_mem live) recent here old held same
      · exact newest source inside
    · intro recent here old there same
      obtain ⟨other, member, rfl⟩ := List.mem_map.mp inside
      rw [entries] at here ⊢
      exact below recent here old (List.mem_flatMap.mpr ⟨other, member, there⟩) same

/-- No two versions share key and number, and sources are read from new to old. -/
structure Tidy (engine : Engine) : Prop where
  numbered : engine.Numbered
  unique : Unique engine.sources.flatten
  ordered : Ordered engine.sources

theorem Tidy.unique_inputs (tidy : engine.Tidy) (inputs : List Nat) : Unique (engine.inputEntries inputs) :=
  tidy.unique.subset fun entry inside => (mem_sources_split inputs entry).mpr (Or.inr (Or.inl inside))

theorem Tidy.compactInputs (tidy : engine.Tidy) (kept : engine.OrderKept chosen) :
    (engine.compactInputs chosen).Tidy where
  numbered := tidy.numbered.compactInputs
  unique := tidy.unique.subset compactInputs_subset
  ordered := ordered_compactInputs tidy.numbered (tidy.unique_inputs _) tidy.ordered kept

end
end Engine
end KayaDB.Storage
