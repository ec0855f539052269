import KayaDB.Storage.Table

/-! The memtable as a map of versions: for each key and sequence number it has what
was written last. All of its reads are walks along one run, in which the versions of
a key stand together with the newest first. -/

namespace KayaDB.Storage
open Raft (Bytes)
open Versions

def Memtable.scanPrefixAt (table : Memtable) (front : Bytes) (readTs : Nat) : List (Bytes × Bytes) :=
  (Sstable.scanFrom [] readTs none false (table.rawScanPrefix front)).filterMap fun entry =>
    entry.value.map fun value => (entry.key, value)

def Memtable.iterLatestUser (table : Memtable) : List SstEntry := heads none table.entries

/-- The memtable with the number of bytes that is carried along from write to write. -/
structure CountedMemtable extends Memtable where
  counted : Nat

namespace CountedMemtable

def new : CountedMemtable := ⟨.new, 0⟩

def insert (table : CountedMemtable) (entry : SstEntry) : CountedMemtable :=
  let old := table.entries.find? fun old => Same entry old
  ⟨table.toMemtable.insert entry, table.counted - old.elim 0 Memtable.entrySize + Memtable.entrySize entry⟩

def put (table : CountedMemtable) (key value : Bytes) (sequence : Nat) : CountedMemtable :=
  table.insert ⟨key, sequence, some value⟩

def delete (table : CountedMemtable) (key : Bytes) (sequence : Nat) : CountedMemtable :=
  table.insert ⟨key, sequence, none⟩

end CountedMemtable

inductive MemtableCall where
  | put (key value : Bytes) (sequence : Nat)
  | delete (key : Bytes) (sequence : Nat)

namespace MemtableCall

def perform (table : CountedMemtable) : MemtableCall → CountedMemtable
  | .put key value sequence => table.put key value sequence
  | .delete key sequence => table.delete key sequence

def entry : MemtableCall → SstEntry
  | .put key value sequence => ⟨key, sequence, some value⟩
  | .delete key sequence => ⟨key, sequence, none⟩

/-- What is stored of the writes: the last one for each key and number. -/
def store (stored : List SstEntry) (call : MemtableCall) : List SstEntry :=
  call.entry :: stored.filter fun old => ¬ Same call.entry old

end MemtableCall

/-- Every read of the table is the one of the stored versions. -/
structure CountedMemtable.Refines (table : CountedMemtable) (stored : List SstEntry) : Prop where
  getAt : ∀ key readTs, table.getAt key readTs = newest stored key readTs
  scanPrefixAt : ∀ front readTs key value, (key, value) ∈ table.scanPrefixAt front readTs ↔
    front <+: key ∧ (newest stored key readTs).bind Entry.value = some value
  scanOrder : ∀ front readTs, (table.scanPrefixAt front readTs).Pairwise fun first second => first.1 < second.1
  rawScanPrefix : ∀ front, (table.rawScanPrefix front).Perm (stored.filter fun entry => Under front entry)
  rawOrder : ∀ front, (table.rawScanPrefix front).Pairwise Before
  iterLatestUser : ∀ entry, entry ∈ table.iterLatestUser ↔
    entry ∈ stored ∧ ∀ other ∈ stored, other.key = entry.key → other.sequence ≤ entry.sequence
  latestOrder : Rows table.iterLatestUser
  bytes : table.counted = (stored.map Memtable.entrySize).sum

/-- The table holds the stored versions and has counted them. -/
structure CountedMemtable.Stores (table : CountedMemtable) (stored : List SstEntry) : Prop where
  perm : table.entries.Perm stored
  bytes : table.counted = (stored.map Memtable.entrySize).sum

namespace CountedMemtable.Stores
variable {table : CountedMemtable} {stored : List SstEntry}

theorem write (stores : table.Stores stored) (call : MemtableCall) : (call.perform table).Stores (call.store stored) := by
  have inserted : call.perform table = table.insert call.entry := by cases call <;> rfl
  obtain ⟨parts, placed⟩ := perm_insertEntry call.entry table.sorted
  have kept := stores.perm.filter fun old => decide (¬ Same call.entry old)
  rw [inserted]
  refine ⟨placed.trans (kept.cons _), ?_⟩
  have before := (parts.map Memtable.entrySize).sum_nat
  have after := (kept.map Memtable.entrySize).sum_nat
  have counted := stores.bytes.trans (stores.perm.map Memtable.entrySize).sum_nat.symm
  rw [MemtableCall.store, List.map_cons, List.sum_cons, ← after]
  rw [List.map_append, List.sum_append] at before
  dsimp only [insert]
  cases found : table.entries.find? fun old => Same call.entry old with
  | none => simp [found] at before ⊢; omega
  | some old => simp [found] at before ⊢; omega

theorem refines (stores : table.Stores stored) : table.Refines stored := by
  have unique := unique_of_sorted table.sorted
  have newest_eq : ∀ key readTs, newest table.entries key readTs = newest stored key readTs := fun key readTs =>
    (newest_congr unique fun entry => stores.perm.mem_iff.symm).symm
  have order : ∀ front, (table.rawScanPrefix front).Pairwise Before := by
    intro front
    rw [table.rawScanPrefix_eq]
    exact table.sorted.filter _
  refine ⟨?_, ?_, ?_, ?_, order, ?_, rows_heads table.sorted, stores.bytes⟩
  · intro key readTs
    rw [table.getAt_eq_newest, newest_eq]
  · intro front readTs key value
    have seen : ∀ entry, entry.key = key → front <+: key →
        (entry ∈ Sstable.scanFrom [] readTs none false (table.rawScanPrefix front) ↔
          newest stored key readTs = some entry) := by
      rintro entry rfl starts
      have part : table.rawScanPrefix front ⊆ table.entries := fun other inside =>
        ((table.mem_rawScanPrefix front other).mp inside).1
      rw [Sstable.mem_scanFrom (order front), ← newest_eq, ← newest_of_visible unique part]
      · exact ⟨fun top => top.2.newest_eq (unique.subset part), fun top => ⟨List.nil_prefix, isNewest_of_newest top⟩⟩
      · intro other inside visible
        have under : Under front other := show front <+: other.key from visible.1 ▸ starts
        exact (table.mem_rawScanPrefix _ _).mpr ⟨inside, under⟩
    simp only [Memtable.scanPrefixAt, List.mem_filterMap, Option.map_eq_some_iff, Prod.mk.injEq, Option.bind_eq_some_iff]
    constructor
    · rintro ⟨entry, inside, held, same, rfl, rfl⟩
      have starts := ((Sstable.mem_scanFrom (order front)).mp inside).2.mem
      have starts : front <+: entry.key := ((table.mem_rawScanPrefix _ _).mp starts).2
      exact ⟨starts, entry, (seen entry rfl starts).mp inside, same⟩
    · rintro ⟨starts, entry, top, same⟩
      have key : entry.key = key := (isNewest_of_newest top).visible.1
      exact ⟨entry, (seen entry key starts).mpr top, value, same, key, rfl⟩
  · intro front readTs
    rw [Memtable.scanPrefixAt, Sstable.scanFrom_eq (order front) (by simp)]
    refine List.Pairwise.filterMap _ (fun first second less => ?_) (rows_heads ((order front).filter _))
    simp only [Option.map_eq_some_iff]
    rintro _ ⟨value, -, rfl⟩ _ ⟨other, -, rfl⟩
    exact less
  · intro front
    rw [table.rawScanPrefix_eq]
    exact stores.perm.filter _
  · intro entry
    rw [Memtable.iterLatestUser, mem_heads table.sorted (by simp)]
    simp [stores.perm.mem_iff]

end CountedMemtable.Stores

/-- After any writes, also of the same version and out of order, the memtable answers
as the map of what was written. -/
theorem memtable_refines (calls : List MemtableCall) :
    (calls.foldl MemtableCall.perform .new).Refines (calls.foldl MemtableCall.store []) := by
  suffices stores : ∀ {table stored}, CountedMemtable.Stores table stored →
      (calls.foldl MemtableCall.perform table).Stores (calls.foldl MemtableCall.store stored) from
    (stores ⟨List.Perm.nil, rfl⟩).refines
  induction calls with
  | nil => exact id
  | cons call calls ih => exact fun stores => ih (stores.write call)

end KayaDB.Storage
