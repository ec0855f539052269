import KayaDB.Library.MergeWindow
import KayaDB.Raft.Log

/-! Sorted runs of versions: the memtable and the tables on disk. A table is
modelled by its entries in file order; blocks, block index, bloom filter and
compression, which serve to find them faster, are left out. -/

namespace KayaDB.Storage
open Raft (Bytes)
open Versions

instance linearOrderUInt8 : LinearOrder UInt8 where
  le_refl := UInt8.le_refl
  le_trans _ _ _ := UInt8.le_trans
  lt_iff_le_not_ge first second := by
    rw [UInt8.lt_iff_toNat_lt, UInt8.le_iff_toNat_le, UInt8.le_iff_toNat_le]
    omega
  le_antisymm _ _ := UInt8.le_antisymm
  le_total := UInt8.le_total
  toDecidableLE := inferInstance
  toDecidableLT := inferInstance
  min_def _ _ := rfl
  max_def _ _ := rfl

/-- One version of a key; no value stands for a deletion. -/
abbrev SstEntry := Entry Bytes (Option Bytes)

def Under (front : Bytes) (entry : SstEntry) : Prop := front <+: entry.key

instance (front : Bytes) : DecidablePred (Under front) := fun entry =>
  inferInstanceAs (Decidable (front <+: entry.key))

structure Memtable where
  entries : List SstEntry
  sorted : entries.Pairwise Before
deriving DecidableEq

namespace Memtable
variable (table : Memtable)

def new : Memtable := ⟨[], List.Pairwise.nil⟩

def insert (entry : SstEntry) : Memtable :=
  ⟨insertEntry entry table.entries, pairwise_insertEntry entry table.sorted⟩

def put (key value : Bytes) (sequence : Nat) : Memtable := table.insert ⟨key, sequence, some value⟩

def delete (key : Bytes) (sequence : Nat) : Memtable := table.insert ⟨key, sequence, none⟩

/-- Seek to the first version not newer than `readTs` and see whether it is one
of the key. -/
def getAt (key : Bytes) (readTs : Nat) : Option SstEntry :=
  (table.entries.find? fun entry => ¬ Before entry ⟨key, readTs, none⟩).filter fun entry => entry.key = key

/-- All versions of the keys that start with `front`. The seek position is the
earliest any version of the key `front` can have. -/
def rawScanPrefix (front : Bytes) : List SstEntry :=
  if front.isEmpty then table.entries
  else (table.entries.dropWhile fun entry => entry.key < front).takeWhile fun entry => Under front entry

def commitTsLen : Nat := 8

def entrySize (entry : SstEntry) : Nat := entry.key.length + commitTsLen + (entry.value.map List.length).getD 0

def approximateBytes : Nat := (table.entries.map entrySize).sum

def isEmpty (table : Memtable) : Bool := table.entries.isEmpty

theorem getAt_eq_newest (key : Bytes) (readTs : Nat) :
    table.getAt key readTs = newest table.entries key readTs := by
  unfold getAt
  rw [← find_eq_newest table.sorted]
  have sorted := table.sorted
  generalize table.entries = run at sorted
  induction run with
  | nil => rfl
  | cons head tail ih =>
    obtain ⟨first, rest⟩ := List.pairwise_cons.mp sorted
    by_cases early : Before head ⟨key, readTs, none⟩
    · have unseen : ¬ Visible key readTs head := by
        rintro ⟨rfl, seen⟩
        rcases early with less | ⟨-, newer⟩
        · exact lt_irrefl _ less
        · exact absurd newer (Nat.not_lt.mpr seen)
      simpa [List.find?_cons, early, unseen] using ih rest
    · by_cases same : head.key = key
      · have seen : Visible key readTs head := by
          refine ⟨same, Nat.not_lt.mp fun newer => early (Or.inr ⟨same, newer⟩)⟩
        simp [early, seen, same]
      · -- the seek lands behind all versions of the key
        have beyond : key < head.key := by
          rcases lt_trichotomy head.key key with less | equal | more
          · exact absurd (Or.inl less) early
          · exact absurd equal same
          · exact more
        have unseen : tail.find? (fun entry => decide (Visible key readTs entry)) = none := by
          refine List.find?_eq_none.mpr fun entry inside seen => ?_
          rcases first entry inside with less | ⟨equal, -⟩
          · exact lt_asymm beyond ((of_decide_eq_true seen).1 ▸ less)
          · exact beyond.ne' (equal.trans (of_decide_eq_true seen).1)
        have hidden : ¬ Visible key readTs head := fun seen => same seen.1
        simp [early, same, hidden, unseen]

end Memtable

variable {entry : SstEntry} {front : Bytes} {run : List SstEntry}

theorem not_under_of_before {later : SstEntry} (past : ¬ entry.key < front) (other : ¬ Under front entry)
    (before : Before entry later) : ¬ Under front later := by
  refine fun starts => other (isPrefix_of_between past ?_ starts)
  rcases before with less | ⟨same, -⟩
  · exact lt_asymm less
  · exact same ▸ lt_irrefl _

theorem Memtable.rawScanPrefix_eq (table : Memtable) (front : Bytes) :
    table.rawScanPrefix front = table.entries.filter fun entry => Under front entry := by
  unfold Memtable.rawScanPrefix
  split
  next empty =>
    refine (List.filter_eq_self.mpr fun entry _ => ?_).symm
    simp [List.isEmpty_iff.mp empty, Under]
  next =>
    have passed : table.entries.dropWhile (fun entry => entry.key < front) =
        table.entries.filter fun entry => !decide (entry.key < front) := by
      refine (cut_eq_filter (table.sorted.imp fun before small => ?_)).2
      exact decide_eq_true (lt_of_le_of_lt before.key_le (of_decide_eq_true small))
    rw [passed, (cut_eq_filter _).1, List.filter_filter]
    · refine List.filter_congr fun entry _ => ?_
      by_cases starts : Under front entry
      · simp [starts, not_lt_of_isPrefix starts]
      · simp [starts]
    · refine (table.sorted.filter _).imp_of_mem fun {first second} inside _ before starts => ?_
      have past := (List.mem_filter.mp inside).2
      simp only [Bool.not_eq_true', decide_eq_false_iff_not, decide_eq_true_eq] at past starts ⊢
      by_contra other
      exact not_under_of_before past other before starts

theorem Memtable.mem_rawScanPrefix (table : Memtable) (front : Bytes) (entry : SstEntry) :
    entry ∈ table.rawScanPrefix front ↔ entry ∈ table.entries ∧ Under front entry := by
  rw [table.rawScanPrefix_eq, List.mem_filter, decide_eq_true_eq]

/-- What the manifest keeps of a table, as far as compaction looks at it. -/
structure TableMetadata where
  tableId : Nat
  level : Nat
  fileSize : Nat
deriving DecidableEq, Repr

structure Sstable where
  metadata : TableMetadata
  entries : List SstEntry
  sorted : entries.Pairwise Before
deriving DecidableEq

namespace Sstable

/-- Skip smaller keys, give up behind the key, and stop at the first of its
versions that is not too new. -/
def seek (key : Bytes) (readTs : Nat) : List SstEntry → Option SstEntry
  | [] => none
  | entry :: rest =>
    if entry.key < key then seek key readTs rest
    else if key < entry.key then none
    else if entry.sequence ≤ readTs then some entry
    else seek key readTs rest

def getAt (table : Sstable) (key : Bytes) (readTs : Nat) : Option SstEntry := seek key readTs table.entries

/-- One version for each key that starts with `front`: the first that is not too
new. The key at hand and whether it has got its version are carried along. -/
def scanFrom (front : Bytes) (readTs : Nat) : Option Bytes → Bool → List SstEntry → List SstEntry
  | _, _, [] => []
  | current, selected, entry :: rest =>
    if !front.isEmpty && !decide (Under front entry) then
      if entry.key < front then scanFrom front readTs current selected rest else []
    else
      let selected := if current = some entry.key then selected else false
      if selected then scanFrom front readTs (some entry.key) true rest
      else if entry.sequence ≤ readTs then entry :: scanFrom front readTs (some entry.key) true rest
      else scanFrom front readTs (some entry.key) false rest

def scanPrefixAt (table : Sstable) (front : Bytes) (readTs : Nat) : List SstEntry :=
  scanFrom front readTs none false table.entries

theorem getAt_eq_newest (table : Sstable) (key : Bytes) (readTs : Nat) :
    table.getAt key readTs = newest table.entries key readTs := by
  unfold getAt
  rw [← find_eq_newest table.sorted]
  have sorted := table.sorted
  generalize table.entries = run at sorted
  induction run with
  | nil => rfl
  | cons head tail ih =>
    obtain ⟨first, rest⟩ := List.pairwise_cons.mp sorted
    unfold seek
    split
    next less =>
      have unseen : ¬ Visible key readTs head := fun seen => less.ne seen.1
      simpa [List.find?_cons, unseen] using ih rest
    next =>
      split
      next more =>
        have unseen : ¬ Visible key readTs head := fun seen => more.ne' seen.1
        refine Eq.symm (List.find?_eq_none.mpr fun entry inside seen => ?_)
        rcases List.mem_cons.mp inside with rfl | inside
        · exact unseen (of_decide_eq_true seen)
        · rcases first entry inside with less | ⟨equal, -⟩
          · exact lt_asymm more ((of_decide_eq_true seen).1 ▸ less)
          · exact more.ne' (equal.trans (of_decide_eq_true seen).1)
      next low high =>
        have same : head.key = key := le_antisymm (not_lt.mp high) (not_lt.mp low)
        split
        next old => simp [Visible, same, old]
        next recent => simpa [List.find?_cons, Visible, same, recent] using ih rest

variable {run : List SstEntry} {entry : SstEntry} {readTs : Nat} {front : Bytes}

theorem scanFrom_eq (sorted : run.Pairwise Before) : ∀ {current selected},
    (∀ key ∈ current, ∀ entry ∈ run, key ≤ entry.key) → scanFrom front readTs current selected run =
      heads (if selected then current else none) (run.filter fun entry => Under front entry ∧ entry.sequence ≤ readTs) := by
  induction run with
  | nil => exact fun _ => rfl
  | cons head tail ih =>
    intro current selected low
    obtain ⟨first, rest⟩ := List.pairwise_cons.mp sorted
    have next : ∀ selected, scanFrom front readTs (some head.key) selected tail =
        heads (if selected then some head.key else none)
          (tail.filter fun entry => Under front entry ∧ entry.sequence ≤ readTs) := by
      refine fun selected => ih rest fun key known entry inside => ?_
      cases known
      exact (first entry inside).key_le
    rw [scanFrom]
    split
    next out =>
      have other : ¬ Under front head := by
        rw [Bool.and_eq_true, Bool.not_eq_true', Bool.not_eq_true', decide_eq_false_iff_not] at out
        exact out.2
      rw [List.filter_cons_of_neg (by simp [other])]
      split
      next => exact ih rest fun key known entry inside => low key known entry (List.mem_cons_of_mem _ inside)
      next past =>
        rw [List.filter_eq_nil_iff.mpr]
        · rfl
        · intro entry inside seen
          exact not_under_of_before past other (first entry inside) (of_decide_eq_true seen).1
    next inner =>
      have starts : Under front head := by
        cases front with
        | nil => exact List.nil_prefix
        | cons => simpa using inner
      dsimp only
      by_cases same : current = some head.key
      · rw [if_pos same, same]
        cases selected <;> by_cases old : head.sequence ≤ readTs <;> simp [heads, next, starts, old]
      · have apart : (if selected then current else none) ≠ some head.key := by cases selected <;> simp [same]
        rw [if_neg same, if_neg (by decide)]
        split
        next old => rw [List.filter_cons_of_pos (by simp [starts, old]), heads, if_neg apart, next, if_pos rfl]
        next recent =>
          rw [List.filter_cons_of_neg (by simp [recent]), next, if_neg (by decide)]
          -- No version of the key before was passed over.
          cases selected with
          | false => rfl
          | true =>
            cases current with
            | none => rfl
            | some key =>
              refine (heads_of_ne fun entry inside equal => same (congrArg some ?_)).symm
              have above := (first entry (List.mem_filter.mp inside).1).key_le
              exact le_antisymm (low key rfl head List.mem_cons_self) (equal ▸ above)

theorem mem_scanFrom (sorted : run.Pairwise Before) : entry ∈ scanFrom front readTs none false run ↔
    Under front entry ∧ IsNewest run entry.key readTs entry := by
  rw [scanFrom_eq sorted (by simp), mem_heads (sorted.filter _) (by simp)]
  simp only [List.mem_filter, decide_eq_true_eq]
  constructor
  · rintro ⟨-, ⟨inside, starts, seen⟩, greatest⟩
    refine ⟨starts, inside, ⟨rfl, seen⟩, fun other member visible => ?_⟩
    have also : Under front other := show front <+: other.key from visible.1 ▸ starts
    exact greatest other ⟨member, also, visible.2⟩ visible.1
  · rintro ⟨starts, top⟩
    exact ⟨by simp, ⟨top.mem, starts, top.visible.2⟩, fun other inside same =>
      top.greatest other inside.1 ⟨same, inside.2.2⟩⟩

end Sstable
end KayaDB.Storage
