import KayaDB.Library.SortedSet
import KayaDB.Library.Versions

/-! Merging entries into one row per key, the newest one, in key order. A merge
that never holds more than `bound` rows and drops the last key when it has one
too many ends with the first `bound` rows of the full merge. -/

namespace Versions
variable {κ β : Type*} [LinearOrder κ] {entry other : Entry κ β} {rows entries more : List (Entry κ β)} {bound : Nat}

/-- An entry takes its place among the rows unless a newer one holds it. -/
def upsert (entry : Entry κ β) : List (Entry κ β) → List (Entry κ β)
  | [] => [entry]
  | row :: rows =>
    if entry.key < row.key then entry :: row :: rows
    else if row.key < entry.key then row :: upsert entry rows
    else if entry.sequence ≤ row.sequence then row :: rows
    else entry :: rows

def absorb (bound : Nat) (rows : List (Entry κ β)) (entry : Entry κ β) : List (Entry κ β) :=
  if bound < (upsert entry rows).length then (upsert entry rows).dropLast else upsert entry rows

def merge (entries : List (Entry κ β)) : List (Entry κ β) := entries.foldl (fun rows entry => upsert entry rows) []

def Rows (rows : List (Entry κ β)) : Prop := rows.Pairwise fun first second => first.key < second.key

theorem length_upsert_le (entry : Entry κ β) (rows : List (Entry κ β)) :
    (upsert entry rows).length ≤ rows.length + 1 := by
  induction rows with
  | nil => exact le_rfl
  | cons row rows ih =>
    unfold upsert
    split
    · simp
    · split
      · simpa using ih
      · split <;> simp

theorem absorb_eq (short : rows.length ≤ bound) : absorb bound rows entry = (upsert entry rows).take bound := by
  have grown := length_upsert_le entry rows
  unfold absorb
  split
  next long =>
    rw [List.dropLast_eq_take]
    congr 1
    omega
  next fits => rw [List.take_of_length_le (by omega)]

/-- What lies beyond the bound never comes back into the window. -/
theorem take_upsert_take (entry : Entry κ β) (rows : List (Entry κ β)) :
    ∀ bound, (upsert entry (rows.take bound)).take bound = (upsert entry rows).take bound := by
  induction rows with
  | nil => simp
  | cons row rows ih =>
    intro bound
    cases bound with
    | zero => rfl
    | succ bound =>
      rw [List.take_succ_cons]
      simp only [upsert]
      split
      · cases bound <;> simp [List.take_take]
      · split
        · simp [ih]
        · split <;> simp [List.take_take]

theorem foldl_absorb (entries : List (Entry κ β)) (bound : Nat) : ∀ rows : List (Entry κ β),
    entries.foldl (absorb bound) (rows.take bound) =
      (entries.foldl (fun rows entry => upsert entry rows) rows).take bound := by
  induction entries with
  | nil => exact fun _ => rfl
  | cons entry entries ih =>
    intro rows
    rw [List.foldl_cons, List.foldl_cons, absorb_eq (List.length_take_le _ _), take_upsert_take, ih]

theorem merge_window (entries : List (Entry κ β)) (bound : Nat) :
    entries.foldl (absorb bound) [] = (merge entries).take bound := by
  have whole := foldl_absorb entries bound []
  rwa [List.take_nil] at whole

theorem mem_upsert (inside : other ∈ upsert entry rows) : other = entry ∨ other ∈ rows := by
  induction rows with
  | nil => exact Or.inl (List.mem_singleton.mp inside)
  | cons row rows ih =>
    unfold upsert at inside
    split at inside
    · exact List.mem_cons.mp inside
    · split at inside
      · rcases List.mem_cons.mp inside with rfl | inside
        · exact Or.inr List.mem_cons_self
        · exact (ih inside).imp_right (List.mem_cons_of_mem _)
      · split at inside
        · exact Or.inr inside
        · exact (List.mem_cons.mp inside).imp_right (List.mem_cons_of_mem _)

theorem Rows.upsert (sorted : Rows rows) : Rows (upsert entry rows) := by
  induction rows with
  | nil => exact List.pairwise_singleton _ _
  | cons row rows ih =>
    obtain ⟨first, rest⟩ := List.pairwise_cons.mp sorted
    unfold Versions.upsert
    split
    next less =>
      refine List.pairwise_cons.mpr ⟨fun other inside => ?_, sorted⟩
      rcases List.mem_cons.mp inside with rfl | inside
      · exact less
      · exact less.trans (first other inside)
    next above =>
      split
      next less =>
        refine List.pairwise_cons.mpr ⟨fun other inside => ?_, ih rest⟩
        rcases mem_upsert inside with rfl | inside
        · exact less
        · exact first other inside
      next below =>
        have same : row.key = entry.key := le_antisymm (not_lt.mp above) (not_lt.mp below)
        split
        · exact sorted
        · exact List.pairwise_cons.mpr ⟨fun other inside => same ▸ first other inside, rest⟩

theorem upsert_covers (entry : Entry κ β) (rows : List (Entry κ β)) :
    ∃ row ∈ upsert entry rows, row.key = entry.key ∧ entry.sequence ≤ row.sequence := by
  induction rows with
  | nil => exact ⟨entry, List.mem_singleton_self _, rfl, le_rfl⟩
  | cons row rows ih =>
    unfold upsert
    split
    · exact ⟨entry, List.mem_cons_self, rfl, le_rfl⟩
    next above =>
      split
      · obtain ⟨found, inside, same⟩ := ih
        exact ⟨found, List.mem_cons_of_mem _ inside, same⟩
      next below =>
        split
        next newer => exact ⟨row, List.mem_cons_self, le_antisymm (not_lt.mp above) (not_lt.mp below), newer⟩
        · exact ⟨entry, List.mem_cons_self, rfl, le_rfl⟩

theorem upsert_keeps (entry : Entry κ β) (inside : other ∈ rows) :
    ∃ row ∈ upsert entry rows, row.key = other.key ∧ other.sequence ≤ row.sequence := by
  induction rows with
  | nil => exact absurd inside List.not_mem_nil
  | cons row rows ih =>
    unfold upsert
    split
    · exact ⟨other, List.mem_cons_of_mem _ inside, rfl, le_rfl⟩
    next above =>
      split
      · rcases List.mem_cons.mp inside with rfl | inside
        · exact ⟨other, List.mem_cons_self, rfl, le_rfl⟩
        · obtain ⟨found, member, same⟩ := ih inside
          exact ⟨found, List.mem_cons_of_mem _ member, same⟩
      next below =>
        split
        · exact ⟨other, inside, rfl, le_rfl⟩
        next older =>
          rcases List.mem_cons.mp inside with rfl | inside
          · refine ⟨entry, List.mem_cons_self, ?_, (not_le.mp older).le⟩
            exact le_antisymm (not_lt.mp below) (not_lt.mp above)
          · exact ⟨other, List.mem_cons_of_mem _ inside, rfl, le_rfl⟩

/-- The rows of a merge: for each key the newest of its entries. -/
structure Merged (entries rows : List (Entry κ β)) : Prop where
  sorted : Rows rows
  mem : ∀ row ∈ rows, row ∈ entries
  covers : ∀ entry ∈ entries, ∃ row ∈ rows, row.key = entry.key ∧ entry.sequence ≤ row.sequence

theorem Merged.step (merged : Merged entries rows) (entry : Entry κ β) :
    Merged (entries ++ [entry]) (upsert entry rows) := by
  refine ⟨merged.sorted.upsert, fun row inside => ?_, fun other inside => ?_⟩
  · rcases mem_upsert inside with rfl | inside
    · simp
    · exact List.mem_append_left _ (merged.mem row inside)
  · rcases List.mem_append.mp inside with old | new
    · obtain ⟨row, held, same, newer⟩ := merged.covers other old
      obtain ⟨found, member, equal, later⟩ := upsert_keeps entry held
      exact ⟨found, member, equal.trans same, newer.trans later⟩
    · cases List.mem_singleton.mp new
      exact upsert_covers entry rows

theorem Merged.foldl (merged : Merged entries rows) (more : List (Entry κ β)) :
    Merged (entries ++ more) (more.foldl (fun rows entry => Versions.upsert entry rows) rows) := by
  induction more generalizing entries rows with
  | nil => simpa using merged
  | cons entry more ih => simpa using ih (merged.step entry)

theorem merged_merge (entries : List (Entry κ β)) : Merged entries (merge entries) := by
  have blank : Merged ([] : List (Entry κ β)) [] :=
    ⟨List.Pairwise.nil, fun _ inside => inside, fun _ inside => absurd inside List.not_mem_nil⟩
  exact blank.foldl entries

theorem Rows.key_unique (sorted : Rows rows) (one : entry ∈ rows) (two : other ∈ rows) (same : entry.key = other.key) :
    entry = other := by
  have apart : (rows.map Entry.key).Nodup := (List.pairwise_map.mpr sorted).imp ne_of_lt
  exact List.inj_on_of_nodup_map apart one two same

theorem Merged.greatest (merged : Merged entries rows) (row : entry ∈ rows) (inside : other ∈ entries)
    (same : other.key = entry.key) : other.sequence ≤ entry.sequence := by
  obtain ⟨found, member, equal, newer⟩ := merged.covers other inside
  rwa [merged.sorted.key_unique member row (equal.trans same)] at newer

theorem Merged.keys (merged : Merged entries rows) :
    rows.map Entry.key = (SortedSet.ofList (entries.map Entry.key)).elems := by
  have sorted : (rows.map Entry.key).Pairwise (· < ·) := List.pairwise_map.mpr merged.sorted
  refine List.Pairwise.eq_of_mem_iff sorted (SortedSet.sorted _) fun key => ?_
  rw [← SortedSet.mem_def, SortedSet.mem_ofList, List.mem_map, List.mem_map]
  constructor
  · rintro ⟨row, inside, rfl⟩
    exact ⟨row, merged.mem row inside, rfl⟩
  · rintro ⟨entry, inside, rfl⟩
    obtain ⟨row, found, same, -⟩ := merged.covers entry inside
    exact ⟨row, found, same⟩

/-- Later entries of a key are passed over; `last` is the key at hand. -/
def heads (last : Option κ) : List (Entry κ β) → List (Entry κ β)
  | [] => []
  | entry :: rest => if last = some entry.key then heads last rest else entry :: heads (some entry.key) rest

variable {last : Option κ}

theorem heads_of_ne {key : κ} (other : ∀ entry ∈ entries, entry.key ≠ key) :
    heads (some key) entries = heads none entries := by
  cases entries with
  | nil => rfl
  | cons head tail =>
    have apart : key ≠ head.key := (other head List.mem_cons_self).symm
    simp [heads, apart]

theorem Before.key_le (before : Before entry other) : entry.key ≤ other.key := by
  rcases before with less | ⟨same, -⟩
  · exact less.le
  · exact same.le

theorem mem_heads (sorted : entries.Pairwise Before) (low : ∀ key ∈ last, ∀ entry ∈ entries, key ≤ entry.key) :
    entry ∈ heads last entries ↔ last ≠ some entry.key ∧ entry ∈ entries ∧
      ∀ other ∈ entries, other.key = entry.key → other.sequence ≤ entry.sequence := by
  induction entries generalizing last with
  | nil => simp [heads]
  | cons head tail ih =>
    obtain ⟨first, rest⟩ := List.pairwise_cons.mp sorted
    rw [heads]
    split
    next skipped =>
      rw [ih rest fun key known other inside => low key known other (List.mem_cons_of_mem _ inside)]
      refine and_congr_right fun new => ?_
      have apart : head.key ≠ entry.key := fun same => new (same ▸ skipped)
      have other : entry ≠ head := fun same => apart (congrArg Entry.key same).symm
      simp [apart, other]
    next fresh =>
      rw [List.mem_cons, ih rest fun key known other inside => by cases known; exact (first other inside).key_le]
      constructor
      · rintro (rfl | ⟨apart, inside, greatest⟩)
        · refine ⟨fresh, List.mem_cons_self, List.forall_mem_cons.mpr ⟨fun _ => le_rfl, fun other inside same => ?_⟩⟩
          rcases first other inside with less | ⟨-, newer⟩
          · exact absurd same less.ne'
          · exact newer.le
        · have apart : head.key ≠ entry.key := fun same => apart (congrArg some same)
          refine ⟨fun known => ?_, List.mem_cons_of_mem _ inside,
            List.forall_mem_cons.mpr ⟨fun same => absurd same apart, greatest⟩⟩
          have below := low entry.key known head List.mem_cons_self
          exact apart (le_antisymm (first entry inside).key_le below)
      · rintro ⟨new, inside, greatest⟩
        obtain ⟨own, greatest⟩ := List.forall_mem_cons.mp greatest
        rcases List.mem_cons.mp inside with same | inside
        · exact Or.inl same
        · refine Or.inr ⟨fun same => ?_, inside, greatest⟩
          have same := Option.some.inj same
          rcases first entry inside with less | ⟨-, newer⟩
          · exact less.ne same
          · exact absurd (own same) (Nat.not_le.mpr newer)

theorem rows_heads (sorted : entries.Pairwise Before) : Rows (heads last entries) := by
  induction entries generalizing last with
  | nil => exact List.Pairwise.nil
  | cons head tail ih =>
    obtain ⟨first, rest⟩ := List.pairwise_cons.mp sorted
    rw [heads]
    split
    next => exact ih rest
    next =>
      refine List.pairwise_cons.mpr ⟨fun other found => ?_, ih rest⟩
      have low : ∀ key ∈ some head.key, ∀ entry ∈ tail, key ≤ entry.key := by
        intro key known entry inside
        cases known
        exact (first entry inside).key_le
      obtain ⟨apart, inside, -⟩ := (mem_heads rest low).mp found
      exact lt_of_le_of_ne (first other inside).key_le fun same => apart (congrArg some same)

end Versions
