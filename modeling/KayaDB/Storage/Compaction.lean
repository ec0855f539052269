import KayaDB.Storage.Table

/-! What a compaction writes. All versions found in the input tables are put
together by key, newest first, and garbage collection decides which stay. -/

namespace KayaDB.Storage
open Raft (Bytes)
open Versions

/-- Which versions of a key a compaction keeps, given all it has found, newest
first: those from the watermark on and a newest one that is no deletion. -/
def selectVersionsForGc (versions : List SstEntry) (watermark : Nat) : List SstEntry :=
  match versions with
  | [] => []
  | first :: _ =>
    if first.value.isNone && decide (first.sequence < watermark) then []
    else (versions.zipIdx.filter fun (version, position) =>
      decide (watermark ≤ version.sequence) || (position == 0 && version.value.isSome)).map Prod.fst

/-- Of neighbours with the same number the first stays. -/
def dedupFrom (last : Nat) : List SstEntry → List SstEntry
  | [] => []
  | entry :: rest =>
    if entry.sequence = last then dedupFrom last rest else entry :: dedupFrom entry.sequence rest

def dedupBySeq : List SstEntry → List SstEntry
  | [] => []
  | entry :: rest => entry :: dedupFrom entry.sequence rest

def versionsOf (entries : List SstEntry) (key : Bytes) : List SstEntry :=
  dedupBySeq ((entries.filter fun entry => entry.key = key).insertionSort fun first second =>
    second.sequence ≤ first.sequence)

/-- The entries of the table a compaction of `entries` writes. -/
def outEntries (entries : List SstEntry) (watermark : Nat) : List SstEntry :=
  (SortedSet.ofList (entries.map Entry.key)).elems.flatMap fun key =>
    selectVersionsForGc (versionsOf entries key) watermark

variable {entry : SstEntry} {run : List SstEntry} {last : Nat}

theorem mem_dedupFrom (inside : entry ∈ dedupFrom last run) : entry ∈ run := by
  induction run generalizing last with
  | nil => exact absurd inside List.not_mem_nil
  | cons head tail ih =>
    unfold dedupFrom at inside
    split at inside
    · exact List.mem_cons_of_mem _ (ih inside)
    · rcases List.mem_cons.mp inside with rfl | inside
      · exact List.mem_cons_self
      · exact List.mem_cons_of_mem _ (ih inside)

theorem pairwise_dedupFrom (below : ∀ entry ∈ run, entry.sequence ≤ last)
    (sorted : run.Pairwise fun first second => second.sequence ≤ first.sequence) :
    (dedupFrom last run).Pairwise (fun first second => second.sequence < first.sequence) ∧
      ∀ entry ∈ dedupFrom last run, entry.sequence < last := by
  induction run generalizing last with
  | nil => exact ⟨List.Pairwise.nil, fun _ inside => absurd inside List.not_mem_nil⟩
  | cons head tail ih =>
    obtain ⟨first, rest⟩ := List.pairwise_cons.mp sorted
    unfold dedupFrom
    split
    next => exact ih (fun entry inside => below entry (List.mem_cons_of_mem _ inside)) rest
    next different =>
      obtain ⟨strict, smaller⟩ := ih first rest
      have less : head.sequence < last := lt_of_le_of_ne (below head List.mem_cons_self) different
      refine ⟨List.pairwise_cons.mpr ⟨smaller, strict⟩, fun entry inside => ?_⟩
      rcases List.mem_cons.mp inside with rfl | inside
      · exact less
      · exact (smaller entry inside).trans less

theorem dedupFrom_covers (inside : entry ∈ run) : ∀ last,
    entry.sequence = last ∨ ∃ kept ∈ dedupFrom last run, kept.sequence = entry.sequence := by
  induction run with
  | nil => exact absurd inside List.not_mem_nil
  | cons head tail ih =>
    intro last
    unfold dedupFrom
    split
    next same =>
      rcases List.mem_cons.mp inside with rfl | inside
      · exact Or.inl same
      · exact ih inside last
    next =>
      right
      rcases List.mem_cons.mp inside with rfl | inside
      · exact ⟨entry, List.mem_cons_self, rfl⟩
      · rcases ih inside head.sequence with same | ⟨kept, found, same⟩
        · exact ⟨head, List.mem_cons_self, same.symm⟩
        · exact ⟨kept, List.mem_cons_of_mem _ found, same⟩

theorem mem_dedupBySeq (inside : entry ∈ dedupBySeq run) : entry ∈ run := by
  cases run with
  | nil => exact inside
  | cons head tail =>
    rcases List.mem_cons.mp inside with rfl | inside
    · exact List.mem_cons_self
    · exact List.mem_cons_of_mem _ (mem_dedupFrom inside)

theorem dedupBySeq_covers (inside : entry ∈ run) : ∃ kept ∈ dedupBySeq run, kept.sequence = entry.sequence := by
  cases run with
  | nil => exact absurd inside List.not_mem_nil
  | cons head tail =>
    rcases List.mem_cons.mp inside with rfl | inside
    · exact ⟨entry, List.mem_cons_self, rfl⟩
    · rcases dedupFrom_covers inside head.sequence with same | ⟨kept, found, same⟩
      · exact ⟨head, List.mem_cons_self, same.symm⟩
      · exact ⟨kept, List.mem_cons_of_mem _ found, same⟩

section
variable {entries : List SstEntry} {key : Bytes} {entry : SstEntry} {watermark : Nat}

theorem mem_versionsOf (inside : entry ∈ versionsOf entries key) : entry ∈ entries ∧ entry.key = key := by
  simpa using (List.mem_insertionSort _).mp (mem_dedupBySeq inside)

theorem mem_versionsOf_iff (unique : Unique entries) :
    entry ∈ versionsOf entries key ↔ entry ∈ entries ∧ entry.key = key := by
  refine ⟨mem_versionsOf, fun held => ?_⟩
  have sorted : entry ∈ (entries.filter fun entry => entry.key = key).insertionSort fun first second =>
      second.sequence ≤ first.sequence := by
    simpa using held
  obtain ⟨kept, found, same⟩ := dedupBySeq_covers sorted
  have also := mem_versionsOf found
  rwa [← unique kept also.1 entry held.1 (also.2.trans held.2.symm) same]

theorem versionsOf_sorted (entries : List SstEntry) (key : Bytes) :
    (versionsOf entries key).Pairwise fun first second => second.sequence < first.sequence := by
  have total : Std.Total fun first second : SstEntry => second.sequence ≤ first.sequence :=
    ⟨fun first second => le_total second.sequence first.sequence⟩
  have trans : IsTrans SstEntry fun first second => second.sequence ≤ first.sequence :=
    ⟨fun _ _ _ one two => two.trans one⟩
  have sorted := List.pairwise_insertionSort (fun first second : SstEntry => second.sequence ≤ first.sequence)
    (entries.filter fun entry => entry.key = key)
  unfold versionsOf
  generalize (entries.filter fun entry => entry.key = key).insertionSort (fun first second =>
    second.sequence ≤ first.sequence) = run at sorted
  cases run with
  | nil => exact List.Pairwise.nil
  | cons head tail =>
    obtain ⟨first, rest⟩ := List.pairwise_cons.mp sorted
    obtain ⟨strict, smaller⟩ := pairwise_dedupFrom first rest
    exact List.pairwise_cons.mpr ⟨smaller, strict⟩

theorem filter_zipIdx (rest : List SstEntry) (watermark : Nat) : ∀ start, 0 < start →
    ((rest.zipIdx start).filter fun (version, position) =>
      decide (watermark ≤ version.sequence) || (position == 0 && version.value.isSome)).map Prod.fst =
      rest.filter fun version => watermark ≤ version.sequence := by
  induction rest with
  | nil => exact fun _ _ => rfl
  | cons head tail ih =>
    intro start later
    have other : (start == 0) = false := by simpa using later.ne'
    rw [List.zipIdx_cons, List.filter_cons, List.filter_cons]
    simp only [other, Bool.false_and, Bool.or_false]
    split
    · rw [List.map_cons, ih (start + 1) (Nat.succ_pos _)]
    · exact ih (start + 1) (Nat.succ_pos _)

theorem selectVersionsForGc_cons (first : SstEntry) (rest : List SstEntry) (watermark : Nat) :
    selectVersionsForGc (first :: rest) watermark =
      if first.value.isNone ∧ first.sequence < watermark then []
      else first :: rest.filter fun version => watermark ≤ version.sequence := by
  unfold selectVersionsForGc
  simp only [Bool.and_eq_true, decide_eq_true_eq]
  split
  next => rfl
  next kept =>
    have stays : (decide (watermark ≤ first.sequence) || first.value.isSome) = true := by
      cases value : first.value with
      | none => simpa [value] using kept
      | some => simp
    rw [List.zipIdx_cons, List.filter_cons_of_pos (by simpa using stays), List.map_cons,
      filter_zipIdx rest watermark _ (by decide)]

theorem selectVersionsForGc_sublist (versions : List SstEntry) (watermark : Nat) :
    (selectVersionsForGc versions watermark).Sublist versions := by
  cases versions with
  | nil => exact List.Sublist.refl _
  | cons first rest =>
    rw [selectVersionsForGc_cons]
    split
    · exact List.nil_sublist _
    · exact List.filter_sublist.cons_cons first

/-- A version below the watermark that is a deletion or has a newer one beside it. -/
def Obsolete (entries : List SstEntry) (watermark : Nat) (entry : SstEntry) : Prop :=
  entry.sequence < watermark ∧
    (entry.value = none ∨ ∃ newer ∈ entries, newer.key = entry.key ∧ entry.sequence < newer.sequence)

instance (entries : List SstEntry) (watermark : Nat) (entry : SstEntry) :
    Decidable (Obsolete entries watermark entry) :=
  inferInstanceAs (Decidable (entry.sequence < watermark ∧
    (entry.value = none ∨ ∃ newer ∈ entries, newer.key = entry.key ∧ entry.sequence < newer.sequence)))

theorem mem_selectVersionsForGc (unique : Unique entries) (held : entry ∈ entries) :
    entry ∈ selectVersionsForGc (versionsOf entries entry.key) watermark ↔ ¬ Obsolete entries watermark entry := by
  have inside := (mem_versionsOf_iff unique).mpr ⟨held, rfl⟩
  have sorted := versionsOf_sorted entries entry.key
  have others : ∀ version ∈ versionsOf entries entry.key, version ∈ entries ∧ version.key = entry.key :=
    fun version found => (mem_versionsOf_iff unique).mp found
  have complete : ∀ version ∈ entries, version.key = entry.key → version ∈ versionsOf entries entry.key :=
    fun version found same => (mem_versionsOf_iff unique).mpr ⟨found, same⟩
  generalize versionsOf entries entry.key = versions at inside sorted others complete
  cases versions with
  | nil => exact absurd inside List.not_mem_nil
  | cons first rest =>
    obtain ⟨top, -⟩ := List.pairwise_cons.mp sorted
    have newest : ∀ version ∈ entries, version.key = entry.key → version.sequence ≤ first.sequence := by
      intro version found same
      rcases List.mem_cons.mp (complete version found same) with rfl | later
      · exact le_rfl
      · exact (top version later).le
    obtain ⟨firstHeld, firstKey⟩ := others first List.mem_cons_self
    rw [selectVersionsForGc_cons]
    rcases List.mem_cons.mp inside with rfl | later
    · -- the newest version: only a deletion can be obsolete
      have alone : ¬ ∃ newer ∈ entries, newer.key = entry.key ∧ entry.sequence < newer.sequence := by
        rintro ⟨newer, found, same, more⟩
        exact absurd (newest newer found same) (Nat.not_le.mpr more)
      split
      next gone =>
        simp only [List.not_mem_nil, false_iff, not_not]
        exact ⟨gone.2, Or.inl (Option.isNone_iff_eq_none.mp gone.1)⟩
      next kept =>
        simp only [List.mem_cons_self, true_iff]
        rintro ⟨low, deleted | newer⟩
        · exact kept ⟨Option.isNone_iff_eq_none.mpr deleted, low⟩
        · exact alone newer
    · have newer : ∃ newer ∈ entries, newer.key = entry.key ∧ entry.sequence < newer.sequence :=
        ⟨first, firstHeld, firstKey, top entry later⟩
      have obsolete : Obsolete entries watermark entry ↔ entry.sequence < watermark :=
        ⟨fun gone => gone.1, fun low => ⟨low, Or.inr newer⟩⟩
      rw [obsolete, Nat.not_lt]
      split
      next gone =>
        have less := top entry later
        simp only [List.not_mem_nil, false_iff, Nat.not_le]
        omega
      next =>
        have other : entry ≠ first := by
          rintro rfl
          exact Nat.lt_irrefl _ (top entry later)
        simp [other, later]

theorem mem_outEntries (unique : Unique entries) :
    entry ∈ outEntries entries watermark ↔ entry ∈ entries ∧ ¬ Obsolete entries watermark entry := by
  unfold outEntries
  rw [List.mem_flatMap]
  constructor
  · rintro ⟨key, -, found⟩
    obtain ⟨held, rfl⟩ := mem_versionsOf ((selectVersionsForGc_sublist _ _).subset found)
    exact ⟨held, (mem_selectVersionsForGc unique held).mp found⟩
  · rintro ⟨held, kept⟩
    refine ⟨entry.key, ?_, (mem_selectVersionsForGc unique held).mpr kept⟩
    rw [← SortedSet.mem_def, SortedSet.mem_ofList]
    exact List.mem_map_of_mem held

theorem outEntries_covers (inside : entry ∈ entries) :
    ∃ kept ∈ outEntries entries 0, kept.key = entry.key ∧ kept.sequence = entry.sequence := by
  have all : ∀ versions : List SstEntry, selectVersionsForGc versions 0 = versions := by
    intro versions
    cases versions with
    | nil => rfl
    | cons first rest => simp [selectVersionsForGc_cons]
  have sorted : entry ∈ (entries.filter fun other => other.key = entry.key).insertionSort fun first second =>
      second.sequence ≤ first.sequence := by
    simpa using inside
  obtain ⟨kept, found, same⟩ := dedupBySeq_covers sorted
  have versions : kept ∈ versionsOf entries entry.key := found
  refine ⟨kept, List.mem_flatMap.mpr ⟨entry.key, ?_, (all _).symm ▸ versions⟩, (mem_versionsOf versions).2, same⟩
  rw [← SortedSet.mem_def, SortedSet.mem_ofList]
  exact List.mem_map_of_mem inside

theorem outEntries_subset (entries : List SstEntry) (watermark : Nat) : outEntries entries watermark ⊆ entries := by
  intro entry inside
  obtain ⟨key, -, found⟩ := List.mem_flatMap.mp inside
  exact (mem_versionsOf ((selectVersionsForGc_sublist _ _).subset found)).1

theorem outEntries_sorted (entries : List SstEntry) (watermark : Nat) :
    (outEntries entries watermark).Pairwise Before := by
  unfold outEntries
  have keyOf : ∀ {key : Bytes} {entry : SstEntry},
      entry ∈ selectVersionsForGc (versionsOf entries key) watermark → entry.key = key :=
    fun found => (mem_versionsOf ((selectVersionsForGc_sublist _ _).subset found)).2
  rw [List.pairwise_flatMap]
  constructor
  · intro key _
    have sorted := (versionsOf_sorted entries key).sublist (selectVersionsForGc_sublist _ watermark)
    exact sorted.imp_of_mem fun one two less => Or.inr ⟨(keyOf one).trans (keyOf two).symm, less⟩
  · refine (SortedSet.sorted _).imp fun less first one second two => Or.inl ?_
    rwa [keyOf one, keyOf two]

end
end KayaDB.Storage
