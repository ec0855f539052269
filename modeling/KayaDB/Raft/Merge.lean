import KayaDB.Raft.LogView

/-! Merging the entries of an append request. Entries are compared by term only;
when terms at one index imply equal logs up to it, the merge adopts the leader's
prefix and never disturbs anything else. -/

namespace KayaDB.Raft
open RaftNode

/-- Entries of equal term at one index mean equal logs up to that index. -/
def Matching (first second : List LogEntry) : Prop :=
  ∀ index left right, first[index]? = some left → second[index]? = some right → left.term = right.term →
    first.take (index + 1) = second.take (index + 1)

theorem Matching.of_take (book : List LogEntry) (count : Nat) : Matching (book.take count) book := by
  intro index left right found _ _
  have bound := (List.getElem?_eq_some_iff.mp found).1
  rw [List.length_take] at bound
  rw [List.take_take, Nat.min_eq_left (by omega)]

section
variable {log : MemLog} {own book : List LogEntry} {position : Nat} {entry : LogEntry}

private theorem take_succ_of_take (same : own.take position = book.take position)
    (found : book[position]? = some entry) : own.take position ++ [entry] = book.take (position + 1) := by
  rw [same, List.take_add_one, found]
  rfl

private theorem mergeEntry_replaces (views : Views log own) (same : own.take position = book.take position)
    (above : log.lastIncludedIndex < position + 1)
    (found : book[position]? = some entry)
    (differs : own[position]?.map LogEntry.term ≠ some entry.term) :
    Views (mergeEntry log (position + 1) entry) (book.take (position + 1)) := by
  have reported : log.termAt (position + 1) = own[position]?.map LogEntry.term :=
    views.term_at (Nat.succ_pos _) (Nat.le_of_lt above)
  rw [← take_succ_of_take same found, mergeEntry, reported]
  cases held : own[position]? with
  | none =>
    have short := List.getElem?_eq_none_iff.mp held
    rw [List.take_of_length_le short]
    exact views.append entry
  | some existing =>
    rw [held] at differs
    simp only [Option.map_some]
    rw [if_pos (by simpa using differs)]
    exact (views.truncate above).append entry

private theorem mergeEntry_skips (term : log.termAt (position + 1) = some entry.term) :
    mergeEntry log (position + 1) entry = log := by
  simp [mergeEntry, term]

theorem mergeEntry_lastIncludedIndex (log : MemLog) (index : Nat) (entry : LogEntry) :
    (mergeEntry log index entry).lastIncludedIndex = log.lastIncludedIndex := by
  unfold mergeEntry
  split
  · split <;> simp
  · simp

theorem mergeEntry_lastIncludedTerm (log : MemLog) (index : Nat) (entry : LogEntry) :
    (mergeEntry log index entry).lastIncludedTerm = log.lastIncludedTerm := by
  unfold mergeEntry
  split
  · split <;> simp
  · simp

theorem mergeEntries_lastIncludedIndex (entries : List LogEntry) :
    ∀ (log : MemLog) (index : Nat), (mergeEntries log index entries).lastIncludedIndex = log.lastIncludedIndex := by
  induction entries with
  | nil => exact fun _ _ => rfl
  | cons entry rest ih =>
    intro log index
    rw [mergeEntries, ih, mergeEntry_lastIncludedIndex]

/-- The merge adopts the leader's prefix of length `limit`, when the logs agree
where the entries start, the snapshot is part of the leader's log, and entries
it covers carry the term it reports for them. -/
theorem mergeEntries_views {limit : Nat} (short : limit ≤ book.length) (entries : List LogEntry) :
    ∀ (position : Nat) (log : MemLog) (own : List LogEntry), Views log own → Matching own book →
      position ≤ own.length → own.take position = book.take position → position ≤ limit →
      entries = (book.take limit).drop position → own.take log.lastIncludedIndex <+: book →
      (∀ offset entry, entries[offset]? = some entry → position + offset + 1 ≤ log.lastIncludedIndex →
        entry.term = log.lastIncludedTerm) →
      Views (mergeEntries log position entries) (adopt own (book.take limit)) := by
  induction entries with
  | nil =>
    intro position log own views matching reached same below slice shared covered
    have done : limit ≤ position := by
      have := congrArg List.length slice
      simp only [List.length_nil, List.length_drop, List.length_take] at this
      omega
    have equal : limit = position := Nat.le_antisymm done below
    subst equal
    rw [adopt_of_inside (same ▸ List.take_prefix _ _)]
    exact views
  | cons entry rest ih =>
    intro position log own views matching reached same below slice shared covered
    have found : (book.take limit)[position]? = some entry := by
      have := congrArg (fun list => list[0]?) slice
      simpa using this.symm
    have inside : position < limit := by
      have := (List.getElem?_eq_some_iff.mp found).1
      rw [List.length_take] at this
      omega
    rw [List.getElem?_take_of_lt inside] at found
    have slice' : rest = (book.take limit).drop (position + 1) := by
      have := congrArg List.tail slice
      simpa [List.tail_drop] using this
    have covered' : ∀ offset later, rest[offset]? = some later →
        position + 1 + offset + 1 ≤ log.lastIncludedIndex → later.term = log.lastIncludedTerm :=
      fun offset later present bound => covered (offset + 1) later (by simpa using present) (by omega)
    rw [mergeEntries]
    rcases Nat.lt_or_ge position log.lastIncludedIndex with old | above
    · have term : log.termAt (position + 1) = some entry.term := by
        rw [covered 0 entry rfl (by omega), MemLog.termAt, if_neg (by omega), if_pos (by omega)]
      have agree : own.take (position + 1) = book.take (position + 1) := by
        have settled := ((List.take_prefix_iff views.within).mp shared).2
        have := congrArg (List.take (position + 1)) settled.symm
        rwa [List.take_take, List.take_take, Nat.min_eq_left (by omega)] at this
      rw [mergeEntry_skips term]
      have := views.within
      exact ih (position + 1) log own views matching (by omega) agree inside slice' shared covered'
    · by_cases skip : own[position]?.map LogEntry.term = some entry.term
      · obtain ⟨existing, held, term⟩ := Option.map_eq_some_iff.mp skip
        have agree := matching position existing entry held found term
        have longer := (List.getElem?_eq_some_iff.mp held).1
        rw [mergeEntry_skips (by rw [views.term_at (Nat.succ_pos _) (by omega)]; exact skip)]
        exact ih (position + 1) log own views matching longer agree inside slice' shared covered'
      · have replaced := mergeEntry_replaces views same (by omega) found skip
        have outside : ¬ book.take limit <+: own := by
          intro held
          obtain ⟨rest, whole⟩ := held
          apply skip
          rw [← whole, List.getElem?_append_left (by rw [List.length_take]; omega),
            List.getElem?_take_of_lt inside, found]
          rfl
        have part : book.take (position + 1) <+: book.take limit := List.take_prefix_take_left inside
        have merged := ih (position + 1) _ _ replaced (Matching.of_take book _)
          (by rw [List.length_take]; omega) (by rw [List.take_take, Nat.min_self]) inside slice'
          (by rw [mergeEntry_lastIncludedIndex]; exact (List.take_prefix _ _).trans (List.take_prefix _ _))
          (by rw [mergeEntry_lastIncludedIndex, mergeEntry_lastIncludedTerm]; exact covered')
        rw [adopt_of_longer part] at merged
        rw [adopt_of_outside outside]
        exact merged

end
end KayaDB.Raft
