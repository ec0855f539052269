import KayaDB.Raft.Cluster
import KayaDB.Library.ReplicationSteps

/-! What a compacted log stands for. A log views a list of entries when its stored
entries are the tail of the list and its snapshot covers the rest under the true last
term. -/

namespace KayaDB.Raft

instance : Stamped LogEntry := ⟨LogEntry.term⟩

structure Views (log : MemLog) (full : List LogEntry) : Prop where
  within : log.lastIncludedIndex ≤ full.length
  tail : log.entries = full.drop log.lastIncludedIndex
  fresh : log.lastIncludedIndex = 0 → log.lastIncludedTerm = 0
  stamp : 0 < log.lastIncludedIndex →
    full[log.lastIncludedIndex - 1]?.map LogEntry.term = some log.lastIncludedTerm
  stored : 0 < log.lastIncludedIndex → log.snapshot.isSome

namespace Views
variable {log : MemLog} {full : List LogEntry}
  {index upToIndex upToTerm : Nat} {data : Bytes}

theorem new : Views .new [] :=
  ⟨Nat.le_refl _, rfl, fun _ => rfl, fun positive => absurd positive (Nat.lt_irrefl _),
    fun positive => absurd positive (Nat.lt_irrefl _)⟩

section
variable (views : Views log full)
include views

theorem last_index : log.lastIndex = full.length := by
  have := views.within
  rw [MemLog.lastIndex_eq, views.tail, List.length_drop]
  omega

theorem whole {base : List LogEntry} (same : base.take log.lastIncludedIndex = full.take log.lastIncludedIndex) :
    Cluster.wholeLog base log = full := by
  rw [Cluster.wholeLog, same, views.tail, List.take_append_drop]

theorem entries_getElem? (above : log.lastIncludedIndex < index) :
    log.entries[index - log.lastIncludedIndex - 1]? = full[index - 1]? := by
  rw [views.tail, List.getElem?_drop]
  congr 1
  omega

theorem term_at (positive : 0 < index) (above : log.lastIncludedIndex ≤ index) :
    log.termAt index = full[index - 1]?.map LogEntry.term := by
  rw [MemLog.termAt, if_neg (by omega)]
  split
  next covered =>
    have edge : log.lastIncludedIndex = index := by omega
    rw [← views.stamp (by omega), edge]
  next outside => rw [views.entries_getElem? (by omega)]

theorem get_eq (above : log.lastIncludedIndex < index) : log.get index = full[index - 1]? := by
  rw [MemLog.get, if_neg (by omega), views.entries_getElem? above]

theorem of_get {entry : LogEntry} (found : log.get index = some entry) :
    0 < index ∧ full[index - 1]? = some entry := by
  have above : log.lastIncludedIndex < index := by
    by_contra below
    rw [MemLog.get, if_pos (by omega)] at found
    cases found
  rw [views.get_eq above] at found
  exact ⟨by omega, found⟩

theorem entries_from (above : log.lastIncludedIndex < index) : log.entriesFrom index = full.drop (index - 1) := by
  rw [MemLog.entriesFrom, if_neg (by omega)]
  have bound := views.within
  split
  next short =>
    rw [views.tail, List.length_drop] at short
    exact (List.drop_eq_nil_of_le (by omega)).symm
  next =>
    rw [views.tail, List.drop_drop]
    congr 1
    omega

theorem last_term : log.lastTerm = lastTerm full := by
  rw [MemLog.lastTerm, lastTerm, views.tail, List.getLast?_drop]
  split
  next covered =>
    have edge : log.lastIncludedIndex = full.length := Nat.le_antisymm views.within covered
    rcases Nat.eq_zero_or_pos full.length with empty | positive
    · rw [List.length_eq_zero_iff.mp empty, views.fresh (by omega)]
      rfl
    · have stamp := views.stamp (by omega)
      rw [edge] at stamp
      rw [List.getLast?_eq_getElem?]
      change log.lastIncludedTerm = ((full[full.length - 1]?).map LogEntry.term).getD 0
      rw [stamp]
      rfl
  next stored =>
    have present : full.getLast?.isSome := by
      rw [List.getLast?_isSome]
      rintro rfl
      exact stored (Nat.zero_le _)
    obtain ⟨last, found⟩ := Option.isSome_iff_exists.mp present
    rw [found]
    rfl

theorem append (entry : LogEntry) : Views (log.append entry) (full ++ [entry]) := by
  have bound := views.within
  refine ⟨?_, ?_, views.fresh, fun positive => ?_, views.stored⟩
  · rw [MemLog.append_lastIncludedIndex, List.length_append]
    omega
  · rw [MemLog.append_entries, MemLog.append_lastIncludedIndex, List.drop_append_of_le_length bound, views.tail]
  · rw [MemLog.append_lastIncludedIndex] at positive ⊢
    rw [List.getElem?_append_left (by omega)]
    exact views.stamp positive

theorem truncate (above : log.lastIncludedIndex < index) :
    Views (log.truncateFrom index) (full.take (index - 1)) := by
  have bound := views.within
  have length : log.entries.length = full.length - log.lastIncludedIndex := by rw [views.tail, List.length_drop]
  have kept : (log.truncateFrom index).entries = (full.take (index - 1)).drop log.lastIncludedIndex := by
    rw [MemLog.truncateFrom, if_neg (by omega), if_neg (by omega), List.drop_take]
    split
    next => rw [views.tail, Nat.sub_right_comm]
    next beyond =>
      rw [views.tail, List.take_of_length_le]
      rw [List.length_drop, ← length, Nat.sub_right_comm]
      exact Nat.le_of_not_lt beyond
  refine ⟨?_, ?_, ?_, ?_, ?_⟩
  · rw [MemLog.truncateFrom_lastIncludedIndex, List.length_take]
    omega
  · rw [kept, MemLog.truncateFrom_lastIncludedIndex]
  · rw [MemLog.truncateFrom_lastIncludedIndex, MemLog.truncateFrom_lastIncludedTerm]
    exact views.fresh
  · rw [MemLog.truncateFrom_lastIncludedIndex, MemLog.truncateFrom_lastIncludedTerm]
    intro positive
    rw [List.getElem?_take_of_lt (by omega)]
    exact views.stamp positive
  · rw [MemLog.truncateFrom_lastIncludedIndex, MemLog.truncateFrom_snapshot]
    exact views.stored

/-- Installing a snapshot of another log keeps the own entries above it. -/
theorem install {image : List LogEntry} (later : log.lastIncludedIndex < upToIndex)
    (covered : upToIndex ≤ image.length) (stamped : image[upToIndex - 1]?.map LogEntry.term = some upToTerm) :
    Views (log.installSnapshot upToIndex upToTerm data) (image.take upToIndex ++ full.drop upToIndex) := by
  have length : (image.take upToIndex).length = upToIndex := by rw [List.length_take]; omega
  rw [MemLog.installSnapshot, if_neg (by omega)]
  refine ⟨?_, ?_, fun zero => absurd zero (by simp only; omega), fun _ => ?_, fun _ => rfl⟩
  · simp only [List.length_append, length]
    omega
  · simp only [if_pos (show log.lastIncludedIndex + 1 < upToIndex + 1 by omega)]
    rw [List.drop_left' length, views.tail, List.drop_drop, List.length_drop]
    have bound := views.within
    rcases Nat.le_total upToIndex full.length with inside | beyond
    · congr 1
      omega
    · rw [List.drop_eq_nil_of_le (by omega), List.drop_eq_nil_of_le (by omega)]
  · simp only
    rw [List.getElem?_append_left (by omega), List.getElem?_take_of_lt (by omega)]
    exact stamped

/-- Compaction at an index under its reported term changes nothing of what the
log stands for. -/
theorem compact (covered : upToIndex ≤ full.length) (stamped : log.termAt upToIndex = some upToTerm) :
    Views (log.installSnapshot upToIndex upToTerm data) full := by
  rcases Nat.lt_or_ge log.lastIncludedIndex upToIndex with later | older
  · rw [views.term_at (by omega) (by omega)] at stamped
    have installed : Views (log.installSnapshot upToIndex upToTerm data) (full.take upToIndex ++ full.drop upToIndex) :=
      views.install later covered stamped
    rwa [List.take_append_drop] at installed
  · rw [MemLog.installSnapshot, if_pos older]
    exact views

end

end Views
end KayaDB.Raft
