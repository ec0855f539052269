import KayaDB.Storage.Wal

/-! The files of an unbroken log: record numbers are consecutive across segments
and sequence numbers grow. Appending keeps it so, and recovery reads all of it. -/

namespace KayaDB.Storage

section
variable {expected : Option Nat} {run more : List WalRecord} {segments : List Segment}

/-- Records with consecutive numbers, the first of them as expected. -/
def Follows : Option Nat → List WalRecord → Prop
  | _, [] => True
  | expected, record :: rest => (∀ lsn ∈ expected, record.lsn = lsn) ∧ Follows (some (record.lsn + 1)) rest

def expectedAfter : Option Nat → List WalRecord → Option Nat
  | expected, [] => expected
  | _, record :: rest => expectedAfter (some (record.lsn + 1)) rest

theorem readRecords_follows (follows : Follows expected run) :
    readRecords expected run = (run, expectedAfter expected run, false) := by
  induction run generalizing expected with
  | nil => rfl
  | cons record rest ih =>
    have fits : ¬ (expected.any fun lsn => decide (lsn ≠ record.lsn)) = true := by
      cases expected with
      | none => simp
      | some lsn => simp [follows.1 lsn rfl]
    rw [readRecords, if_neg fits, ih follows.2]
    rfl

theorem follows_append : Follows expected (run ++ more) ↔
    Follows expected run ∧ Follows (expectedAfter expected run) more := by
  induction run generalizing expected with
  | nil => exact (true_and _).to_iff.symm
  | cons record rest ih => exact (and_congr Iff.rfl ih).trans and_assoc.symm

theorem expectedAfter_eq (expected : Option Nat) (run : List WalRecord) :
    expectedAfter expected run = run.getLast?.elim expected fun last => some (last.lsn + 1) := by
  induction run generalizing expected with
  | nil => rfl
  | cons record rest ih =>
    rw [expectedAfter, ih]
    cases rest with
    | nil => rfl
    | cons => rfl

theorem eq_of_sequence {record other : WalRecord}
    (increasing : run.Pairwise fun first second => first.sequence < second.sequence) (one : record ∈ run)
    (two : other ∈ run) (numbers : record.sequence = other.sequence) : record = other := by
  have apart : (run.map WalRecord.sequence).Nodup := (List.pairwise_map.mpr increasing).imp ne_of_lt
  exact List.inj_on_of_nodup_map apart one two numbers

theorem recoverSegments_follows (follows : Follows expected (segments.flatMap Segment.content)) :
    recoverSegments expected segments = (segments.flatMap Segment.content, segments) := by
  induction segments generalizing expected with
  | nil => rfl
  | cons segment rest ih =>
    rw [List.flatMap_cons, follows_append] at follows
    rw [recoverSegments, readRecords_follows follows.1]
    dsimp only
    rw [ih follows.2, List.flatMap_cons]

/-- What a crash leaves of a log of which only the last file has an unsynced tail. -/
theorem crash_isPrefix (durable : ∀ segment ∈ segments, segment.durable <+: segment.content)
    (closed : ∀ segment ∈ segments.dropLast, segment.durable = segment.content) :
    segments.flatMap Segment.durable <+: segments.flatMap Segment.content := by
  induction segments with
  | nil => exact List.prefix_rfl
  | cons segment rest ih =>
    cases rest with
    | nil => simpa using durable segment
    | cons next rest =>
      rw [List.dropLast_cons_cons] at closed
      have later := ih (fun other inside => durable other (List.mem_cons_of_mem _ inside))
        fun other inside => closed other (List.mem_cons_of_mem _ inside)
      have split : ∀ read : Segment → List WalRecord,
          (segment :: next :: rest).flatMap read = read segment ++ (next :: rest).flatMap read := fun _ => rfl
      rw [split, split, closed segment List.mem_cons_self, List.prefix_append_right_inj]
      exact later

end

namespace WalWriter
variable {wal after : WalWriter} {config : WalConfig} {payload : WalPayload} {mode : DurabilityMode} {entry : SstEntry}
  {record : WalRecord} {id : Nat} {segments : List Segment}

def records (wal : WalWriter) : List WalRecord := wal.segments.flatMap Segment.content

def Holds (wal : WalWriter) (entry : SstEntry) : Prop :=
  ∃ record ∈ wal.records, record.payload.entry record.sequence = some entry

/-- The files of an unbroken log. -/
structure Unbroken (segments : List Segment) : Prop where
  ordered : segments.Pairwise fun first second => first.id < second.id
  durable : ∀ segment ∈ segments, segment.durable <+: segment.content
  follows : Follows none (segments.flatMap Segment.content)
  increasing : (segments.flatMap Segment.content).Pairwise fun first second => first.sequence < second.sequence

structure Intact (wal : WalWriter) : Prop where
  unbroken : Unbroken wal.segments
  active : ∀ segment ∈ wal.segments, segment.id ≤ wal.activeSegmentId
  lsn : ∀ lsn ∈ expectedAfter none wal.records, wal.nextLsn = lsn
  next : ∀ record ∈ wal.records, record.sequence < wal.nextSequence

theorem appendFile_eq (record : WalRecord) (unbroken : Unbroken segments) (active : ∀ segment ∈ segments, segment.id ≤ id) :
    ∃ front content durable, appendFile segments id record = front ++ [⟨id, content ++ [record], durable⟩] ∧
      front.Sublist segments ∧ (∀ segment ∈ front, segment.id < id) ∧ durable <+: content ∧
      segments.flatMap Segment.content = front.flatMap Segment.content ++ content := by
  by_cases found : ∃ segment ∈ segments, segment.id = id
  · obtain ⟨segment, inside, same⟩ := found
    have nonempty : segments ≠ [] := List.ne_nil_of_mem inside
    obtain ⟨front, last, rfl⟩ : ∃ front last, segments = front ++ [last] :=
      ⟨_, _, (List.dropLast_append_getLast nonempty).symm⟩
    obtain ⟨-, -, below⟩ := List.pairwise_append.mp unbroken.ordered
    have least : ∀ other ∈ front, other.id < last.id := fun other held => below other held last (List.mem_singleton_self _)
    have number : last.id = id := by
      refine le_antisymm (active last (by simp)) ?_
      rcases List.mem_append.mp inside with early | late
      · exact same ▸ (least segment early).le
      · exact (List.mem_singleton.mp late ▸ same).ge
    subst number
    have others : ∀ other ∈ front, (if other.id = last.id then { other with content := other.content ++ [record] }
        else other) = other := fun other held => if_neg (least other held).ne
    refine ⟨front, last.content, last.durable, ?_, List.sublist_append_left _ _, least,
      unbroken.durable last (by simp), by simp⟩
    unfold appendFile
    rw [if_pos (by simp), List.map_append, List.map_congr_left others, List.map_id'', List.map_singleton, if_pos rfl]
    exact fun _ => rfl
  · push Not at found
    refine ⟨segments, [], [], ?_, List.Sublist.refl _, fun segment inside => ?_, List.prefix_rfl, by simp⟩
    · unfold appendFile
      rw [if_neg]
      · rfl
      · simpa using found
    · exact lt_of_le_of_ne (active segment inside) (found segment inside)

theorem Unbroken.appendFile (unbroken : Unbroken segments) (record : WalRecord) (active : ∀ segment ∈ segments, segment.id ≤ id)
    (fits : ∀ lsn ∈ expectedAfter none (segments.flatMap Segment.content), record.lsn = lsn)
    (newer : ∀ old ∈ segments.flatMap Segment.content, old.sequence < record.sequence) :
    Unbroken (appendFile segments id record) ∧ (∀ segment ∈ WalWriter.appendFile segments id record, segment.id ≤ id) ∧
      (WalWriter.appendFile segments id record).flatMap Segment.content = segments.flatMap Segment.content ++ [record] := by
  obtain ⟨front, content, durable, same, part, below, synced, whole⟩ := appendFile_eq record unbroken active
  have grown : (WalWriter.appendFile segments id record).flatMap Segment.content =
      segments.flatMap Segment.content ++ [record] := by
    simp [same, whole]
  rw [same] at grown ⊢
  refine ⟨⟨List.pairwise_append.mpr ⟨unbroken.ordered.sublist part, List.pairwise_singleton _ _, ?_⟩, ?_, ?_, ?_⟩, ?_, grown⟩
  · intro segment inside other also
    cases List.mem_singleton.mp also
    exact below segment inside
  · intro segment inside
    rcases List.mem_append.mp inside with inside | also
    · exact unbroken.durable segment (part.subset inside)
    · cases List.mem_singleton.mp also
      exact synced.trans (List.prefix_append _ _)
  · rw [grown, follows_append]
    exact ⟨unbroken.follows, fits, trivial⟩
  · rw [grown, List.pairwise_append]
    refine ⟨unbroken.increasing, List.pairwise_singleton _ _, fun old inside new also => ?_⟩
    exact List.mem_singleton.mp also ▸ newer old inside
  · intro segment inside
    rcases List.mem_append.mp inside with inside | also
    · exact (below segment inside).le
    · cases List.mem_singleton.mp also
      exact le_rfl

theorem fsyncFile_records (segments : List Segment) (id : Nat) :
    (fsyncFile segments id).flatMap Segment.content = segments.flatMap Segment.content := by
  unfold fsyncFile
  rw [List.flatMap_map]
  congr 1
  funext segment
  split <;> rfl

theorem Unbroken.fsyncFile (unbroken : Unbroken segments) (id : Nat) : Unbroken (fsyncFile segments id) := by
  have number : ∀ segment : Segment, (if segment.id = id then segment.sync else segment).id = segment.id := by
    intro segment
    split <;> rfl
  refine ⟨?_, fun segment inside => ?_, ?_, ?_⟩
  · unfold WalWriter.fsyncFile
    rw [List.pairwise_map]
    exact unbroken.ordered.imp fun less => by rwa [number, number]
  · obtain ⟨old, held, rfl⟩ := List.mem_map.mp inside
    split
    · exact List.prefix_rfl
    · exact unbroken.durable old held
  · rw [fsyncFile_records]
    exact unbroken.follows
  · rw [fsyncFile_records]
    exact unbroken.increasing

theorem fsyncFile_ids {bound : Nat} (active : ∀ segment ∈ segments, segment.id ≤ bound) :
    ∀ segment ∈ fsyncFile segments id, segment.id ≤ bound := by
  intro segment inside
  obtain ⟨old, held, rfl⟩ := List.mem_map.mp inside
  split
  · exact active old held
  · exact active old held

theorem Intact.ensureMinSequence (intact : wal.Intact) (minSeq : Nat) : (wal.ensureMinSequence minSeq).Intact :=
  ⟨intact.unbroken, intact.active, intact.lsn, fun record inside =>
    (intact.next record inside).trans_le (le_max_left _ _)⟩

theorem Intact.rotate (intact : wal.Intact) : wal.rotate.Intact :=
  ⟨intact.unbroken, fun segment inside => (intact.active segment inside).trans (Nat.le_succ _), intact.lsn, intact.next⟩

theorem Intact.write (intact : wal.Intact) (payload : WalPayload) (mode : DurabilityMode) :
    (wal.write ⟨wal.nextLsn, wal.nextSequence, payload⟩ mode).Intact ∧
      (wal.write ⟨wal.nextLsn, wal.nextSequence, payload⟩ mode).records =
        wal.records ++ [⟨wal.nextLsn, wal.nextSequence, payload⟩] := by
  obtain ⟨unbroken, active, grown⟩ := intact.unbroken.appendFile ⟨wal.nextLsn, wal.nextSequence, payload⟩ intact.active
    intact.lsn intact.next
  have whole : (wal.write ⟨wal.nextLsn, wal.nextSequence, payload⟩ mode).records =
      wal.records ++ [⟨wal.nextLsn, wal.nextSequence, payload⟩] := by
    cases mode with
    | relaxed => exact grown
    | strict => exact (fsyncFile_records _ _).trans grown
  refine ⟨⟨?_, ?_, ?_, ?_⟩, whole⟩
  · cases mode with
    | relaxed => exact unbroken
    | strict => exact unbroken.fsyncFile _
  · cases mode with
    | relaxed => exact active
    | strict => exact fsyncFile_ids active
  · rw [whole, expectedAfter_eq]
    simp [WalWriter.write]
  · rw [whole]
    intro record inside
    have bound : record.sequence ≤ wal.nextSequence := by
      rcases List.mem_append.mp inside with old | new
      · exact (intact.next record old).le
      · rw [List.mem_singleton.mp new]
    exact Nat.lt_succ_of_le bound

theorem Intact.append {result : AppendResult} (intact : wal.Intact)
    (appended : wal.append config payload mode = .ok (after, result)) :
    after.Intact ∧ after.records = wal.records ++ [⟨wal.nextLsn, wal.nextSequence, payload⟩] := by
  unfold WalWriter.append at appended
  dsimp only at appended
  split at appended
  · cases appended
  · cases appended
    split
    · exact intact.rotate.write payload mode
    · exact intact.write payload mode

end WalWriter
end KayaDB.Storage
