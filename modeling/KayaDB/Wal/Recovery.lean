import KayaDB.Wal.Writer

/-! Recovery reads the segments in order, up to the first record that does not
decode or does not follow the one before it. It cuts that segment off there and
leaves the later ones as they are. -/

namespace KayaDB.Wal
open Raft (Bytes)
open Framing

structure RecoveredRecord where
  segmentId : Nat
  offset : Nat
  record : WalRecord
deriving DecidableEq, Repr

structure WalRecoveryReport where
  records : List RecoveredRecord
  validBytes : Nat
  truncatedBytes : Nat
  warnings : List WalWarning
deriving DecidableEq, Repr

namespace WalRecoveryReport

def lastLsn (report : WalRecoveryReport) : Option UInt64 := report.records.getLast?.map fun found => found.record.lsn

def log (report : WalRecoveryReport) : List WalRecord := report.records.map RecoveredRecord.record

end WalRecoveryReport

/-- The records of one segment, the number expected next, the length of what was
valid, and why reading stopped before the end. -/
structure SegmentScan where
  records : List RecoveredRecord
  expectedLsn : Option UInt64
  validLen : Nat
  stopped : Option WalWarning
deriving DecidableEq, Repr

/-- The fuel is the number of bytes left; every record takes some. -/
def readSegment (maxRecordBytes segmentId : Nat) : Nat → Option UInt64 → Nat → Bytes → SegmentScan
  | 0, expected, offset, _ => ⟨[], expected, offset, none⟩
  | fuel + 1, expected, offset, bytes =>
    if bytes.isEmpty then ⟨[], expected, offset, none⟩
    else
      match decodeRecord bytes offset maxRecordBytes with
      | .complete record size =>
        match expected.filter fun lsn => lsn ≠ record.lsn with
        | some lsn => ⟨[], expected, offset, some (.nonMonotonicLsn offset lsn record.lsn)⟩
        | none =>
          let later := readSegment maxRecordBytes segmentId fuel (some (record.lsn + 1)) (offset + size) (bytes.drop size)
          { later with records := ⟨segmentId, offset, record⟩ :: later.records }
      | .incomplete warning | .invalid warning => ⟨[], expected, offset, some warning⟩

/-- The report on the segments from here on, and the segments it leaves. -/
def recoverSegments (maxRecordBytes : Nat) : Option UInt64 → List SegmentFile → WalRecoveryReport × List SegmentFile
  | _, [] => (⟨[], 0, 0, []⟩, [])
  | expected, file :: rest =>
    let scan := readSegment maxRecordBytes file.id file.volatile.length expected 0 file.volatile
    match scan.stopped with
    | none =>
      let (report, left) := recoverSegments maxRecordBytes scan.expectedLsn rest
      ({ report with records := scan.records ++ report.records, validBytes := scan.validLen + report.validBytes },
        file :: left)
    | some warning =>
      let truncated := file.volatile.length - scan.validLen
      let cut := if scan.validLen < file.volatile.length then [.tailTruncated file.id scan.validLen truncated] else []
      let ignored := if 0 < rest.length then [.trailingSegmentsIgnored rest.length] else []
      (⟨scan.records, scan.validLen, truncated, warning :: cut ++ ignored⟩, file.truncate scan.validLen :: rest)

theorem recoverSegments_ids (maxRecordBytes : Nat) (files : List SegmentFile) : ∀ expected,
    (recoverSegments maxRecordBytes expected files).2.map SegmentFile.id = files.map SegmentFile.id := by
  induction files with
  | nil => exact fun _ => rfl
  | cons file rest ih =>
    intro expected
    simp only [recoverSegments]
    split
    · exact congrArg (file.id :: ·) (ih _)
    · rfl

def recoverWal (config : WalConfig) (dir : WalDir) : WalRecoveryReport × WalDir :=
  ((recoverSegments config.maxRecordBytes none dir.files).1, ⟨(recoverSegments config.maxRecordBytes none dir.files).2, by
    have ordered := dir.ordered
    rw [← List.pairwise_map (f := SegmentFile.id) (R := (· < ·)), ← recoverSegments_ids config.maxRecordBytes dir.files none,
      List.pairwise_map] at ordered
    exact ordered⟩)

def reopen (config : WalConfig) (dir : WalDir) : WalWriter :=
  let (report, left) := recoverWal config dir
  let nextLsn := (report.lastLsn.map (· + 1)).getD 1
  let nextSequence := (report.records.getLast?.map fun found => found.record.sequence + 1).getD 1
  .openAt left nextLsn nextSequence

/-- A record must carry the expected number, if there is one. -/
def Expects (expected : Option UInt64) (record : WalRecord) : Prop := ∀ lsn ∈ expected, lsn = record.lsn

instance (expected : Option UInt64) (record : WalRecord) : Decidable (Expects expected record) :=
  match expected with
  | none => isTrue nofun
  | some lsn => decidable_of_iff (lsn = record.lsn) ⟨fun same _ inside => Option.some.inj inside ▸ same, fun all => all lsn rfl⟩

def follow (expected : Option UInt64) (record : WalRecord) : Option (Option UInt64) :=
  if Expects expected record then some (some (record.lsn + 1)) else none

theorem follow_of_filter (expected : Option UInt64) (record : WalRecord) : follow expected record =
    if (expected.filter fun lsn => lsn ≠ record.lsn) = none then some (some (record.lsn + 1)) else none := by
  unfold follow
  cases expected with
  | none => rfl
  | some lsn =>
    by_cases same : lsn = record.lsn
    · simp [Expects, same]
    · simp [Expects, same]

theorem decoded_of_complete {bytes : Bytes} {offset max size : Nat} {record : WalRecord}
    (complete : decodeRecord bytes offset max = .complete record size) : decoded max bytes = some (record, size) := by
  obtain ⟨fits, rest, rfl, rfl⟩ := sound_of_complete complete
  exact (framed max).complete rest fits

theorem decoded_eq_none (bytes : Bytes) (offset max : Nat)
    (failed : ∀ record size, decodeRecord bytes offset max ≠ .complete record size) : decoded max bytes = none := by
  cases found : decoded max bytes with
  | none => rfl
  | some result =>
    obtain ⟨record, size⟩ := result
    obtain ⟨fits, rest, rfl, rfl⟩ := (framed max).sound found
    exact absurd (decodeRecord_encoding fits rest) (failed _ _)

theorem readSegment_reads (max id : Nat) : ∀ (fuel : Nat) (expected : Option UInt64) (offset : Nat) (bytes : Bytes),
    bytes.length ≤ fuel → ∃ rest,
      Reads (decoded max) follow expected bytes ((readSegment max id fuel expected offset bytes).records.map RecoveredRecord.record)
        (readSegment max id fuel expected offset bytes).expectedLsn rest ∧
      ((readSegment max id fuel expected offset bytes).stopped = none ↔ rest = []) ∧
      (readSegment max id fuel expected offset bytes).validLen + rest.length = offset + bytes.length := by
  intro fuel
  induction fuel with
  | zero =>
    intro expected offset bytes short
    obtain rfl := List.eq_nil_of_length_eq_zero (Nat.le_zero.mp short)
    exact ⟨[], .ended expected, Iff.rfl.trans (by simp [readSegment]), rfl⟩
  | succ fuel ih =>
    intro expected offset bytes short
    by_cases empty : bytes = []
    · subst empty
      exact ⟨[], .ended expected, by simp [readSegment], rfl⟩
    · have filled : bytes.isEmpty = false := by
        cases bytes with
        | nil => exact absurd rfl empty
        | cons => rfl
      cases result : decodeRecord bytes offset max with
      | complete record size =>
        have found := decoded_of_complete result
        cases refusal : expected.filter fun lsn => lsn ≠ record.lsn with
        | some lsn =>
          have refused : follow expected record = none := by
            rw [follow_of_filter, refusal]
            rfl
          refine ⟨bytes, ?_⟩
          simp only [readSegment, filled, result, refusal, Bool.false_eq_true, if_false]
          exact ⟨.refused empty found refused, by simp [empty], trivial⟩
        | none =>
          have accepted : follow expected record = some (some (record.lsn + 1)) := by
            rw [follow_of_filter, refusal]
            rfl
          obtain ⟨fits, tail, parts, rfl⟩ := (framed max).sound found
          have positive := List.length_pos_iff.mpr ((framed max).filled fits)
          have sizes := congrArg List.length parts
          rw [List.length_append] at sizes
          obtain ⟨rest, reads, ended, lengths⟩ := ih (some (record.lsn + 1)) (offset + (encoding record).length)
            (bytes.drop (encoding record).length) (by rw [List.length_drop]; omega)
          refine ⟨rest, ?_⟩
          simp only [readSegment, filled, result, refusal, Bool.false_eq_true, if_false]
          refine ⟨.took empty found accepted reads, ended, ?_⟩
          rw [List.length_drop] at lengths
          omega
      | incomplete warning | invalid warning =>
        refine ⟨bytes, ?_⟩
        simp only [readSegment, filled, result, Bool.false_eq_true, if_false]
        exact ⟨.undecoded empty (decoded_eq_none bytes offset max (by rw [result]; nofun)), by simp [empty], trivial⟩

theorem recoverSegments_recovers (max : Nat) (files : List SegmentFile) : ∀ expected,
    Recovers (decoded max) follow encoding expected (files.map SegmentFile.volatile)
      (recoverSegments max expected files).1.log ((recoverSegments max expected files).2.map SegmentFile.volatile) := by
  induction files with
  | nil => exact fun expected => .done expected
  | cons file rest ih =>
    intro expected
    obtain ⟨left, reads, ended, lengths⟩ := readSegment_reads max file.id file.volatile.length expected 0 file.volatile le_rfl
    simp only [recoverSegments]
    generalize readSegment max file.id file.volatile.length expected 0 file.volatile = scan at reads ended lengths ⊢
    cases stopped : scan.stopped with
    | none =>
      obtain rfl := ended.mp stopped
      simp only [WalRecoveryReport.log, List.map_append]
      exact .through reads (ih _)
    | some warning =>
      have stuck : left ≠ [] := fun none => absurd (stopped.symm.trans (ended.mpr none)) nofun
      obtain ⟨parts, -, -⟩ := reads.split (framed max)
      have cut : file.volatile.take scan.validLen = frames encoding (scan.records.map RecoveredRecord.record) := by
        have sizes := congrArg List.length parts
        rw [List.length_append] at sizes
        have size : scan.validLen = (frames encoding (scan.records.map RecoveredRecord.record)).length := by omega
        rw [size, parts, List.take_left]
      have recovers : Recovers (decoded max) follow encoding expected (file.volatile :: rest.map SegmentFile.volatile)
          (scan.records.map RecoveredRecord.record) _ := .stopped reads stuck
      rw [← cut] at recovers
      exact recovers

end KayaDB.Wal
