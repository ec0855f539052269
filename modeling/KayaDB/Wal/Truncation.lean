import KayaDB.Wal.Recovery

/-! A log of records with consecutive numbers whose last segment was cut off at
some byte. Recovery keeps the records that are whole and cuts the segment off
behind them. -/

namespace KayaDB.Wal
open Framing

/-- Each record carries the number after the one before it. -/
def Consecutive (records : List WalRecord) : Prop := records.IsChain fun first second => second.lsn = first.lsn + 1

instance (records : List WalRecord) : Decidable (Consecutive records) :=
  inferInstanceAs (Decidable (records.IsChain fun first second => second.lsn = first.lsn + 1))

variable {records : List WalRecord}

theorem Consecutive.follows {record : WalRecord} (consecutive : Consecutive (record :: records)) :
    ∃ last, records.foldlM follow (some (record.lsn + 1)) = some last := by
  induction records generalizing record with
  | nil => exact ⟨_, rfl⟩
  | cons second records ih =>
    obtain ⟨next, later⟩ := List.isChain_cons_cons.mp consecutive
    have accepted : follow (some (record.lsn + 1)) second = some (some (second.lsn + 1)) := by simp [follow, Expects, next]
    rw [List.foldlM_cons, accepted]
    exact ih later

theorem Consecutive.accepted (consecutive : Consecutive records) :
    ∃ last, records.foldlM follow none = some last := by
  cases records with
  | nil => exact ⟨none, rfl⟩
  | cons record records =>
    rw [List.foldlM_cons, show follow none record = some (some (record.lsn + 1)) by simp [follow, Expects]]
    exact consecutive.follows

/-- Recovery of a log that was cut off returns the records before the cut and
leaves the last segment with them alone. A record is read back as itself, and
one that was cut off is incomplete. -/
theorem recoverWal_cut (config : WalConfig) (dir : WalDir) (older : List (List WalRecord)) (records : List WalRecord) (size : Nat)
    (good : ∀ record ∈ older.flatten ++ records, Fits config.maxRecordBytes record)
    (consecutive : Consecutive (older.flatten ++ records))
    (files : dir.files.map SegmentFile.volatile =
      older.map (frames encoding) ++ [(frames encoding records).take size]) :
    (recoverWal config dir).1.log = older.flatten ++ before encoding size records ∧
      (recoverWal config dir).2.files.map SegmentFile.volatile =
        older.map (frames encoding) ++ [frames encoding (before encoding size records)] ∧
      ∀ record ∈ older.flatten ++ records, ∀ offset,
        decodeRecord (encoding record) offset config.maxRecordBytes = .complete record (encoding record).length ∧
        ∀ cut < (encoding record).length,
          ∃ warning, decodeRecord ((encoding record).take cut) offset config.maxRecordBytes = .incomplete warning := by
  obtain ⟨last, folded⟩ := consecutive.accepted
  rw [List.foldlM_append] at folded
  obtain ⟨middle, earlier, later⟩ := Option.bind_eq_some_iff.mp folded
  have through := Through.frames (framed config.maxRecordBytes)
    (fun record inside => good record (List.mem_append_left _ inside)) earlier
  obtain ⟨next, rest, reads⟩ := Reads.cut (framed config.maxRecordBytes)
    (fun record inside => good record (List.mem_append_right _ inside)) later size
  have recovers := recoverSegments_recovers config.maxRecordBytes dir.files none
  rw [files] at recovers
  obtain ⟨log, left⟩ := Recovers.unique (.append through (.cut (framed config.maxRecordBytes) reads)) recovers
  refine ⟨log, left, fun record inside offset => ⟨?_, fun cut short => ?_⟩⟩
  · simpa using decodeRecord_encoding (good record inside) []
  · exact decodeRecord_cut (good record inside) short offset

def cutConfig : WalConfig := ⟨120, 1000, ⟨1, 0, 0⟩⟩

def cutDir : WalDir :=
  ⟨[⟨1, encoding (.new 1 1 (.put [97] [120])), []⟩, ⟨2, (encoding (.new 2 2 (.put [98] [121]))).take 45, []⟩], by decide⟩

theorem recoverWal_cut_in_payload :
    (recoverWal cutConfig cutDir).1.log = [.new 1 1 (.put [97] [120])] ∧
      (recoverWal cutConfig cutDir).2.files.map SegmentFile.volatile = [encoding (.new 1 1 (.put [97] [120])), []] := by
  obtain ⟨log, left, -⟩ := recoverWal_cut cutConfig cutDir [[.new 1 1 (.put [97] [120])]] [.new 2 2 (.put [98] [121])] 45
    (List.forall_mem_cons.mpr ⟨⟨rfl, _, rfl, by decide, by decide⟩,
      List.forall_mem_singleton.mpr ⟨rfl, _, rfl, by decide, by decide⟩⟩)
    (by decide) (by simp [cutDir])
  exact ⟨log, left⟩

end KayaDB.Wal
