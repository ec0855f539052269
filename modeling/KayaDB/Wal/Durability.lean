import KayaDB.Library.Runs
import KayaDB.Wal.Safety

namespace KayaDB.Wal
open Framing

/-- A writer with the records of all calls, of those that were not refused, and of
the strict ones that returned. -/
structure LogRun where
  wal : WalWriter
  attempted : List WalRecord
  appended : List WalRecord
  acked : List WalRecord

namespace LogRun

def new : LogRun := ⟨.openAt .empty 1 1, [], [], []⟩

def step (config : WalConfig) (run : LogRun) (call : AppendCall) : LogRun :=
  let record := WalRecord.new run.wal.nextLsn run.wal.nextSequence call.payload
  let outcome := run.wal.append config call
  ⟨outcome.wal, run.attempted ++ [record], run.appended ++ outcome.accepted record, run.acked ++ outcome.acks⟩

def recovered (config : WalConfig) (run : LogRun) : List WalRecord := (recoverWal config run.wal.dir.crash).1.log

/-- Everything the files hold was attempted, and what was acknowledged is durable. -/
def Sound (config : WalConfig) (run : LogRun) : Prop :=
  ∃ closed current synced begun, Safe config.maxRecordBytes run.wal run.acked closed current synced begun ∧
    (closed.flatten ++ current ++ begun).Sublist run.attempted

/-- Nothing has failed: the files hold what was appended. -/
def Faultless (config : WalConfig) (run : LogRun) : Prop :=
  ∃ closed current synced, Safe config.maxRecordBytes run.wal run.acked closed current synced [] ∧
    closed.flatten ++ current = run.appended

/-- The segment that an append closes is durable, or is made so first. -/
def ClosesSynced (config : WalConfig) (wal : WalWriter) (call : AppendCall) : Prop :=
  wal.rotates config (encoding (.new wal.nextLsn wal.nextSequence call.payload)).length → wal.batch.hasPending = false →
    wal.active.stable = wal.active.volatile

instance (config : WalConfig) (wal : WalWriter) (call : AppendCall) : Decidable (ClosesSynced config wal call) :=
  inferInstanceAs (Decidable (_ → _ → _))

theorem safe_new (max : Nat) : Safe max new.wal [] [] [] [] [] := by
  refine ⟨⟨?_, rfl, List.prefix_rfl, List.prefix_rfl, List.prefix_rfl, List.prefix_rfl, List.prefix_rfl, rfl, ?_,
    ⟨none, rfl, ?_⟩, ⟨none, rfl⟩⟩, List.Sublist.refl _, List.Sublist.refl _⟩
  · intro _ inside
    cases inside
  · intro _ inside
    cases inside
  · intro _ inside
    cases inside

variable {config : WalConfig} {run : LogRun} {call : AppendCall}

theorem sound_step (sound : Sound config run) (clean : Clean config run.wal call) : Sound config (run.step config call) := by
  obtain ⟨closed, current, synced, begun, safe, inside⟩ := sound
  obtain ⟨closed', later, more, rest, after, logged⟩ := safe.append clean
  refine ⟨closed', later, more, rest, after, ?_⟩
  have whole := (List.sublist_append_left _ begun).trans inside
  rcases logged.grown with ⟨same, rfl | rfl | rfl⟩ | ⟨grown, rfl⟩
  · rw [same]
    exact inside.trans (List.sublist_append_left _ _)
  · rw [same, List.append_nil]
    exact whole.trans (List.sublist_append_left _ _)
  · rw [same]
    exact whole.append (List.Sublist.refl _)
  · rw [grown, List.append_nil]
    exact whole.append (List.Sublist.refl _)

theorem Sound.recovered (sound : Sound config run) :
    run.acked.Sublist (run.recovered config) ∧ (run.recovered config).Sublist run.attempted ∧
      ∃ last, (run.recovered config).foldlM follow none = some last := by
  obtain ⟨closed, current, synced, begun, safe, inside⟩ := sound
  obtain ⟨first, found, enough, only⟩ := safe.kept.recover
  obtain ⟨last, folded⟩ := safe.kept.follows
  unfold LogRun.recovered
  rw [found]
  refine ⟨safe.durable.trans ((List.Sublist.refl _).append enough.sublist), ?_, ?_⟩
  · refine ((List.Sublist.refl _).append only.sublist).trans ?_
    rw [← List.append_assoc]
    exact inside
  · obtain ⟨rest, split⟩ := only
    rw [List.append_assoc, ← split, ← List.append_assoc, List.foldlM_append] at folded
    obtain ⟨middle, early, -⟩ := Option.bind_eq_some_iff.mp folded
    exact ⟨middle, early⟩

theorem clean_of_closes (faultless : Faultless config run) (closes : ClosesSynced config run.wal call) :
    Clean config run.wal call := by
  obtain ⟨closed, current, synced, safe, -⟩ := faultless
  have length : run.wal.active.volatile.length = run.wal.activeLen := by
    have cut := safe.kept.cut
    rw [List.append_nil] at cut
    rw [safe.kept.len]
    exact le_antisymm cut.length_le safe.kept.whole.length_le
  unfold Clean
  split
  next full =>
    rw [Bool.and_eq_true, Bool.not_eq_true'] at full
    rw [closes full.1 full.2]
    exact length
  next => exact length

theorem faultless_step (faultless : Faultless config run) (quiet : call.faults = .none)
    (closes : ClosesSynced config run.wal call) : Faultless config (run.step config call) := by
  have clean := clean_of_closes faultless closes
  obtain ⟨closed, current, synced, safe, appended⟩ := faultless
  obtain ⟨closed', later, more, rest, after, logged⟩ := safe.append clean
  obtain ⟨log, rfl⟩ := logged.exact_ quiet rfl
  exact ⟨closed', later, more, after, log.trans (congrArg (· ++ _) appended)⟩

theorem Faultless.recovered (faultless : Faultless config run) :
    run.recovered config <+: run.appended ∧ run.acked.Sublist (run.recovered config) := by
  obtain ⟨closed, current, synced, safe, appended⟩ := faultless
  obtain ⟨first, found, enough, only⟩ := safe.kept.recover
  unfold LogRun.recovered
  rw [found, ← appended]
  rw [List.append_nil] at only
  exact ⟨(List.prefix_append_right_inj _).mpr only, safe.durable.trans ((List.Sublist.refl _).append enough.sublist)⟩

end LogRun

/-- If no append closes a segment that is not yet durable, a crash leaves a prefix
of the appended records, with every strict append that has returned. -/
theorem strict_appends_survive {config : WalConfig} {run : LogRun}
    (reached : Runs.Reaches (LogRun.step config)
      (fun run call => call.faults = .none ∧ LogRun.ClosesSynced config run.wal call) .new run) :
    run.recovered config <+: run.appended ∧ run.acked.Sublist (run.recovered config) :=
  (reached.invariant (LogRun.Faultless config) ⟨[], [], [], LogRun.safe_new _, rfl⟩
    fun faultless allowed => LogRun.faultless_step faultless allowed.1 allowed.2).recovered

def smallSegments : WalConfig := ⟨120, 1000, ⟨1, 0, 0⟩⟩

def putCall (key value : UInt8) (mode : Storage.DurabilityMode) : AppendCall :=
  ⟨.put [key] [value], mode, false, false, .none⟩

def mixedCalls : List AppendCall :=
  [putCall 1 10 .relaxed, putCall 2 20 .strict, putCall 3 30 .strict, putCall 4 40 .relaxed]

def mixedRun : LogRun := mixedCalls.foldl (LogRun.step smallSegments) .new

theorem mixed_appends_survive : mixedRun.acked.map WalRecord.lsn = [2, 3] ∧ mixedRun.recovered smallSegments <+: mixedRun.appended ∧
    mixedRun.acked.Sublist (mixedRun.recovered smallSegments) := by
  have permitted : Runs.Permits (LogRun.step smallSegments)
      (fun run call => call.faults = .none ∧ LogRun.ClosesSynced smallSegments run.wal call) .new mixedCalls := by
    decide +kernel
  exact ⟨by decide +kernel, strict_appends_survive permitted.reaches⟩

def closingRun : LogRun :=
  [putCall 1 10 .strict, putCall 2 20 .relaxed, putCall 3 30 .strict].foldl (LogRun.step smallSegments) .new

/-- A crash loses it, and recovery stops at the gap it leaves. -/
theorem strict_append_behind_gap : closingRun.acked.map WalRecord.lsn = [1, 3] ∧
    (closingRun.recovered smallSegments).map WalRecord.lsn = [1] ∧
    ¬ closingRun.acked.Sublist (closingRun.recovered smallSegments) := by
  decide +kernel

/-- If every append finds its files as the writer thinks they are, whatever the disk
did before, the strict appends that have returned survive a crash; every attempt is
recovered at most once, and the numbers have no gap. -/
theorem faults_spare_later_appends {config : WalConfig} {run : LogRun}
    (reached : Runs.Reaches (LogRun.step config) (fun run call => Clean config run.wal call) .new run) :
    run.acked.Sublist (run.recovered config) ∧ (run.recovered config).Sublist run.attempted ∧
      ∃ last, (run.recovered config).foldlM follow none = some last :=
  (reached.invariant (LogRun.Sound config) ⟨[], [], [], [], LogRun.safe_new _, List.Sublist.refl _⟩
    LogRun.sound_step).recovered

def refusedAppend : Faults := { Faults.none with append := some .refused }

def refusedSync : Faults := { Faults.none with fsync := some .refused }

/-- The disk refuses a write, and the sync of the last record of the run. -/
def refusedCalls : List AppendCall :=
  [putCall 1 10 .strict, { putCall 2 20 .strict with faults := refusedAppend }, putCall 3 30 .strict,
    { putCall 4 40 .strict with faults := refusedSync }]

def refusedRun : LogRun := refusedCalls.foldl (LogRun.step smallSegments) .new

theorem refused_append_spares_later : refusedRun.acked.map WalRecord.lsn = [1, 2] ∧
    refusedRun.acked.Sublist (refusedRun.recovered smallSegments) ∧
    (refusedRun.recovered smallSegments).Sublist refusedRun.attempted ∧
    ∃ last, (refusedRun.recovered smallSegments).foldlM follow none = some last := by
  have permitted : Runs.Permits (LogRun.step smallSegments) (fun run call => Clean smallSegments run.wal call) .new
      refusedCalls := by
    decide +kernel
  exact ⟨by decide +kernel, faults_spare_later_appends permitted.reaches⟩

/-- A sync is refused when its record is already in the file, and another append
follows. -/
def supersededRun : LogRun :=
  [{ putCall 1 10 .strict with faults := refusedSync }, putCall 2 20 .strict].foldl (LogRun.step smallSegments) .new

/-- The second record has the number of the first, and recovery stops before it. -/
theorem superseding_append_lost : supersededRun.acked.map WalRecord.payload = [.put [2] [20]] ∧
    (supersededRun.recovered smallSegments).map WalRecord.payload = [.put [1] [10]] ∧
    ¬ supersededRun.acked.Sublist (supersededRun.recovered smallSegments) := by
  decide +kernel

end KayaDB.Wal
