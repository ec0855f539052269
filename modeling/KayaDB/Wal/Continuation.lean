import KayaDB.Wal.Durability

/-! Going on after recovery. What recovery has read is a sound log again, and
strict appends extend it, provided that the segments it has not read are empty. -/

namespace KayaDB.Wal
open Raft (Bytes)
open Framing

/-- The segments behind the one in which recovery stops. -/
def ignoredSegments (maxRecordBytes : Nat) : Option UInt64 → List SegmentFile → List SegmentFile
  | _, [] => []
  | expected, file :: rest =>
    let scan := readSegment maxRecordBytes file.id file.volatile.length expected 0 file.volatile
    match scan.stopped with
    | none => ignoredSegments maxRecordBytes scan.expectedLsn rest
    | some _ => rest

/-- What recovery leaves: files of the records it has read, and the files it has
not read. -/
theorem recoverSegments_left (max : Nat) (files : List SegmentFile) : ∀ expected,
    ∃ (kept : List SegmentFile) (lists : List (List WalRecord)) (last : Option UInt64),
    (recoverSegments max expected files).2 = kept ++ ignoredSegments max expected files ∧
    kept.map SegmentFile.volatile = lists.map (frames encoding) ∧
    (recoverSegments max expected files).1.log = lists.flatten ∧ (∀ record ∈ lists.flatten, Fits max record) ∧
    lists.flatten.foldlM follow expected = some last := by
  induction files with
  | nil => exact fun expected => ⟨[], [], expected, rfl, rfl, rfl, nofun, rfl⟩
  | cons file rest ih =>
    intro expected
    obtain ⟨left, reads, ended, lengths⟩ := readSegment_reads max file.id file.volatile.length expected 0 file.volatile le_rfl
    simp only [recoverSegments, ignoredSegments]
    generalize readSegment max file.id file.volatile.length expected 0 file.volatile = scan at reads ended lengths ⊢
    obtain ⟨parts, good, folded⟩ := reads.split (framed max)
    cases stopped : scan.stopped with
    | none =>
      obtain rfl := ended.mp stopped
      obtain ⟨kept, lists, last, files, contents, log, fits, after⟩ := ih scan.expectedLsn
      refine ⟨file :: kept, scan.records.map RecoveredRecord.record :: lists, last, ?_, ?_, ?_, ?_, ?_⟩
      · exact congrArg (file :: ·) files
      · rw [List.append_nil] at parts
        rw [List.map_cons, List.map_cons, contents, parts]
      · simp only [WalRecoveryReport.log, List.map_append, List.flatten_cons]
        exact congrArg (_ ++ ·) log
      · intro record inside
        exact (List.mem_append.mp inside).elim (good record) (fits record)
      · rw [List.flatten_cons, List.foldlM_append, folded]
        exact after
    | some warning =>
      have sizes := congrArg List.length parts
      rw [List.length_append] at sizes
      have size : scan.validLen = (frames encoding (scan.records.map RecoveredRecord.record)).length := by omega
      have flat : [scan.records.map RecoveredRecord.record].flatten = scan.records.map RecoveredRecord.record := by simp
      refine ⟨[file.truncate scan.validLen], [scan.records.map RecoveredRecord.record], scan.expectedLsn, rfl, ?_, ?_, ?_, ?_⟩
      · change [file.volatile.take scan.validLen] = [frames encoding _]
        rw [size, parts, List.take_left]
      · exact flat.symm
      · rw [flat]
        exact good
      · rw [flat]
        exact folded

theorem recoverSegments_synced (max : Nat) (files : List SegmentFile) : ∀ expected,
    (∀ file ∈ files, file.stable = file.volatile) →
      ∀ file ∈ (recoverSegments max expected files).2, file.stable = file.volatile := by
  induction files with
  | nil => exact fun _ _ => nofun
  | cons file rest ih =>
    intro expected synced other inside
    simp only [recoverSegments] at inside
    split at inside
    · rcases List.mem_cons.mp inside with rfl | later
      · exact synced _ List.mem_cons_self
      · exact ih _ (fun file inside => synced file (List.mem_cons_of_mem _ inside)) other later
    · rcases List.mem_cons.mp inside with rfl | later
      · exact congrArg (List.take _) (synced file List.mem_cons_self)
      · exact synced other (List.mem_cons_of_mem _ later)

theorem follow_last {records : List WalRecord} {last : Option UInt64} (folded : records.foldlM follow none = some last) :
    last = records.getLast?.map fun record => record.lsn + 1 := by
  cases records using List.reverseRecOn with
  | nil =>
    cases folded
    rfl
  | append_singleton records record =>
    rw [List.foldlM_append] at folded
    obtain ⟨middle, -, accepted⟩ := Option.bind_eq_some_iff.mp folded
    obtain ⟨next, accepted, ended⟩ : ∃ next, follow middle record = some next ∧ some next = some last :=
      Option.bind_eq_some_iff.mp accepted
    cases ended
    unfold follow at accepted
    split at accepted
    · cases accepted
      simp
    · cases accepted

section Recovered
variable {config : WalConfig} {dir : WalDir}
  {last : Option UInt64}

def WalDir.ignored (config : WalConfig) (dir : WalDir) : List SegmentFile :=
  ignoredSegments config.maxRecordBytes none dir.files

/-- Up to empty files behind the place where recovery stops, all files hold whole records. -/
theorem recoverWal_frames {empties later : List SegmentFile} (split : dir.ignored config = empties ++ later)
    (empty : ∀ file ∈ empties, file.volatile = []) :
    ∃ (before : List SegmentFile) (lists : List (List WalRecord)) (last : Option UInt64),
      (recoverWal config dir).2.files = before ++ later ∧
      before.map SegmentFile.volatile = lists.map (frames encoding) ∧
      (recoverWal config dir).1.log = lists.flatten ∧ (∀ record ∈ lists.flatten, Fits config.maxRecordBytes record) ∧
      lists.flatten.foldlM follow none = some last := by
  obtain ⟨kept, lists, last, files, contents, whole⟩ := recoverSegments_left config.maxRecordBytes dir.files none
  have flat : (lists ++ empties.map fun _ => []).flatten = lists.flatten := by simp
  refine ⟨kept ++ empties, lists ++ empties.map fun _ => [], last, ?_, ?_, ?_⟩
  · change (recoverSegments config.maxRecordBytes none dir.files).2 = _
    rw [files, List.append_assoc]
    exact congrArg (kept ++ ·) split
  · rw [List.map_append, List.map_append, contents, List.map_map]
    exact congrArg _ (List.map_congr_left empty)
  · rw [flat]
    exact whole

theorem recover_frames {lists : List (List WalRecord)}
    (contents : dir.files.map SegmentFile.volatile = lists.map (frames encoding))
    (fits : ∀ record ∈ lists.flatten, Fits config.maxRecordBytes record)
    (folded : lists.flatten.foldlM follow none = some last) : (recoverWal config dir).1.log = lists.flatten := by
  have recovers := recoverSegments_recovers config.maxRecordBytes dir.files none
  rw [contents] at recovers
  exact (Recovers.unique (.whole (.frames (framed config.maxRecordBytes) fits folded)) recovers).1

theorem WalWriter.top_openAt (dir : WalDir) (lsn sequence : UInt64) :
    ∀ file ∈ dir.files, file.id ≤ (WalWriter.openAt dir lsn sequence).activeSegmentId := by
  intro file inside
  have held : file.id ∈ dir.files.map SegmentFile.id := List.mem_map.mpr ⟨file, inside, rfl⟩
  change file.id ≤ ((dir.files.map SegmentFile.id).max?).getD 1
  cases most : (dir.files.map SegmentFile.id).max? with
  | none =>
    rw [List.max?_eq_none_iff.mp most] at held
    cases held
  | some id => exact (List.max?_eq_some_iff.mp most).2 _ held

theorem nextLsn_reopen (folded : (recoverWal config dir).1.log.foldlM follow none = some last) :
    ∀ lsn ∈ last, lsn = (reopen config dir).nextLsn := by
  rw [follow_last folded]
  unfold WalRecoveryReport.log
  rw [List.getLast?_map, Option.map_map]
  intro lsn inside
  change lsn = (((recoverWal config dir).1.lastLsn).map (· + 1)).getD 1
  unfold WalRecoveryReport.lastLsn
  cases last : (recoverWal config dir).1.records.getLast? with
  | none =>
    rw [last] at inside
    cases inside
  | some found =>
    rw [last] at inside
    exact (Option.some.inj inside).symm

theorem safe_reopen (synced : ∀ file ∈ dir.files, file.stable = file.volatile)
    (empty : ∀ file ∈ dir.ignored config, file.volatile = []) : ∃ closed current,
      Safe config.maxRecordBytes (reopen config dir) (recoverWal config dir).1.log closed current current [] ∧
      closed.flatten ++ current = (recoverWal config dir).1.log := by
  obtain ⟨before, lists, last, files, contents, log, fits, folded⟩ := recoverWal_frames (List.append_nil _).symm empty
  rw [← (files.trans (List.append_nil _))] at contents
  have durable := recoverSegments_synced config.maxRecordBytes dir.files none synced
  have top : ∀ file ∈ (reopen config dir).dir.files, file.id ≤ (reopen config dir).activeSegmentId :=
    WalWriter.top_openAt _ _ _
  have split := files_split (reopen config dir).dir.ordered top
  have next := nextLsn_reopen (log.symm ▸ folded)
  change (reopen config dir).dir.files.map _ = _ at contents
  rw [split, List.map_append] at contents
  obtain ⟨closed, rest, rfl, closedContents, restContents⟩ := List.map_eq_append_iff.mp contents.symm
  obtain ⟨current, flat, content, stable⟩ : ∃ current, rest.flatten = current ∧
      (reopen config dir).active.volatile = frames encoding current ∧
      (reopen config dir).active.stable = (reopen config dir).active.volatile := by
    unfold WalWriter.active activeFile
    cases found : (reopen config dir).dir.files.find? fun file => decide (file.id = (reopen config dir).activeSegmentId) with
    | none =>
      rw [found] at restContents
      rw [List.map_eq_nil_iff.mp restContents]
      exact ⟨[], rfl, rfl, rfl⟩
    | some file =>
      rw [found] at restContents
      obtain ⟨current, rfl, content⟩ := List.map_eq_singleton_iff.mp restContents
      exact ⟨current, by simp, content.symm, durable file (List.mem_of_find?_eq_some found)⟩
  rw [List.flatten_append, flat] at log fits folded
  have older : (reopen config dir).older.map SegmentFile.stable = closed.map (frames encoding) := by
    rw [closedContents]
    exact List.map_congr_left fun file inside => durable file (List.mem_of_mem_filter inside)
  refine ⟨closed, current, ⟨⟨top, older, ?_, ?_, ?_, List.prefix_rfl, ?_, ?_, ?_, ⟨last, folded, next⟩, last, ?_⟩, ?_, ?_⟩, log.symm⟩
  · rw [content]
  · rw [content, List.append_nil]
  · rw [stable]
  · rw [stable, content]
  · exact WalWriter.fileLen_active.trans (congrArg List.length content)
  · rw [List.append_nil]
    exact fits
  · rw [List.append_nil]
    exact folded
  · rw [log]
  · rw [log]
    exact (List.append_nil _).symm ▸ List.Sublist.refl _

end Recovered

def WalWriter.waiting (wal : WalWriter) : List WalRecord := wal.batch.waiters.map Prod.fst

/-- Everything is durable when no append waits. -/
def Drained (wal : WalWriter) : Prop := wal.batch.hasPending = false → wal.active.stable = wal.active.volatile

section Strict
variable {config : WalConfig} {wal : WalWriter} {call : AppendCall}
  {results : List (WalRecord × AppendResult)} {after : WalWriter}

/-- A sync before the write, if there is one; the appends it lets return. -/
inductive Flushes (wal : WalWriter) : WalWriter → List (WalRecord × AppendResult) → Prop
  | skipped : Flushes wal wal []
  | synced : Flushes wal (wal.flushStrictBatch none).1 wal.batch.waiters

/-- What an append does when the disk does not fail. -/
inductive QuietAppend (config : WalConfig) (wal : WalWriter) (call : AppendCall) : Appended → Prop
  | refused {first : WalWriter} {early : List (WalRecord × AppendResult)} {reason : String} : Flushes wal first early →
      WalWriter.encodeNext config (.new wal.nextLsn wal.nextSequence call.payload) = .error reason →
      QuietAppend config wal call ⟨first, some (.error reason), early⟩
  | written {first second ready : WalWriter} {early late : List (WalRecord × AppendResult)} {bytes : Bytes} :
      Flushes wal first early →
      WalWriter.encodeNext config (.new wal.nextLsn wal.nextSequence call.payload) = .ok bytes →
      Flushes first second late → (ready = second ∨ ready = second.rotate) →
      QuietAppend config wal call { ready.writeRecord config (.new wal.nextLsn wal.nextSequence call.payload) bytes call with
        released := early ++ late ++
          (ready.writeRecord config (.new wal.nextLsn wal.nextSequence call.payload) bytes call).released }

theorem flushes_of_needed (wal : WalWriter) (needed : Bool) : ∃ after results,
    (if needed then wal.flushStrictBatch none else (wal, .ok [])) = (after, .ok results) ∧ Flushes wal after results := by
  cases needed with
  | false => exact ⟨wal, [], rfl, .skipped⟩
  | true => exact ⟨_, _, rfl, .synced⟩

theorem Flushes.steady (flushes : Flushes wal after results) : Steady wal after := by
  cases flushes with
  | skipped => exact .refl wal
  | synced => exact steady_flush wal none

theorem append_quiet (config : WalConfig) (wal : WalWriter) (quiet : call.faults = .none) :
    QuietAppend config wal call (wal.append config call) := by
  obtain ⟨first, early, expired, flushes⟩ := flushes_of_needed wal
    (config.batch.enabled && wal.batch.hasPending && wal.batch.intervalExpired config.batch call.expiredBefore)
  have flushed : wal.flushExpired config call = (first, .ok early) := by
    unfold WalWriter.flushExpired
    rw [quiet]
    exact expired
  unfold WalWriter.append
  rw [flushed]
  dsimp only
  rw [flushes.steady.lsn, flushes.steady.sequence]
  cases encoded : WalWriter.encodeNext config (.new wal.nextLsn wal.nextSequence call.payload) with
  | error reason => exact .refused flushes encoded
  | ok bytes =>
    obtain ⟨second, late, pending, also⟩ := flushes_of_needed first
      (first.rotates config bytes.length && first.batch.hasPending)
    have flushed : first.flushPending config bytes.length call = (second, .ok late) := by
      unfold WalWriter.flushPending
      rw [quiet]
      exact pending
    dsimp only
    rw [flushed]
    refine .written flushes encoded also ?_
    split
    · exact .inr rfl
    · exact .inl rfl

theorem Flushes.drained (flushes : Flushes wal after results) (drained : Drained wal) :
    Drained after ∧ results.map Prod.fst ++ after.waiting = wal.waiting := by
  cases flushes with
  | skipped => exact ⟨drained, rfl⟩
  | synced =>
    refine ⟨fun _ => ?_, List.append_nil _⟩
    have active : (wal.flushStrictBatch none).1.active = wal.active.fsync := wal.active_fsync
    exact active ▸ rfl

theorem settle_strict (record : WalRecord) (offset size : Nat) (strict : call.mode = .strict) (quiet : call.faults = .none) :
    Drained (wal.settle config record offset size call).wal ∧
    (wal.settle config record offset size call).acks ++ (wal.settle config record offset size call).wal.waiting =
      wal.waiting ++ [record] ∧
    (wal.settle config record offset size call).accepted record = [record] := by
  have synced (wal : WalWriter) : (wal.flushStrictBatch none).1.active.stable = (wal.flushStrictBatch none).1.active.volatile := by
    have active : (wal.flushStrictBatch none).1.active = wal.active.fsync := wal.active_fsync
    exact active ▸ rfl
  unfold WalWriter.settle
  rw [strict, quiet]
  dsimp only
  split
  · refine ⟨fun _ => synced wal, ?_, rfl⟩
    change wal.waiting ++ [record] ++ [] = _
    rw [List.append_nil]
  · rcases wal.batch.afterRecordAppended_cases config.batch record
      ⟨record.lsn, record.sequence, wal.activeSegmentId, offset, size, true⟩ call.expiredAfter with
      ⟨batch, now, same⟩ | ⟨batch, later, joins⟩
    · rw [now]
      refine ⟨fun _ => synced _, ?_, rfl⟩
      change batch.waiters.map Prod.fst ++ [record] ++ [] = _
      rw [same, List.append_nil]
      rfl
    · rw [later]
      refine ⟨fun none => ?_, ?_, rfl⟩
      · have pending : batch.hasPending = true := decide_eq_true (joins.count ▸ Nat.succ_pos _)
        exact absurd (none.symm.trans pending) Bool.false_ne_true
      · change [] ++ batch.waiters.map Prod.fst = _
        rw [joins.waiters, List.map_append]
        rfl

section
variable (config : WalConfig) (wal : WalWriter) (record : WalRecord) (bytes : Bytes)

theorem writeRecord_quiet (quiet : call.faults = .none) : wal.writeRecord config record bytes call =
      ({ wal with dir := wal.dir.append wal.activeSegmentId bytes, activeDirSynced := true } : WalWriter).settle config record
        (wal.dir.fileLen wal.activeSegmentId) bytes.length call := by
  unfold WalWriter.writeRecord
  rw [quiet]
  simp [Faults.none]

theorem writeRecord_strict (strict : call.mode = .strict) (quiet : call.faults = .none) :
    Drained (wal.writeRecord config record bytes call).wal ∧
    (wal.writeRecord config record bytes call).acks ++ (wal.writeRecord config record bytes call).wal.waiting =
      wal.waiting ++ [record] ∧
    (wal.writeRecord config record bytes call).accepted record = [record] := by
  rw [writeRecord_quiet config wal record bytes quiet]
  exact settle_strict record _ _ strict quiet

end

theorem append_strict (config : WalConfig) (strict : call.mode = .strict) (quiet : call.faults = .none) (drained : Drained wal) :
    Drained (wal.append config call).wal ∧ (wal.append config call).acks ++ (wal.append config call).wal.waiting =
      wal.waiting ++ (wal.append config call).accepted (.new wal.nextLsn wal.nextSequence call.payload) := by
  generalize made : wal.append config call = appended
  cases made ▸ append_quiet config wal quiet with
  | refused flushes encoded =>
    obtain ⟨drained, earlier⟩ := flushes.drained drained
    refine ⟨drained, ?_⟩
    rw [← earlier]
    change _ ++ [] ++ _ = _ ++ []
    rw [List.append_nil, List.append_nil]
  | @written first second ready early late bytes flushes encoded also next =>
    obtain ⟨drained, earlier⟩ := flushes.drained drained
    obtain ⟨drained, later⟩ := also.drained drained
    have same : ready.waiting = second.waiting := by
      rcases next with rfl | rfl <;> rfl
    obtain ⟨drained, returned, accepted⟩ := writeRecord_strict config ready
      (WalRecord.new wal.nextLsn wal.nextSequence call.payload) bytes strict quiet
    refine ⟨drained, ?_⟩
    change _ = _ ++ (ready.writeRecord config _ bytes call).accepted _
    rw [accepted, Appended.acks_release, List.append_assoc, returned, same, ← earlier, ← later]
    simp only [List.append_assoc]

end Strict

def AppendCall.Strict (call : AppendCall) : Prop := call.mode = .strict ∧ call.faults = .none

namespace LogRun

/-- The run that goes on after recovery. The recovered records count as appended
and acknowledged. -/
def resume (config : WalConfig) (dir : WalDir) : LogRun :=
  ⟨reopen config dir, (recoverWal config dir).1.log, (recoverWal config dir).1.log, (recoverWal config dir).1.log⟩

/-- A run of strict appends that nothing has disturbed. -/
structure Steadfast (config : WalConfig) (run : LogRun) : Prop where
  faultless : Faultless config run
  drained : Drained run.wal
  order : run.acked ++ run.wal.waiting = run.appended

variable {config : WalConfig} {run : LogRun} {call : AppendCall} {dir : WalDir}

theorem Steadfast.step (steadfast : Steadfast config run) (strict : call.Strict) : Steadfast config (run.step config call) := by
  obtain ⟨drained, order⟩ := append_strict config strict.1 strict.2 steadfast.drained
  have closes : ClosesSynced config run.wal call := fun _ none => steadfast.drained none
  refine ⟨faultless_step steadfast.faultless strict.2 closes, drained, ?_⟩
  change run.acked ++ _ ++ (run.wal.append config call).wal.waiting = run.appended ++ _
  rw [List.append_assoc, order, ← List.append_assoc, steadfast.order]

theorem Steadfast.recovered (steadfast : Steadfast config run) :
    run.acked <+: run.recovered config ∧ run.recovered config <+: run.appended ∧
      (run.wal.waiting = [] → run.recovered config = run.appended) := by
  obtain ⟨front, enough⟩ := steadfast.faultless.recovered
  have acked : run.acked <+: run.appended := ⟨_, steadfast.order⟩
  refine ⟨List.prefix_of_prefix_length_le acked front enough.length_le, front, fun none => ?_⟩
  have order := steadfast.order
  rw [none, List.append_nil] at order
  rw [order] at enough
  exact front.eq_of_length (le_antisymm front.length_le enough.length_le)

theorem steadfast_resume (synced : ∀ file ∈ dir.files, file.stable = file.volatile)
    (empty : ∀ file ∈ dir.ignored config, file.volatile = []) : Steadfast config (resume config dir) := by
  obtain ⟨closed, current, safe, log⟩ := safe_reopen synced empty
  refine ⟨⟨closed, current, current, safe, log⟩, fun _ => ?_, List.append_nil _⟩
  have whole := safe.kept.cut
  rw [List.append_nil] at whole
  have length := safe.kept.stable.length_le
  have enough := (whole.trans safe.kept.durable).length_le
  exact safe.kept.stable.eq_of_length (le_antisymm length enough)

end LogRun

/-- Recovery finds the same again; and after strict appends and a crash it finds
what it had found and then the new records, all of them if all have returned. -/
structure Repeatable (config : WalConfig) (dir : WalDir) : Prop where
  again : (recoverWal config (recoverWal config dir).2).1.log = (recoverWal config dir).1.log
  onward : ∀ {run : LogRun}, Runs.Reaches (LogRun.step config) (fun _ call => call.Strict) (.resume config dir) run →
    run.acked <+: run.recovered config ∧ run.recovered config <+: run.appended ∧
      (run.wal.waiting = [] → run.recovered config = run.appended)

theorem repeatable_of_empty {config : WalConfig} {dir : WalDir} (synced : ∀ file ∈ dir.files, file.stable = file.volatile)
    (empty : ∀ file ∈ dir.ignored config, file.volatile = []) : Repeatable config dir := by
  obtain ⟨before, lists, last, files, contents, log, fits, folded⟩ := recoverWal_frames (List.append_nil _).symm empty
  rw [← (files.trans (List.append_nil _))] at contents
  refine ⟨(recover_frames contents fits folded).trans log.symm, fun reached => ?_⟩
  exact (reached.invariant (LogRun.Steadfast config) (LogRun.steadfast_resume synced empty) LogRun.Steadfast.step).recovered

end KayaDB.Wal
