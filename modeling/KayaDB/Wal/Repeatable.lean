import KayaDB.Wal.Continuation

/-! Segments that recovery has not read but that hold something. Whatever is
written behind them stays hidden, and they may be read the next time. -/

namespace KayaDB.Wal
open Raft (Bytes)
open Framing

/-- A file of the log and what lies before it, seen while records are appended:
they go behind what the file held, or to later files. -/
structure Behind (low : Nat) (older : List SegmentFile) (front : Bytes) (wal : WalWriter) (added : List WalRecord) : Prop where
  reached : low ≤ wal.activeSegmentId
  older : olderFiles low wal.dir.files = older
  content : ∃ part, part <+: added ∧ (activeFile low wal.dir.files).volatile = front ++ frames encoding part ∧
    (low = wal.activeSegmentId → part = added)
  whole : front <+: (activeFile low wal.dir.files).stable
  stable : (activeFile low wal.dir.files).stable <+: (activeFile low wal.dir.files).volatile

namespace Behind
variable {low : Nat} {older : List SegmentFile} {front : Bytes} {wal : WalWriter} {added : List WalRecord}
  {call : AppendCall}

section
variable (behind : Behind low older front wal added)
include behind

theorem congr {other : WalWriter} (dir : other.dir = wal.dir) (id : other.activeSegmentId = wal.activeSegmentId) :
    Behind low older front other added := by
  obtain ⟨reached, older, content, whole, stable⟩ := behind
  rw [← dir] at older content whole stable
  rw [← id] at reached content
  exact ⟨reached, older, content, whole, stable⟩

theorem replaced {dir : WalDir} {file : SegmentFile} {more : List WalRecord}
    (below : olderFiles low dir.files = older) (found : activeFile low dir.files = file)
    (content : ∃ part, part <+: more ∧ file.volatile = front ++ frames encoding part ∧ (low = wal.activeSegmentId →
      part = more)) (whole : front <+: file.stable) (stable : file.stable <+: file.volatile) :
    Behind low older front (wal.withDir dir) more := by
  subst found
  exact ⟨behind.reached, below, content, whole, stable⟩

theorem fsync : Behind low older front (wal.withDir (wal.dir.fsyncFile wal.activeSegmentId)) added := by
  have below : olderFiles low (wal.dir.fsyncFile wal.activeSegmentId).files = older :=
    (older_update behind.reached SegmentFile.fsync fun _ => rfl).trans behind.older
  by_cases here : low = wal.activeSegmentId
  · have found : activeFile low (wal.dir.fsyncFile wal.activeSegmentId).files = (activeFile low wal.dir.files).fsync := by
      rw [here]
      exact wal.active_fsync
    exact behind.replaced below found behind.content (behind.whole.trans behind.stable) List.prefix_rfl
  · have found : activeFile low (wal.dir.fsyncFile wal.activeSegmentId).files = activeFile low wal.dir.files :=
      congrArg (Option.getD · _) (find_update_other here SegmentFile.fsync fun _ => rfl)
    exact behind.replaced below found behind.content behind.whole behind.stable

theorem write (record : WalRecord) :
    Behind low older front (wal.withDir (wal.dir.append wal.activeSegmentId (encoding record))) (added ++ [record]) := by
  have below : olderFiles low (wal.dir.append wal.activeSegmentId (encoding record)).files = older :=
    (older_appendTo behind.reached).trans behind.older
  obtain ⟨part, front, content, all⟩ := behind.content
  by_cases here : low = wal.activeSegmentId
  · have found : activeFile low (wal.dir.append wal.activeSegmentId (encoding record)).files =
        { activeFile low wal.dir.files with volatile := (activeFile low wal.dir.files).volatile ++ encoding record } := by
      rw [here]
      exact wal.active_append _
    obtain rfl := all here
    refine behind.replaced below found ⟨part ++ [record], List.prefix_rfl, ?_, fun _ => rfl⟩ behind.whole
      (behind.stable.trans (List.prefix_append _ _))
    change (activeFile low wal.dir.files).volatile ++ encoding record = _
    rw [content, frames_append, frames_cons, frames_nil, List.append_nil, List.append_assoc]
  · have found : activeFile low (wal.dir.append wal.activeSegmentId (encoding record)).files = activeFile low wal.dir.files :=
      congrArg (Option.getD · _) (find_appendTo_other here)
    refine behind.replaced below found ⟨part, front.trans (List.prefix_append _ _), content, fun same => ?_⟩ behind.whole
      behind.stable
    exact absurd same here

theorem rotate : Behind low older front wal.rotate added := by
  obtain ⟨part, front, content, -⟩ := behind.content
  refine ⟨behind.reached.trans (Nat.le_succ _), behind.older, ⟨part, front, content, fun same => ?_⟩, behind.whole, behind.stable⟩
  exact absurd behind.reached (same ▸ Nat.not_succ_le_self _)

theorem flush : Behind low older front (wal.flushStrictBatch none).1 added :=
  behind.fsync.congr rfl rfl

theorem flushes {after : WalWriter} {results : List (WalRecord × AppendResult)}
    (flushes : Flushes wal after results) : Behind low older front after added := by
  cases flushes with
  | skipped => exact behind
  | synced => exact behind.flush

theorem settle (config : WalConfig) (record : WalRecord) (offset size : Nat) (quiet : call.faults = .none) :
    Behind low older front (wal.settle config record offset size call).wal added := by
  unfold WalWriter.settle
  cases call.mode with
  | relaxed => exact behind.congr rfl rfl
  | strict =>
    rw [quiet]
    dsimp only
    split
    · exact behind.flush.congr rfl rfl
    · split
      · exact behind.congr rfl rfl
      · exact behind.flush.congr rfl rfl

theorem append (config : WalConfig) (strict : call.Strict) :
    Behind low older front (wal.append config call).wal
      (added ++ (wal.append config call).accepted (.new wal.nextLsn wal.nextSequence call.payload)) := by
  generalize made : wal.append config call = appended
  cases made ▸ append_quiet config wal strict.2 with
  | refused flushes encoded =>
    change Behind low older front _ (added ++ [])
    rw [List.append_nil]
    exact behind.flushes flushes
  | @written first second ready early late bytes flushes encoded also next =>
    have before : Behind low older front ready added := by
      rcases next with rfl | rfl
      · exact (behind.flushes flushes).flushes also
      · exact ((behind.flushes flushes).flushes also).rotate
    obtain ⟨-, -, accepted⟩ := writeRecord_strict config ready
      (WalRecord.new wal.nextLsn wal.nextSequence call.payload) bytes strict.1 strict.2
    change Behind low older front (ready.writeRecord config _ bytes call).wal
      (added ++ (ready.writeRecord config _ bytes call).accepted _)
    rw [accepted, writeRecord_quiet config ready _ bytes strict.2, ← (encodeNext_ok rfl encoded).1]
    refine settle ?_ config _ _ _ strict.2
    exact (before.write _).congr rfl rfl

end

end Behind

def noopCall : AppendCall := ⟨.noop, .strict, true, true, .none⟩

section Noop
variable {lsn sequence : UInt64}
  {bytes front : Bytes}

theorem encoding_noop : ∃ crc, encoding (.new lsn sequence .noop) =
    Raft.toLeBytes 4 walMagic ++ Raft.toLeBytes 2 walVersion ++ Raft.toLeBytes 2 walHeaderLen ++ Raft.toLeBytes 2 0 ++
      Raft.toLeBytes 2 3 ++ Raft.toLeBytes 8 lsn.toNat ++ Raft.toLeBytes 8 sequence.toNat ++ Raft.toLeBytes 4 0 ++
      Raft.toLeBytes 4 crc ++ Raft.toLeBytes 4 (crc32c []).toNat := by
  have none : encodePayload (WalRecord.new lsn sequence .noop).payload = .ok [] := rfl
  rw [encoding_eq none (by decide), List.append_nil]
  exact ⟨_, rfl⟩

theorem length_noop : (encoding (.new lsn sequence .noop)).length = walHeaderLen := by
  obtain ⟨crc, bytes⟩ : ∃ crc, encoding (.new lsn sequence .noop) = _ := encoding_noop
  rw [bytes]
  rfl

theorem encodeNext_noop {config : WalConfig} (room : walHeaderLen ≤ config.maxRecordBytes) :
    WalWriter.encodeNext config (.new lsn sequence .noop) = .ok (encoding (.new lsn sequence .noop)) := by
  have made : encodeRecord (.new lsn sequence .noop) = .ok (encoding (.new lsn sequence .noop)) := by
    have none : encodePayload (WalRecord.new lsn sequence .noop).payload = .ok [] := rfl
    rw [encoding_eq none (by decide)]
    exact encodeRecord_eq none (by decide)
  unfold WalWriter.encodeNext
  rw [made]
  simp only [bind, Except.bind]
  rw [length_noop, if_neg (by decide)]
  simp only [pure, Except.pure]
  rw [if_neg (not_lt.mpr room)]

/-- Bytes that are the same in all noops, with their places. -/
def noopBytes : List (Nat × UInt8) :=
  [(0, 0x41), (1, 0x59), (2, 0x41), (3, 0x4b), (4, 1), (5, 0), (6, 40), (7, 0), (8, 0), (9, 0), (10, 3), (11, 0), (28, 0),
    (29, 0), (30, 0), (31, 0), (36, 0), (37, 0), (38, 0), (39, 0)]

theorem noop_bytes (lsn sequence : UInt64) :
    ∀ known ∈ noopBytes, (encoding (.new lsn sequence .noop))[known.1]? = some known.2 := by
  obtain ⟨crc, bytes⟩ : ∃ crc, encoding (.new lsn sequence .noop) = _ := encoding_noop
  rw [bytes]
  simp only [noopBytes, List.forall_mem_cons]
  repeat' apply And.intro
  all_goals first | rfl | nofun

theorem noop_shift : ∀ shift : Fin 40, shift ≠ 0 → ∃ first ∈ noopBytes, ∃ second ∈ noopBytes,
    first.2 ≠ second.2 ∧ second.1 = first.1 + (second.1 - first.1) / shift.val * shift.val := by
  decide +kernel

theorem periodic (again : bytes <+: front ++ bytes) (times : Nat) : ∀ place,
    place + times * front.length < bytes.length → bytes[place]? = bytes[place + times * front.length]? := by
  obtain ⟨rest, split⟩ := again
  induction times with
  | zero =>
    intro place _
    rw [Nat.zero_mul, Nat.add_zero]
  | succ times ih =>
    intro place inside
    rw [Nat.succ_mul, ← Nat.add_assoc] at inside ⊢
    have moved : (front ++ bytes)[place + times * front.length + front.length]? = bytes[place + times * front.length]? := by
      rw [List.getElem?_append_right (Nat.le_add_left _ _), Nat.add_sub_cancel]
    rw [ih place (by omega), ← moved, ← split, List.getElem?_append_left inside]

/-- A noop does not begin with a part of itself and then itself. -/
theorem noop_aperiodic (filled : front ≠ []) (short : front.length < walHeaderLen) :
    ¬ encoding (.new lsn sequence .noop) <+: front ++ encoding (.new lsn sequence .noop) := by
  intro again
  obtain ⟨first, known, second, also, different, apart⟩ := noop_shift ⟨front.length, short⟩ fun zero =>
    filled (List.eq_nil_of_length_eq_zero (congrArg Fin.val zero))
  have here := noop_bytes lsn sequence first known
  have there := noop_bytes lsn sequence second also
  have inside := (List.getElem?_eq_some_iff.mp there).1
  rw [apart] at there inside
  have same := periodic again _ first.1 inside
  rw [there, here] at same
  exact different (Option.some.inj same)

end Noop

/-- A batch knows how many appends wait, each with at least one byte. -/
def Counted (batch : WalBatchWriter) : Prop :=
  batch.pendingCount = batch.waiters.length ∧ batch.waiters.length ≤ batch.pendingBytes

def WalBatchConfig.room (config : WalBatchConfig) : Nat := config.batchMaxRecords + config.batchMaxBytes

section Acknowledged
variable {config : WalConfig} {wal : WalWriter}

theorem Flushes.counted {after : WalWriter} {results : List (WalRecord × AppendResult)} (flushes : Flushes wal after results)
    (counted : Counted wal.batch) : Counted after.batch := by
  cases flushes with
  | skipped => exact counted
  | synced => exact ⟨rfl, le_rfl⟩

theorem Joins.room {batch after : WalBatchWriter} {record : WalRecord} {result : AppendResult} {config : WalBatchConfig}
    (joins : Joins config batch after record result true) (enabled : config.enabled = true) (counted : Counted batch)
    (positive : 0 < result.encodedLen) : Counted after ∧ after.waiters.length ≤ config.room := by
  have size : after.waiters.length = batch.waiters.length + 1 := by simp [joins.waiters]
  obtain ⟨count, bytes⟩ := counted
  have again : Counted after := by
    refine ⟨?_, ?_⟩
    · rw [joins.count, size, count]
    · rw [joins.bytes, size]
      omega
  refine ⟨again, ?_⟩
  have waits := joins.waits
  simp only [WalBatchWriter.shouldFlushNow, WalBatchWriter.intervalExpired, joins.started, Bool.or_eq_false_iff,
    Bool.and_eq_false_iff, decide_eq_false_iff_not, Bool.and_true, not_not] at waits
  simp only [WalBatchConfig.enabled, Bool.or_eq_true, decide_eq_true_eq] at enabled
  unfold WalBatchConfig.room
  have := again.1
  have := again.2
  omega

/-- Some append has returned, or not too many wait. -/
def Progress (config : WalConfig) (appended : Appended) : Prop :=
  Counted appended.wal.batch ∧ (appended.acks ≠ [] ∨ appended.wal.waiting.length ≤ config.batch.room)

theorem settle_noop (counted : Counted wal.batch) (record : WalRecord) (offset : Nat) {size : Nat} (positive : 0 < size) :
    Progress config (wal.settle config record offset size noopCall) := by
  unfold WalWriter.settle
  dsimp only [noopCall]
  split
  · refine ⟨⟨rfl, le_rfl⟩, .inl ?_⟩
    exact fun none => nomatch (List.append_eq_nil_iff.mp none).2
  next disabled =>
    have enabled : config.batch.enabled = true := by simpa using disabled
    rcases wal.batch.afterRecordAppended_cases config.batch record
      ⟨record.lsn, record.sequence, wal.activeSegmentId, offset, size, true⟩ true with
      ⟨batch, now, -⟩ | ⟨batch, later, joins⟩
    · rw [now]
      refine ⟨⟨rfl, le_rfl⟩, .inl ?_⟩
      exact fun none => nomatch (List.append_eq_nil_iff.mp none).2
    · rw [later]
      obtain ⟨counted, room⟩ := joins.room enabled counted positive
      refine ⟨counted, .inr ?_⟩
      exact (List.length_map _).trans_le room

theorem writeRecord_noop (counted : Counted wal.batch) (record : WalRecord) {bytes : Bytes} (positive : 0 < bytes.length) :
    Progress config (wal.writeRecord config record bytes noopCall) := by
  rw [writeRecord_quiet config wal record bytes rfl]
  refine settle_noop ?_ record _ positive
  exact counted

section
variable (room : walHeaderLen ≤ config.maxRecordBytes)
include room

theorem append_noop (counted : Counted wal.batch) :
    Progress config (wal.append config noopCall) ∧ (wal.append config noopCall).accepted (.new wal.nextLsn wal.nextSequence .noop) =
      [.new wal.nextLsn wal.nextSequence .noop] := by
  have quiet : noopCall.faults = .none := rfl
  generalize made : wal.append config noopCall = appended
  cases made ▸ append_quiet config wal quiet with
  | refused flushes encoded => cases (encodeNext_noop room).symm.trans encoded
  | @written first second ready early late bytes flushes encoded also next =>
    cases (encodeNext_noop room).symm.trans encoded
    have before : Counted ready.batch := by
      rcases next with rfl | rfl
      · exact also.counted (flushes.counted counted)
      · exact also.counted (flushes.counted counted)
    obtain ⟨-, -, accepted⟩ := writeRecord_strict config ready (.new wal.nextLsn wal.nextSequence .noop)
      (encoding (.new wal.nextLsn wal.nextSequence .noop)) (rfl : noopCall.mode = .strict) quiet
    have positive : 0 < (encoding (.new wal.nextLsn wal.nextSequence .noop)).length := by
      rw [length_noop]
      decide
    obtain ⟨counted, progress⟩ := writeRecord_noop before (.new wal.nextLsn wal.nextSequence .noop) positive
    refine ⟨⟨counted, progress.imp_left fun some => ?_⟩, accepted⟩
    rw [Appended.acks_release]
    exact fun none => some (List.append_eq_nil_iff.mp none).2

theorem noop_waits (counted : Counted wal.batch) (drained : Drained wal)
    (none : (wal.append config noopCall).acks = []) :
    (wal.append config noopCall).wal.waiting.length = wal.waiting.length + 1 ∧
      (wal.append config noopCall).wal.waiting.length ≤ config.batch.room := by
  obtain ⟨⟨-, progress⟩, accepted⟩ := append_noop room counted
  obtain ⟨-, order⟩ := append_strict config (rfl : noopCall.mode = .strict) rfl drained
  have lengths := congrArg List.length order
  rw [none, List.nil_append, List.length_append] at lengths
  change _ = _ + ((wal.append config noopCall).accepted (.new _ _ .noop)).length at lengths
  rw [accepted, List.length_singleton] at lengths
  exact ⟨lengths, progress.resolve_left fun some => some none⟩

theorem some_ack : ∀ (left : Nat) {run : LogRun}, Drained run.wal →
    Counted run.wal.batch → config.batch.room < run.wal.waiting.length + left + 1 → ∃ after more,
      Runs.Reaches (LogRun.step config) (fun _ call => call.Strict) (run.step config noopCall) after ∧
        after.acked = run.acked ++ more ∧ more ≠ [] := by
  intro left
  induction left with
  | zero =>
    intro run drained counted enough
    refine ⟨_, _, .refl, rfl, fun none => ?_⟩
    obtain ⟨lengths, few⟩ := noop_waits room counted drained none
    omega
  | succ left ih =>
    intro run drained counted enough
    by_cases none : (run.wal.append config noopCall).acks = []
    · obtain ⟨lengths, few⟩ := noop_waits room counted drained none
      have still : (run.step config noopCall).acked = run.acked := by
        change run.acked ++ _ = run.acked
        rw [none, List.append_nil]
      have closer : config.batch.room < (run.step config noopCall).wal.waiting.length + left + 1 := by
        change _ < (run.wal.append config noopCall).wal.waiting.length + left + 1
        omega
      obtain ⟨after, more, reached, acked, some⟩ := ih (append_strict config rfl rfl drained).1 (append_noop room counted).1.1 closer
      rw [still] at acked
      exact ⟨after, more, .head ⟨noopCall, ⟨rfl, rfl⟩, rfl⟩ reached, acked, some⟩
    · exact ⟨_, _, .refl, rfl, none⟩

end

end Acknowledged

section Unread
variable {config : WalConfig} {dir : WalDir}
  {file : SegmentFile} {before after : List SegmentFile}

/-- The first segment behind the place where recovery stopped that holds anything. -/
def WalDir.unread (config : WalConfig) (dir : WalDir) : Option SegmentFile :=
  (dir.ignored config).find? fun file => !file.volatile.isEmpty

/-- A file that does not begin with the record that recovery would take next. -/
def Barred (config : WalConfig) (dir : WalDir) (bytes : Bytes) : Prop :=
  ∀ record size, decoded config.maxRecordBytes bytes = some (record, size) →
    follow ((recoverWal config dir).1.lastLsn.map (· + 1)) record = none

theorem unread_eq_none : dir.unread config = none ↔ ∀ file ∈ dir.ignored config, file.volatile = [] := by
  unfold WalDir.unread
  simp

theorem unread_around (unread : dir.unread config = some file) : file.volatile ≠ [] ∧
    ∃ before after, (recoverWal config dir).2.files = before ++ file :: after ∧
      Through (decoded config.maxRecordBytes) follow none (before.map SegmentFile.volatile) (recoverWal config dir).1.log
        ((recoverWal config dir).1.lastLsn.map (· + 1)) := by
  obtain ⟨filled, empties, later, split, empty⟩ := List.find?_eq_some_iff_append.mp unread
  obtain ⟨before, lists, last, files, contents, log, fits, folded⟩ := recoverWal_frames split fun other inside => by
    simpa using empty other inside
  have next : last = (recoverWal config dir).1.lastLsn.map (· + 1) := by
    rw [← log] at folded
    rw [follow_last folded]
    unfold WalRecoveryReport.log WalRecoveryReport.lastLsn
    rw [List.getLast?_map, Option.map_map, Option.map_map]
    rfl
  refine ⟨by simpa using filled, before, later, files, ?_⟩
  rw [contents, log, ← next]
  exact .frames (framed config.maxRecordBytes) fits folded

theorem again_iff_barred (unread : dir.unread config = some file) :
    (recoverWal config (recoverWal config dir).2).1.log = (recoverWal config dir).1.log ↔ Barred config dir file.volatile := by
  obtain ⟨filled, before, after, files, through⟩ := unread_around unread
  have recovers := recoverSegments_recovers config.maxRecordBytes (recoverWal config dir).2.files none
  change Recovers _ _ _ none _ (recoverWal config (recoverWal config dir).2).1.log _ at recovers
  rw [files, List.map_append, List.map_cons] at recovers
  obtain ⟨more, left, later, found⟩ := recovers.behind through
  rw [found]
  rcases later.first filled with ⟨rfl, barred⟩ | ⟨record, size, rest, decoded, accepted, rfl⟩
  · exact ⟨fun _ => barred, fun _ => List.append_nil _⟩
  · constructor
    · intro same
      simp at same
    · exact fun barred => absurd (barred record size decoded) accepted

theorem drained_reopen (synced : ∀ file ∈ dir.files, file.stable = file.volatile) : Drained (reopen config dir) := by
  intro _
  unfold WalWriter.active activeFile
  cases found : (reopen config dir).dir.files.find? fun file => decide (file.id = (reopen config dir).activeSegmentId) with
  | none => rfl
  | some file =>
    exact recoverSegments_synced config.maxRecordBytes dir.files none synced file (List.mem_of_find?_eq_some found)

theorem files_at {files : List SegmentFile} (ordered : files.Pairwise fun first second => first.id < second.id)
    (split : files = before ++ file :: after) :
    olderFiles file.id files = before ∧ activeFile file.id files = file := by
  subst split
  obtain ⟨-, rest, below⟩ := List.pairwise_append.mp ordered
  have small : ∀ other ∈ before, other.id < file.id := fun other inside => below other inside file List.mem_cons_self
  have large := (List.pairwise_cons.mp rest).1
  unfold olderFiles activeFile
  constructor
  · rw [List.filter_append, List.filter_eq_self.mpr fun other inside => decide_eq_true (small other inside)]
    rw [List.filter_eq_nil_iff.mpr ?_, List.append_nil]
    intro other inside
    rcases List.mem_cons.mp inside with rfl | later
    · simp
    · simpa using (large other later).le
  · rw [List.find?_append, List.find?_eq_none.mpr fun other inside => by simpa using (small other inside).ne]
    simp

theorem behind_reopen (synced : ∀ file ∈ dir.files, file.stable = file.volatile)
    (files : (recoverWal config dir).2.files = before ++ file :: after) :
    Behind file.id before file.volatile (reopen config dir) [] := by
  obtain ⟨older, found⟩ := files_at (recoverWal config dir).2.ordered files
  have inside : file ∈ (recoverWal config dir).2.files := by
    rw [files]
    exact List.mem_append_right _ List.mem_cons_self
  have same := recoverSegments_synced config.maxRecordBytes dir.files none synced file inside
  have held : activeFile file.id (reopen config dir).dir.files = file := found
  refine ⟨WalWriter.top_openAt _ _ _ file inside, older, ⟨[], List.prefix_rfl, ?_, fun _ => rfl⟩, ?_, ?_⟩
  · rw [held, frames_nil, List.append_nil]
  · rw [held, same]
  · rw [held, same]

theorem noop_hidden {lsn sequence : UInt64} {front bytes : Bytes} {part later : List WalRecord} (barred : Barred config dir front)
    (filled : front ≠ []) (whole : front <+: bytes) (front_ : bytes <+: front ++ frames encoding part)
    (first : part <+: .new lsn sequence .noop :: later) {record : WalRecord} {size : Nat}
    (decoded_ : decoded config.maxRecordBytes bytes = some (record, size))
    (accepted : follow ((recoverWal config dir).1.lastLsn.map (· + 1)) record ≠ none) : record ≠ .new lsn sequence .noop := by
  rintro rfl
  obtain ⟨fits, tail, rfl, -⟩ := (framed config.maxRecordBytes).sound decoded_
  have absent : ¬ encoding (.new lsn sequence .noop) <+: front := by
    rintro ⟨rest, rfl⟩
    exact accepted (barred _ _ ((framed config.maxRecordBytes).complete rest fits))
  have starts := (List.prefix_append _ tail).trans front_
  cases part with
  | nil =>
    rw [frames_nil, List.append_nil] at starts
    exact absent starts
  | cons other part =>
    obtain ⟨rfl, -⟩ := List.cons_prefix_cons.mp first
    rw [frames_cons, ← List.append_assoc] at starts
    by_cases short : front.length < walHeaderLen
    · refine noop_aperiodic filled short (List.prefix_of_prefix_length_le starts (List.prefix_append _ _) ?_)
      rw [List.length_append]
      exact Nat.le_add_left _ _
    · refine absent (List.prefix_of_prefix_length_le starts ((List.prefix_append _ _).trans (List.prefix_append _ _)) ?_)
      rw [length_noop]
      exact not_lt.mp short

end Unread

/-- A run that has begun with a record behind a file that was not read. -/
structure Obstructed (low : Nat) (older : List SegmentFile) (front : Bytes) (log : List WalRecord) (record : WalRecord)
    (run : LogRun) : Prop where
  drained : Drained run.wal
  order : run.acked ++ run.wal.waiting = run.appended
  behind : ∃ later, run.appended = log ++ record :: later ∧ Behind low older front run.wal (record :: later)

section Continue
variable {config : WalConfig} {dir : WalDir} {low : Nat} {older : List SegmentFile} {front : Bytes} {record : WalRecord}
  {log : List WalRecord} {run : LogRun}

theorem Obstructed.step {call : AppendCall} (obstructed : Obstructed low older front log record run) (strict : call.Strict) :
    Obstructed low older front log record (run.step config call) := by
  obtain ⟨drained, order⟩ := append_strict config strict.1 strict.2 obstructed.drained
  obtain ⟨later, appended, behind⟩ := obstructed.behind
  refine ⟨drained, ?_, later ++ _, ?_, behind.append config strict⟩
  · change run.acked ++ _ ++ (run.wal.append config call).wal.waiting = run.appended ++ _
    rw [List.append_assoc, order, ← List.append_assoc, obstructed.order]
  · change run.appended ++ _ = _
    rw [appended, List.append_assoc, List.cons_append]

theorem Obstructed.recovered {last : Option UInt64} (obstructed : Obstructed low older front log record run) (filled : front ≠ [])
    (through : Through (decoded config.maxRecordBytes) follow none (older.map SegmentFile.stable) log last) :
    ∃ bytes part later more, front <+: bytes ∧ bytes <+: front ++ frames encoding part ∧ part <+: record :: later ∧
      run.recovered config = log ++ more ∧
      (more = [] ∨ ∃ other size rest, decoded config.maxRecordBytes bytes = some (other, size) ∧
        follow last other ≠ none ∧ more = other :: rest) := by
  obtain ⟨later, -, behind⟩ := obstructed.behind
  obtain ⟨part, first, content, -⟩ := behind.content
  have recovers := recoverSegments_recovers config.maxRecordBytes (run.wal.dir.files.map SegmentFile.crash) none
  have contents : (run.wal.dir.files.map SegmentFile.crash).map SegmentFile.volatile = run.wal.dir.files.map SegmentFile.stable := by
    rw [List.map_map]
    rfl
  have split : run.wal.dir.files = olderFiles low run.wal.dir.files ++ _ ++ _ := files_around run.wal.dir.ordered
  have whole := behind.whole
  have stable := behind.stable
  rw [content] at stable
  change Recovers _ _ _ none _ (run.recovered config) _ at recovers
  unfold activeFile at whole stable
  cases found : run.wal.dir.files.find? fun file => decide (file.id = low) with
  | none =>
    rw [found] at whole
    exact absurd (List.prefix_nil.mp whole) filled
  | some file =>
    rw [found] at whole stable split
    rw [contents, split, behind.older, List.append_assoc, List.map_append] at recovers
    obtain ⟨more, left, rest, log⟩ := recovers.behind through
    have present : file.stable ≠ [] := fun empty => filled (List.prefix_nil.mp (empty ▸ whole))
    refine ⟨file.stable, part, later, more, whole, stable, first, log, ?_⟩
    exact (rest.first present).imp_left And.left

/-- Strict appends behind a file that was not read return, but are not found. -/
theorem obstructed_lost {file : SegmentFile} (synced : ∀ file ∈ dir.files, file.stable = file.volatile)
    (unread : dir.unread config = some file) (barred : Barred config dir file.volatile)
    (room : walHeaderLen ≤ config.maxRecordBytes) :
    ∃ run, Runs.Reaches (LogRun.step config) (fun _ call => call.Strict) (.resume config dir) run ∧
      ¬ run.acked <+: run.recovered config := by
  obtain ⟨filled, before, after, files, through⟩ := unread_around unread
  have behind := behind_reopen synced files
  have counted : Counted (LogRun.resume config dir).wal.batch := ⟨rfl, le_rfl⟩
  have drained : Drained (LogRun.resume config dir).wal := drained_reopen synced
  obtain ⟨last, more, reached, acked, some⟩ := some_ack room config.batch.room drained counted (by omega)
  obtain ⟨-, accepted⟩ := append_noop room counted
  have start : Obstructed file.id before file.volatile (recoverWal config dir).1.log
      (.new (reopen config dir).nextLsn (reopen config dir).nextSequence .noop)
      ((LogRun.resume config dir).step config noopCall) := by
    obtain ⟨drained, order⟩ := append_strict config (rfl : noopCall.mode = .strict) rfl drained
    have appended : ((LogRun.resume config dir).step config noopCall).appended = (recoverWal config dir).1.log ++
        [.new (reopen config dir).nextLsn (reopen config dir).nextSequence .noop] := congrArg (_ ++ ·) accepted
    refine ⟨drained, ?_, [], appended, ?_⟩
    · change (recoverWal config dir).1.log ++ _ ++ ((LogRun.resume config dir).wal.append config noopCall).wal.waiting = _
      rw [List.append_assoc, order]
      rfl
    · have grown := behind.append config (⟨rfl, rfl⟩ : noopCall.Strict)
      rw [List.nil_append] at grown
      exact accepted ▸ grown
  have ended := reached.invariant (Obstructed _ _ _ _ _) start Obstructed.step
  have stable : before.map SegmentFile.stable = before.map SegmentFile.volatile := by
    refine List.map_congr_left fun other inside => ?_
    apply recoverSegments_synced config.maxRecordBytes dir.files none synced other
    change other ∈ (recoverWal config dir).2.files
    rw [files]
    exact List.mem_append_left _ inside
  obtain ⟨bytes, part, later, found, whole, cut, first, recovered, taken⟩ := ended.recovered filled (stable ▸ through)
  refine ⟨last, .head ⟨noopCall, ⟨rfl, rfl⟩, rfl⟩ reached, fun present => ?_⟩
  rw [acked, recovered] at present
  have present := (List.prefix_append_right_inj _).mp present
  -- The first append that returned is the first that was made.
  obtain ⟨rest, appended, -⟩ := ended.behind
  have order := ended.order
  rw [acked, appended, List.append_assoc] at order
  have order := List.append_cancel_left order
  cases more with
  | nil => exact some rfl
  | cons head more =>
    obtain ⟨rfl, -⟩ := List.cons.inj order
    rcases taken with rfl | ⟨other, size, tail, decoded, accepted, rfl⟩
    · exact nomatch List.prefix_nil.mp present
    · obtain ⟨rfl, -⟩ := List.cons_prefix_cons.mp present
      exact noop_hidden barred filled whole cut first decoded accepted rfl

theorem append_closed {wal : WalWriter} (closed : config.maxRecordBytes < walHeaderLen) (idle : wal.batch.hasPending = false)
    (call : AppendCall) : ∃ reason, wal.append config call = ⟨wal, some (.error reason), []⟩ := by
  have skipped : wal.flushExpired config call = (wal, .ok []) := by
    unfold WalWriter.flushExpired
    rw [idle, Bool.and_false, Bool.false_and]
    rfl
  unfold WalWriter.append
  rw [skipped]
  dsimp only
  cases encoded : WalWriter.encodeNext config (.new wal.nextLsn wal.nextSequence call.payload) with
  | error reason => exact ⟨reason, rfl⟩
  | ok bytes =>
    obtain ⟨same, -, payload, made, small, -⟩ := encodeNext_ok rfl encoded
    have long := length_encoding made small
    rw [same] at long
    unfold WalWriter.encodeNext at encoded
    cases found : encodeRecord (.new wal.nextLsn wal.nextSequence call.payload) with
    | error reason =>
      rw [found] at encoded
      cases encoded
    | ok other =>
      rw [found] at encoded
      cases same.symm.trans (encoding_of_ok found)
      simp only [bind, Except.bind] at encoded
      rw [if_pos (by omega : config.maxRecordBytes < bytes.length)] at encoded
      split at encoded <;> cases encoded

theorem crash_of_synced (synced : ∀ file ∈ dir.files, file.stable = file.volatile) : dir.crash = dir := by
  have files : dir.files.map SegmentFile.crash = dir.files := by
    nth_rewrite 2 [← List.map_id dir.files]
    refine List.map_congr_left fun ⟨id, volatile, stable⟩ inside => ?_
    cases synced _ inside
    rfl
  unfold WalDir.crash
  congr

theorem onward_closed (synced : ∀ file ∈ dir.files, file.stable = file.volatile) (closed : config.maxRecordBytes < walHeaderLen)
    (again : (recoverWal config (recoverWal config dir).2).1.log = (recoverWal config dir).1.log)
    (reached : Runs.Reaches (LogRun.step config) (fun _ call => call.Strict) (.resume config dir) run) :
    run.acked = (recoverWal config dir).1.log ∧ run.recovered config = (recoverWal config dir).1.log ∧
      run.appended = (recoverWal config dir).1.log := by
  obtain ⟨wal, acked, appended⟩ : run.wal = reopen config dir ∧ run.acked = (recoverWal config dir).1.log ∧
      run.appended = (recoverWal config dir).1.log := by
    refine reached.invariant (fun run => run.wal = reopen config dir ∧ run.acked = (recoverWal config dir).1.log ∧
      run.appended = (recoverWal config dir).1.log) ⟨rfl, rfl, rfl⟩ fun {run call} held _ => ?_
    obtain ⟨wal, acked, appended⟩ := held
    obtain ⟨reason, same⟩ := append_closed closed (wal ▸ rfl : run.wal.batch.hasPending = false) call
    unfold LogRun.step
    dsimp only
    rw [same, acked, appended]
    exact ⟨wal, List.append_nil _, List.append_nil _⟩
  refine ⟨acked, ?_, appended⟩
  unfold LogRun.recovered
  rw [wal]
  change (recoverWal config (recoverWal config dir).2.crash).1.log = _
  rw [crash_of_synced (recoverSegments_synced config.maxRecordBytes dir.files none synced)]
  exact again

end Continue

/-- After recovery no segment is left that holds something and was not read. (Where
no record can be appended at all, it is enough that it cannot be read later.) -/
def Continuable (config : WalConfig) (dir : WalDir) : Prop :=
  ∀ file ∈ dir.unread config, config.maxRecordBytes < walHeaderLen ∧ Barred config dir file.volatile

/-- Recovery of what a crash has left can be repeated and continued from if and
only if nothing lies behind the place where it stops. -/
theorem repeatable_iff_continuable (config : WalConfig) (dir : WalDir) :
    Repeatable config dir.crash ↔ Continuable config dir.crash := by
  have synced : ∀ file ∈ dir.crash.files, file.stable = file.volatile := by
    intro file inside
    obtain ⟨other, -, rfl⟩ := List.mem_map.mp inside
    rfl
  unfold Continuable
  cases unread : dir.crash.unread config with
  | none => exact ⟨fun _ => nofun, fun _ => repeatable_of_empty synced (unread_eq_none.mp unread)⟩
  | some file =>
    constructor
    · rintro repeatable _ ⟨⟩
      have barred := (again_iff_barred unread).mp repeatable.again
      refine ⟨?_, barred⟩
      by_contra room
      obtain ⟨run, reached, lost⟩ := obstructed_lost synced unread barred (not_lt.mp room)
      exact lost (repeatable.onward reached).1
    · intro continuable
      obtain ⟨closed, barred⟩ := continuable file rfl
      have again := (again_iff_barred unread).mpr barred
      refine ⟨again, fun reached => ?_⟩
      obtain ⟨acked, recovered, appended⟩ := onward_closed synced closed again reached
      rw [acked, recovered, appended]
      exact ⟨List.prefix_rfl, List.prefix_rfl, fun _ => rfl⟩

/-- The first segment has a damaged byte behind its record; the second one holds a
later record. -/
def damagedDir : WalDir :=
  ⟨[⟨1, encoding (.new 1 1 (.put [1] [10])) ++ [0], encoding (.new 1 1 (.put [1] [10])) ++ [0]⟩,
    ⟨2, encoding (.new 3 3 (.put [3] [30])), encoding (.new 3 3 (.put [3] [30]))⟩], by decide +kernel⟩

def resumedRun : LogRun := [putCall 4 40 .strict].foldl (LogRun.step smallSegments) (.resume smallSegments damagedDir.crash)

/-- A strict append after recovery goes behind the second segment's record, and the
next recovery stops before both. -/
theorem damaged_segment_hides_append : resumedRun.acked.map WalRecord.payload = [.put [1] [10], .put [4] [40]] ∧
    (resumedRun.recovered smallSegments).map WalRecord.payload = [.put [1] [10]] ∧
    ¬ Repeatable smallSegments damagedDir.crash := by
  refine ⟨by decide +kernel, by decide +kernel, fun repeatable => ?_⟩
  have reached : Runs.Reaches (LogRun.step smallSegments) (fun _ call => call.Strict) (.resume smallSegments damagedDir.crash)
      resumedRun := .tail .refl ⟨putCall 4 40 .strict, ⟨rfl, rfl⟩, rfl⟩
  exact absurd (repeatable.onward reached).1 (by decide +kernel)

end KayaDB.Wal
