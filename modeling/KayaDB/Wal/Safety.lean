import KayaDB.Wal.Files

/-! What keeps a log recoverable. The closed segments hold whole records on disk;
the active file holds whole records and at most the beginning of one that could
not be written. Then recovery after a crash finds every record that was synced. -/

namespace KayaDB.Wal
open Raft (Bytes)
open Framing

variable {max : Nat} {config : WalConfig} {wal : WalWriter} {call : AppendCall} {closed : List (List WalRecord)}
  {acked current synced begun more : List WalRecord} {record : WalRecord} {bytes : Bytes} {offset size : Nat}

theorem SegmentFile.volatile_fsyncPart (file : SegmentFile) (bytes : Nat) :
    (file.fsyncPart bytes).volatile = file.volatile := by
  unfold fsyncPart
  split <;> rfl

/-- The records of the closed segments and of the active one, those of the latter
that were synced, and a record that was begun behind them. -/
structure Kept (max : Nat) (wal : WalWriter) (closed : List (List WalRecord)) (current synced begun : List WalRecord) :
    Prop where
  top : ∀ file ∈ wal.dir.files, file.id ≤ wal.activeSegmentId
  older : wal.older.map SegmentFile.stable = closed.map (frames encoding)
  whole : frames encoding current <+: wal.active.volatile
  cut : wal.active.volatile <+: frames encoding (current ++ begun)
  stable : wal.active.stable <+: wal.active.volatile
  front : synced <+: current
  durable : frames encoding synced <+: wal.active.stable
  len : wal.activeLen = (frames encoding current).length
  fits : ∀ record ∈ closed.flatten ++ current ++ begun, Fits max record
  next : ∃ expected, (closed.flatten ++ current).foldlM follow none = some expected ∧ ∀ lsn ∈ expected, lsn = wal.nextLsn
  follows : ∃ last, (closed.flatten ++ current ++ begun).foldlM follow none = some last

namespace Kept

theorem fits_active (kept : Kept max wal closed current synced begun) : ∀ record ∈ current ++ begun, Fits max record := by
  intro record inside
  apply kept.fits
  rw [List.append_assoc]
  exact List.mem_append_right _ inside

/-- After a crash recovery finds the closed segments and the synced records, and
nothing that was not written. -/
theorem recover (kept : Kept config.maxRecordBytes wal closed current synced begun) :
    ∃ first, (recoverWal config wal.dir.crash).1.log = closed.flatten ++ first ∧ synced <+: first ∧
      first <+: current ++ begun := by
  obtain ⟨last, folded⟩ := kept.follows
  rw [List.append_assoc, List.foldlM_append] at folded
  obtain ⟨next, early, late⟩ := Option.bind_eq_some_iff.mp folded
  have through : Through (decoded config.maxRecordBytes) follow none (wal.older.map SegmentFile.stable) closed.flatten next := by
    rw [kept.older]
    refine .frames (framed config.maxRecordBytes) (fun record inside => kept.fits record ?_) early
    exact List.mem_append_left _ (List.mem_append_left _ inside)
  obtain ⟨more, split⟩ := kept.front.trans (List.prefix_append current begun)
  have good := kept.fits_active
  have cut := kept.stable.trans kept.cut
  rw [← split] at late good cut
  obtain ⟨first, after, rest, reads, short⟩ := Reads.torn_behind (framed config.maxRecordBytes) good late kept.durable cut
  refine ⟨synced ++ first, wal.recover_crash config kept.top through reads, List.prefix_append _ _, ?_⟩
  rw [← split]
  exact (List.prefix_append_right_inj _).mpr short

theorem congr {other : WalWriter} (kept : Kept max wal closed current synced begun) (dir : other.dir = wal.dir)
    (id : other.activeSegmentId = wal.activeSegmentId) (len : other.activeLen = wal.activeLen)
    (lsn : other.nextLsn = wal.nextLsn) : Kept max other closed current synced begun := by
  have older : other.older = wal.older := by
    unfold WalWriter.older
    rw [dir, id]
  have active : other.active = wal.active := by
    unfold WalWriter.active
    rw [dir, id]
  obtain ⟨expected, folded, same⟩ := kept.next
  refine ⟨?_, older ▸ kept.older, active ▸ kept.whole, active ▸ kept.cut, active ▸ kept.stable, kept.front,
    active ▸ kept.durable, len.trans kept.len, kept.fits, ⟨expected, folded, lsn ▸ same⟩, kept.follows⟩
  rw [dir, id]
  exact kept.top

theorem update (sync : SegmentFile → SegmentFile) (same : ∀ file, (sync file).id = file.id)
    (nothing : ∀ id, sync ⟨id, [], []⟩ = ⟨id, [], []⟩) (kept : Kept max wal closed current synced begun)
    (volatile : (sync wal.active).volatile = wal.active.volatile)
    (stable : (sync wal.active).stable <+: wal.active.volatile) (front : more <+: current)
    (durable : frames encoding more <+: (sync wal.active).stable) :
    Kept max (wal.withDir (wal.dir.update wal.activeSegmentId sync same)) closed current more begun := by
  have active := wal.active_change sync same nothing
  refine ⟨WalWriter.top_change same kept.top, ?_, ?_, ?_, ?_, front, ?_, kept.len, kept.fits, kept.next, kept.follows⟩
  · rw [wal.older_change sync same]
    exact kept.older
  · rw [active, volatile]
    exact kept.whole
  · rw [active, volatile]
    exact kept.cut
  · rw [active, volatile]
    exact stable
  · rw [active]
    exact durable

section
variable (kept : Kept max wal closed current synced begun)
include kept

theorem fsync : Kept max (wal.withDir (wal.dir.fsyncFile wal.activeSegmentId)) closed current current begun :=
  kept.update SegmentFile.fsync (fun _ => rfl) (fun _ => rfl) rfl List.prefix_rfl List.prefix_rfl kept.whole

theorem fsyncPart (bytes : Nat) :
    Kept max (wal.withDir (wal.dir.fsyncPart wal.activeSegmentId bytes)) closed current synced begun := by
  have stable : (wal.active.fsyncPart bytes).stable <+: wal.active.volatile ∧
      wal.active.stable <+: (wal.active.fsyncPart bytes).stable := by
    unfold SegmentFile.fsyncPart
    split
    next reached =>
      refine ⟨List.take_prefix _ _, List.prefix_of_prefix_length_le kept.stable (List.take_prefix _ _) ?_⟩
      rw [List.length_take]
      exact le_min reached kept.stable.length_le
    next => exact ⟨kept.stable, List.prefix_rfl⟩
  exact kept.update (SegmentFile.fsyncPart · bytes) _ (fun id => by simp [SegmentFile.fsyncPart]) (SegmentFile.volatile_fsyncPart _ _)
    stable.1 kept.front (kept.durable.trans stable.2)

theorem resync (front : more <+: current) (durable : frames encoding more <+: wal.active.stable) :
    Kept max wal closed current more begun :=
  { kept with front, durable }

theorem clean (exact_ : wal.active.volatile.length = wal.activeLen) :
    Kept max wal closed current synced [] ∧ wal.active.volatile = frames encoding current := by
  have same : frames encoding current = wal.active.volatile :=
    kept.whole.eq_of_length (kept.len.symm.trans exact_.symm)
  obtain ⟨expected, folded, -⟩ := kept.next
  refine ⟨{ kept with cut := ?_, fits := fun record inside => kept.fits record ?_, follows := ⟨expected, ?_⟩ }, same.symm⟩
  · rw [List.append_nil, same]
  · rw [List.append_nil] at inside
    exact List.mem_append_left _ inside
  · rw [List.append_nil]
    exact folded

theorem rotate (exact_ : wal.active.stable.length = wal.activeLen) (filled : 0 < wal.activeLen) :
    Kept max wal.rotate (closed ++ [current]) [] [] [] := by
  have stable : wal.active.stable = frames encoding current :=
    (List.prefix_of_prefix_length_le kept.stable kept.whole (exact_.trans kept.len).le).eq_of_length (exact_.trans kept.len)
  have content : wal.active.volatile ≠ [] := by
    intro empty
    have none := List.prefix_nil.mp (empty ▸ kept.whole)
    rw [kept.len, none] at filled
    exact absurd filled (lt_irrefl 0)
  have active := WalWriter.active_rotate kept.top
  have flat : (closed ++ [current]).flatten = closed.flatten ++ current := by simp
  obtain ⟨expected, folded, same⟩ := kept.next
  refine ⟨fun file inside => (kept.top file inside).trans (Nat.le_succ _), ?_, ?_, ?_, ?_, List.prefix_rfl, ?_, rfl, ?_, ?_, ?_⟩
  · rw [WalWriter.older_rotate kept.top content, List.map_append, List.map_append, kept.older, List.map_singleton,
      List.map_singleton, stable]
  · rw [active]
    exact List.prefix_rfl
  · rw [active]
    exact List.prefix_rfl
  · rw [active]
  · rw [active]
    exact List.prefix_rfl
  · rw [flat, List.append_nil, List.append_nil]
    exact fun record inside => kept.fits record (List.mem_append_left _ inside)
  · rw [flat, List.append_nil]
    exact ⟨expected, folded, same⟩
  · rw [flat, List.append_nil, List.append_nil]
    exact ⟨expected, folded⟩

end

theorem write (kept : Kept max wal closed current synced [])
    (exact_ : wal.active.volatile = frames encoding current) (fits : Fits max record) (lsn : record.lsn = wal.nextLsn)
    (part : bytes <+: encoding record) :
    Kept max (wal.withDir (wal.dir.append wal.activeSegmentId bytes)) closed current synced [record] := by
  have active := wal.active_append bytes
  obtain ⟨expected, folded, same⟩ := kept.next
  have accepted : follow expected record = some (some (record.lsn + 1)) :=
    if_pos fun other inside => (same other inside).trans lsn.symm
  refine ⟨WalWriter.top_append kept.top, ?_, ?_, ?_, ?_, kept.front, ?_, kept.len, ?_, kept.next, some (record.lsn + 1), ?_⟩
  · rw [wal.older_append bytes]
    exact kept.older
  · rw [active]
    exact kept.whole.trans (List.prefix_append _ _)
  · rw [active, exact_, frames_append]
    refine (List.prefix_append_right_inj _).mpr ?_
    rw [frames_cons, frames_nil, List.append_nil]
    exact part
  · rw [active]
    exact kept.stable.trans (List.prefix_append _ _)
  · rw [active]
    exact kept.durable
  · intro other inside
    rcases List.mem_append.mp inside with old | new
    · exact kept.fits other (List.mem_append_left _ old)
    · cases List.mem_singleton.mp new
      exact fits
  · rw [List.foldlM_append, folded]
    change (follow expected record).bind _ = _
    rw [accepted]
    rfl

theorem advance (kept : Kept max wal closed current synced [record])
    (whole : wal.active.volatile = frames encoding (current ++ [record]))
    (len : offset + size = (frames encoding (current ++ [record])).length) (lsn : record.lsn = wal.nextLsn) :
    Kept max (wal.advance offset size) closed (current ++ [record]) synced [] := by
  obtain ⟨expected, folded, -⟩ := kept.next
  obtain ⟨last, after⟩ := kept.follows
  have fits := kept.fits
  rw [List.append_assoc] at after fits
  have reached : ∀ lsn ∈ last, lsn = wal.nextLsn + 1 := by
    rw [← List.append_assoc, List.foldlM_append, folded] at after
    obtain ⟨next, accepted, ended⟩ : ∃ next, follow expected record = some next ∧ some next = some last :=
      Option.bind_eq_some_iff.mp after
    cases ended
    unfold follow at accepted
    split at accepted
    · cases accepted
      rw [lsn]
      exact fun _ inside => (Option.mem_some.mp inside).symm
    · cases accepted
  refine ⟨kept.top, kept.older, ?_, ?_, kept.stable, kept.front.trans (List.prefix_append _ _), kept.durable, len, ?_, ?_, ?_⟩
  · exact whole ▸ List.prefix_rfl
  · rw [List.append_nil]
    exact whole ▸ List.prefix_rfl
  · rw [List.append_nil]
    exact fits
  · exact ⟨last, after, reached⟩
  · rw [List.append_nil]
    exact ⟨last, after⟩

end Kept

/-- Strict appends that have returned lie in what is durable; those that wait lie
in what is written. -/
structure Safe (max : Nat) (wal : WalWriter) (acked : List WalRecord) (closed : List (List WalRecord))
    (current synced begun : List WalRecord) : Prop where
  kept : Kept max wal closed current synced begun
  durable : acked.Sublist (closed.flatten ++ synced)
  waiting : (acked ++ wal.batch.waiters.map Prod.fst).Sublist (closed.flatten ++ current)

/-- What a sync does not touch. -/
structure Steady (before after : WalWriter) : Prop where
  id : after.activeSegmentId = before.activeSegmentId
  len : after.activeLen = before.activeLen
  dirSynced : after.activeDirSynced = before.activeDirSynced
  lsn : after.nextLsn = before.nextLsn
  sequence : after.nextSequence = before.nextSequence
  volatile : after.active.volatile = before.active.volatile

theorem Steady.refl (wal : WalWriter) : Steady wal wal := ⟨rfl, rfl, rfl, rfl, rfl, rfl⟩

def released : Except String (List (WalRecord × AppendResult)) → List WalRecord
  | .ok results => results.map Prod.fst
  | .error _ => []

theorem steady_flush (wal : WalWriter) (fault : Option Fault) : Steady wal (wal.flushStrictBatch fault).1 := by
  cases fault with
  | none =>
    have same := congrArg SegmentFile.volatile wal.active_fsync
    exact ⟨rfl, rfl, rfl, rfl, rfl, same⟩
  | some fault =>
    cases fault with
    | refused => exact ⟨rfl, rfl, rfl, rfl, rfl, rfl⟩
    | cut bytes =>
      have same := congrArg SegmentFile.volatile (wal.active_fsyncPart bytes)
      rw [SegmentFile.volatile_fsyncPart] at same
      exact ⟨rfl, rfl, rfl, rfl, rfl, same⟩

section
variable (safe : Safe max wal acked closed current synced begun)
include safe

theorem Safe.dropped : (acked ++ []).Sublist (closed.flatten ++ current) := by
  rw [List.append_nil]
  exact (List.sublist_append_left _ _).trans safe.waiting

/-- A sync makes the waiting appends return, or fails and drops them. -/
theorem Safe.flush (fault : Option Fault) : ∃ more,
    Safe max (wal.flushStrictBatch fault).1 (acked ++ released (wal.flushStrictBatch fault).2) closed current more begun := by
  cases fault with
  | none =>
    refine ⟨current, safe.kept.fsync.congr rfl rfl rfl rfl, safe.waiting, ?_⟩
    change (acked ++ _ ++ []).Sublist _
    rw [List.append_nil]
    exact safe.waiting
  | some fault =>
    refine ⟨synced, ?_, ?_, ?_⟩
    · cases fault with
      | refused => exact safe.kept.congr rfl rfl rfl rfl
      | cut bytes => exact (safe.kept.fsyncPart bytes).congr rfl rfl rfl rfl
    · cases fault <;> exact (List.append_nil acked).symm ▸ safe.durable
    · cases fault <;> exact (List.append_nil acked).symm ▸ safe.dropped

end

/-- A sync before the write leaves nothing pending and everything durable, unless
there is no need for it. -/
def Flushed (needed : Bool) (before after : WalWriter) : Prop :=
  if needed then after.active.stable = before.active.volatile ∧ after.batch.hasPending = false else after = before

/-- The outcome of such a sync. -/
structure FlushOutcome (needed : Bool) (fault : Option Fault) (before after : WalWriter)
    (outcome : Except String (List (WalRecord × AppendResult))) : Prop where
  steady : Steady before after
  flushed : ∀ results, outcome = .ok results → Flushed needed before after
  fine : ∀ reason, fault = none → outcome ≠ .error reason

theorem Safe.flushIf (safe : Safe max wal acked closed current synced begun) (needed : Bool) (fault : Option Fault) :
    ∃ after outcome, (if needed then wal.flushStrictBatch fault else (wal, .ok [])) = (after, outcome) ∧
      FlushOutcome needed fault wal after outcome ∧
        ∃ more, Safe max after (acked ++ released outcome) closed current more begun := by
  cases needed with
  | false =>
    refine ⟨wal, .ok [], rfl, ⟨.refl wal, fun _ _ => rfl, nofun⟩, synced, ?_⟩
    exact (List.append_nil acked).symm ▸ safe
  | true =>
    refine ⟨_, _, rfl, ⟨steady_flush wal fault, ?_, ?_⟩, safe.flush fault⟩
    · cases fault with
      | none => exact fun _ _ => ⟨congrArg SegmentFile.stable wal.active_fsync, rfl⟩
      | some fault => cases fault <;> nofun
    · rintro reason rfl
      exact nofun

/-- An append has joined a batch that is not full. -/
structure Joins (config : WalBatchConfig) (before after : WalBatchWriter) (record : WalRecord) (result : AppendResult)
    (elapsed : Bool) : Prop where
  waiters : after.waiters = before.waiters ++ [(record, result)]
  count : after.pendingCount = before.pendingCount + 1
  bytes : after.pendingBytes = before.pendingBytes + result.encodedLen
  started : after.started = true
  waits : after.shouldFlushNow config elapsed = false

theorem WalBatchWriter.afterRecordAppended_cases (batch : WalBatchWriter) (config : WalBatchConfig) (record : WalRecord)
    (result : AppendResult) (elapsed : Bool) :
    (∃ after, batch.afterRecordAppended config record result elapsed = (after, true) ∧ after.waiters = batch.waiters) ∨
      ∃ after, batch.afterRecordAppended config record result elapsed = (after, false) ∧
        Joins config batch after record result elapsed := by
  unfold afterRecordAppended
  dsimp only
  split
  · exact .inl ⟨_, rfl, rfl⟩
  next full => exact .inr ⟨_, rfl, rfl, rfl, rfl, rfl, Bool.eq_false_iff.mpr full⟩

namespace Appended

def acks (appended : Appended) : List WalRecord :=
  appended.released.map Prod.fst ++
    match appended.returned with
    | some (.ok (record, result)) => if result.durable then [record] else []
    | _ => []

theorem acks_release (appended : Appended) (first second : List (WalRecord × AppendResult)) :
    ({ appended with released := first ++ second ++ appended.released } : Appended).acks =
      first.map Prod.fst ++ second.map Prod.fst ++ appended.acks := by
  simp only [acks, List.map_append, List.append_assoc]

def accepted (appended : Appended) (record : WalRecord) : List WalRecord :=
  match appended.returned with
  | some (.error _) => []
  | _ => [record]

end Appended

/-- The record of a call is written, or at most begun. -/
def Grown (log later begun : List WalRecord) (record : WalRecord) : Prop :=
  later = log ∧ (begun = [] ∨ begun = [record]) ∨ later = log ++ [record] ∧ begun = []

section Settle
variable {faultless : Prop}

theorem Safe.advance (safe : Safe max wal acked closed current synced [record])
    (whole : wal.active.volatile = frames encoding (current ++ [record]))
    (len : offset + size = (frames encoding (current ++ [record])).length) (lsn : record.lsn = wal.nextLsn) :
    Safe max (wal.advance offset size) acked closed (current ++ [record]) synced [] := by
  refine ⟨safe.kept.advance whole len lsn, safe.durable, safe.waiting.trans ?_⟩
  rw [← List.append_assoc]
  exact List.sublist_append_left _ _

theorem Kept.acknowledge (kept : Kept max wal closed (current ++ [record]) synced [])
    (durable : wal.active.stable = wal.active.volatile) (empty : wal.batch.waiters = [])
    (earlier : acked.Sublist (closed.flatten ++ current)) :
    Safe max wal (acked ++ [record]) closed (current ++ [record]) (current ++ [record]) [] := by
  have all : (acked ++ [record]).Sublist (closed.flatten ++ (current ++ [record])) := by
    rw [← List.append_assoc]
    exact earlier.append (List.Sublist.refl _)
  refine ⟨kept.resync List.prefix_rfl (durable ▸ kept.whole), all, ?_⟩
  rw [empty, List.map_nil, List.append_nil]
  exact all

/-- A call leaves the log safe, its record begun or written. Without a fault it is
written, and the call is not refused. -/
def Settled (max : Nat) (acked : List WalRecord) (closed : List (List WalRecord)) (current : List WalRecord)
    (record : WalRecord) (faultless : Prop) (appended : Appended) : Prop :=
  ∃ later more begun, Safe max appended.wal (acked ++ appended.acks) closed later more begun ∧
    Grown current later begun record ∧
      (faultless → appended.accepted record = [record] ∧ later = current ++ [record] ∧ begun = [])

theorem settled_flush {fault : Option Fault} {result : AppendResult} (strict : result.durable = true)
    (quiet : faultless → fault = none) (safe : Safe max wal acked closed (current ++ [record]) synced [])
    (earlier : (acked ++ wal.batch.waiters.map Prod.fst).Sublist (closed.flatten ++ current)) :
    Settled max acked closed current record faultless (match wal.flushStrictBatch fault with
      | (wal, .error reason) => ⟨wal, some (.error reason), []⟩
      | (wal, .ok released) => ⟨wal, some (.ok (record, result)), released⟩) := by
  cases fault with
  | none =>
    have flushed : Kept max (wal.flushStrictBatch none).1 closed (current ++ [record]) (current ++ [record]) [] :=
      safe.kept.fsync.congr rfl rfl rfl rfl
    have active : (wal.flushStrictBatch none).1.active = wal.active.fsync := wal.active_fsync
    have acknowledged := flushed.acknowledge (active ▸ rfl) rfl earlier
    refine ⟨current ++ [record], current ++ [record], [], ?_, .inr ⟨rfl, rfl⟩, fun _ => ⟨rfl, rfl, rfl⟩⟩
    change Safe max (wal.flushStrictBatch none).1
      (acked ++ (wal.batch.waiters.map Prod.fst ++ if result.durable then [record] else [])) closed _ _ _
    rw [strict, if_pos rfl, ← List.append_assoc]
    exact acknowledged
  | some fault =>
    obtain ⟨more, flushed⟩ := safe.flush (some fault)
    cases fault with
    | refused => exact ⟨current ++ [record], more, [], flushed, .inr ⟨rfl, rfl⟩, fun faultless => nomatch quiet faultless⟩
    | cut bytes => exact ⟨current ++ [record], more, [], flushed, .inr ⟨rfl, rfl⟩, fun faultless => nomatch quiet faultless⟩

theorem Safe.settle (safe : Safe max wal acked closed current synced [record])
    (whole : wal.active.volatile = frames encoding (current ++ [record]))
    (len : offset + size = (frames encoding (current ++ [record])).length) (lsn : record.lsn = wal.nextLsn)
    (config : WalConfig) (call : AppendCall) (quiet : faultless → call.faults.fsync = none) :
    Settled max acked closed current record faultless (wal.settle config record offset size call) := by
  have advanced := safe.advance whole len lsn
  unfold WalWriter.settle
  cases call.mode with
  | relaxed =>
    refine ⟨current ++ [record], synced, [], ?_, .inr ⟨rfl, rfl⟩, fun _ => ⟨rfl, rfl, rfl⟩⟩
    exact (List.append_nil acked).symm ▸ advanced
  | strict =>
    dsimp only
    split
    · -- Without group commit the record counts only once it is synced.
      cases outcome : call.faults.fsync with
      | none =>
        have flushed : Kept max (wal.flushStrictBatch none).1 closed current current [record] :=
          safe.kept.fsync.congr rfl rfl rfl rfl
        have active : (wal.flushStrictBatch none).1.active = wal.active.fsync := wal.active_fsync
        have written : Kept max ((wal.flushStrictBatch none).1.advance offset size) closed (current ++ [record]) current [] :=
          flushed.advance (active ▸ whole) len lsn
        have acknowledged := written.acknowledge (active ▸ rfl) rfl safe.waiting
        refine ⟨current ++ [record], current ++ [record], [], ?_, .inr ⟨rfl, rfl⟩, fun _ => ⟨rfl, rfl, rfl⟩⟩
        change Safe max ((wal.flushStrictBatch none).1.advance offset size)
          (acked ++ (wal.batch.waiters.map Prod.fst ++ [record])) closed _ _ _
        rw [← List.append_assoc]
        exact acknowledged
      | some fault =>
        obtain ⟨more, flushed⟩ := safe.flush (some fault)
        refine ⟨current, more, [record], ?_, .inl ⟨rfl, .inr rfl⟩, fun faultless => ?_⟩
        · cases fault <;> exact flushed
        · exact nomatch outcome.symm.trans (quiet faultless)
    · rcases wal.batch.afterRecordAppended_cases config.batch record
        ⟨record.lsn, record.sequence, wal.activeSegmentId, offset, size, true⟩ call.expiredAfter with
        ⟨batch, now, same⟩ | ⟨batch, later, joins⟩
      · rw [now]
        have ready : Safe max { wal.advance offset size with batch } acked closed (current ++ [record]) synced [] :=
          ⟨advanced.kept.congr rfl rfl rfl rfl, advanced.durable, same ▸ advanced.waiting⟩
        exact settled_flush rfl quiet ready (same ▸ safe.waiting)
      · rw [later]
        refine ⟨current ++ [record], synced, [], ⟨advanced.kept.congr rfl rfl rfl rfl, ?_, ?_⟩, .inr ⟨rfl, rfl⟩, fun _ => ⟨rfl, rfl, rfl⟩⟩
        · exact (List.append_nil acked).symm ▸ advanced.durable
        · change (acked ++ [] ++ batch.waiters.map Prod.fst).Sublist _
          rw [List.append_nil, joins.waiters, List.map_append, ← List.append_assoc, ← List.append_assoc]
          exact safe.waiting.append (List.Sublist.refl _)

theorem Safe.writeRecord (safe : Safe max wal acked closed current synced [])
    (exact_ : wal.active.volatile = frames encoding current) (fits : Fits max record) (lsn : record.lsn = wal.nextLsn)
    (encoded : encoding record = bytes) (config : WalConfig) (call : AppendCall)
    (quiet : faultless → call.faults = .none) :
    Settled max acked closed current record faultless (wal.writeRecord config record bytes call) := by
  have begin_ {part : Bytes} (front : part <+: bytes) :
      Safe max (wal.withDir (wal.dir.append wal.activeSegmentId part)) acked closed current synced [record] :=
    ⟨safe.kept.write exact_ fits lsn (encoded ▸ front), safe.durable, safe.waiting⟩
  unfold WalWriter.writeRecord
  cases outcome : call.faults.append with
  | some fault =>
    have faulty : ¬ faultless := by
      intro faultless
      rw [quiet faultless] at outcome
      cases outcome
    cases fault with
    | refused =>
      refine ⟨current, synced, [], ?_, .inl ⟨rfl, .inl rfl⟩, fun faultless => absurd faultless faulty⟩
      exact (List.append_nil acked).symm ▸ safe
    | cut count =>
      refine ⟨current, synced, [record], ?_, .inl ⟨rfl, .inr rfl⟩, fun faultless => absurd faultless faulty⟩
      exact (List.append_nil acked).symm ▸ begin_ (List.take_prefix _ _)
  | none =>
    have written := begin_ List.prefix_rfl
    dsimp only
    split
    next failed =>
      refine ⟨current, synced, [record], ?_, .inl ⟨rfl, .inr rfl⟩, fun faultless => ?_⟩
      · exact (List.append_nil acked).symm ▸ written
      · rw [quiet faultless, Bool.and_eq_true] at failed
        cases failed.2
    next =>
      have ready : Safe max { wal with dir := wal.dir.append wal.activeSegmentId bytes, activeDirSynced := true } acked closed
          current synced [record] := ⟨written.kept.congr rfl rfl rfl rfl, written.durable, written.waiting⟩
      have whole : (wal.withDir (wal.dir.append wal.activeSegmentId bytes)).active.volatile =
          frames encoding (current ++ [record]) := by
        rw [wal.active_append, exact_, frames_append, frames_cons, frames_nil, List.append_nil, encoded]
      have len : wal.dir.fileLen wal.activeSegmentId + bytes.length = (frames encoding (current ++ [record])).length := by
        rw [WalWriter.fileLen_active, exact_, frames_append, frames_cons, frames_nil, List.append_nil, encoded,
          List.length_append]
      exact ready.settle whole len lsn config call fun faultless => by rw [quiet faultless]; rfl

end Settle

theorem encodeNext_ok (noFlags : record.flags = 0) (encoded : WalWriter.encodeNext config record = .ok bytes) :
    encoding record = bytes ∧ Fits config.maxRecordBytes record := by
  unfold WalWriter.encodeNext at encoded
  cases made : encodeRecord record with
  | error reason =>
    rw [made] at encoded
    cases encoded
  | ok found =>
    rw [made] at encoded
    simp only [bind, Except.bind] at encoded
    split at encoded
    · cases encoded
    · split at encoded
      · cases encoded
      · next short =>
        cases encoded
        exact ⟨encoding_of_ok made, fits_of_ok noFlags made (not_lt.mp short)⟩

/-- The active file is exactly as long as the writer thinks; if the segment is to
be closed, exactly that much of it is durable. -/
def WalWriter.Exact (config : WalConfig) (wal : WalWriter) (size : Nat) : Prop :=
  if wal.rotates config size then wal.active.stable.length = wal.activeLen else wal.active.volatile.length = wal.activeLen

/-- The active file is exactly as long as the writer thinks. If an append is to close
it and no sync comes before, exactly that much is durable. -/
def Clean (config : WalConfig) (wal : WalWriter) (call : AppendCall) : Prop :=
  if wal.rotates config (encoding (.new wal.nextLsn wal.nextSequence call.payload)).length && !wal.batch.hasPending then
    wal.active.stable.length = wal.activeLen
  else wal.active.volatile.length = wal.activeLen

instance (config : WalConfig) (wal : WalWriter) (call : AppendCall) : Decidable (Clean config wal call) := by
  unfold Clean
  infer_instance

/-- The syncs before the write do what the writer's state tells. -/
theorem Clean.exact {first second : WalWriter} {enabled expired : Bool} (clean : Clean config wal call)
    (encoded : encoding (.new wal.nextLsn wal.nextSequence call.payload) = bytes)
    (early : Flushed (enabled && wal.batch.hasPending && expired) wal first) (steady : Steady wal first)
    (late : Flushed (first.rotates config bytes.length && first.batch.hasPending) first second)
    (also : Steady first second) : second.Exact config bytes.length := by
  unfold Clean at clean
  rw [encoded] at clean
  have size : second.rotates config bytes.length = wal.rotates config bytes.length := by
    unfold WalWriter.rotates
    rw [also.len, steady.len]
  have middle : first.rotates config bytes.length = wal.rotates config bytes.length := by
    unfold WalWriter.rotates
    rw [steady.len]
  unfold WalWriter.Exact
  rw [size, also.len, steady.len, also.volatile, steady.volatile]
  unfold Flushed at early late
  rw [middle] at late
  cases full : wal.rotates config bytes.length with
  | false => simpa [full] using clean
  | true =>
    rw [full, Bool.true_and] at late
    change second.active.stable.length = wal.activeLen
    cases waiting : wal.batch.hasPending with
    | false =>
      rw [waiting, Bool.and_false, Bool.false_and, if_neg Bool.false_ne_true] at early
      rw [early, waiting, if_neg Bool.false_ne_true] at late
      rw [late]
      simpa [full, waiting] using clean
    | true =>
      have length : wal.active.volatile.length = wal.activeLen := by simpa [full, waiting] using clean
      split at early
      · rw [early.2, if_neg Bool.false_ne_true] at late
        rw [late, early.1]
        exact length
      · rw [early, waiting, if_pos rfl] at late
        rw [late.1]
        exact length

/-- What a call does to the log: the record is written, begun or neither; without a
fault it is written unless the call is refused. -/
structure Logged (log begun : List WalRecord) (record : WalRecord) (faultless : Prop) (appended : Appended)
    (later rest : List WalRecord) : Prop where
  grown : later = log ∧ (rest = begun ∨ rest = [] ∨ rest = [record]) ∨ later = log ++ [record] ∧ rest = []
  exact_ : faultless → begun = [] → later = log ++ appended.accepted record ∧ rest = []

def Leaves (max : Nat) (acked log begun : List WalRecord) (record : WalRecord) (faultless : Prop) (appended : Appended) :
    Prop :=
  ∃ closed later more rest, Safe max appended.wal (acked ++ appended.acks) closed later more rest ∧
    Logged log begun record faultless appended (closed.flatten ++ later) rest

theorem Safe.rotate (safe : Safe max wal acked closed current synced begun)
    (exact_ : wal.active.stable.length = wal.activeLen) (filled : 0 < wal.activeLen) :
    Safe max wal.rotate acked (closed ++ [current]) [] [] [] := by
  have flat : (closed ++ [current]).flatten ++ [] = closed.flatten ++ current := by simp
  refine ⟨safe.kept.rotate exact_ filled, ?_, ?_⟩
  · rw [flat]
    exact safe.durable.trans ((List.Sublist.refl _).append safe.kept.front.sublist)
  · rw [flat]
    exact safe.waiting

theorem Safe.ready {faultless : Prop} (safe : Safe config.maxRecordBytes wal acked closed current synced begun)
    (clean : wal.Exact config bytes.length) (fits : Fits config.maxRecordBytes record)
    (lsn : record.lsn = wal.nextLsn) (encoded : encoding record = bytes) (quiet : faultless → call.faults = .none) :
    Leaves config.maxRecordBytes acked (closed.flatten ++ current) begun record faultless
      ((if wal.rotates config bytes.length then wal.rotate else wal).writeRecord config record bytes call) := by
  unfold WalWriter.Exact at clean
  split at clean
  next full =>
    have filled : 0 < wal.activeLen := (of_decide_eq_true full).1
    rw [if_pos full]
    have flat : (closed ++ [current]).flatten = closed.flatten ++ current := by simp
    have empty : wal.rotate.active.volatile = frames encoding [] := by
      rw [WalWriter.active_rotate safe.kept.top]
      rfl
    obtain ⟨later, more, rest, after, grown, written⟩ :=
      (safe.rotate clean filled).writeRecord empty fits lsn encoded config call quiet
    refine ⟨closed ++ [current], later, more, rest, after, ?_, fun faultless _ => ?_⟩
    · rw [flat]
      rcases grown with ⟨rfl, rest⟩ | ⟨rfl, rest⟩
      · exact .inl ⟨List.append_nil _, .inr rest⟩
      · exact .inr ⟨rfl, rest⟩
    · obtain ⟨accepted, rfl, rest⟩ := written faultless
      rw [flat, accepted]
      exact ⟨rfl, rest⟩
  next =>
    rw [if_neg (by assumption)]
    obtain ⟨kept, content⟩ := safe.kept.clean clean
    have cleaned : Safe config.maxRecordBytes wal acked closed current synced [] := ⟨kept, safe.durable, safe.waiting⟩
    obtain ⟨later, more, rest, after, grown, written⟩ := cleaned.writeRecord content fits lsn encoded config call quiet
    refine ⟨closed, later, more, rest, after, ?_, fun faultless _ => ?_⟩
    · rcases grown with ⟨rfl, rest⟩ | ⟨rfl, rest⟩
      · exact .inl ⟨rfl, .inr rest⟩
      · exact .inr ⟨(List.append_assoc _ _ _).symm, rest⟩
    · obtain ⟨accepted, rfl, rest⟩ := written faultless
      rw [accepted]
      exact ⟨(List.append_assoc _ _ _).symm, rest⟩

/-- An append that finds its files clean leaves the log safe. -/
theorem Safe.append (safe : Safe config.maxRecordBytes wal acked closed current synced begun) (clean : Clean config wal call) :
    Leaves config.maxRecordBytes acked (closed.flatten ++ current) begun (.new wal.nextLsn wal.nextSequence call.payload)
      (call.faults = .none) (wal.append config call) := by
  obtain ⟨first, outcome, expired, early, more, safe⟩ := safe.flushIf (config.batch.enabled && wal.batch.hasPending &&
    wal.batch.intervalExpired config.batch call.expiredBefore) call.faults.expiredFlush
  unfold WalWriter.append WalWriter.flushExpired
  rw [expired]
  cases outcome with
  | error reason =>
    refine ⟨closed, current, more, begun, safe, .inl ⟨rfl, .inl rfl⟩, fun quiet => ?_⟩
    exact absurd rfl (early.fine reason (by rw [quiet]; rfl))
  | ok results =>
    dsimp only
    rw [early.steady.lsn, early.steady.sequence]
    cases encoded : WalWriter.encodeNext config (.new wal.nextLsn wal.nextSequence call.payload) with
    | error reason =>
      refine ⟨closed, current, more, begun, ?_, .inl ⟨rfl, .inl rfl⟩, fun _ empty => ⟨(List.append_nil _).symm, empty⟩⟩
      change Safe _ _ (acked ++ (results.map Prod.fst ++ [])) _ _ _ _
      rw [List.append_nil]
      exact safe
    | ok bytes =>
      obtain ⟨same, fits⟩ := encodeNext_ok rfl encoded
      obtain ⟨second, outcome, pending, late, more, safe⟩ := safe.flushIf
        (first.rotates config bytes.length && first.batch.hasPending) call.faults.pendingFlush
      unfold WalWriter.flushPending
      dsimp only
      rw [pending]
      cases outcome with
      | error reason =>
        refine ⟨closed, current, more, begun, ?_, .inl ⟨rfl, .inl rfl⟩, fun quiet => ?_⟩
        · change Safe _ _ (acked ++ (results.map Prod.fst ++ [])) _ _ _ _
          rw [← List.append_assoc]
          exact safe
        · exact absurd rfl (late.fine reason (by rw [quiet]; rfl))
      | ok results =>
        have exact_ := clean.exact same (early.flushed _ rfl) early.steady (late.flushed _ rfl) late.steady
        have lsn := early.steady.lsn.symm.trans late.steady.lsn.symm
        obtain ⟨closed', later, third, rest, after, logged⟩ :=
          safe.ready exact_ fits lsn same (fun quiet : call.faults = .none => quiet)
        refine ⟨closed', later, third, rest, ?_, logged.grown, logged.exact_⟩
        rw [Appended.acks_release]
        simpa only [released, List.append_assoc] using after

end KayaDB.Wal
