import KayaDB.Storage.Recovery

/-! Crashes inside a flush or a compaction. The log keeps every record, so after a crash
all versions are back in the memtable, which is read before any table. -/

namespace KayaDB.Storage
open Raft (Bytes)
open Versions

/-- Opening fails if a live table has no file. -/
def openDisk (config : EngineConfig) (segments : List Segment) (disk : Disk) : Except String Engine :=
  if ∀ table ∈ disk.loadManifest, (disk.readTable table).isSome then .ok (.openFrom config segments disk)
  else .error "not found"

/-- How far the work has come when the process dies. A new table is written and
synced under another name first, so that its file is there as a whole or not at
all. Then the edits go to the manifest one after another, and `CURRENT` comes last. -/
inductive CrashPoint where
  | unwritten
  | written (edits : Nat)
  | finished
deriving DecidableEq, Repr

def Disk.interrupted (disk : Disk) (tables : List Sstable) (edits : List ManifestEdit) : CrashPoint → Disk
  | .unwritten => disk
  | .written count => ⟨disk.manifest ++ edits.take count, disk.current, tables ++ disk.tables⟩
  | .finished => disk.publish tables edits

namespace Engine

def crashDisk (engine : Engine) (work : Work) (point : CrashPoint) : Disk :=
  (engine.output work).elim engine.disk fun out => engine.disk.interrupted out.1 out.2 point

def crashIn (engine : Engine) (work : Work) (point : CrashPoint) : Except String Engine :=
  openDisk engine.config (engine.wal.segments.map Segment.crash) (engine.crashDisk work point)

/-- The engine that leaves a full memtable to be flushed later. -/
def unflushed (engine : Engine) : Engine := { engine with config := { engine.config with memtableMaxBytes := 0 } }

end Engine

/-- Requests, reopening, and crashes inside a flush or a compaction, which may be
the flush at the end of a write. -/
inductive Occurrence where
  | request (event : Event)
  | reopen
  | crash (write : Option Event) (work : Work) (point : CrashPoint)
deriving DecidableEq, Repr

def Event.Strict (config : EngineConfig) : Event → Prop
  | .put _ _ durability _ | .delete _ durability _ => durability.getD config.durability = .strict
  | .flush | .compact | .createSnapshot | .releaseSnapshot _ | .setGcWatermark _ => True

instance (config : EngineConfig) : ∀ event : Event, Decidable (event.Strict config)
  | .put .. | .delete .. => inferInstanceAs (Decidable (_ = _))
  | .flush | .compact | .createSnapshot | .releaseSnapshot _ | .setGcWatermark _ => isTrue trivial

def Occurrence.Strict (config : EngineConfig) : Occurrence → Prop
  | .request event => event.Strict config
  | .reopen => True
  | .crash write _ _ => ∀ event ∈ write, event.Strict config

instance (config : EngineConfig) : ∀ occurrence : Occurrence, Decidable (occurrence.Strict config)
  | .request event => inferInstanceAs (Decidable (event.Strict config))
  | .reopen => isTrue trivial
  | .crash write _ _ => inferInstanceAs (Decidable (∀ event ∈ write, event.Strict config))

namespace Session

/-- The moment at which the work begins: the write that leads to it, if there is
one, is logged. -/
def begun (session : Session) (write : Option Event) : Session :=
  write.elim session fun event =>
    let done := (Session.mk session.engine.unflushed session.written).step event
    ⟨{ done.engine with config := session.engine.config }, done.written⟩

def meet (session : Session) : Occurrence → Except String Session
  | .request event => .ok (session.step event)
  | .reopen => do
    let engine ← openDisk session.engine.config session.engine.wal.segments session.engine.disk
    return ⟨engine, session.written⟩
  | .crash write work point => do
    let engine ← (session.begun write).engine.crashIn work point
    return ⟨engine, (session.begun write).written⟩

end Session

def Disk.Filed (disk : Disk) : Prop :=
  ∀ table, .createTable table ∈ disk.manifest → ∃ file ∈ disk.tables, file.metadata.tableId = table.tableId

/-- The log is synced and holds just what was written. -/
structure Session.Durable (config : EngineConfig) (session : Session) : Prop where
  config : session.engine.config = config
  logged : session.engine.Logged
  synced : ∀ segment ∈ session.engine.wal.segments, segment.durable = segment.content
  filed : session.engine.disk.Filed
  same : ∀ entry, entry ∈ session.written ↔ session.engine.wal.Holds entry

section Files
variable {disk : Disk} {tables : List Sstable} {edits : List ManifestEdit}

theorem Disk.Filed.interrupted (filed : disk.Filed)
    (written : ∀ created, .createTable created ∈ edits → ∃ file ∈ tables, file.metadata.tableId = created.tableId)
    (point : CrashPoint) : (disk.interrupted tables edits point).Filed := by
  have grown {some : List ManifestEdit} (part : some ⊆ edits) {table : TableMetadata}
      (inside : .createTable table ∈ disk.manifest ++ some) :
      ∃ file ∈ tables ++ disk.tables, file.metadata.tableId = table.tableId := by
    rcases List.mem_append.mp inside with old | new
    · obtain ⟨file, held, same⟩ := filed table old
      exact ⟨file, List.mem_append_right _ held, same⟩
    · obtain ⟨file, held, same⟩ := written table (part new)
      exact ⟨file, List.mem_append_left _ held, same⟩
  cases point with
  | unwritten => exact filed
  | written count => exact fun table inside => grown (List.take_subset _ _) inside
  | finished => exact fun table inside => grown (List.Subset.refl _) inside

theorem Disk.Filed.readTable (filed : disk.Filed) : ∀ table ∈ disk.loadManifest, (disk.readTable table).isSome := by
  intro table inside
  unfold Disk.loadManifest at inside
  split at inside
  · rcases Engine.mem_replay inside with none | created
    · exact absurd none List.not_mem_nil
    · obtain ⟨file, held, same⟩ := filed table created
      unfold Disk.readTable
      rw [Option.isSome_map, List.find?_isSome]
      exact ⟨file, held, decide_eq_true same⟩
  · exact absurd inside List.not_mem_nil

theorem openDisk_filed (config : EngineConfig) (segments : List Segment) (filed : disk.Filed) :
    openDisk config segments disk = .ok (.openFrom config segments disk) := if_pos filed.readTable

end Files

section Output
variable {engine : Engine}

/-- Wherever the work was interrupted, the tables on disk are logged and filed. -/
theorem Engine.Logged.crashDisk (logged : engine.Logged) (work : Work) (point : CrashPoint) :
    ∀ table ∈ (engine.crashDisk work point).named, ∀ entry ∈ table.entries, engine.wal.Holds entry := by
  unfold Engine.crashDisk
  cases made : engine.output work with
  | none => exact logged.named
  | some out =>
    cases point with
    | unwritten => exact logged.named
    | written count => exact logged.published made (List.take_subset count _)
    | finished => exact logged.published made (List.Subset.refl _)

theorem Engine.filed_crashDisk (filed : engine.disk.Filed) (work : Work) (point : CrashPoint) :
    (engine.crashDisk work point).Filed := by
  unfold Engine.crashDisk
  cases made : engine.output work with
  | none => exact filed
  | some out => exact filed.interrupted (fun _ inside => output_written made inside) point

theorem Engine.filed_finish (filed : engine.disk.Filed) (work : Work) : (engine.finish work).disk.Filed := by
  rw [disk_finish]
  exact filed_crashDisk filed work .finished

end Output

def Synced (segments : List Segment) : Prop := ∀ segment ∈ segments, segment.durable = segment.content

def Telling (segments : List Segment) (written : List SstEntry) : Prop :=
  ∀ entry, entry ∈ written ↔ ∃ record ∈ segments.flatMap Segment.content, record.payload.entry record.sequence = some entry

section Open
variable {segments : List Segment} {disk : Disk} {config : EngineConfig} {written : List SstEntry} {entry : SstEntry}

theorem mem_replayed_iff {records : List WalRecord}
    (increasing : records.Pairwise fun first second => first.sequence < second.sequence) : ∀ {memtable : Memtable},
    (∀ old ∈ memtable.entries, ∀ record ∈ records, old.sequence < record.sequence) →
      (entry ∈ (records.foldl (fun memtable record => applyPayload memtable record.payload record.sequence) memtable).entries ↔
        entry ∈ memtable.entries ∨ ∃ record ∈ records, record.payload.entry record.sequence = some entry) := by
  induction records with
  | nil => simp
  | cons record records ih =>
    intro memtable below
    obtain ⟨first, rest⟩ := List.pairwise_cons.mp increasing
    have newer : ∀ old ∈ memtable.entries, old.sequence < record.sequence := fun old inside =>
      below old inside record List.mem_cons_self
    have later : ∀ old ∈ (applyPayload memtable record.payload record.sequence).entries, ∀ other ∈ records,
        old.sequence < other.sequence := by
      intro old inside other held
      rcases Engine.mem_of_mem_applyPayload inside with new | early
      · exact Engine.entry_sequence new ▸ first other held
      · exact below old early other (List.mem_cons_of_mem _ held)
    rw [List.foldl_cons, ih rest later, Engine.mem_applyPayload newer]
    simp only [List.mem_cons, exists_eq_or_imp]
    rw [or_comm (a := record.payload.entry record.sequence = some entry), or_assoc]

theorem unique_logged (unbroken : WalWriter.Unbroken segments) (same : Telling segments written) : Unique written := by
  intro first one second two _ numbers
  obtain ⟨record, held, made⟩ := (same first).mp one
  obtain ⟨other, also, equal⟩ := (same second).mp two
  rw [Engine.entry_sequence made, Engine.entry_sequence equal] at numbers
  have records : record = other := eq_of_sequence unbroken.increasing held also numbers
  exact Option.some.inj (made.symm.trans (records ▸ equal))

theorem getInner_openFrom (unbroken : WalWriter.Unbroken segments)
    (named : ∀ table ∈ disk.named, ∀ entry ∈ table.entries, entry ∈ written)
    (same : Telling segments written) (key : Bytes) (readAt : ReadTimestamp) :
    (Engine.openFrom config segments disk).getInner key readAt = History.get written key readAt.asNat := by
  have members : ∀ entry, entry ∈ (Engine.openFrom config segments disk).memtable.entries ↔ entry ∈ written := by
    intro entry
    unfold Engine.openFrom
    rw [Engine.recovered_of_unbroken unbroken, same]
    refine (mem_replayed_iff unbroken.increasing fun _ inside => absurd inside List.not_mem_nil).trans ?_
    exact or_iff_right List.not_mem_nil
  have unique := unique_logged unbroken same
  have fresh : newest (Engine.openFrom config segments disk).memtable.entries key readAt.asNat =
      newest written key readAt.asNat := newest_congr unique members
  rw [Engine.getInner_eq, lookup, Engine.sources, List.findSome?_cons, fresh, History.get]
  cases found : newest written key readAt.asNat with
  | some entry => rfl
  | none =>
    have nothing : ((Engine.openFrom config segments disk).liveSstables.map Sstable.entries).findSome?
        (fun source => newest source key readAt.asNat) = none := by
      rw [List.findSome?_eq_none_iff]
      intro source inside
      obtain ⟨table, live, rfl⟩ := List.mem_map.mp inside
      rw [newest_eq_none]
      exact fun entry held => newest_eq_none.mp found entry (named table (Engine.mem_loaded live) entry held)
    dsimp only
    rw [nothing]

end Open

theorem synced_append {config : WalConfig} {wal after : WalWriter} {payload : WalPayload} {result : AppendResult}
    (synced : Synced wal.segments)
    (appended : wal.append config payload .strict = .ok (after, result)) :
    Synced after.segments := by
  have written {ready : WalWriter} (same : ready.segments = wal.segments) (record : WalRecord) :
      Synced (ready.write record .strict).segments := by
    intro segment inside
    obtain ⟨old, held, rfl⟩ := List.mem_map.mp inside
    split
    · rfl
    next other =>
      rw [same] at held
      unfold WalWriter.appendFile at held
      split at held
      · obtain ⟨before, known, rfl⟩ := List.mem_map.mp held
        split at other
        · exact absurd (by assumption) other
        next plain =>
          rw [if_neg plain]
          exact synced before known
      · rcases List.mem_append.mp held with known | new
        · exact synced old known
        · rw [List.mem_singleton.mp new] at other
          exact absurd rfl other
  unfold WalWriter.append at appended
  dsimp only at appended
  split at appended
  · cases appended
  · cases appended
    have rotated : wal.rotate.segments = wal.segments := rfl
    split
    · exact written rotated _
    · exact written rfl _

namespace Engine
variable {engine : Engine} {event : Event}
  {added : Option SstEntry} {after : Engine}

theorem write_synced {payload : WalPayload} {durability : Option DurabilityMode} {clock : Option UInt64}
    (synced : Synced engine.wal.segments) (strict : durability.getD engine.config.durability = .strict) :
    Synced (engine.write payload durability clock).1.wal.segments := by
  have ready : Synced (engine.prepareHlcWriteSequence clock).segments := by
    cases clock <;> exact synced
  unfold write
  dsimp only
  rw [strict]
  split
  · exact ready
  next appended =>
    rw [(maintained_maybeAutoFlush _).wal]
    exact synced_append ready appended

theorem step_synced (synced : Synced engine.wal.segments) (strict : event.Strict engine.config) :
    Synced (engine.step event).wal.segments := by
  cases event with
  | put key value durability clock =>
    rcases put_cases engine key value durability clock with ⟨message, same⟩ | same
    · rw [step, same]
      exact synced
    · rw [step, same]
      exact write_synced synced strict
  | delete key durability clock =>
    rcases delete_cases engine key durability clock with ⟨message, same⟩ | same
    · rw [step, same]
      exact synced
    · rw [step, same]
      exact write_synced synced strict
  | flush => exact (maintained_flush engine).wal ▸ synced
  | compact => exact (maintained_compact engine).wal ▸ synced
  | createSnapshot => exact synced
  | releaseSnapshot tables => exact synced
  | setGcWatermark ts =>
    unfold step setGcWatermark
    dsimp only
    split <;> exact synced

theorem Moves.filed (moved : engine.Moves event after added) (filed : engine.disk.Filed) :
    after.config = engine.config ∧ after.disk.Filed := by
  cases moved with
  | refused clock => exact ⟨rfl, filed⟩
  | logged clock payload mode wal result appended =>
    have before : (engine.logged wal payload result.sequence).disk.Filed := filed
    exact ⟨(maintained_maybeAutoFlush _).config, maybeAutoFlush_elim (filed_finish before .flush) before⟩
  | flush => exact ⟨(maintained_flush engine).config, filed_finish filed .flush⟩
  | compact asked => exact ⟨(maintained_compact engine).config, filed_finish filed .compact⟩
  | pins refcounts => exact ⟨rfl, filed⟩
  | watermark ts asked =>
    unfold setGcWatermark
    split <;> exact ⟨rfl, filed⟩

theorem Moves.holds (moved : engine.Moves event after added) (logged : engine.Logged) (entry : SstEntry) :
    after.wal.Holds entry ↔ engine.wal.Holds entry ∨ added = some entry := by
  cases moved with
  | refused clock =>
    unfold WalWriter.Holds
    rw [prepareHlcWriteSequence_records]
    exact (or_iff_left nofun).symm
  | logged clock payload mode wal result appended =>
    obtain ⟨-, records⟩ := (logged.prepare clock).append appended
    have number := (WalWriter.append_numbers appended).1
    rw [(maintained_maybeAutoFlush _).wal]
    change wal.Holds entry ↔ _
    unfold WalWriter.Holds
    rw [records, prepareHlcWriteSequence_records, number]
    simp only [List.mem_append, List.mem_singleton, or_and_right, exists_or, exists_eq_left]
  | flush =>
    rw [(maintained_flush engine).wal]
    exact (or_iff_left nofun).symm
  | compact asked =>
    rw [(maintained_compact engine).wal]
    exact (or_iff_left nofun).symm
  | pins refcounts => exact (or_iff_left nofun).symm
  | watermark ts asked =>
    unfold setGcWatermark
    split <;> exact (or_iff_left nofun).symm

end Engine

namespace Session
variable {config : EngineConfig} {session : Session} {segments : List Segment} {disk : Disk} {written : List SstEntry}

theorem Durable.step {event : Event} (durable : session.Durable config) (strict : event.Strict config) :
    (session.step event).Durable config := by
  have moved := Engine.moves_step session.engine event
  obtain ⟨same, filed⟩ := moved.filed durable.filed
  refine ⟨same.trans durable.config, durable.logged.step event, ?_, filed, fun entry => ?_⟩
  · exact Engine.step_synced durable.synced (durable.config ▸ strict)
  · change entry ∈ session.written ++ (session.engine.accepted event).toList ↔ _
    rw [List.mem_append, Option.mem_toList, durable.same]
    exact (moved.holds durable.logged entry).symm

theorem Durable.unflushed (durable : session.Durable config) :
    (Session.mk session.engine.unflushed session.written).Durable { config with memtableMaxBytes := 0 } :=
  ⟨congrArg (fun config : EngineConfig => { config with memtableMaxBytes := 0 }) durable.config,
    ⟨durable.logged.intact, durable.logged.sources, durable.logged.named⟩, durable.synced, durable.filed, durable.same⟩

theorem Durable.begun {write : Option Event} (durable : session.Durable config)
    (strict : ∀ event ∈ write, event.Strict config) : (session.begun write).Durable config := by
  cases write with
  | none => exact durable
  | some event =>
    have same : event.Strict { config with memtableMaxBytes := 0 } := by
      have given := strict event rfl
      cases event <;> exact given
    have done := durable.unflushed.step same
    exact ⟨durable.config, ⟨done.logged.intact, done.logged.sources, done.logged.named⟩, done.synced, done.filed, done.same⟩

theorem durable_openFrom (unbroken : WalWriter.Unbroken segments) (synced : Synced segments)
    (filed : disk.Filed) (named : ∀ table ∈ disk.named, ∀ entry ∈ table.entries, entry ∈ written)
    (same : Telling segments written) : (Session.mk (.openFrom config segments disk) written).Durable config := by
  have kept : (Engine.openFrom config segments disk).wal.segments = segments := by
    unfold Engine.openFrom
    rw [Engine.recovered_of_unbroken unbroken]
    rfl
  refine ⟨rfl, Engine.logged_openFrom unbroken fun table inside entry held => (same entry).mp (named table inside entry held),
    kept.symm ▸ synced, filed, fun entry => ?_⟩
  unfold WalWriter.Holds WalWriter.records
  rw [kept]
  exact same entry

theorem crash_synced (synced : Synced segments) : segments.map Segment.crash = segments := by
  nth_rewrite 2 [← List.map_id segments]
  refine List.map_congr_left fun ⟨id, content, durable⟩ inside => ?_
  cases synced _ inside
  rfl

theorem Durable.crashIn (durable : session.Durable config) (work : Work) (point : CrashPoint) :
    ∃ after, session.engine.crashIn work point = .ok after ∧ (Session.mk after session.written).Durable config ∧
      ∀ key readAt, after.getInner key readAt = History.get session.written key readAt.asNat := by
  have filed := Engine.filed_crashDisk durable.filed work point
  have named : ∀ table ∈ (session.engine.crashDisk work point).named, ∀ entry ∈ table.entries, entry ∈ session.written :=
    fun table inside entry held => (durable.same entry).mpr (durable.logged.crashDisk work point table inside entry held)
  have unbroken := durable.logged.intact.unbroken
  unfold Engine.crashIn
  rw [crash_synced durable.synced, openDisk_filed _ _ filed, durable.config]
  exact ⟨_, rfl, durable_openFrom unbroken durable.synced filed named durable.same,
    getInner_openFrom unbroken named durable.same⟩

theorem Durable.meet {occurrence : Occurrence} (durable : session.Durable config) (strict : occurrence.Strict config) :
    ∃ after, session.meet occurrence = .ok after ∧ after.Durable config := by
  cases occurrence with
  | request event => exact ⟨_, rfl, durable.step strict⟩
  | reopen =>
    have named : ∀ table ∈ session.engine.disk.named, ∀ entry ∈ table.entries, entry ∈ session.written :=
      fun table inside entry held => (durable.same entry).mpr (durable.logged.named table inside entry held)
    unfold Session.meet
    dsimp only
    rw [openDisk_filed _ _ durable.filed, durable.config]
    exact ⟨_, rfl, durable_openFrom durable.logged.intact.unbroken durable.synced durable.filed named durable.same⟩
  | crash write work point =>
    obtain ⟨after, opened, again, -⟩ := (durable.begun strict).crashIn work point
    unfold Session.meet
    dsimp only
    rw [opened]
    exact ⟨_, rfl, again⟩

theorem durable_history {occurrences : List Occurrence} (strict : ∀ occurrence ∈ occurrences, occurrence.Strict config) :
    ∀ {session : Session}, session.Durable config → ∃ after, occurrences.foldlM meet session = .ok after ∧ after.Durable config := by
  induction occurrences with
  | nil => exact fun durable => ⟨_, rfl, durable⟩
  | cons occurrence rest ih =>
    intro session durable
    obtain ⟨middle, met, next⟩ := durable.meet (strict occurrence List.mem_cons_self)
    obtain ⟨after, done, last⟩ := ih (fun other inside => strict other (List.mem_cons_of_mem _ inside)) next
    refine ⟨after, ?_, last⟩
    rw [List.foldlM_cons, met]
    exact done

theorem durable_fresh (config : EngineConfig) : (Session.fresh config).Durable config := by
  refine ⟨rfl, .fresh config, fun _ inside => absurd inside List.not_mem_nil, fun _ inside => absurd inside List.not_mem_nil,
    fun entry => ⟨fun inside => absurd inside List.not_mem_nil, ?_⟩⟩
  rintro ⟨record, inside, -⟩
  exact absurd inside List.not_mem_nil

/-- The engine can be opened after a crash inside the work, and gets return what
they returned when it began. -/
def CrashAtomic (session : Session) (work : Work) (point : CrashPoint) : Prop :=
  ∃ after, session.engine.crashIn work point = .ok after ∧
    ∀ key, after.getInner key .latest = session.engine.getInner key .latest

def Current (session : Session) : Prop :=
  ∀ key, session.engine.getInner key .latest = History.get session.written key ReadTimestamp.latest.asNat

/-- In every strict history a flush or a compaction is crash-atomic, wherever it is
interrupted, if and only if gets returned the last writes when it began. -/
theorem crash_atomic_iff_current {config : EngineConfig} {occurrences : List Occurrence} {write : Option Event}
    (strict : ∀ occurrence ∈ occurrences, occurrence.Strict config) (last : ∀ event ∈ write, event.Strict config)
    (work : Work) (point : CrashPoint) : ∃ session, occurrences.foldlM meet (fresh config) = .ok session ∧
      ((session.begun write).CrashAtomic work point ↔ (session.begun write).Current) := by
  obtain ⟨session, done, durable⟩ := durable_history strict (durable_fresh config)
  obtain ⟨after, opened, -, found⟩ := (durable.begun last).crashIn work point
  refine ⟨session, done, ?_, fun current => ⟨after, opened, fun key => ?_⟩⟩
  · rintro ⟨other, again, same⟩ key
    cases opened.symm.trans again
    exact (same key).symm.trans (found key .latest)
  · exact (found key .latest).trans (current key).symm

end Session

/-- A crash between the two edits of a compaction of two tables, and later one in
the flush that follows a write. -/
def interruptedHistory : List Occurrence :=
  [.request (putByte 1 1), .request .flush, .request (putByte 1 2), .request .flush, .crash none .compact (.written 2),
    .request (putByte 2 1)]

theorem crash_atomic_in_interruptedHistory : ∃ session, interruptedHistory.foldlM Session.meet (.fresh mergeConfig) = .ok session ∧
    ((session.begun (some (putByte 1 3))).CrashAtomic .flush (.written 1) ↔ (session.begun (some (putByte 1 3))).Current) :=
  Session.crash_atomic_iff_current (by decide) (by decide) .flush (.written 1)

/-- A compaction of the higher level has hidden a newer version; then the process
dies as soon as a flush begins. -/
def shadowedHistory : List Occurrence := (shadowRun ++ [putByte 5 1]).map .request

def shadowedSession : Session := (Session.fresh leveledConfig).run (shadowRun ++ [putByte 5 1])

theorem crash_in_flush_changes_value : (∀ occurrence ∈ shadowedHistory, occurrence.Strict leveledConfig) ∧
    shadowedHistory.foldlM Session.meet (.fresh leveledConfig) = .ok shadowedSession ∧
    shadowedSession.engine.getInner [1] .latest = some [1] ∧
    ((shadowedSession.engine.crashIn .flush .unwritten).toOption.map fun after => after.getInner [1] .latest) = some (some [2]) ∧
    ¬ shadowedSession.CrashAtomic .flush .unwritten := by
  have before : shadowedSession.engine.getInner [1] .latest = some [1] := by decide +kernel
  have later : ((shadowedSession.engine.crashIn .flush .unwritten).toOption.map fun after => after.getInner [1] .latest) =
      some (some [2]) := by
    decide +kernel
  refine ⟨by decide, rfl, before, later, ?_⟩
  rintro ⟨after, opened, same⟩
  rw [opened, Except.toOption, Option.map_some, same, before] at later
  exact absurd later (by decide)

end KayaDB.Storage
