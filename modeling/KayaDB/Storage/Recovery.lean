import KayaDB.Storage.LogFiles
import KayaDB.Storage.Session

/-! Crashes and reopening. The next sequence number is taken from the last record that
recovery reads, so numbers go on as before only if the log still holds every version
found in a table. -/

namespace KayaDB.Storage
open Raft (Bytes)
open Versions Runs

/-- Requests, and what may happen to the process. It can die inside a request,
before the automatic flush or when `CURRENT` is all that has not been written. -/
inductive Incident where
  | request (event : Event)
  | reopen
  | crash
  | crashInside (event : Event) (flushing : Bool)
deriving DecidableEq, Repr

inductive Work where
  | flush
  | compact
deriving DecidableEq, Repr

namespace Engine
variable {engine : Engine} {work : Work} {entry : SstEntry} {config : EngineConfig}
  {segments : List Segment} {disk : Disk} {tables : List Sstable}
  {edits : List ManifestEdit} {table : Sstable} {event : Event} {records : List WalRecord}

def reopen (engine : Engine) : Engine := openFrom engine.config engine.wal.segments engine.disk

/-- Log files go back to what was synced; tables and manifest are synced when written. -/
def crash (engine : Engine) : Engine := openFrom engine.config (engine.wal.segments.map Segment.crash) engine.disk

def interrupt (engine : Engine) (event : Event) (flushing : Bool) : Engine :=
  if flushing then
    let done := engine.step event
    { done with disk := { done.disk with current := engine.disk.current } }
  else
    let done := step { engine with config := { engine.config with memtableMaxBytes := 0 } } event
    { done with config := engine.config }

def suffer (engine : Engine) : Incident → Engine
  | .request event => engine.step event
  | .reopen => engine.reopen
  | .crash => engine.crash
  | .crashInside event flushing => (engine.interrupt event flushing).crash

def outlive (engine : Engine) (incidents : List Incident) : Engine := incidents.foldl suffer engine

/-- Every log file but the last is synced, and for each version in a table there
is a synced record that is not older. -/
def Backed (engine : Engine) : Prop :=
  (∀ segment ∈ engine.wal.segments.dropLast, segment.durable = segment.content) ∧
    ∀ table ∈ engine.disk.named, ∀ entry ∈ table.entries,
      ∃ record ∈ engine.wal.segments.flatMap Segment.durable, entry.sequence ≤ record.sequence

instance : Decidable engine.Backed :=
  inferInstanceAs (Decidable ((∀ segment ∈ engine.wal.segments.dropLast, segment.durable = segment.content) ∧
    ∀ table ∈ engine.disk.named, ∀ entry ∈ table.entries,
      ∃ record ∈ engine.wal.segments.flatMap Segment.durable, entry.sequence ≤ record.sequence))

/-- Crashes come only while the log backs the tables. -/
def Survives (engine : Engine) : Incident → Prop
  | .crash => engine.Backed
  | .crashInside event flushing => (engine.interrupt event flushing).Backed
  | .request _ | .reopen => True

instance : ∀ incident, Decidable (engine.Survives incident)
  | .crash => inferInstanceAs (Decidable engine.Backed)
  | .crashInside event flushing => inferInstanceAs (Decidable (engine.interrupt event flushing).Backed)
  | .request _ | .reopen => isTrue trivial

/-- The log is intact and holds every version found in memory or on disk. -/
structure Logged (engine : Engine) : Prop where
  intact : engine.wal.Intact
  sources : ∀ entry ∈ engine.sources.flatten, engine.wal.Holds entry
  named : ∀ table ∈ engine.disk.named, ∀ entry ∈ table.entries, engine.wal.Holds entry

theorem mem_replay {table : TableMetadata} : ∀ {live : List TableMetadata},
    table ∈ edits.foldl ManifestEdit.apply live → table ∈ live ∨ .createTable table ∈ edits := by
  induction edits with
  | nil => exact Or.inl
  | cons edit edits ih =>
    intro live inside
    rcases ih inside with early | later
    · cases edit with
      | createTable other =>
        rcases List.mem_append.mp early with old | new
        · exact Or.inl old
        · exact Or.inr (List.mem_singleton.mp new ▸ List.mem_cons_self)
      | deleteTable id => exact Or.inl (List.mem_of_mem_filter early)
    · exact Or.inr (List.mem_cons_of_mem _ later)

theorem named_publish
    (written : ∀ created, .createTable created ∈ edits → ∃ file ∈ tables, file.metadata.tableId = created.tableId)
    (inside : table ∈ (disk.publish tables edits).named) :
    (∃ file ∈ tables, file.entries = table.entries) ∨ ∃ old ∈ disk.named, old.entries = table.entries := by
  obtain ⟨known, replayed, read⟩ := List.mem_filterMap.mp inside
  simp only [Disk.publish, replayManifest, List.foldl_append] at replayed
  simp only [Disk.readTable, Disk.publish, Option.map_eq_some_iff, List.find?_append] at read
  obtain ⟨file, found, rfl⟩ := read
  cases first : tables.find? fun file => decide (file.metadata.tableId = known.tableId) with
  | some new =>
    rw [first, Option.some_or, Option.some.injEq] at found
    exact Or.inl ⟨new, List.mem_of_find?_eq_some first, by rw [found]⟩
  | none =>
    rw [first, Option.none_or] at found
    rcases mem_replay replayed with early | created
    · refine Or.inr ⟨_, List.mem_filterMap.mpr ⟨known, early, ?_⟩, rfl⟩
      rw [Disk.readTable, found, Option.map_some]
    · obtain ⟨new, member, same⟩ := written known created
      exact absurd (decide_eq_true same) (List.find?_eq_none.mp first new member)

def finish (engine : Engine) : Work → Engine
  | .flush => engine.flush
  | .compact => engine.compact

/-- The tables and the edits the work writes, if there is anything to do. -/
def output (engine : Engine) : Work → Option (List Sstable × List ManifestEdit)
  | .flush =>
    if engine.memtable.isEmpty then none
    else some ([engine.flushTable], [.createTable engine.flushTable.metadata])
  | .compact => engine.candidate.map fun chosen =>
    ((engine.outputTable chosen).toList, ((engine.outputTable chosen).toList.map fun table => .createTable table.metadata) ++
      chosen.inputTableIds.map .deleteTable)

theorem disk_finish (engine : Engine) (work : Work) : (engine.finish work).disk =
    (engine.output work).elim engine.disk fun out => engine.disk.publish out.1 out.2 := by
  cases work with
  | flush =>
    simp only [finish, output, flush]
    split <;> rfl
  | compact =>
    simp only [finish, output, compact]
    cases engine.candidate with
    | none => rfl
    | some chosen =>
      simp only [Option.elim_some, Option.map_some, compactInputs]
      cases engine.outputTable chosen <;> rfl

theorem maintained_finish (engine : Engine) (work : Work) : engine.Maintained (engine.finish work) := by
  cases work with
  | flush => exact maintained_flush engine
  | compact => exact maintained_compact engine

theorem finish_subset : (engine.finish work).sources.flatten ⊆ engine.sources.flatten := by
  cases work with
  | flush => exact fun entry => (mem_sources_flush entry).mp
  | compact =>
    change engine.compact.sources.flatten ⊆ _
    exact compact_elim (List.Subset.refl _) fun _ _ => compactInputs_subset

theorem output_written (made : engine.output work = some (tables, edits)) {created : TableMetadata}
    (inside : .createTable created ∈ edits) : ∃ file ∈ tables, file.metadata.tableId = created.tableId := by
  cases work with
  | flush =>
    simp only [output] at made
    split at made
    · cases made
    · cases made
      cases List.mem_singleton.mp inside
      exact ⟨_, List.mem_singleton_self _, rfl⟩
  | compact =>
    obtain ⟨chosen, -, same⟩ := Option.map_eq_some_iff.mp made
    cases same
    rcases List.mem_append.mp inside with new | deleted
    · obtain ⟨table, held, same⟩ := List.mem_map.mp new
      cases same
      exact ⟨table, held, rfl⟩
    · obtain ⟨id, -, same⟩ := List.mem_map.mp deleted
      cases same

theorem Logged.output (logged : engine.Logged) (made : engine.output work = some (tables, edits))
    (inside : table ∈ tables) (held : entry ∈ table.entries) : engine.wal.Holds entry := by
  cases work with
  | flush =>
    simp only [Engine.output] at made
    split at made
    · cases made
    · cases made
      cases List.mem_singleton.mp inside
      exact logged.sources entry ((mem_sources entry).mpr (Or.inl held))
  | compact =>
    obtain ⟨chosen, -, same⟩ := Option.map_eq_some_iff.mp made
    cases same
    rw [outputTable_entries (Option.mem_toList.mp inside)] at held
    exact logged.sources entry ((mem_sources_split chosen.inputTableIds entry).mpr
      (Or.inr (Or.inl (outEntries_subset _ _ held))))

theorem Logged.published (logged : engine.Logged) (made : engine.output work = some (tables, edits))
    {part : List ManifestEdit} (fewer : part ⊆ edits) :
    ∀ table ∈ (engine.disk.publish tables part).named, ∀ entry ∈ table.entries, engine.wal.Holds entry := by
  intro table inside entry held
  rcases named_publish (fun created new => output_written made (fewer new)) inside with ⟨file, new, same⟩ | ⟨old, known, same⟩
  · exact logged.output made new (same ▸ held)
  · exact logged.named old known entry (same ▸ held)

theorem Logged.finish (logged : engine.Logged) (work : Work) : (engine.finish work).Logged := by
  have wal := (maintained_finish engine work).wal
  refine ⟨wal ▸ logged.intact, fun entry inside => ?_, ?_⟩
  · rw [wal]
    exact logged.sources entry (finish_subset inside)
  · rw [wal, disk_finish]
    cases made : engine.output work with
    | none => exact logged.named
    | some out => exact logged.published made (List.Subset.refl _)

theorem holds_of_records {wal after : WalWriter} (more : wal.records ⊆ after.records) (held : wal.Holds entry) :
    after.Holds entry := by
  obtain ⟨record, inside, same⟩ := held
  exact ⟨record, more inside, same⟩

theorem prepareHlcWriteSequence_records (engine : Engine) (clock : Option UInt64) :
    (engine.prepareHlcWriteSequence clock).records = engine.wal.records := by
  cases clock <;> rfl

theorem Logged.prepare (logged : engine.Logged) (clock : Option UInt64) :
    (engine.prepareHlcWriteSequence clock).Intact := by
  cases clock with
  | none => exact logged.intact
  | some reading => exact logged.intact.ensureMinSequence _

theorem Logged.moves {after : Engine} {added : Option SstEntry} (logged : engine.Logged)
    (moved : engine.Moves event after added) : after.Logged := by
  cases moved with
  | refused clock =>
    have same : engine.wal.records ⊆ (engine.prepareHlcWriteSequence clock).records := by
      rw [prepareHlcWriteSequence_records]
      exact fun _ inside => inside
    exact ⟨logged.prepare clock, fun entry inside => holds_of_records same (logged.sources entry inside),
      fun table inside entry held => holds_of_records same (logged.named table inside entry held)⟩
  | logged clock payload mode wal result appended =>
    obtain ⟨intact, records⟩ := (logged.prepare clock).append appended
    have number := (WalWriter.append_numbers appended).1
    have more : engine.wal.records ⊆ wal.records := by
      rw [records, prepareHlcWriteSequence_records]
      exact List.subset_append_left _ _
    have written : (engine.logged wal payload result.sequence).Logged := by
      refine ⟨intact, fun entry inside => ?_, fun table inside entry held =>
        holds_of_records more (logged.named table inside entry held)⟩
      rcases (mem_sources entry).mp inside with fresh | old
      · rcases mem_of_mem_applyPayload fresh with new | early
        · exact ⟨_, records ▸ List.mem_append_right _ (List.mem_singleton_self _), number ▸ new⟩
        · exact holds_of_records more (logged.sources entry ((mem_sources entry).mpr (Or.inl early)))
      · exact holds_of_records more (logged.sources entry ((mem_sources entry).mpr (Or.inr old)))
    exact maybeAutoFlush_elim (written.finish .flush) written
  | flush => exact logged.finish .flush
  | compact => exact logged.finish .compact
  | pins => exact ⟨logged.intact, logged.sources, logged.named⟩
  | watermark ts =>
    unfold setGcWatermark
    split
    · exact ⟨logged.intact, logged.sources, logged.named⟩
    · exact logged

theorem Logged.step (logged : engine.Logged) (event : Event) : (engine.step event).Logged :=
  logged.moves (moves_step engine event)

theorem mem_replayed : ∀ {memtable : Memtable},
    entry ∈ (records.foldl (fun memtable record => applyPayload memtable record.payload record.sequence) memtable).entries →
      entry ∈ memtable.entries ∨ ∃ record ∈ records, record.payload.entry record.sequence = some entry := by
  induction records with
  | nil => exact Or.inl
  | cons record records ih =>
    intro memtable inside
    rcases ih inside with early | ⟨other, later, same⟩
    · rcases mem_of_mem_applyPayload early with new | old
      · exact Or.inr ⟨record, List.mem_cons_self, new⟩
      · exact Or.inl old
    · exact Or.inr ⟨other, List.mem_cons_of_mem _ later, same⟩

theorem mem_loaded (inside : table ∈ newestFirst (disk.loadManifest.filterMap disk.readTable)) :
    table ∈ disk.named := by
  rw [mem_newestFirst] at inside
  unfold Disk.loadManifest at inside
  split at inside
  · exact inside
  · exact absurd inside List.not_mem_nil

theorem le_getLast {record last : WalRecord}
    (increasing : records.Pairwise fun first second => first.sequence < second.sequence) (inside : record ∈ records)
    (final : records.getLast? = some last) : record.sequence ≤ last.sequence := by
  obtain ⟨front, rfl⟩ := List.getLast?_eq_some_iff.mp final
  rcases List.mem_append.mp inside with early | late
  · exact ((List.pairwise_append.mp increasing).2.2 record early last (List.mem_singleton_self _)).le
  · rw [List.mem_singleton.mp late]

section
variable (unbroken : WalWriter.Unbroken segments)
include unbroken

theorem intact_openAt :
    (WalWriter.openAt segments ((segments.flatMap Segment.content).getLast?.elim 1 fun record => record.lsn + 1)
      ((segments.flatMap Segment.content).getLast?.elim 1 fun record => record.sequence + 1)).Intact := by
  refine ⟨unbroken, fun segment inside => ?_, fun lsn expected => ?_, fun record inside => ?_⟩
  · exact List.le_max?_getD_of_mem (List.mem_map_of_mem inside)
  · have same : expectedAfter none (segments.flatMap Segment.content) = some lsn := expected
    rw [expectedAfter_eq] at same
    cases last : (segments.flatMap Segment.content).getLast? with
    | none => simp [last] at same
    | some record =>
      rw [last, Option.elim_some, Option.some.injEq] at same
      simp [WalWriter.openAt, same]
  · have held : record ∈ segments.flatMap Segment.content := inside
    cases last : (segments.flatMap Segment.content).getLast? with
    | none => exact absurd held (List.getLast?_eq_none_iff.mp last ▸ List.not_mem_nil)
    | some newest => exact Nat.lt_succ_of_le (le_getLast unbroken.increasing held last)

theorem recovered_of_unbroken :
    recoverWal segments = (segments.flatMap Segment.content, segments) := recoverSegments_follows unbroken.follows

theorem logged_openFrom (held : ∀ table ∈ disk.named, ∀ entry ∈ table.entries,
      ∃ record ∈ segments.flatMap Segment.content, record.payload.entry record.sequence = some entry) :
    (openFrom config segments disk).Logged := by
  unfold openFrom
  rw [recovered_of_unbroken unbroken]
  refine ⟨intact_openAt unbroken, fun entry inside => ?_, held⟩
  rcases (mem_sources entry).mp inside with replayed | ⟨table, live, member⟩
  · exact (mem_replayed replayed).resolve_left List.not_mem_nil
  · exact held table (mem_loaded live) entry member

end

theorem Logged.reopen (logged : engine.Logged) : engine.reopen.Logged :=
  logged_openFrom logged.intact.unbroken logged.named

/-- A version with a synced record that is not older has its own record synced. -/
theorem Logged.synced (logged : engine.Logged) (backed : engine.Backed) (named : table ∈ engine.disk.named)
    (inside : entry ∈ table.entries) :
    ∃ record ∈ engine.wal.segments.flatMap Segment.durable, record.payload.entry record.sequence = some entry := by
  obtain ⟨record, held, same⟩ := logged.named table named entry inside
  obtain ⟨cover, durable, covers⟩ := backed.2 table named entry inside
  obtain ⟨lost, whole⟩ := crash_isPrefix logged.intact.unbroken.durable backed.1
  have increasing := logged.intact.unbroken.increasing
  have here : record ∈ engine.wal.segments.flatMap Segment.content := held
  rw [← whole] at increasing here
  rcases List.mem_append.mp here with kept | gone
  · exact ⟨record, kept, same⟩
  · have less := (List.pairwise_append.mp increasing).2.2 cover durable record gone
    rw [entry_sequence same] at covers
    omega

theorem Logged.crash (logged : engine.Logged) (backed : engine.Backed) : engine.crash.Logged := by
  have unbroken := logged.intact.unbroken
  have lost := crash_isPrefix unbroken.durable backed.1
  have content : (engine.wal.segments.map Segment.crash).flatMap Segment.content =
      engine.wal.segments.flatMap Segment.durable := by
    rw [List.flatMap_map]
    rfl
  apply logged_openFrom
  · refine ⟨List.pairwise_map.mpr unbroken.ordered, fun segment inside => ?_, ?_, ?_⟩
    · obtain ⟨old, -, rfl⟩ := List.mem_map.mp inside
      exact List.prefix_rfl
    · obtain ⟨gone, whole⟩ := lost
      have follows := unbroken.follows
      rw [← whole, follows_append] at follows
      rw [content]
      exact follows.1
    · rw [content]
      exact unbroken.increasing.sublist lost.sublist
  · rw [content]
    exact fun table named entry inside => logged.synced backed named inside

theorem Logged.interrupt (logged : engine.Logged) (event : Event) (flushing : Bool) :
    (engine.interrupt event flushing).Logged := by
  unfold Engine.interrupt
  split
  · have done := logged.step event
    exact ⟨done.intact, done.sources, done.named⟩
  · have plain : Logged { engine with config := { engine.config with memtableMaxBytes := 0 } } :=
      ⟨logged.intact, logged.sources, logged.named⟩
    have done := plain.step event
    exact ⟨done.intact, done.sources, done.named⟩

theorem Logged.suffer {incident : Incident} (logged : engine.Logged) (survives : engine.Survives incident) :
    (engine.suffer incident).Logged := by
  cases incident with
  | request event => exact logged.step event
  | reopen => exact logged.reopen
  | crash => exact logged.crash survives
  | crashInside event flushing => exact (logged.interrupt event flushing).crash survives

theorem Logged.fresh (config : EngineConfig) : (Engine.fresh config).Logged := by
  apply logged_openFrom
  · exact ⟨List.Pairwise.nil, fun _ inside => absurd inside List.not_mem_nil, trivial, List.Pairwise.nil⟩
  · exact fun _ inside => absurd inside List.not_mem_nil

theorem Logged.below (logged : engine.Logged) (inside : entry ∈ engine.sources.flatten) :
    entry.sequence < engine.wal.nextSequence := by
  obtain ⟨record, held, same⟩ := logged.sources entry inside
  exact entry_sequence same ▸ logged.intact.next record held

theorem Logged.unique (logged : engine.Logged) : Unique engine.sources.flatten := by
  intro first one second two _ numbers
  obtain ⟨record, held, same⟩ := logged.sources first one
  obtain ⟨other, also, equal⟩ := logged.sources second two
  rw [entry_sequence same, entry_sequence equal] at numbers
  have increasing : engine.wal.records.Pairwise fun first second => first.sequence < second.sequence :=
    logged.intact.unbroken.increasing
  have records : record = other := eq_of_sequence increasing held also numbers
  exact Option.some.inj (same.symm.trans (records ▸ equal))

theorem lookup_flush (engine : Engine) (key : Bytes) (ts : Nat) :
    lookup engine.flush.sources key ts = lookup engine.sources key ts := by
  unfold flush
  split <;> rfl

theorem lookup_maybeAutoFlush (engine : Engine) (key : Bytes) (ts : Nat) :
    lookup engine.maybeAutoFlush.sources key ts = lookup engine.sources key ts :=
  maybeAutoFlush_elim (lookup_flush engine key ts) rfl

/-- Gets return the version and so does every scan that comes to its key; one
that begins there does. -/
def Returns (engine : Engine) (entry : SstEntry) : Prop :=
  engine.getInner entry.key .latest = entry.value ∧
    (∀ front limit rows, engine.scanPrefixInner front limit .latest = .ok rows →
      ∀ value, (entry.key, value) ∈ rows → entry.value = some value) ∧
    ∀ limit value, 0 < engine.config.limits.maxScanResults → entry.value = some value →
      ∃ rest, engine.scanPrefixInner entry.key limit .latest = .ok ((entry.key, value) :: rest)

theorem logged_of_accepted (accepted : engine.accepted event = some entry) :
    ∃ clock payload mode wal result,
      (engine.prepareHlcWriteSequence clock).append engine.config.wal payload mode = .ok (wal, result) ∧
      engine.step event = (engine.logged wal payload result.sequence).maybeAutoFlush ∧
      payload.entry result.sequence = some entry := by
  have moved := moves_step engine event
  rw [accepted] at moved
  generalize same : some entry = added at moved
  generalize engine.step event = after at moved ⊢
  cases moved with
  | logged clock payload mode wal result appended =>
    exact ⟨clock, payload, mode, wal, result, appended, rfl, rfl⟩
  | refused | flush | compact | pins | watermark => cases same

theorem validateScanPrefix_of_validateKey {limits : LimitsConfig} {key : Bytes} (valid : limits.validateKey key = .ok ()) :
    limits.validateScanPrefix key = .ok () := by
  unfold LimitsConfig.validateKey at valid
  split at valid
  · cases valid
  · split at valid
    · cases valid
    next fits => rw [LimitsConfig.validateScanPrefix, if_neg fits]

theorem valid_of_accepted (accepted : engine.accepted event = some entry) :
    engine.config.limits.validateScanPrefix entry.key = .ok () := by
  apply validateScanPrefix_of_validateKey
  cases event with
  | put key value durability clock =>
    obtain ⟨result, taken, rfl⟩ := Option.map_eq_some_iff.mp accepted
    cases valid : engine.config.limits.validateKey key with
    | ok => rfl
    | error => simp [put, valid, Except.toOption] at taken
  | delete key durability clock =>
    obtain ⟨result, taken, rfl⟩ := Option.map_eq_some_iff.mp accepted
    cases valid : engine.config.limits.validateKey key with
    | ok => rfl
    | error => simp [delete, valid, Except.toOption] at taken
  | flush | compact | createSnapshot | releaseSnapshot | setGcWatermark => cases accepted

theorem prepareHlcWriteSequence_lt (room : engine.wal.nextSequence < 2 ^ 64) (clock : Option UInt64) :
    (engine.prepareHlcWriteSequence clock).nextSequence < 2 ^ 64 := by
  cases clock with
  | none => exact room
  | some reading => exact max_lt room (max_lt reading.toNat_lt (by decide))

theorem Logged.returns (logged : engine.Logged) (room : engine.wal.nextSequence < 2 ^ 64)
    (accepted : engine.accepted event = some entry) :
    (∀ old ∈ engine.sources.flatten, old.sequence < entry.sequence) ∧ (engine.step event).Returns entry := by
  have valid := valid_of_accepted accepted
  have unique := (logged.step event).unique
  obtain ⟨clock, payload, mode, wal, result, appended, stepped, made⟩ := logged_of_accepted accepted
  have number := entry_sequence made
  have given := (WalWriter.append_numbers appended).1
  have seen : entry.sequence ≤ ReadTimestamp.latest.asNat := by
    have := prepareHlcWriteSequence_lt room clock
    rw [number, given]
    exact Nat.le_sub_one_of_lt this
  have newer : ∀ old ∈ engine.sources.flatten, old.sequence < entry.sequence := by
    intro old inside
    rw [number, given]
    exact (logged.below inside).trans_le (le_prepareHlcWriteSequence engine clock)
  have config : (engine.step event).config = engine.config := by
    rw [stepped, (maintained_maybeAutoFlush _).config]
    rfl
  have fresh : ∀ old ∈ engine.memtable.entries, old.sequence < result.sequence := fun old inside =>
    number ▸ newer old ((mem_sources old).mpr (Or.inl inside))
  have inside : entry ∈ (engine.logged wal payload result.sequence).memtable.entries :=
    (mem_applyPayload fresh).mpr (Or.inl made)
  have greatest : ∀ other ∈ (engine.logged wal payload result.sequence).sources.flatten,
      other.sequence ≤ entry.sequence := by
    intro other held
    rcases (mem_sources other).mp held with here | there
    · rcases (mem_applyPayload fresh).mp here with new | old
      · rw [Option.some.inj (made.symm.trans new)]
      · exact (newer other ((mem_sources other).mpr (Or.inl old))).le
    · exact (newer other ((mem_sources other).mpr (Or.inr there))).le
  have found : History.get (engine.step event).sources.flatten entry.key ReadTimestamp.latest.asNat = entry.value := by
    have top : IsNewest (engine.step event).sources.flatten entry.key ReadTimestamp.latest.asNat entry := by
      rw [stepped]
      refine ⟨(mem_sources_maybeAutoFlush entry).mpr ((mem_sources entry).mpr (Or.inl inside)), ⟨rfl, seen⟩, ?_⟩
      exact fun other held _ => greatest other ((mem_sources_maybeAutoFlush other).mp held)
    rw [History.get, top.newest_eq unique, Option.bind_some]
  refine ⟨newer, ?_, fun front limit rows scanned value row => ?_, fun limit value enough put => ?_⟩
  · have top : IsNewest (engine.logged wal payload result.sequence).memtable.entries entry.key
        ReadTimestamp.latest.asNat entry :=
      ⟨inside, ⟨rfl, seen⟩, fun other held _ => greatest other ((mem_sources other).mpr (Or.inl held))⟩
    rw [stepped, getInner_eq, lookup_maybeAutoFlush, lookup, Engine.sources, List.findSome?_cons,
      top.newest_eq (unique_of_sorted (Memtable.sorted _)), Option.bind_some]
  · rw [scan_of_sources unique fun _ => Iff.rfl] at scanned
    rw [← found]
    exact History.get_of_mem_scan scanned row
  · rw [scan_of_sources unique fun _ => Iff.rfl]
    refine History.scan_self ?_ enough (found.trans put) limit
    rw [config]
    exact valid

end Engine

/-- As long as crashes come only while the log backs the tables and numbers do
not run out, a write gets a higher number than all there is and is read back. -/
theorem sequences_never_go_back {config : EngineConfig} {incidents : List Incident} {event : Event} {entry : SstEntry}
    (permitted : Permits Engine.suffer Engine.Survives (.fresh config) incidents)
    (room : ((Engine.fresh config).outlive incidents).wal.nextSequence < 2 ^ 64)
    (accepted : ((Engine.fresh config).outlive incidents).accepted event = some entry) :
    (∀ old ∈ ((Engine.fresh config).outlive incidents).sources.flatten, old.sequence < entry.sequence) ∧
      (((Engine.fresh config).outlive incidents).step event).Returns entry := by
  have logged : ((Engine.fresh config).outlive incidents).Logged :=
    permitted.reaches.invariant Engine.Logged (.fresh config) Engine.Logged.suffer
  exact logged.returns room accepted

/-- A synced write, a flush and a crash, then a write of the same key. -/
theorem sequences_never_go_back_after_crash :
    (((Engine.fresh mergeConfig).outlive [.request (putByte 1 1), .request .flush, .crash]).step (putByte 1 2)).Returns
      ⟨[1], 2, some [2]⟩ :=
  (sequences_never_go_back (by decide +kernel) (by decide +kernel) (by decide +kernel)).2

/-- The table survives the crash, the unsynced log record does not. -/
def lossyRun : List Incident := [.request (.put [1] [1] (some .relaxed) none), .request .flush, .crash]

theorem relaxed_write_number_comes_back :
    ((Engine.fresh mergeConfig).outlive lossyRun).accepted (putByte 1 2) = some ⟨[1], 1, some [2]⟩ ∧
      ¬ (∀ old ∈ ((Engine.fresh mergeConfig).outlive lossyRun).sources.flatten, old.sequence < 1) ∧
      (((Engine.fresh mergeConfig).outlive lossyRun).step (putByte 1 2)).getInner [1] .latest = some [2] ∧
      (((Engine.fresh mergeConfig).outlive lossyRun).step (putByte 1 2)).scanPrefixInner [1] none .latest =
        .ok [([1], [1])] ∧
      ¬ (((Engine.fresh mergeConfig).outlive lossyRun).step (putByte 1 2)).Returns ⟨[1], 1, some [2]⟩ := by
  have scanned : (((Engine.fresh mergeConfig).outlive lossyRun).step (putByte 1 2)).scanPrefixInner [1] none .latest =
      .ok [([1], [1])] := by
    decide +kernel
  refine ⟨by decide +kernel, by decide +kernel, by decide +kernel, scanned, fun returned => ?_⟩
  exact absurd (returned.2.1 _ _ _ scanned [1] List.mem_cons_self) (by decide)

end KayaDB.Storage
