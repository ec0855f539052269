import KayaDB.Storage.Reads

/-! Runs of an engine, with a record of every version written, and what holds of
its sources as long as each compaction keeps newer versions before older ones. -/

namespace KayaDB.Storage
open Raft (Bytes)
open Versions Runs

/-- A request to the engine. A snapshot pins the live tables; which tables one
releases is left open. -/
inductive Event where
  | put (key value : Bytes) (durability : Option DurabilityMode) (clock : Option UInt64)
  | delete (key : Bytes) (durability : Option DurabilityMode) (clock : Option UInt64)
  | flush
  | compact
  | createSnapshot
  | releaseSnapshot (tables : List Nat)
  | setGcWatermark (ts : UInt64)
deriving DecidableEq, Repr

def Event.setsWatermark : Event → Bool
  | .setGcWatermark _ => true
  | _ => false

namespace Engine

def step (engine : Engine) : Event → Engine
  | .put key value durability clock => (engine.put key value durability clock).1
  | .delete key durability clock => (engine.delete key durability clock).1
  | .flush => engine.flush
  | .compact => engine.compact
  | .createSnapshot => engine.pinTables (engine.liveTables.map TableMetadata.tableId)
  | .releaseSnapshot tables => engine.releaseTables tables
  | .setGcWatermark ts => engine.setGcWatermark ts

def accepted (engine : Engine) : Event → Option SstEntry
  | .put key value durability clock =>
    (engine.put key value durability clock).2.toOption.map fun result => ⟨key, result.sequence, some value⟩
  | .delete key durability clock =>
    (engine.delete key durability clock).2.toOption.map fun result => ⟨key, result.sequence, none⟩
  | _ => none

end Engine

structure Session where
  engine : Engine
  written : List SstEntry

namespace Session

def fresh (config : EngineConfig) : Session := ⟨Engine.fresh config, []⟩

def step (session : Session) (event : Event) : Session :=
  ⟨session.engine.step event, session.written ++ (session.engine.accepted event).toList⟩

def run (session : Session) (events : List Event) : Session := events.foldl step session

/-- Every get returns the newest version it may see and every scan the same for
the keys it lists. -/
def ReadsCorrect (session : Session) : Prop :=
  (∀ key readAt, session.engine.getInner key readAt = History.get session.written key readAt.asNat) ∧
    ∀ front limit readAt, session.engine.scanPrefixInner front limit readAt =
      History.scan session.engine.config.limits session.written front limit readAt.asNat

/-- A compaction takes only versions newer than those of the same key it leaves. -/
def KeepsOrder (session : Session) (event : Event) : Prop :=
  match event with
  | .compact => ∀ chosen ∈ session.engine.candidate, session.engine.OrderKept chosen
  | _ => True

instance (session : Session) : ∀ event, Decidable (session.KeepsOrder event)
  | .compact => inferInstanceAs (Decidable (∀ chosen ∈ session.engine.candidate, session.engine.OrderKept chosen))
  | .put .. | .delete .. | .flush | .createSnapshot | .releaseSnapshot _ | .setGcWatermark _ => isTrue trivial

/-- No watermark is set, and compactions keep the order. -/
def Plain (session : Session) (event : Event) : Prop := event.setsWatermark = false ∧ session.KeepsOrder event

instance (session : Session) (event : Event) : Decidable (session.Plain event) := inferInstanceAs (Decidable (_ ∧ _))

end Session

namespace Engine
variable {engine : Engine} {payload : WalPayload} {entry : SstEntry}
  {sequence : Nat} {memtable : Memtable} {event : Event}

theorem applyPayload_eq (memtable : Memtable) (payload : WalPayload) (sequence : Nat) :
    applyPayload memtable payload sequence = (payload.entry sequence).elim memtable memtable.insert := by
  cases payload <;> rfl

theorem entry_sequence (logged : payload.entry sequence = some entry) : entry.sequence = sequence := by
  cases payload with
  | put => cases logged; rfl
  | delete => cases logged; rfl
  | noop => cases logged

theorem mem_of_mem_applyPayload (inside : entry ∈ (applyPayload memtable payload sequence).entries) :
    payload.entry sequence = some entry ∨ entry ∈ memtable.entries := by
  rw [applyPayload_eq] at inside
  cases logged : payload.entry sequence with
  | none =>
    rw [logged] at inside
    exact Or.inr inside
  | some added =>
    rw [logged] at inside
    rcases mem_insertEntry inside with rfl | old
    · exact Or.inl rfl
    · exact Or.inr old

theorem mem_applyPayload (newer : ∀ old ∈ memtable.entries, old.sequence < sequence) :
    entry ∈ (applyPayload memtable payload sequence).entries ↔
      payload.entry sequence = some entry ∨ entry ∈ memtable.entries := by
  rw [applyPayload_eq]
  cases logged : payload.entry sequence with
  | none => simp
  | some added =>
    have number := entry_sequence logged
    refine (perm_insertEntry added memtable.sorted).2.mem_iff.trans ?_
    rw [List.mem_cons, List.mem_filter, Option.some.injEq, eq_comm, decide_eq_true_eq]
    exact or_congr_right (and_iff_left_of_imp fun inside same => (newer entry inside).ne (same.2.symm.trans number))

theorem le_prepareHlcWriteSequence (engine : Engine) (clock : Option UInt64) :
    engine.wal.nextSequence ≤ (engine.prepareHlcWriteSequence clock).nextSequence := by
  cases clock with
  | none => exact le_rfl
  | some reading => exact le_max_left _ _

theorem put_cases (engine : Engine) (key value : Bytes) (durability : Option DurabilityMode) (clock : Option UInt64) :
    (∃ message, engine.put key value durability clock = (engine, .error message)) ∨
      engine.put key value durability clock = engine.write (.put key value) durability clock := by
  unfold put
  split
  · exact Or.inl ⟨_, rfl⟩
  · exact Or.inl ⟨_, rfl⟩
  · exact Or.inl ⟨_, rfl⟩
  next valid _ fits =>
    right
    rw [writePut, valid, fits]

theorem delete_cases (engine : Engine) (key : Bytes) (durability : Option DurabilityMode) (clock : Option UInt64) :
    (∃ message, engine.delete key durability clock = (engine, .error message)) ∨
      engine.delete key durability clock = engine.write (.delete key) durability clock := by
  unfold delete
  split
  · exact Or.inl ⟨_, rfl⟩
  · exact Or.inl ⟨_, rfl⟩
  next valid _ =>
    right
    rw [writeDelete, valid]

/-- What one request can do to an engine, and which version it adds. A refused
write may have moved the next number on. -/
inductive Moves (engine : Engine) (event : Event) : Engine → Option SstEntry → Prop
  | refused (clock : Option UInt64) :
    Moves engine event { engine with wal := engine.prepareHlcWriteSequence clock } none
  | logged (clock : Option UInt64) (payload : WalPayload) (mode : DurabilityMode) (wal : WalWriter)
    (result : AppendResult)
    (appended : (engine.prepareHlcWriteSequence clock).append engine.config.wal payload mode = .ok (wal, result)) :
    Moves engine event (engine.logged wal payload result.sequence).maybeAutoFlush (payload.entry result.sequence)
  | flush : Moves engine event engine.flush none
  | compact (asked : event = .compact) : Moves engine event engine.compact none
  | pins (refcounts : Nat → Nat) : Moves engine event { engine with refcounts } none
  | watermark (ts : UInt64) (asked : event = .setGcWatermark ts) : Moves engine event (engine.setGcWatermark ts) none

theorem moves_write {key : Bytes} {result : Engine × Except String AppendResult} {durability : Option DurabilityMode}
    {clock : Option UInt64} {value : Option Bytes}
    (names : ∀ sequence, payload.entry sequence = some ⟨key, sequence, value⟩)
    (outcome : (∃ message, result = (engine, .error message)) ∨ result = engine.write payload durability clock) :
    Moves engine event result.1 (result.2.toOption.map fun done => ⟨key, done.sequence, value⟩) := by
  rcases outcome with ⟨message, rfl⟩ | rfl
  · exact .refused none
  · unfold write
    dsimp only
    split
    next => exact .refused clock
    next wal done appended =>
      have move : Moves engine event _ _ := .logged clock payload _ wal done appended
      rwa [names] at move

theorem moves_step (engine : Engine) (event : Event) :
    Moves engine event (engine.step event) (engine.accepted event) := by
  cases event with
  | put key value durability clock => exact moves_write (fun _ => rfl) (put_cases engine key value durability clock)
  | delete key durability clock => exact moves_write (fun _ => rfl) (delete_cases engine key durability clock)
  | flush => exact .flush
  | compact => exact .compact rfl
  | createSnapshot => exact .pins _
  | releaseSnapshot tables => exact .pins _
  | setGcWatermark ts => exact .watermark ts rfl

/-- Sources are read from new to old, and the next number is above all of theirs. -/
structure Sound (engine : Engine) : Prop extends Tidy engine where
  below : ∀ entry ∈ engine.sources.flatten, entry.sequence < engine.wal.nextSequence

theorem Sound.fresh (config : EngineConfig) : (Engine.fresh config).Sound where
  numbered := ⟨List.Pairwise.nil, fun _ inside => absurd inside List.not_mem_nil⟩
  unique := fun _ inside => absurd inside List.not_mem_nil
  below := fun _ inside => absurd inside List.not_mem_nil
  ordered := List.pairwise_singleton _ _

theorem numbered_flush (numbered : engine.Numbered) : engine.flush.Numbered := by
  unfold flush
  split
  · exact numbered
  · refine ⟨List.pairwise_cons.mpr ⟨numbered.below, numbered.sorted⟩, fun table inside => ?_⟩
    rcases List.mem_cons.mp inside with rfl | inside
    · exact Nat.lt_succ_self _
    · exact Nat.lt_succ_of_lt (numbered.below table inside)

theorem maintained_flush (engine : Engine) : engine.Maintained engine.flush := by
  unfold flush
  split <;> exact ⟨rfl, rfl, rfl, rfl⟩

theorem Sound.flush (sound : engine.Sound) : engine.flush.Sound where
  numbered := numbered_flush sound.numbered
  unique := sound.unique.subset fun entry => (mem_sources_flush entry).mp
  below := fun entry inside => (maintained_flush engine).wal ▸ sound.below entry ((mem_sources_flush entry).mp inside)
  ordered := ordered_flush sound.ordered

@[elab_as_elim]
theorem maybeAutoFlush_elim {motive : Engine → Prop} (flushed : motive engine.flush) (same : motive engine) :
    motive engine.maybeAutoFlush := by
  unfold maybeAutoFlush
  split
  · exact flushed
  · exact same

@[elab_as_elim]
theorem compact_elim {motive : Engine → Prop} (same : motive engine)
    (merged : ∀ chosen ∈ engine.candidate, motive (engine.compactInputs chosen)) : motive engine.compact := by
  unfold compact
  cases picked : engine.candidate with
  | none => exact same
  | some chosen => exact merged chosen picked

theorem maintained_maybeAutoFlush (engine : Engine) : engine.Maintained engine.maybeAutoFlush :=
  maybeAutoFlush_elim (maintained_flush engine) ⟨rfl, rfl, rfl, rfl⟩

theorem maintained_compact (engine : Engine) : engine.Maintained engine.compact :=
  compact_elim ⟨rfl, rfl, rfl, rfl⟩ fun chosen _ => maintained_compactInputs engine chosen

theorem mem_sources_maybeAutoFlush (entry : SstEntry) :
    entry ∈ engine.maybeAutoFlush.sources.flatten ↔ entry ∈ engine.sources.flatten :=
  maybeAutoFlush_elim (mem_sources_flush entry) Iff.rfl

section
variable {wal : WalWriter} {sequence : Nat}

theorem mem_sources_logged (sound : engine.Sound) (later : engine.wal.nextSequence ≤ sequence) :
    entry ∈ (engine.logged wal payload sequence).sources.flatten ↔
      payload.entry sequence = some entry ∨ entry ∈ engine.sources.flatten := by
  have newer : ∀ old ∈ engine.memtable.entries, old.sequence < sequence := fun old inside =>
    (sound.below old ((mem_sources old).mpr (Or.inl inside))).trans_le later
  rw [mem_sources, mem_sources]
  exact (or_congr (mem_applyPayload newer) Iff.rfl).trans or_assoc

theorem Sound.logged (sound : engine.Sound) (later : engine.wal.nextSequence ≤ sequence)
    (next : wal.nextSequence = sequence + 1) :
    (engine.logged wal payload sequence).Sound := by
  have members : ∀ entry, entry ∈ (engine.logged wal payload sequence).sources.flatten ↔ _ :=
    fun entry => mem_sources_logged sound later
  have older : ∀ old ∈ engine.sources.flatten, old.sequence < sequence := fun old inside =>
    (sound.below old inside).trans_le later
  obtain ⟨top, tables⟩ := List.pairwise_cons.mp sound.ordered
  refine ⟨⟨⟨sound.numbered.sorted, sound.numbered.below⟩, ?_, List.pairwise_cons.mpr ⟨fun source inside => ?_, tables⟩⟩,
    fun entry inside => ?_⟩
  · intro first one second two keys numbers
    rcases (members first).mp one with fresh | early <;> rcases (members second).mp two with also | late
    · exact Option.some.inj (fresh.symm.trans also)
    · have := older second late
      have := entry_sequence fresh
      omega
    · have := older first early
      have := entry_sequence also
      omega
    · exact sound.unique first early second late keys numbers
  · intro recent here old there same
    have held : old ∈ engine.sources.flatten := List.mem_flatten.mpr ⟨source, List.mem_cons_of_mem _ inside, there⟩
    have newer : ∀ old ∈ engine.memtable.entries, old.sequence < sequence := fun old inside =>
      older old ((mem_sources old).mpr (Or.inl inside))
    rcases (mem_applyPayload newer).mp here with fresh | early
    · exact Or.inl (entry_sequence fresh ▸ older old held)
    · refine (top source inside recent early old there same).imp_right fun copied => ?_
      exact (mem_applyPayload newer).mpr (Or.inr copied)
  · have bound : entry.sequence ≤ sequence := by
      rcases (members entry).mp inside with fresh | early
      · exact (entry_sequence fresh).le
      · exact (older entry early).le
    exact next ▸ Nat.lt_succ_of_le bound

end

theorem Sound.compactInputs {chosen : CompactionCandidate} (sound : engine.Sound) (kept : engine.OrderKept chosen) :
    (engine.compactInputs chosen).Sound := by
  refine ⟨sound.toTidy.compactInputs kept, fun entry found => ?_⟩
  rw [(maintained_compactInputs engine chosen).wal]
  exact sound.below entry (compactInputs_subset found)

theorem Sound.moves {after : Engine} {added : Option SstEntry} (sound : engine.Sound)
    (moved : engine.Moves event after added)
    (allowed : event = .compact → ∀ chosen ∈ engine.candidate, engine.OrderKept chosen) : after.Sound := by
  cases moved with
  | refused clock =>
    exact ⟨⟨⟨sound.numbered.sorted, sound.numbered.below⟩, sound.unique, sound.ordered⟩,
      fun entry inside => (sound.below entry inside).trans_le (le_prepareHlcWriteSequence _ clock)⟩
  | logged clock payload mode wal result appended =>
    obtain ⟨number, next⟩ := WalWriter.append_numbers appended
    have later := le_prepareHlcWriteSequence engine clock
    have written : (engine.logged wal payload result.sequence).Sound := sound.logged (number ▸ later) (number ▸ next)
    exact maybeAutoFlush_elim written.flush written
  | flush => exact sound.flush
  | compact asked =>
    exact compact_elim sound fun chosen picked => sound.compactInputs (allowed asked chosen picked)
  | pins refcounts => exact ⟨⟨⟨sound.numbered.sorted, sound.numbered.below⟩, sound.unique, sound.ordered⟩, sound.below⟩
  | watermark ts asked =>
    unfold setGcWatermark
    split
    · exact ⟨⟨⟨sound.numbered.sorted, sound.numbered.below⟩, sound.unique, sound.ordered⟩, sound.below⟩
    · exact sound

theorem Sound.step {session : Session} (sound : session.engine.Sound) (allowed : session.KeepsOrder event) :
    (session.step event).engine.Sound := by
  refine sound.moves (moves_step session.engine event) fun asked => ?_
  rw [asked] at allowed
  exact allowed

theorem mem_sources_compact (sound : engine.Sound) (low : engine.gcWatermark = 0) (entry : SstEntry) :
    entry ∈ engine.compact.sources.flatten ↔ entry ∈ engine.sources.flatten := by
  refine compact_elim Iff.rfl fun chosen _ => ?_
  have current : ∀ entries : List SstEntry, ¬ Obsolete entries engine.gcWatermark.toNat entry := by
    rintro entries ⟨less, -⟩
    rw [low] at less
    exact Nat.not_lt_zero _ less
  refine (mem_sources_compactInputs sound.numbered (sound.toTidy.unique_inputs _) entry).trans ?_
  rw [mem_sources_split chosen.inputTableIds, and_iff_left (current _)]

end Engine

namespace Session
variable {session : Session} {event : Event}

/-- The sources hold what was written. -/
structure Faithful (session : Session) : Prop where
  sound : session.engine.Sound
  same : ∀ entry, entry ∈ session.engine.sources.flatten ↔ entry ∈ session.written
  low : session.engine.gcWatermark = 0

theorem Faithful.readsCorrect (faithful : session.Faithful) : session.ReadsCorrect := by
  have unique : Unique session.written := faithful.sound.unique.subset fun entry => (faithful.same entry).mpr
  exact ⟨Engine.get_of_ordered unique faithful.same faithful.sound.ordered,
    Engine.scan_of_sources unique faithful.same⟩

theorem Faithful.moves {after : Engine} {added : Option SstEntry} (faithful : session.Faithful)
    (moved : session.engine.Moves event after added) (plain : session.Plain event) :
    Faithful ⟨after, session.written ++ added.toList⟩ := by
  have sound : after.Sound := by
    refine faithful.sound.moves moved fun asked => ?_
    rw [asked] at plain
    exact plain.2
  refine ⟨sound, fun entry => ?_, ?_⟩
  · dsimp only
    rw [List.mem_append, ← faithful.same, Option.mem_toList]
    cases moved with
    | logged clock payload mode wal result appended =>
      have later := Engine.le_prepareHlcWriteSequence session.engine clock
      rw [← (WalWriter.append_numbers appended).1] at later
      rw [Engine.mem_sources_maybeAutoFlush, Engine.mem_sources_logged faithful.sound later, or_comm]
    | flush => exact (Engine.mem_sources_flush entry).trans (or_iff_left nofun).symm
    | compact asked =>
      exact (Engine.mem_sources_compact faithful.sound faithful.low entry).trans (or_iff_left nofun).symm
    | watermark ts asked =>
      rw [asked] at plain
      exact nomatch plain.1
    | refused => exact (or_iff_left nofun).symm
    | pins => exact (or_iff_left nofun).symm
  · cases moved with
    | logged => exact (Engine.maintained_maybeAutoFlush _).gcWatermark.trans faithful.low
    | flush => exact (Engine.maintained_flush _).gcWatermark.trans faithful.low
    | compact asked => exact (Engine.maintained_compact _).gcWatermark.trans faithful.low
    | watermark ts asked =>
      rw [asked] at plain
      exact nomatch plain.1
    | refused => exact faithful.low
    | pins => exact faithful.low

theorem Faithful.step (faithful : session.Faithful) (plain : session.Plain event) : (session.step event).Faithful :=
  faithful.moves (Engine.moves_step session.engine event) plain

/-- In every run whose compactions take only versions newer than those of the
same key they leave, all reads are right. -/
theorem snapshot_reads_correct {config : EngineConfig} {events : List Event}
    (permitted : Permits step Plain (fresh config) events) : ((fresh config).run events).ReadsCorrect := by
  have faithful : ((fresh config).run events).Faithful := by
    refine permitted.reaches.invariant Faithful ?_ Faithful.step
    exact ⟨Engine.Sound.fresh config, fun entry => Iff.rfl, rfl⟩
  exact faithful.readsCorrect

end Session

/-- Merges two tables of level 0 into one of level 1, and so on. -/
def leveledConfig : EngineConfig where
  durability := .strict
  wal := ⟨4096, 1024⟩
  memtableMaxBytes := 0
  limits := ⟨64, 64, 100, 4096⟩
  compaction := .leveled ⟨4, 2⟩
  tableSize := fun entries => entries.length

def mergeConfig : EngineConfig := { leveledConfig with compaction := .l0Merge }

def putByte (key value : UInt8) : Event := .put [key] [value] none none

def levelRun : List Event :=
  [putByte 1 1, .flush, putByte 2 1, .flush, .compact, putByte 3 1, .flush, putByte 4 1, .flush, .compact]

theorem levelRun_plain : Permits Session.step Session.Plain (.fresh leveledConfig) levelRun := by
  decide +kernel

theorem snapshot_reads_correct_in_levelRun :
    ((Session.fresh leveledConfig).run levelRun).engine.liveTables.map TableMetadata.level = [1, 1] ∧
      ((Session.fresh leveledConfig).run levelRun).ReadsCorrect :=
  ⟨by decide +kernel, Session.snapshot_reads_correct levelRun_plain⟩

/-- The two tables of level 1 are merged while level 0 holds a newer version of
the key; the result is read first. -/
def shadowRun : List Event := levelRun ++ [putByte 1 2, .flush, .compact]

theorem leveled_compaction_hides_newer_version :
    (∀ event ∈ shadowRun, event.setsWatermark = false) ∧
      History.get ((Session.fresh leveledConfig).run shadowRun).written [1] ReadTimestamp.latest.asNat = some [2] ∧
      ((Session.fresh leveledConfig).run shadowRun).engine.getInner [1] .latest = some [1] ∧
      ((Session.fresh leveledConfig).run shadowRun).engine.scanPrefixInner [1] none .latest = .ok [([1], [2])] ∧
      ¬ ((Session.fresh leveledConfig).run shadowRun).ReadsCorrect := by
  have wrong : ((Session.fresh leveledConfig).run shadowRun).engine.getInner [1] .latest ≠
      History.get ((Session.fresh leveledConfig).run shadowRun).written [1] ReadTimestamp.latest.asNat := by
    decide +kernel
  exact ⟨by decide, by decide +kernel, by decide +kernel, by decide +kernel, fun right => wrong (right.1 _ _)⟩

end KayaDB.Storage
