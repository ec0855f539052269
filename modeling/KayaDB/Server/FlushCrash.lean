import KayaDB.Server.RaftFiles

/-! A crash while a view is saved. Each file is written beside the old one and
then renamed, the hard state first, so that a crash may leave the new hard state
over the old log. -/

namespace KayaDB.Server.RaftFiles
open Raft

/-- The store with the files that are being written; loading does not look at
those. -/
structure FileSystem where
  files : DataDir
  hardStateTmp : Option Bytes
  logTmp : Option Bytes
deriving DecidableEq, Repr

/-- The contents that a temporary file passes through: removed, created, filled
byte by byte. -/
def tmpContents (bytes : Bytes) : List (Option Bytes) :=
  none :: (List.range (bytes.length + 1)).map fun size => some (bytes.take size)

def FileSystem.writeHardState (fs : FileSystem) (hs : HardState) : List FileSystem :=
  (tmpContents (encodeHardState hs)).map (fun tmp => { fs with hardStateTmp := tmp }) ++
    [{ fs with files := fs.files.saveHardState hs, hardStateTmp := none }]

/-- Nothing is written when the frames cannot be made. -/
def FileSystem.writeLog (fs : FileSystem) (log : MemLog) : List FileSystem :=
  match memlogToFrames log with
  | none => []
  | some logFrames =>
    (tmpContents (encodeLogFile logFrames)).map (fun tmp => { fs with logTmp := tmp }) ++
      [{ fs with files := { fs.files with log := some (encodeLogFile logFrames) }, logTmp := none }]

/-- The states of the file system during a save, in order. A view that equals the
last one saved is not saved again. -/
def flushView (lastPersisted : Option PersistedRaftState) (fs : FileSystem) (view : PersistedRaftState) : List FileSystem :=
  if lastPersisted = some view then [fs]
  else
    fs :: fs.writeHardState view.hardState ++
      FileSystem.writeLog ⟨fs.files.saveHardState view.hardState, none, fs.logTmp⟩ view.log

section Points
variable {lastPersisted : Option PersistedRaftState} {fs point : FileSystem} {view : PersistedRaftState}

/-- A crash leaves the old files, the new hard state over the old log, or the new
files. -/
theorem files_flushView (inside : point ∈ flushView lastPersisted fs view) :
    point.files = fs.files ∨ point.files = fs.files.saveHardState view.hardState ∨ fs.files.save view = some point.files := by
  unfold flushView at inside
  split at inside
  · exact .inl (congrArg FileSystem.files (List.mem_singleton.mp inside))
  rcases List.mem_append.mp inside with early | late
  · rcases List.mem_cons.mp early with rfl | writing
    · exact .inl rfl
    rcases List.mem_append.mp writing with beside | renamed
    · obtain ⟨tmp, -, rfl⟩ := List.mem_map.mp beside
      exact .inl rfl
    · cases List.mem_singleton.mp renamed
      exact .inr (.inl rfl)
  · cases framed : memlogToFrames view.log with
    | none =>
      rw [FileSystem.writeLog, framed] at late
      exact absurd late List.not_mem_nil
    | some logFrames =>
      rw [FileSystem.writeLog, framed] at late
      rcases List.mem_append.mp late with beside | renamed
      · obtain ⟨tmp, -, rfl⟩ := List.mem_map.mp beside
        exact .inr (.inl rfl)
      · cases List.mem_singleton.mp renamed
        refine .inr (.inr ?_)
        rw [DataDir.save, DataDir.saveLog, framed]
        rfl

theorem start_flushView : fs ∈ flushView lastPersisted fs view := by
  unfold flushView
  split
  · exact List.mem_singleton_self fs
  · exact List.mem_append_left _ List.mem_cons_self

theorem between_flushView (changed : lastPersisted ≠ some view) :
    ⟨fs.files.saveHardState view.hardState, none, fs.logTmp⟩ ∈ flushView lastPersisted fs view := by
  unfold flushView
  rw [if_neg changed]
  exact List.mem_append_left _ (List.mem_cons_of_mem _ (List.mem_append_right _ (List.mem_singleton_self _)))

end Points

/-- The second term and vote are not older than the first. -/
def NotOlder (first second : HardState) : Prop :=
  first.currentTerm < second.currentTerm ∨
    first.currentTerm = second.currentTerm ∧ (first.votedFor = none ∨ second.votedFor = first.votedFor)

/-- Wherever the save of the new view is cut off, each entry that is then loaded
stands where it stood in one of the views, and no term or vote is lost. -/
def CrashAtomic (old new : PersistedRaftState) (fs : FileSystem) : Prop :=
  ∀ point ∈ flushView (some old) fs new, ∃ loaded, point.files.load = .ok loaded ∧
    (∀ index entry, loaded.log.get index = some entry → old.log.get index = some entry ∨ new.log.get index = some entry) ∧
    NotOlder old.hardState loaded.hardState

/-- A view whose log comes back from its files. -/
structure Readable (view : PersistedRaftState) : Prop where
  machine : Machine view
  boundary : view.hardState.lastIncludedIndex = view.log.lastIncludedIndex
  framable : Framable view.log

/-- Counted from the new snapshot position, each entry of the old log is one that
one of the views has there. -/
def Aligned (old new : PersistedRaftState) : Prop :=
  ∀ offset entry, old.log.entries[offset]? = some entry →
    old.log.get (new.log.lastIncludedIndex + 1 + offset) = some entry ∨
      new.log.get (new.log.lastIncludedIndex + 1 + offset) = some entry

theorem get_eq_some {log : MemLog} {index : Nat} {entry : LogEntry} :
    log.get index = some entry ↔
      ∃ offset, index = log.lastIncludedIndex + 1 + offset ∧ log.entries[offset]? = some entry := by
  unfold MemLog.get
  split
  next low =>
    refine ⟨nofun, fun ⟨offset, place, _⟩ => ?_⟩
    omega
  next high =>
    constructor
    · exact fun found => ⟨index - log.lastIncludedIndex - 1, by omega, found⟩
    · rintro ⟨offset, rfl, found⟩
      rwa [show log.lastIncludedIndex + 1 + offset - log.lastIncludedIndex - 1 = offset by omega]

theorem get_congr {first second : MemLog} (floor : first.lastIncludedIndex = second.lastIncludedIndex)
    (entries : first.entries = second.entries) (index : Nat) : first.get index = second.get index := by
  rw [MemLog.get, MemLog.get, floor, entries]

variable {hs : HardState} {view : PersistedRaftState}

theorem Readable.load (readable : Readable view) (words : Words hs) :
    ∃ loaded, DataDir.load ⟨some (encodeHardState hs), some (encodeLogFile (Server.memlogToFrames view.log))⟩ = .ok loaded ∧
      loaded.hardState = Server.decodeHardState (Server.encodeHardState hs) ∧
      loaded.log.lastIncludedIndex = hs.lastIncludedIndex ∧ loaded.log.entries = view.log.entries := by
  obtain ⟨floor, -, entries⟩ := framesToMemlog_parts (Server.decodeHardState (Server.encodeHardState hs))
    (Server.memlogToFrames view.log)
  exact ⟨_, load_encoded words readable.machine.terms readable.framable, rfl, floor, entries.trans (frames_entries view.log)⟩

theorem Readable.save (readable : Readable view) (dir : DataDir) : dir.save view =
    some ⟨some (encodeHardState view.hardState), some (encodeLogFile (Server.memlogToFrames view.log))⟩ := by
  simp only [DataDir.save, DataDir.saveLog, readable.framable.memlogToFrames, DataDir.saveHardState, Option.map_some]

theorem NotOlder.kept {first second : HardState} (later : NotOlder first second) (nonzero : first.votedFor ≠ some ⟨0⟩) :
    NotOlder first (Server.decodeHardState (Server.encodeHardState second)) := by
  rcases later with more | ⟨same, unbound | vote⟩
  · exact .inl more
  · exact .inr ⟨same, .inl unbound⟩
  · rw [Server.decodeHardState_encodeHardState (vote ▸ nonzero)]
    exact .inr ⟨same, .inr vote⟩

theorem vote_of_notOlder (kept : NotOlder hs (Server.decodeHardState (Server.encodeHardState hs))) :
    hs.votedFor ≠ some ⟨0⟩ := by
  intro zero
  rcases kept with more | ⟨-, unbound | vote⟩
  · exact Nat.lt_irrefl _ more
  · exact nomatch zero.symm.trans unbound
  · exact Server.decodeHardState_votedFor _ (vote.trans zero)

theorem crashAtomic_iff {old new : PersistedRaftState} (oldReadable : Readable old) (newReadable : Readable new)
    (later : NotOlder old.hardState new.hardState) {dir : DataDir} {fs : FileSystem} (held : dir.save old = some fs.files) :
    CrashAtomic old new fs ↔ old.hardState.votedFor ≠ some ⟨0⟩ ∧ Aligned old new := by
  have files := Option.some.inj (held.symm.trans (oldReadable.save dir))
  obtain ⟨before, loadsBefore, stateBefore, floorBefore, entriesBefore⟩ := oldReadable.load oldReadable.machine.words
  obtain ⟨between, loadsBetween, stateBetween, floorBetween, entriesBetween⟩ := oldReadable.load newReadable.machine.words
  have mixed : fs.files.saveHardState new.hardState =
      ⟨some (encodeHardState new.hardState), some (encodeLogFile (Server.memlogToFrames old.log))⟩ := by
    rw [files]
    rfl
  constructor
  · intro atomic
    constructor
    · obtain ⟨loaded, loads, -, kept⟩ := atomic fs start_flushView
      rw [files] at loads
      cases loadsBefore.symm.trans loads
      rw [stateBefore] at kept
      exact vote_of_notOlder kept
    · intro offset entry found
      by_cases same : old = new
      · subst same
        exact .inl (get_eq_some.mpr ⟨offset, rfl, found⟩)
      · obtain ⟨loaded, loads, stands, -⟩ := atomic _ (between_flushView fun equal => same (Option.some.inj equal))
        dsimp only at loads
        rw [mixed] at loads
        cases loadsBetween.symm.trans loads
        refine stands _ entry (get_eq_some.mpr ⟨offset, ?_, entriesBetween ▸ found⟩)
        rw [floorBetween, newReadable.boundary]
  · rintro ⟨nonzero, aligned⟩ point inside
    rcases files_flushView inside with same | half | whole
    · rw [same, files]
      refine ⟨before, loadsBefore, fun index entry found => .inl ?_, ?_⟩
      · rwa [get_congr (floorBefore.trans oldReadable.boundary) entriesBefore] at found
      · rw [stateBefore]
        exact NotOlder.kept (.inr ⟨rfl, .inr rfl⟩) nonzero
    · rw [half, mixed]
      refine ⟨between, loadsBetween, fun index entry found => ?_, ?_⟩
      · obtain ⟨offset, place, there⟩ := get_eq_some.mp found
        rw [floorBetween, newReadable.boundary] at place
        rw [place]
        exact aligned offset entry (entriesBetween ▸ there)
      · rw [stateBetween]
        exact later.kept nonzero
    · obtain ⟨after, loadsAfter, stateAfter, floorAfter, entriesAfter⟩ := newReadable.load newReadable.machine.words
      rw [Option.some.inj (whole.symm.trans (newReadable.save _))]
      refine ⟨after, loadsAfter, fun index entry found => .inr ?_, ?_⟩
      · rwa [get_congr (floorAfter.trans newReadable.boundary) entriesAfter] at found
      · rw [stateAfter]
        exact later.kept nonzero

def FileSystem.holding (view : PersistedRaftState) : FileSystem :=
  ⟨⟨some (encodeHardState view.hardState), some (encodeLogFile (Server.memlogToFrames view.log))⟩, none, none⟩

def votedView : PersistedRaftState := ⟨⟨1, some ⟨2⟩, 0, 0⟩, ⟨[⟨1, [97]⟩], 0, 0, none⟩⟩

def appendedView : PersistedRaftState := ⟨⟨2, none, 0, 0⟩, ⟨[⟨1, [97]⟩, ⟨2, [98]⟩], 0, 0, none⟩⟩

theorem crashAtomic_iff_appended : CrashAtomic votedView appendedView (.holding votedView) := by
  have first : Readable votedView := ⟨⟨⟨by decide, by decide, by decide⟩, by decide⟩, rfl, by decide, by decide, by decide⟩
  have second : Readable appendedView := ⟨⟨⟨by decide, by decide, by decide⟩, by decide⟩, rfl, by decide, by decide, by decide⟩
  refine (crashAtomic_iff first second (.inl (by decide)) (first.save ⟨none, none⟩)).mpr ⟨by decide, fun offset entry found => ?_⟩
  exact .inl (get_eq_some.mpr ⟨offset, rfl, found⟩)

/-- Three entries, of which the next view keeps the last behind a snapshot. -/
def wholeView : PersistedRaftState := ⟨⟨2, none, 0, 0⟩, ⟨[⟨1, [97]⟩, ⟨1, [98]⟩, ⟨2, [99]⟩], 0, 0, none⟩⟩

def prunedView : PersistedRaftState := ⟨⟨2, none, 2, 1⟩, ⟨[⟨2, [99]⟩], 2, 1, some [100]⟩⟩

/-- Between the two writes the first entry is loaded as the third. -/
theorem compaction_moves_entries : ¬ CrashAtomic wholeView prunedView (.holding wholeView) := by
  intro atomic
  obtain ⟨loaded, loads, stands, -⟩ := atomic _ (between_flushView (by decide))
  have moved : DataDir.load (DataDir.saveHardState (FileSystem.holding wholeView).files prunedView.hardState) =
      .ok ⟨⟨2, none, 2, 1⟩, ⟨[⟨1, [97]⟩, ⟨1, [98]⟩, ⟨2, [99]⟩], 2, 1, some []⟩⟩ := by decide +kernel
  cases moved.symm.trans loads
  rcases stands 3 ⟨1, [97]⟩ rfl with inOld | inNew
  · exact absurd inOld (by decide)
  · exact absurd inNew (by decide)

end KayaDB.Server.RaftFiles
