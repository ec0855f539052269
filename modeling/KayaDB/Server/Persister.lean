import KayaDB.Raft.Cluster

/-! The durable state of a Raft group: a hard-state file and a log file, written
one after the other. Each write replaces its file atomically. The files are
modelled by their decoded records; a vote is stored as a number, with zero for
no vote. -/

namespace KayaDB.Server
open Raft

structure HardStateFile where
  currentTerm : Nat
  votedFor : UInt64
  lastIncludedIndex : Nat
  lastIncludedTerm : Nat
deriving DecidableEq, Repr

structure LogFrame where
  index : Nat
  term : Nat
  command : Bytes
deriving DecidableEq, Repr

def encodeHardState (hs : HardState) : HardStateFile where
  currentTerm := hs.currentTerm
  votedFor := (hs.votedFor.map NodeId.val).getD 0
  lastIncludedIndex := hs.lastIncludedIndex
  lastIncludedTerm := hs.lastIncludedTerm

def decodeHardState (file : HardStateFile) : HardState where
  currentTerm := file.currentTerm
  votedFor := if file.votedFor = 0 then none else some ⟨file.votedFor⟩
  lastIncludedIndex := file.lastIncludedIndex
  lastIncludedTerm := file.lastIncludedTerm

def defaultHardState : HardState := ⟨0, none, 0, 0⟩

/-- The frames of all entries after the snapshot, with their logical indices. -/
def memlogToFrames (log : MemLog) : List LogFrame :=
  (List.range' (log.lastIncludedIndex + 1) (log.lastIndex - log.lastIncludedIndex)).filterMap fun index =>
    (log.get index).map fun entry => ⟨index, entry.term, entry.command⟩

/-- The indices of the frames are not looked at: entries are appended in order
behind the snapshot the hard state tells of. -/
def framesToMemlog (hs : HardState) (frames : List LogFrame) : MemLog :=
  let log := if 0 < hs.lastIncludedIndex then
    MemLog.new.installSnapshot hs.lastIncludedIndex hs.lastIncludedTerm [] else MemLog.new
  frames.foldl (fun log frame => log.append ⟨frame.term, frame.command⟩) log

structure DiskRaftStorage where
  hardState : Option HardStateFile
  log : Option (List LogFrame)
deriving DecidableEq, Repr

namespace DiskRaftStorage

def load (disk : DiskRaftStorage) : PersistedRaftState :=
  let hardState := (disk.hardState.map decodeHardState).getD defaultHardState
  { hardState
    log := match disk.log with
      | some frames => framesToMemlog hardState frames
      | none => if 0 < hardState.lastIncludedIndex then framesToMemlog hardState [] else .new }

def saveHardState (disk : DiskRaftStorage) (hs : HardState) : DiskRaftStorage :=
  { disk with hardState := some (encodeHardState hs) }

def saveLog (disk : DiskRaftStorage) (log : MemLog) : DiskRaftStorage :=
  { disk with log := some (memlogToFrames log) }

end DiskRaftStorage

structure RaftPersister where
  storage : DiskRaftStorage
  lastPersisted : Option PersistedRaftState

/-- Nothing is loaded from a store that is as good as empty. -/
def RaftPersister.loadState (persister : RaftPersister) : Option PersistedRaftState :=
  let state := persister.storage.load
  if state.hardState = defaultHardState ∧ state.log.lastIndex = 0 then none else some state

/-- Start a node from the store, with the applied index on record. -/
def RaftPersister.start (persister : RaftPersister) (config : RaftConfig) (applyFloor : Nat) :
    RaftPersister × RaftNode :=
  match persister.loadState with
  | some state =>
    ({ persister with lastPersisted := some state }, (RaftNode.recover config state).setRecoveredApplyFloor applyFloor)
  | none => ({ persister with lastPersisted := none }, RaftNode.new config)

/-- Two logs with the same stored entries at the same indices. -/
structure SameEntries (first second : MemLog) : Prop where
  floor : second.lastIncludedIndex = first.lastIncludedIndex
  entries : second.entries = first.entries

theorem append_frames (frames : List LogFrame) : ∀ log : MemLog,
    frames.foldl (fun log frame => log.append ⟨frame.term, frame.command⟩) log =
      { log with entries := log.entries ++ frames.map fun frame => ⟨frame.term, frame.command⟩ } := by
  induction frames with
  | nil => exact fun log => by simp
  | cons frame rest ih =>
    intro log
    rw [List.foldl_cons, ih]
    simp [MemLog.append]

/-- A loaded log stands behind the snapshot of the hard state, whatever indices
its frames carry. -/
theorem framesToMemlog_parts (hs : HardState) (frames : List LogFrame) :
    (framesToMemlog hs frames).lastIncludedIndex = hs.lastIncludedIndex ∧
      (framesToMemlog hs frames).lastIncludedTerm = (if hs.lastIncludedIndex = 0 then 0 else hs.lastIncludedTerm) ∧
      (framesToMemlog hs frames).entries = frames.map fun frame => ⟨frame.term, frame.command⟩ := by
  unfold framesToMemlog
  rw [append_frames]
  by_cases zero : hs.lastIncludedIndex = 0
  · rw [if_neg (by omega), if_pos zero]
    exact ⟨zero.symm, rfl, rfl⟩
  · rw [if_pos (by omega), if_neg zero, MemLog.installSnapshot, if_neg (by change ¬ hs.lastIncludedIndex ≤ 0; omega)]
    exact ⟨rfl, rfl, by simp [MemLog.new]⟩

theorem filterMap_range_of_getElem {α : Type} {look : Nat → Option α} (items : List α) : ∀ start,
    (∀ offset, offset < items.length → look (start + offset) = items[offset]?) →
      (List.range' start items.length).filterMap look = items := by
  induction items with
  | nil => exact fun _ _ => rfl
  | cons item rest ih =>
    intro start found
    have first : look start = some item := found 0 (Nat.succ_pos _)
    have others := ih (start + 1) fun offset inside => by
      rw [Nat.add_assoc, Nat.add_comm 1 offset]
      exact found (offset + 1) (Nat.succ_lt_succ inside)
    rw [List.length_cons, List.range'_succ, List.filterMap_cons, first, others]

theorem frames_entries (log : MemLog) :
    (memlogToFrames log).map (fun frame => (⟨frame.term, frame.command⟩ : LogEntry)) = log.entries := by
  have count : log.lastIndex - log.lastIncludedIndex = log.entries.length := by
    rw [MemLog.lastIndex_eq]
    omega
  have same : ∀ found : Option LogEntry,
      (found.map fun entry => (⟨entry.term, entry.command⟩ : LogEntry)) = found := fun found => by cases found <;> rfl
  unfold memlogToFrames
  simp only [List.map_filterMap, Option.map_map, Function.comp_def, same]
  rw [count]
  refine filterMap_range_of_getElem log.entries _ fun offset inside => ?_
  rw [MemLog.get, if_neg (by omega)]
  congr 1
  omega

variable {hs : HardState}

theorem framesToMemlog_same {log : MemLog} (boundary : hs.lastIncludedIndex = log.lastIncludedIndex) :
    SameEntries log (framesToMemlog hs (memlogToFrames log)) := by
  obtain ⟨floor, -, entries⟩ := framesToMemlog_parts hs (memlogToFrames log)
  exact ⟨floor.trans boundary, entries.trans (frames_entries log)⟩

structure Mirrors (saved view : PersistedRaftState) : Prop where
  currentTerm : saved.hardState.currentTerm = view.hardState.currentTerm
  votedFor : saved.hardState.votedFor = view.hardState.votedFor
  log : SameEntries view.log saved.log

theorem Mirrors.refl (view : PersistedRaftState) : Mirrors view view := ⟨rfl, rfl, rfl, rfl⟩

theorem decodeHardState_encodeHardState (nonzero : hs.votedFor ≠ some ⟨0⟩) :
    decodeHardState (encodeHardState hs) = hs := by
  obtain ⟨term, vote, index, snapshotTerm⟩ := hs
  cases vote with
  | none => rfl
  | some candidate =>
    have other : candidate.val ≠ 0 := fun zero => nonzero (congrArg (fun id => some (NodeId.mk id)) zero)
    have vote : (if candidate.val = 0 then none else some (NodeId.mk candidate.val)) = some candidate := if_neg other
    exact congrArg (HardState.mk term · index snapshotTerm) vote

theorem decodeHardState_votedFor (file : HardStateFile) : (decodeHardState file).votedFor ≠ some ⟨0⟩ := by
  unfold decodeHardState
  dsimp only
  split
  next => nofun
  next other => exact fun zero => other (congrArg NodeId.val (Option.some.inj zero))

/-- Once both files are written, the store mirrors the view, unless the vote
went to the node with id zero. -/
theorem mirrors_of_saved (disk : DiskRaftStorage) (view : PersistedRaftState)
    (boundary : view.hardState.lastIncludedIndex = view.log.lastIncludedIndex)
    (nonzero : view.hardState.votedFor ≠ some ⟨0⟩) :
    Mirrors ((disk.saveHardState view.hardState).saveLog view.log).load view :=
  ⟨rfl, congrArg HardState.votedFor (decodeHardState_encodeHardState nonzero), framesToMemlog_same boundary⟩

end KayaDB.Server
