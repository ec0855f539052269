import KayaDB.Server.Persister
import KayaDB.Wal.Codec

/-! The bytes of the two files of a Raft group: the hard state, with a checksum
and zero for no vote, and the log as a row of frames. What was saved is loaded
again, unless it went to a field that cannot hold it. -/

namespace KayaDB.Server.RaftFiles
open Raft Framing
open Wal (slice crc32c)

def raftHardStateMagic : Nat := 0x484b5352
def raftHardStateVersion : Nat := 1
def raftHardStateLen : Nat := 64

/-- What the checksum covers; the last twenty bytes are reserved. -/
def hardStateBody (hs : HardState) : Bytes :=
  toLeBytes 4 raftHardStateMagic ++ toLeBytes 4 raftHardStateVersion ++ toLeBytes 8 hs.currentTerm ++
    toLeBytes 8 ((hs.votedFor.map NodeId.val).getD 0).toNat ++ toLeBytes 8 hs.lastIncludedIndex ++
    toLeBytes 8 hs.lastIncludedTerm ++ toLeBytes 20 0

def encodeHardState (hs : HardState) : Bytes := hardStateBody hs ++ toLeBytes 4 (crc32c (hardStateBody hs)).toNat

def decodeHardState (bytes : Bytes) : Except String HardState :=
  if bytes.length ≠ raftHardStateLen then .error s!"hard-state wrong len: {bytes.length}"
  else
    let magic := fromLeBytes (slice bytes 0 4)
    if magic ≠ raftHardStateMagic then .error s!"bad hard-state magic: 0x{String.ofList (Nat.toDigits 16 magic)}"
    else
      let version := fromLeBytes (slice bytes 4 8)
      if version ≠ raftHardStateVersion then .error s!"unsupported hard-state version: {version}"
      else if crc32c (bytes.take 60) ≠ UInt32.ofNat (fromLeBytes (slice bytes 60 64)) then .error "hard-state crc mismatch"
      else
        let votedRaw := UInt64.ofNat (fromLeBytes (slice bytes 16 24))
        .ok { currentTerm := fromLeBytes (slice bytes 8 16)
              votedFor := if votedRaw = 0 then none else some ⟨votedRaw⟩
              lastIncludedIndex := fromLeBytes (slice bytes 24 32)
              lastIncludedTerm := fromLeBytes (slice bytes 32 40) }

def raftLogFrameMagic : Nat := 0x46474c52
def raftLogFrameVersion : Nat := 1
def raftLogFrameHeaderLen : Nat := 32

def crcInput (index term commandLen : Nat) (command : Bytes) : Bytes :=
  toLeBytes 8 index ++ toLeBytes 8 term ++ toLeBytes 4 commandLen ++ command

def encodeLogFrame (frame : LogFrame) : Bytes :=
  toLeBytes 4 raftLogFrameMagic ++ toLeBytes 2 raftLogFrameVersion ++ toLeBytes 2 0 ++ toLeBytes 8 frame.index ++
    toLeBytes 8 frame.term ++ toLeBytes 4 frame.command.length ++
    toLeBytes 4 (crc32c (crcInput frame.index frame.term frame.command.length frame.command)).toNat ++ frame.command

def encodeLogFile (logFrames : List LogFrame) : Bytes := frames encodeLogFrame logFrames

/-- The first frame of the bytes and its size. The version is not looked at. -/
def decodeLogFrame (offset : Nat) (bytes : Bytes) : Except String (LogFrame × Nat) :=
  if bytes.length < raftLogFrameHeaderLen then .error "truncated log frame header"
  else if fromLeBytes (slice bytes 0 4) ≠ raftLogFrameMagic then .error s!"bad log frame magic at {offset}"
  else
    let index := fromLeBytes (slice bytes 8 16)
    let term := fromLeBytes (slice bytes 16 24)
    let payloadLen := fromLeBytes (slice bytes 24 28)
    let size := raftLogFrameHeaderLen + payloadLen
    if bytes.length < size then .error "truncated log payload"
    else
      let command := slice bytes raftLogFrameHeaderLen size
      if crc32c (crcInput index term payloadLen command) ≠ UInt32.ofNat (fromLeBytes (slice bytes 28 32)) then
        .error s!"log frame crc mismatch at index {index}"
      else .ok (⟨index, term, command⟩, size)

/-- The fuel is the number of bytes left; every frame takes some. -/
def decodeLogFrom : Nat → Nat → Bytes → Except String (List LogFrame)
  | 0, _, _ => .ok []
  | fuel + 1, offset, bytes =>
    if bytes.isEmpty then .ok []
    else
      match decodeLogFrame offset bytes with
      | .error message => .error message
      | .ok (frame, size) => (decodeLogFrom fuel (offset + size) (bytes.drop size)).map (frame :: ·)

def decodeLogFile (bytes : Bytes) : Except String (List LogFrame) := decodeLogFrom bytes.length 0 bytes

/-- The frames of the entries after the snapshot; none when an entry that should
be there is missing, which stops the process. Indices are machine words. -/
def memlogToFrames (log : MemLog) : Option (List LogFrame) :=
  let start := (log.lastIncludedIndex + 1) % 2 ^ 64
  let stop := log.lastIndex % 2 ^ 64
  (List.range' start (stop + 1 - start)).mapM fun index => (log.get index).map fun entry => ⟨index, entry.term, entry.command⟩

structure DataDir where
  hardState : Option Bytes
  log : Option Bytes
deriving DecidableEq, Repr

namespace DataDir
variable (dir : DataDir)

def loadHardState : Except String HardState :=
  match dir.hardState with
  | some bytes => decodeHardState bytes
  | none => .ok defaultHardState

def loadLog (hardState : HardState) : Except String MemLog :=
  match dir.log with
  | some bytes => (decodeLogFile bytes).map (framesToMemlog hardState)
  | none => .ok (if 0 < hardState.lastIncludedIndex then framesToMemlog hardState [] else .new)

def load : Except String PersistedRaftState := do
  let hardState ← dir.loadHardState
  let log ← dir.loadLog hardState
  .ok { hardState, log }

def saveHardState (hs : HardState) : DataDir := { dir with hardState := some (encodeHardState hs) }

def saveLog (log : MemLog) : Option DataDir :=
  (memlogToFrames log).map fun logFrames => { dir with log := some (encodeLogFile logFrames) }

def save (view : PersistedRaftState) : Option DataDir := (dir.saveHardState view.hardState).saveLog view.log

end DataDir

structure Words (hs : HardState) : Prop where
  currentTerm : hs.currentTerm < 2 ^ 64
  lastIncludedIndex : hs.lastIncludedIndex < 2 ^ 64
  lastIncludedTerm : hs.lastIncludedTerm < 2 ^ 64

variable {hs : HardState} {frame : LogFrame} {bytes : Bytes} {logFrames : List LogFrame} {log : MemLog}

theorem decodeHardState_encodeHardState (words : Words hs) :
    decodeHardState (encodeHardState hs) = .ok (Server.decodeHardState (Server.encodeHardState hs)) := by
  have magic : fromLeBytes (slice (encodeHardState hs) 0 4) = raftHardStateMagic := @Wal.fromLeBytes_of_lt 4 _ (by decide)
  have version : fromLeBytes (slice (encodeHardState hs) 4 8) = raftHardStateVersion :=
    @Wal.fromLeBytes_of_lt 4 _ (by decide)
  have term : fromLeBytes (slice (encodeHardState hs) 8 16) = hs.currentTerm := @Wal.fromLeBytes_of_lt 8 _ words.currentTerm
  have vote : fromLeBytes (slice (encodeHardState hs) 16 24) = ((hs.votedFor.map NodeId.val).getD 0).toNat :=
    @Wal.fromLeBytes_of_lt 8 _ (UInt64.toNat_lt _)
  have index : fromLeBytes (slice (encodeHardState hs) 24 32) = hs.lastIncludedIndex :=
    @Wal.fromLeBytes_of_lt 8 _ words.lastIncludedIndex
  have snapshotTerm : fromLeBytes (slice (encodeHardState hs) 32 40) = hs.lastIncludedTerm :=
    @Wal.fromLeBytes_of_lt 8 _ words.lastIncludedTerm
  have body : (encodeHardState hs).take 60 = hardStateBody hs := rfl
  have crc : fromLeBytes (slice (encodeHardState hs) 60 64) = (crc32c (hardStateBody hs)).toNat :=
    @Wal.fromLeBytes_of_lt 4 _ (UInt32.toNat_lt _)
  have length : (encodeHardState hs).length = raftHardStateLen := rfl
  unfold decodeHardState
  simp only [magic, version, term, vote, index, snapshotTerm, body, crc, length, UInt32.ofNat_toNat, UInt64.ofNat_toNat,
    ne_eq, not_true_eq_false, if_false]
  rfl

/-- The checks an accepted frame has passed. -/
structure Accepted (bytes : Bytes) (frame : LogFrame) (size : Nat) : Prop where
  magic : fromLeBytes (slice bytes 0 4) = raftLogFrameMagic
  index : frame.index = fromLeBytes (slice bytes 8 16)
  term : frame.term = fromLeBytes (slice bytes 16 24)
  total : size = raftLogFrameHeaderLen + fromLeBytes (slice bytes 24 28)
  whole : size ≤ bytes.length
  command : frame.command = slice bytes raftLogFrameHeaderLen size
  crc : crc32c (crcInput frame.index frame.term (fromLeBytes (slice bytes 24 28)) frame.command) =
    UInt32.ofNat (fromLeBytes (slice bytes 28 32))

section Accepted
variable {bytes : Bytes} {frame : LogFrame} {size : Nat}

theorem decodeLogFrame_ok_iff (offset : Nat) : decodeLogFrame offset bytes = .ok (frame, size) ↔ Accepted bytes frame size := by
  constructor
  · intro decoded
    unfold decodeLogFrame at decoded
    dsimp only at decoded
    iterate 4
      split at decoded
      · cases decoded
    next magic whole crc =>
      cases decoded
      exact ⟨not_not.mp magic, rfl, rfl, rfl, Nat.le_of_not_lt whole, rfl, not_not.mp crc⟩
  · intro accepted
    obtain ⟨index, term, command⟩ := frame
    obtain ⟨magic, rfl, rfl, rfl, whole, rfl, crc⟩ := accepted
    have long : ¬ bytes.length < raftLogFrameHeaderLen := Nat.not_lt.mpr ((Nat.le_add_right _ _).trans whole)
    simp only [decodeLogFrame, long, magic, crc, Nat.not_lt.mpr whole, not_true_eq_false, ne_eq, if_false]

theorem Accepted.long (accepted : Accepted bytes frame size) : raftLogFrameHeaderLen ≤ size :=
  accepted.total ▸ Nat.le_add_right _ _

theorem Accepted.only (accepted : Accepted bytes frame size) (more : Bytes) : Accepted (bytes.take size ++ more) frame size := by
  have long : 32 ≤ size := accepted.long
  have same (start stop : Nat) (inside : stop ≤ size) : slice (bytes.take size ++ more) start stop = slice bytes start stop :=
    Wal.slice_take_append inside accepted.whole start
  obtain ⟨magic, index, term, total, whole, command, crc⟩ := accepted
  refine ⟨?_, ?_, ?_, ?_, ?_, ?_, ?_⟩
  · rwa [same 0 4 (by omega)]
  · rwa [same 8 16 (by omega)]
  · rwa [same 16 24 (by omega)]
  · rwa [same 24 28 (by omega)]
  · rw [List.length_append, List.length_take, Nat.min_eq_left whole]
    exact Nat.le_add_right _ _
  · rwa [same _ _ (Nat.le_refl _)]
  · rwa [same 24 28 (by omega), same 28 32 (by omega)]

theorem Accepted.short (accepted : Accepted bytes frame size) : frame.command.length < 2 ^ 32 := by
  have long : 32 ≤ size := accepted.long
  have small := fromLeBytes_lt (slice bytes 24 28)
  rw [Wal.length_slice (by have := accepted.whole; omega)] at small
  rw [accepted.command, Wal.length_slice accepted.whole, accepted.total, Nat.add_sub_cancel_left]
  exact small

end Accepted

def decode (bytes : Bytes) : Option (LogFrame × Nat) := (decodeLogFrame 0 bytes).toOption

theorem decode_eq_some {size : Nat} : decode bytes = some (frame, size) ↔ Accepted bytes frame size := by
  rw [← decodeLogFrame_ok_iff 0, decode]
  cases decodeLogFrame 0 bytes with
  | error message => simp [Except.toOption]
  | ok result => simp [Except.toOption]

theorem decode_local : Local decode where
  size decoded := by
    have accepted := decode_eq_some.mp decoded
    exact ⟨Nat.lt_of_lt_of_le (by decide) accepted.long, accepted.whole⟩
  only more decoded := decode_eq_some.mpr ((decode_eq_some.mp decoded).only more)

/-- The numbers of a frame fit their fields. -/
structure Fits (frame : LogFrame) : Prop where
  index : frame.index < 2 ^ 64
  term : frame.term < 2 ^ 64
  command : frame.command.length < 2 ^ 32

theorem decode_encodeLogFrame (rest : Bytes) (fits : Fits frame) :
    decode (encodeLogFrame frame ++ rest) = some (frame, (encodeLogFrame frame).length) := by
  have length : (encodeLogFrame frame).length = raftLogFrameHeaderLen + frame.command.length := by
    simp only [encodeLogFrame, List.length_append, length_toLeBytes]
    rfl
  refine decode_eq_some.mpr ?_
  rw [length]
  have size : fromLeBytes (slice (encodeLogFrame frame ++ rest) 24 28) = frame.command.length :=
    @Wal.fromLeBytes_of_lt 4 _ fits.command
  have crc : slice (encodeLogFrame frame ++ rest) 28 32 =
    toLeBytes 4 (crc32c (crcInput frame.index frame.term frame.command.length frame.command)).toNat := rfl
  refine ⟨?_, ?_, ?_, ?_, ?_, ?_, ?_⟩
  · exact @Wal.fromLeBytes_of_lt 4 _ (by decide)
  · exact (@Wal.fromLeBytes_of_lt 8 _ fits.index).symm
  · exact (@Wal.fromLeBytes_of_lt 8 _ fits.term).symm
  · rw [size]
  · rw [List.length_append, length]
    exact Nat.le_add_right _ _
  · exact (Wal.slice_field frame.command rfl rfl).symm
  · rw [size, crc, Wal.fromLeBytes_of_lt (UInt32.toNat_lt _), UInt32.ofNat_toNat]

theorem decodeLogFrom_ok_iff (offset : Nat) (bytes : Bytes) : ∀ {fuel : Nat} {logFrames : List LogFrame}, bytes.length ≤ fuel →
    (decodeLogFrom fuel offset bytes = .ok logFrames ↔
      (scan decode offset bytes).1.map Prod.snd = logFrames ∧ (scan decode offset bytes).2 = []) := by
  induction offset, bytes using decode_local.scan_induction with
  | stuck offset bytes failed =>
    intro fuel logFrames enough
    rw [decode_local.scan_none failed]
    cases bytes with
    | nil => cases fuel <;> simp [decodeLogFrom]
    | cons byte rest =>
      cases fuel with
      | zero => exact absurd enough (Nat.not_succ_le_zero _)
      | succ fuel =>
        cases result : decodeLogFrame offset (byte :: rest) with
        | error message => simp [decodeLogFrom, result]
        | ok found => exact nomatch failed.symm.trans (decode_eq_some.mpr ((decodeLogFrame_ok_iff offset).mp result))
  | took offset bytes frame size decoded ih =>
    intro fuel logFrames enough
    obtain ⟨positive, short⟩ := decode_local.size decoded
    have found := (decodeLogFrame_ok_iff offset).mpr (decode_eq_some.mp decoded)
    cases bytes with
    | nil => exact absurd (positive.trans_le short) (Nat.lt_irrefl 0)
    | cons byte rest =>
      cases fuel with
      | zero => exact absurd enough (Nat.not_succ_le_zero _)
      | succ fuel =>
        have later (others : List LogFrame) := @ih fuel others (by rw [List.length_drop]; omega)
        rw [decode_local.scan_some decoded]
        simp only [decodeLogFrom, List.isEmpty_cons, Bool.false_eq_true, if_false, found, List.map_cons]
        cases behind : decodeLogFrom fuel (offset + size) ((byte :: rest).drop size) with
        | error message =>
          refine ⟨nofun, fun ⟨_, whole⟩ => ?_⟩
          exact nomatch behind.symm.trans ((later _).mpr ⟨rfl, whole⟩)
        | ok others =>
          obtain ⟨same, whole⟩ := (later others).mp behind
          rw [same, whole]
          simp [Except.map]

theorem decodeLogFile_encodeLogFile (fits : ∀ frame ∈ logFrames, Fits frame) :
    decodeLogFile (encodeLogFile logFrames) = .ok logFrames := by
  refine (decodeLogFrom_ok_iff 0 _ (Nat.le_refl _)).mpr ?_
  rw [encodeLogFile, decode_local.scan_frames decode_encodeLogFrame fits, map_placed]
  exact ⟨rfl, rfl⟩

theorem short_of_decodeLogFile (decoded : decodeLogFile bytes = .ok logFrames) :
    ∀ frame ∈ logFrames, frame.command.length < 2 ^ 32 := by
  obtain ⟨rfl, -⟩ := (decodeLogFrom_ok_iff 0 _ (Nat.le_refl _)).mp decoded
  intro frame inside
  obtain ⟨⟨place, _⟩, found, rfl⟩ := List.mem_map.mp inside
  obtain ⟨-, -, size, there⟩ := decode_local.mem_scan 0 bytes found
  exact (decode_eq_some.mp there).short

theorem mapM_eq_some_iff {α β : Type} {look : α → Option β} {items : List α} : ∀ {found : List β},
    items.mapM look = some found ↔ (∀ item ∈ items, (look item).isSome) ∧ items.filterMap look = found := by
  induction items with
  | nil =>
    intro found
    exact ⟨fun same => ⟨nofun, Option.some.inj same⟩, fun same => congrArg some same.2⟩
  | cons item rest ih =>
    intro found
    rw [List.mapM_cons, List.forall_mem_cons]
    cases first : look item with
    | none => simp
    | some value =>
      rw [List.filterMap_cons_some first]
      cases later : rest.mapM look with
      | none =>
        have missing : ¬ ∀ item ∈ rest, (look item).isSome := fun all => nomatch later.symm.trans (ih.mpr ⟨all, rfl⟩)
        simpa using fun all => absurd all missing
      | some others =>
        obtain ⟨all, rfl⟩ := ih.mp later
        simpa using fun _ => all

/-- A log whose commands and indices fit the fields of their frames. -/
structure Framable (log : MemLog) : Prop where
  commands : ∀ entry ∈ log.entries, entry.command.length < 2 ^ 32
  first : log.lastIncludedIndex + 1 < 2 ^ 64
  last : log.lastIndex < 2 ^ 64

theorem Framable.memlogToFrames (framable : Framable log) :
    memlogToFrames log = some (Server.memlogToFrames log) := by
  have range : log.lastIndex + 1 - (log.lastIncludedIndex + 1) = log.lastIndex - log.lastIncludedIndex := by omega
  have count := log.lastIndex_eq
  unfold RaftFiles.memlogToFrames
  dsimp only
  rw [Nat.mod_eq_of_lt framable.first, Nat.mod_eq_of_lt framable.last, range]
  refine mapM_eq_some_iff.mpr ⟨fun index inside => ?_, rfl⟩
  obtain ⟨low, high⟩ := List.mem_range'_1.mp inside
  rw [Option.isSome_map, MemLog.get, if_neg (by omega)]
  rw [List.getElem?_eq_getElem (by omega)]
  rfl

section Frames
variable {log : MemLog} {logFrames : List LogFrame}

theorem frames_source (framed : memlogToFrames log = some logFrames) : ∀ frame ∈ logFrames,
    frame.index < 2 ^ 64 ∧ ∃ entry ∈ log.entries, frame.term = entry.term ∧ frame.command = entry.command := by
  obtain ⟨-, rfl⟩ := mapM_eq_some_iff.mp framed
  intro frame inside
  obtain ⟨index, there, look⟩ := List.mem_filterMap.mp inside
  obtain ⟨entry, found, rfl⟩ := Option.map_eq_some_iff.mp look
  have high := (List.mem_range'_1.mp there).2
  have wrapped := Nat.mod_lt log.lastIndex (show 0 < 2 ^ 64 by decide)
  refine ⟨by dsimp only; omega, entry, ?_, rfl, rfl⟩
  unfold MemLog.get at found
  split at found
  · cases found
  · exact List.mem_of_getElem? found

theorem last_of_length (low : log.lastIncludedIndex < 2 ^ 64) (framed : memlogToFrames log = some logFrames)
    (length : logFrames.length = log.entries.length) : log.lastIncludedIndex + 1 < 2 ^ 64 ∧ log.lastIndex < 2 ^ 64 := by
  obtain ⟨all, rfl⟩ := mapM_eq_some_iff.mp framed
  rw [List.filterMap_length_eq_length.mpr all, List.length_range'] at length
  have wrapped := Nat.mod_lt log.lastIndex (show 0 < 2 ^ 64 by decide)
  have first : log.lastIncludedIndex + 1 < 2 ^ 64 := by
    refine by_contra fun high => ?_
    have start : (log.lastIncludedIndex + 1) % 2 ^ 64 = 0 :=
      (congrArg (· % 2 ^ 64) (show log.lastIncludedIndex + 1 = 2 ^ 64 by omega)).trans (Nat.mod_self _)
    have missing := all 0 (List.mem_range'_1.mpr ⟨by omega, by omega⟩)
    simp [MemLog.get] at missing
  refine ⟨first, ?_⟩
  rw [Nat.mod_eq_of_lt first] at length
  have count := log.lastIndex_eq
  omega

end Frames

/-- The numbers of a state are machine words. -/
structure Machine (view : PersistedRaftState) : Prop where
  words : Words view.hardState
  terms : ∀ entry ∈ view.log.entries, entry.term < 2 ^ 64

theorem fits_of_commands (terms : ∀ entry ∈ log.entries, entry.term < 2 ^ 64)
    (commands : ∀ entry ∈ log.entries, entry.command.length < 2 ^ 32) (framed : memlogToFrames log = some logFrames) :
    ∀ frame ∈ logFrames, Fits frame := by
  intro frame inside
  obtain ⟨index, entry, stored, term, command⟩ := frames_source framed frame inside
  exact ⟨index, term ▸ terms entry stored, command ▸ commands entry stored⟩

/-- A view that is saved and loaded comes back with the same term, vote, snapshot
position and entries. -/
def RoundTrips (dir : DataDir) (view : PersistedRaftState) : Prop :=
  ∃ saved loaded, dir.save view = some saved ∧ saved.load = .ok loaded ∧ loaded.hardState = view.hardState ∧
    loaded.log.lastIncludedIndex = view.log.lastIncludedIndex ∧ loaded.log.lastIncludedTerm = view.log.lastIncludedTerm ∧
    loaded.log.entries = view.log.entries

/-- A view that the files can hold: no vote for the node with id zero, and the
snapshot position of the hard state is that of the log. -/
structure Storable (view : PersistedRaftState) : Prop where
  vote : view.hardState.votedFor ≠ some ⟨0⟩
  boundary : view.hardState.lastIncludedIndex = view.log.lastIncludedIndex
  snapshotTerm : view.log.lastIncludedTerm = if view.hardState.lastIncludedIndex = 0 then 0 else view.hardState.lastIncludedTerm
  framable : Framable view.log

/-- The bytes of a hard state and of a log, perhaps of another view, load like
the records they stand for. -/
theorem load_encoded (words : Words hs) (terms : ∀ entry ∈ log.entries, entry.term < 2 ^ 64)
    (framable : Framable log) :
    DataDir.load ⟨some (encodeHardState hs), some (encodeLogFile (Server.memlogToFrames log))⟩ =
      .ok (DiskRaftStorage.load ⟨some (Server.encodeHardState hs), some (Server.memlogToFrames log)⟩) := by
  have hardState := decodeHardState_encodeHardState words
  have logFrames := decodeLogFile_encodeLogFile (fits_of_commands terms framable.commands framable.memlogToFrames)
  simp only [DataDir.load, DataDir.loadHardState, DataDir.loadLog, hardState, logFrames]
  rfl

theorem roundTrips_of_storable {view : PersistedRaftState} (machine : Machine view) (storable : Storable view) (dir : DataDir) :
    RoundTrips dir view := by
  obtain ⟨vote, boundary, snapshotTerm, framable⟩ := storable
  have saved : dir.save view =
      some ⟨some (encodeHardState view.hardState), some (encodeLogFile (Server.memlogToFrames view.log))⟩ := by
    simp only [DataDir.save, DataDir.saveLog, framable.memlogToFrames, DataDir.saveHardState, Option.map_some]
  obtain ⟨floor, term, entries⟩ := framesToMemlog_parts view.hardState (Server.memlogToFrames view.log)
  refine ⟨_, _, saved, load_encoded machine.words machine.terms framable, ?_⟩
  simp only [DiskRaftStorage.load, Option.map_some, Option.getD_some, Server.decodeHardState_encodeHardState vote]
  exact ⟨trivial, floor.trans boundary, term.trans snapshotTerm.symm, entries.trans (frames_entries view.log)⟩

theorem roundTrips_iff {view : PersistedRaftState} (machine : Machine view) (dir : DataDir) :
    RoundTrips dir view ↔ Storable view := by
  constructor
  · rintro ⟨saved, loaded, written, read, hardState, index, term, entries⟩
    obtain ⟨logFrames, framed, rfl⟩ := Option.map_eq_some_iff.mp written
    simp only [DataDir.load, DataDir.loadHardState, DataDir.loadLog, DataDir.saveHardState,
      decodeHardState_encodeHardState machine.words] at read
    cases decoded : decodeLogFile (encodeLogFile logFrames) with
    | error message =>
      rw [decoded] at read
      cases read
    | ok others =>
      rw [decoded] at read
      cases read
      obtain ⟨floor, snapshotTerm, kept⟩ := framesToMemlog_parts (Server.decodeHardState (Server.encodeHardState view.hardState)) others
      dsimp only at hardState index term entries
      rw [hardState] at floor snapshotTerm kept index term entries
      have commands : ∀ entry ∈ view.log.entries, entry.command.length < 2 ^ 32 := by
        rw [← entries, kept]
        intro entry inside
        obtain ⟨frame, there, rfl⟩ := List.mem_map.mp inside
        exact short_of_decodeLogFile decoded frame there
      have same : decodeLogFile (encodeLogFile logFrames) = .ok logFrames :=
        decodeLogFile_encodeLogFile (fits_of_commands machine.terms commands framed)
      cases decoded.symm.trans same
      have boundary : view.hardState.lastIncludedIndex = view.log.lastIncludedIndex := floor.symm.trans index
      have length : logFrames.length = view.log.entries.length := by rw [← entries, kept, List.length_map]
      obtain ⟨first, last⟩ := last_of_length (boundary ▸ machine.words.lastIncludedIndex) framed length
      exact ⟨hardState ▸ Server.decodeHardState_votedFor _, boundary, term.symm.trans snapshotTerm, commands, first, last⟩
  · exact fun storable => roundTrips_of_storable machine storable dir

/-- A vote for the second of three nodes, with two entries behind a snapshot. -/
def compactedView : PersistedRaftState := ⟨⟨7, some ⟨2⟩, 100, 6⟩, ⟨[⟨6, [97]⟩, ⟨7, []⟩], 100, 6, none⟩⟩

theorem roundTrips_iff_compacted : RoundTrips ⟨none, none⟩ compactedView ∧ Storable compactedView := by
  have storable : Storable compactedView := ⟨by decide, rfl, rfl, by decide, by decide, by decide⟩
  exact ⟨(roundTrips_iff ⟨⟨by decide, by decide, by decide⟩, by decide⟩ ⟨none, none⟩).mpr storable, storable⟩

/-- The vote for the node with id zero is read back as no vote. -/
theorem zero_vote_lost : ¬ RoundTrips ⟨none, none⟩ ⟨⟨1, some ⟨0⟩, 0, 0⟩, .new⟩ := by
  rintro ⟨saved, loaded, written, read, hardState, -⟩
  cases written
  have loads : DataDir.load ⟨some (encodeHardState ⟨1, some ⟨0⟩, 0, 0⟩), some []⟩ = .ok ⟨⟨1, none, 0, 0⟩, .new⟩ := by
    decide +kernel
  cases loads.symm.trans read
  cases hardState

end KayaDB.Server.RaftFiles
