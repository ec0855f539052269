import KayaDB.Raft.CommandTrip
import KayaDB.Raft.Message

/-! The frames in which nodes send each other Raft messages. A field is read once
the lengths before it are known, so a frame body that is cut short is not read as
any message. -/

namespace KayaDB.Net
open Raft Readers

def defaultMaxFrameLen : Nat := 64 * 1024 * 1024

def maxSnapshotDataLen : Nat := defaultMaxFrameLen - 64

def u64 (value : Nat) : Bytes := toLeBytes 8 value

def encodeEntry (entry : LogEntry) : Bytes := u64 entry.term ++ pushBytes entry.command

def encodePeers (peers : List NodeId) : Bytes := u32Bytes peers.length ++ peers.flatMap fun peer => u64Bytes peer.val

def encodeMessage : Message → Bytes
  | .voteRequest m => 1 :: (u64 m.term ++ (u64Bytes m.candidateId.val ++ (u64 m.lastLogIndex ++ u64 m.lastLogTerm)))
  | .voteResponse m => 2 :: (u64 m.term ++ [boolByte m.voteGranted])
  | .appendRequest m => 3 :: (u64 m.term ++ (u64Bytes m.leaderId.val ++ (u64 m.prevLogIndex ++ (u64 m.prevLogTerm ++
      (u64 m.leaderCommit ++ (u32Bytes m.entries.length ++ m.entries.flatMap encodeEntry))))))
  | .appendResponse m => 4 :: (u64 m.term ++ ([boolByte m.success] ++ u64 m.matchIndex))
  | .installSnapshotRequest m => 5 :: (u64 m.term ++ (u64Bytes m.leaderId.val ++ (u64 m.lastIncludedIndex ++
      (u64 m.lastIncludedTerm ++ pushBytes m.data))))
  | .installSnapshotResponse m => 6 :: (u64 m.term ++ [boolByte m.success])
  | .configChangeRequest m => 7 :: (u64 m.term ++ (encodePeers m.oldPeers ++ encodePeers m.newPeers))
  | .configChangeResponse m => 8 :: (u64 m.term ++ [boolByte m.success])

def frameBody (env : Envelope) : Bytes :=
  u64Bytes env.sender.val ++ (u64Bytes env.receiver.val ++ (u64Bytes env.groupId ++ encodeMessage env.message))

def encodeEnvelope (env : Envelope) : Bytes := pushBytes (frameBody env)

abbrev Take := StateT Bytes (Except String)

def takeU8 : Take UInt8
  | [] => .error "unexpected EOF reading u8"
  | byte :: rest => .ok (byte, rest)

def takeWord (width : Nat) (kind : String) : Take Nat := fun cur =>
  if cur.length < width then .error s!"unexpected EOF reading {kind} (have {cur.length} bytes)"
  else .ok (fromLeBytes (cur.take width), cur.drop width)

def takeU32 : Take Nat := takeWord 4 "u32"

def takeU64 : Take UInt64 := do
  let value ← takeWord 8 "u64"
  return UInt64.ofNat value

def takeNat : Take Nat := do
  let value ← takeU64
  return value.toNat

def takeBytes (len : Nat) : Take Bytes := fun cur =>
  if cur.length < len then .error s!"truncated data: need {len} bytes, have {cur.length}"
  else .ok (cur.take len, cur.drop len)

def takeId : Take NodeId := do
  let id ← takeU64
  return ⟨id⟩

def takeBool : Take Bool := do
  let flag ← takeU8
  return flag ≠ 0

/-- A vector whose length was announced to be at most `limit`. -/
def takeLimited (limit : Nat) (reason : String) : Take Bytes := do
  let len ← takeU32
  if len > limit then throw s!"{reason} too large: {len}"
  else takeBytes len

def takeEntry : Take LogEntry := do
  let term ← takeNat
  let command ← takeLimited (16 * 1024 * 1024) "command"
  return ⟨term, command⟩

def takeEntries : Take (List LogEntry) := do
  let entryCount ← takeU32
  if entryCount > 100000 then throw s!"suspiciously large entry_count: {entryCount}"
  else nextMany takeEntry entryCount

def takePeers : Take (List NodeId) := do
  let len ← takeU32
  nextMany takeId len

def takeFields : UInt8 → Take Message
  | 1 => do
    let term ← takeNat
    let candidateId ← takeId
    let lastLogIndex ← takeNat
    let lastLogTerm ← takeNat
    return .voteRequest ⟨term, candidateId, lastLogIndex, lastLogTerm⟩
  | 2 => do
    let term ← takeNat
    let voteGranted ← takeBool
    return .voteResponse ⟨term, voteGranted⟩
  | 3 => do
    let term ← takeNat
    let leaderId ← takeId
    let prevLogIndex ← takeNat
    let prevLogTerm ← takeNat
    let leaderCommit ← takeNat
    let entries ← takeEntries
    return .appendRequest ⟨term, leaderId, prevLogIndex, prevLogTerm, entries, leaderCommit⟩
  | 4 => do
    let term ← takeNat
    let success ← takeBool
    let matchIndex ← takeNat
    return .appendResponse ⟨term, success, matchIndex⟩
  | 5 => do
    let term ← takeNat
    let leaderId ← takeId
    let lastIncludedIndex ← takeNat
    let lastIncludedTerm ← takeNat
    let data ← takeLimited maxSnapshotDataLen "snapshot data"
    return .installSnapshotRequest ⟨term, leaderId, lastIncludedIndex, lastIncludedTerm, data⟩
  | 6 => do
    let term ← takeNat
    let success ← takeBool
    return .installSnapshotResponse ⟨term, success⟩
  | 7 => do
    let term ← takeNat
    let oldPeers ← takePeers
    let newPeers ← takePeers
    return .configChangeRequest ⟨term, oldPeers, newPeers⟩
  | 8 => do
    let term ← takeNat
    let success ← takeBool
    return .configChangeResponse ⟨term, success⟩
  | other => throw s!"unknown Raft message type: {other}"

def takeMessage : Take Message := do
  let msgType ← takeU8
  takeFields msgType

def takeEnvelope : Take Envelope := do
  let sender ← takeId
  let receiver ← takeId
  let groupId ← takeU64
  let message ← takeMessage
  return ⟨sender, receiver, groupId, message⟩

/-- Reads an envelope from the bytes after the frame's length. What follows the
last field is not looked at. -/
def decodeEnvelope (data : Bytes) : Except String Envelope := takeEnvelope.run' data

structure EntryFits (entry : LogEntry) : Prop where
  term : entry.term < 2 ^ 64
  command : entry.command.length ≤ 16 * 1024 * 1024

/-- The limits of the decoder, and the 64-bit words of the source. -/
def MessageFits : Message → Prop
  | .voteRequest m => m.term < 2 ^ 64 ∧ m.lastLogIndex < 2 ^ 64 ∧ m.lastLogTerm < 2 ^ 64
  | .voteResponse m => m.term < 2 ^ 64
  | .appendRequest m => m.term < 2 ^ 64 ∧ m.prevLogIndex < 2 ^ 64 ∧ m.prevLogTerm < 2 ^ 64 ∧ m.leaderCommit < 2 ^ 64 ∧
    m.entries.length ≤ 100000 ∧ ∀ entry ∈ m.entries, EntryFits entry
  | .appendResponse m => m.term < 2 ^ 64 ∧ m.matchIndex < 2 ^ 64
  | .installSnapshotRequest m => m.term < 2 ^ 64 ∧ m.lastIncludedIndex < 2 ^ 64 ∧ m.lastIncludedTerm < 2 ^ 64 ∧
    m.data.length ≤ maxSnapshotDataLen
  | .installSnapshotResponse m => m.term < 2 ^ 64
  | .configChangeRequest m => m.term < 2 ^ 64 ∧ m.oldPeers.length < 2 ^ 32 ∧ m.newPeers.length < 2 ^ 32
  | .configChangeResponse m => m.term < 2 ^ 64

theorem reads_takeU32 {value : Nat} (small : value < 2 ^ 32) : Reads takeU32 (u32Bytes value) value :=
  reads_word small _ id

theorem reads_takeU64 (value : UInt64) : Reads takeU64 (u64Bytes value) value := by
  have word : Reads (takeWord 8 "u64") (u64Bytes value) value.toNat := reads_word value.toNat_lt _ id
  have read := word.map UInt64.ofNat
  rw [UInt64.ofNat_toNat] at read
  exact read

theorem reads_takeNat {value : Nat} (small : value < 2 ^ 64) : Reads takeNat (u64 value) value := by
  have read := (reads_takeU64 (UInt64.ofNat value)).map UInt64.toNat
  rw [u64Bytes, UInt64.toNat_ofNat_of_lt' small] at read
  exact read

theorem reads_takeId (id : NodeId) : Reads takeId (u64Bytes id.val) id := (reads_takeU64 id.val).map _

theorem reads_takeBool (flag : Bool) : Reads takeBool [boolByte flag] flag := by
  cases flag <;> exact fun rest => rfl

theorem reads_takeLimited {limit : Nat} (reason : String) (representable : limit < 2 ^ 32) {bytes : Bytes}
    (short : bytes.length ≤ limit) : Reads (takeLimited limit reason) (pushBytes bytes) bytes := by
  refine (reads_takeU32 (short.trans_lt representable)).bind fun rest => ?_
  rw [if_neg (Nat.not_lt.mpr short)]
  simp [takeBytes]

theorem reads_takeEntry {entry : LogEntry} (fits : EntryFits entry) : Reads takeEntry (encodeEntry entry) entry :=
  (reads_takeNat fits.term).bind ((reads_takeLimited "command" (by decide) fits.command).map _)

theorem reads_takeEntries {entries : List LogEntry} (few : entries.length ≤ 100000)
    (fits : ∀ entry ∈ entries, EntryFits entry) :
    Reads takeEntries (u32Bytes entries.length ++ entries.flatMap encodeEntry) entries := by
  refine (reads_takeU32 (few.trans_lt (by decide))).bind ?_
  rw [if_neg (Nat.not_lt.mpr few)]
  exact reads_many fun entry inside => reads_takeEntry (fits entry inside)

theorem reads_takePeers {peers : List NodeId} (few : peers.length < 2 ^ 32) :
    Reads takePeers (encodePeers peers) peers :=
  (reads_takeU32 few).bind (reads_many fun peer _ => reads_takeId peer)

theorem reads_message {message : Message} (fits : MessageFits message) :
    Reads takeMessage (encodeMessage message) message := by
  have typed : ∀ {msgType : UInt8} {fields : Bytes}, Reads (takeFields msgType) fields message →
    Reads takeMessage (msgType :: fields) message := fun read rest => read rest
  cases message with
  | voteRequest m =>
    obtain ⟨term, index, lastTerm⟩ := fits
    exact typed ((reads_takeNat term).bind ((reads_takeId _).bind ((reads_takeNat index).bind
      ((reads_takeNat lastTerm).map _))))
  | voteResponse m => exact typed ((reads_takeNat fits).bind ((reads_takeBool _).map _))
  | appendRequest m =>
    obtain ⟨term, index, prevTerm, commit, few, entries⟩ := fits
    exact typed ((reads_takeNat term).bind ((reads_takeId _).bind ((reads_takeNat index).bind
      ((reads_takeNat prevTerm).bind ((reads_takeNat commit).bind ((reads_takeEntries few entries).map _))))))
  | appendResponse m =>
    exact typed ((reads_takeNat fits.1).bind ((reads_takeBool _).bind ((reads_takeNat fits.2).map _)))
  | installSnapshotRequest m =>
    obtain ⟨term, index, lastTerm, short⟩ := fits
    exact typed ((reads_takeNat term).bind ((reads_takeId _).bind ((reads_takeNat index).bind
      ((reads_takeNat lastTerm).bind ((reads_takeLimited _ (by decide) short).map _)))))
  | installSnapshotResponse m => exact typed ((reads_takeNat fits).bind ((reads_takeBool _).map _))
  | configChangeRequest m =>
    obtain ⟨term, few, fewNew⟩ := fits
    exact typed ((reads_takeNat term).bind ((reads_takePeers few).bind ((reads_takePeers fewNew).map _)))
  | configChangeResponse m => exact typed ((reads_takeNat fits).bind ((reads_takeBool _).map _))

theorem reads_envelope {env : Envelope} (fits : MessageFits env.message) : Reads takeEnvelope (frameBody env) env :=
  (reads_takeId _).bind ((reads_takeId _).bind ((reads_takeU64 _).bind ((reads_message fits).map _)))

theorem steady_takeU8 : Steady takeU8 := by
  intro text value rest read more
  cases text with
  | nil => cases read
  | cons byte text =>
    cases read
    rfl

theorem steady_ofLength (width : Nat) (reason : Bytes → String) (read : Bytes → α) : Steady fun cur : Bytes =>
    if cur.length < width then .error (reason cur) else .ok (read (cur.take width), cur.drop width) := by
  intro text value rest took more
  dsimp only at took ⊢
  split at took
  next => cases took
  next long =>
    cases took
    rw [if_neg (by rw [List.length_append]; omega), List.take_append_of_le_length (by omega),
      List.drop_append_of_le_length (by omega)]

theorem steady_takeU64 : Steady takeU64 := (steady_ofLength 8 _ fromLeBytes).bind fun _ => steady_pure _

theorem steady_takeNat : Steady takeNat := steady_takeU64.bind fun _ => steady_pure _

theorem steady_takeU32 : Steady takeU32 := steady_ofLength 4 _ fromLeBytes

theorem steady_takeId : Steady takeId := steady_takeU64.bind fun _ => steady_pure _

theorem steady_takeBool : Steady takeBool := steady_takeU8.bind fun _ => steady_pure _

theorem steady_many {next : Take α} (steady : Steady next) (count : Nat) : Steady (nextMany next count) := by
  induction count with
  | zero => exact steady_pure []
  | succ count ih => exact steady.bind fun first => ih.bind fun _ => steady_pure _

theorem steady_takeLimited (limit : Nat) (reason : String) : Steady (takeLimited limit reason) := by
  refine steady_takeU32.bind fun len => ?_
  split
  next => exact steady_throw _
  next => exact steady_ofLength len _ id

theorem steady_takeEntries : Steady takeEntries := by
  refine steady_takeU32.bind fun entryCount => ?_
  split
  next => exact steady_throw _
  next => exact steady_many (steady_takeNat.bind fun _ => (steady_takeLimited _ _).bind fun _ => steady_pure _) _

theorem steady_takePeers : Steady takePeers := steady_takeU32.bind (steady_many steady_takeId)

theorem steady_fields (msgType : UInt8) : Steady (takeFields msgType) := by
  unfold takeFields
  split
  next =>
    exact steady_takeNat.bind fun _ => steady_takeId.bind fun _ => steady_takeNat.bind fun _ =>
      steady_takeNat.bind fun _ => steady_pure _
  next => exact steady_takeNat.bind fun _ => steady_takeBool.bind fun _ => steady_pure _
  next =>
    exact steady_takeNat.bind fun _ => steady_takeId.bind fun _ => steady_takeNat.bind fun _ =>
      steady_takeNat.bind fun _ => steady_takeNat.bind fun _ => steady_takeEntries.bind fun _ => steady_pure _
  next => exact steady_takeNat.bind fun _ => steady_takeBool.bind fun _ => steady_takeNat.bind fun _ => steady_pure _
  next =>
    exact steady_takeNat.bind fun _ => steady_takeId.bind fun _ => steady_takeNat.bind fun _ =>
      steady_takeNat.bind fun _ => (steady_takeLimited _ _).bind fun _ => steady_pure _
  next => exact steady_takeNat.bind fun _ => steady_takeBool.bind fun _ => steady_pure _
  next =>
    exact steady_takeNat.bind fun _ => steady_takePeers.bind fun _ => steady_takePeers.bind fun _ => steady_pure _
  next => exact steady_takeNat.bind fun _ => steady_takeBool.bind fun _ => steady_pure _
  next => exact steady_throw _

theorem steady_envelope : Steady takeEnvelope :=
  steady_takeId.bind fun _ => steady_takeId.bind fun _ => steady_takeU64.bind fun _ =>
    (steady_takeU8.bind steady_fields).bind fun _ => steady_pure _

/-- The body of a frame is read back, and no part it begins with is read. -/
theorem decodeEnvelope_frame (env : Envelope) (fits : MessageFits env.message) :
    decodeEnvelope ((encodeEnvelope env).drop 4) = .ok env ∧
      ∀ cut, cut <+: (encodeEnvelope env).drop 4 → cut ≠ (encodeEnvelope env).drop 4 →
        ∀ other, decodeEnvelope cut ≠ .ok other := by
  have body : (encodeEnvelope env).drop 4 = frameBody env := List.drop_left' (length_toLeBytes 4 _)
  rw [body]
  have reads := reads_envelope fits
  refine ⟨?_, fun cut part short other decoded => ?_⟩
  · have read := reads []
    rw [List.append_nil] at read
    exact map_eq_ok.mpr ⟨_, read, rfl⟩
  · obtain ⟨result, read, -⟩ := map_eq_ok.mp decoded
    exact steady_envelope.unfinished reads part short result read

def replicated : Envelope :=
  ⟨⟨1⟩, ⟨2⟩, 7, .appendRequest ⟨3, ⟨1⟩, 4, 2, [⟨2, [9, 9]⟩, ⟨3, []⟩], 5⟩⟩

theorem decodeEnvelope_replicated :
    decodeEnvelope ((encodeEnvelope replicated).drop 4) = .ok replicated ∧
      decodeEnvelope (((encodeEnvelope replicated).drop 4).take 60) ≠ .ok replicated := by
  have fits : MessageFits replicated.message := by
    refine ⟨by decide, by decide, by decide, by decide, by decide, ?_⟩
    simp only [List.mem_cons, List.not_mem_nil, or_false]
    rintro entry (rfl | rfl) <;> exact ⟨by decide, by decide⟩
  have both := decodeEnvelope_frame replicated fits
  exact ⟨both.1, both.2 _ (List.take_prefix _ _) (by decide) _⟩

end KayaDB.Net
