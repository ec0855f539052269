import KayaDB.Raft.CommandTrip
import KayaDB.Server.SnapshotPins

/-! The payload of a Raft snapshot read back. The second version is told by its
number in the first four bytes, where the bare snapshot of an engine, which was the
payload before, has the count of its tables. -/

namespace KayaDB.Server
open Raft Storage Readers
open Manifest (asBytes fromUtf8 fromUtf8_asBytes)

/-- The text of the UTF-8 error is left out. -/
def takeLenPrefixed : Decoder String := fun cur =>
  if cur.length < 4 then .error "bad len"
  else
    let len := fromLeBytes (cur.take 4)
    let cur := cur.drop 4
    if cur.length < len then .error "truncated"
    else
      match fromUtf8 (cur.take len) with
      | some text => .ok (text, cur.drop len)
      | none => .error "invalid utf-8"

def takeLearnerFlag (withLearnerFlag : Bool) : Decoder Bool := fun cur =>
  if withLearnerFlag then
    match cur with
    | [] => .error "missing learner flag"
    | flag :: cur => .ok (flag ≠ 0, cur)
  else .ok (false, cur)

def takeMember (withLearnerFlag : Bool) : Decoder ClusterMember := fun cur =>
  if cur.length < 8 then .error "truncated member id"
  else do
    let id := UInt64.ofNat (fromLeBytes (cur.take 8))
    let (raft, cur) ← takeLenPrefixed (cur.drop 8)
    let (client, cur) ← takeLenPrefixed cur
    let (isLearner, cur) ← takeLearnerFlag withLearnerFlag cur
    .ok (⟨⟨id⟩, raft, client, isLearner⟩, cur)

def decodeSnapshotMembers (data : Bytes) (mcnt : Nat) (withLearnerFlag : Bool) :
    Except String (List ClusterMember × Bytes) := nextMany (takeMember withLearnerFlag) mcnt data

/-- With the flags, else without them, else no members. -/
def snapshotMembers (cur : Bytes) (mcnt : Nat) : List ClusterMember × Bytes :=
  match decodeSnapshotMembers cur mcnt true with
  | .ok read => read
  | .error _ =>
    match decodeSnapshotMembers cur mcnt false with
    | .ok read => read
    | .error _ => ([], cur)

/-- The members and the range table behind the engine's data. -/
def parseParts (ver : Nat) (cur : Bytes) : Except String (List ClusterMember × Bytes) :=
  if cur.length < 4 then .ok ([], [])
  else
    let (members, rest) := snapshotMembers (cur.drop 4) (fromLeBytes (cur.take 4))
    if ver = 1 then .ok (members, [])
    else if rest.length < 4 then .ok (members, [])
    else
      let rlen := fromLeBytes (rest.take 4)
      let rest := rest.drop 4
      if rest.length < rlen then .error "truncated range table in snapshot" else .ok (members, rest.take rlen)

def parseSnapshotPayloadV2 (data : Bytes) : Except String (Bytes × List ClusterMember × Bytes) :=
  if data.isEmpty then .ok ([], [], [])
  else if data.length < 4 then .ok (data, [], [])
  else
    let ver := fromLeBytes (data.take 4)
    let cur := data.drop 4
    if ver ≠ 1 ∧ ver ≠ 2 then .ok (data, [], [])
    else if cur.length < 4 then .error "bad engine len"
    else
      let elen := fromLeBytes (cur.take 4)
      let cur := cur.drop 4
      if cur.length < elen then .error "truncated engine"
      else (parseParts ver (cur.drop elen)).map fun parts => (cur.take elen, parts)

/-- All lengths of a payload fit in 32 bits. -/
structure PayloadFits (engineData : Bytes) (members : List ClusterMember) (rangeTable : Bytes) : Prop where
  engine : engineData.length < 2 ^ 32
  count : members.length < 2 ^ 32
  each : ∀ member ∈ members, member.Fits
  ranges : rangeTable.length < 2 ^ 32

theorem reads_lenPrefixed {text : String} (fits : text.utf8ByteSize < 2 ^ 32) :
    Reads takeLenPrefixed (lenPrefixed (asBytes text)) text := by
  intro rest
  have small : (asBytes text).length < 256 ^ 4 := fits
  have room : ¬ (toLeBytes 4 (asBytes text).length ++ (asBytes text ++ rest)).length < 4 := by simp [length_toLeBytes]
  unfold takeLenPrefixed
  dsimp only
  rw [lenPrefixed, List.append_assoc, if_neg room, fromLeBytes_take small, drop_toLeBytes, if_neg (by simp),
    List.take_left, List.drop_left, fromUtf8_asBytes]

theorem reads_takeMember {member : ClusterMember} (fits : member.Fits) :
    Reads (takeMember true) (encodeMember member) member := by
  intro rest
  have small : member.id.val.toNat < 256 ^ 8 := by simpa using member.id.val.toNat_lt
  simp only [encodeMember, List.append_assoc]
  unfold takeMember
  rw [if_neg (by simp [length_toLeBytes]), fromLeBytes_take small, drop_toLeBytes, UInt64.ofNat_toNat]
  simp only [(reads_lenPrefixed fits.raftAddr).bind_eq, (reads_lenPrefixed fits.clientAddr).bind_eq]
  obtain ⟨id, raftAddr, clientAddr, isLearner⟩ := member
  cases isLearner <;> rfl

section Written
variable {engineData rangeTable rest : Bytes} {members : List ClusterMember} {ver : Nat}

theorem parse_versioned (known : ver = 1 ∨ ver = 2) (small : engineData.length < 2 ^ 32) :
    parseSnapshotPayloadV2 (toLeBytes 4 ver ++ (lenPrefixed engineData ++ rest)) =
      (parseParts ver rest).map fun parts => (engineData, parts) := by
  have word : ver < 256 ^ 4 := by omega
  have filled : (toLeBytes 4 ver ++ (lenPrefixed engineData ++ rest)).isEmpty = false := rfl
  unfold parseSnapshotPayloadV2
  dsimp only
  rw [if_neg (by simp [filled]), if_neg (by simp [length_toLeBytes]), fromLeBytes_take word, drop_toLeBytes,
    if_neg (by omega), lenPrefixed, List.append_assoc, if_neg (by simp [length_toLeBytes]),
    fromLeBytes_take (by simpa using small), drop_toLeBytes, if_neg (by simp), List.take_left, List.drop_left]

theorem parseParts_built (few : members.length < 2 ^ 32) (each : ∀ member ∈ members, member.Fits)
    (small : rangeTable.length < 2 ^ 32) :
    parseParts 2 (toLeBytes 4 members.length ++ (members.flatMap encodeMember ++ lenPrefixed rangeTable)) =
      .ok (members, rangeTable) := by
  have read : snapshotMembers (members.flatMap encodeMember ++ lenPrefixed rangeTable) members.length =
      (members, lenPrefixed rangeTable) := by
    unfold snapshotMembers decodeSnapshotMembers
    rw [reads_many fun member inside => reads_takeMember (each member inside)]
  unfold parseParts
  rw [if_neg (by simp [length_toLeBytes]), fromLeBytes_take (by simpa using few), drop_toLeBytes, read]
  dsimp only
  rw [if_neg (by decide), lenPrefixed, if_neg (by simp [length_toLeBytes]), fromLeBytes_take (by simpa using small),
    drop_toLeBytes, if_neg (lt_irrefl _), List.take_length]

theorem parse_build (fits : PayloadFits engineData members rangeTable) :
    parseSnapshotPayloadV2 (buildSnapshotPayloadV2 engineData members rangeTable) =
      .ok (engineData, members, rangeTable) := by
  simp only [buildSnapshotPayloadV2, List.append_assoc]
  rw [parse_versioned (.inr rfl) fits.engine, parseParts_built fits.count fits.each fits.ranges]
  rfl

end Written

section Read
variable {data engineData rangeTable cur rest : Bytes} {members : List ClusterMember} {ver : Nat}
  {flag : Bool}

theorem fromLeBytes_take_lt (cur : Bytes) (width : Nat) : fromLeBytes (cur.take width) < 256 ^ width :=
  (fromLeBytes_lt _).trans_le (Nat.pow_le_pow_right (by decide) (List.length_take_le _ _))

theorem takeLenPrefixed_small {text : String} (read : takeLenPrefixed cur = .ok (text, rest)) :
    text.utf8ByteSize < 2 ^ 32 := by
  unfold takeLenPrefixed at read
  split at read
  · cases read
  · dsimp only at read
    split at read
    · cases read
    · split at read
      next found =>
        cases read
        unfold fromUtf8 String.fromUTF8? at found
        split at found
        · cases found
          have short := List.length_take_le (fromLeBytes (cur.take 4)) (cur.drop 4)
          exact short.trans_lt (fromLeBytes_take_lt cur 4)
        · cases found
      · cases read

theorem takeMember_small {member : ClusterMember} (read : takeMember flag cur = .ok (member, rest)) :
    member.Fits := by
  unfold takeMember at read
  split at read
  · cases read
  · obtain ⟨⟨raft, first⟩, raftRead, read⟩ := bind_eq_ok.mp read
    obtain ⟨⟨client, second⟩, clientRead, read⟩ := bind_eq_ok.mp read
    obtain ⟨⟨isLearner, third⟩, -, read⟩ := bind_eq_ok.mp read
    cases read
    exact ⟨takeLenPrefixed_small raftRead, takeLenPrefixed_small clientRead⟩

theorem members_small (count : Nat) : ∀ {cur members}, nextMany (takeMember flag) count cur = .ok (members, rest) →
    members.length = count ∧ ∀ member ∈ members, member.Fits := by
  induction count with
  | zero =>
    intro cur members read
    cases read
    exact ⟨rfl, fun member inside => absurd inside List.not_mem_nil⟩
  | succ count ih =>
    intro cur members read
    obtain ⟨⟨first, behind⟩, firstRead, read⟩ := bind_eq_ok.mp read
    obtain ⟨⟨others, last⟩, othersRead, read⟩ := bind_eq_ok.mp read
    cases read
    obtain ⟨length, each⟩ := ih othersRead
    exact ⟨congrArg (· + 1) length, List.forall_mem_cons.mpr ⟨takeMember_small firstRead, each⟩⟩

theorem snapshotMembers_small {count : Nat} (small : count < 2 ^ 32) :
    (snapshotMembers cur count).1.length < 2 ^ 32 ∧ ∀ member ∈ (snapshotMembers cur count).1, member.Fits := by
  unfold snapshotMembers decodeSnapshotMembers
  split
  next read =>
    obtain ⟨length, each⟩ := members_small count read
    exact ⟨length ▸ small, each⟩
  next =>
    split
    next read =>
      obtain ⟨length, each⟩ := members_small count read
      exact ⟨length ▸ small, each⟩
    next => exact ⟨Nat.two_pow_pos 32, fun member inside => absurd inside List.not_mem_nil⟩

theorem parseParts_small (read : parseParts ver cur = .ok (members, rangeTable)) :
    members.length < 2 ^ 32 ∧ (∀ member ∈ members, member.Fits) ∧ rangeTable.length < 2 ^ 32 := by
  have count := fromLeBytes_take_lt cur 4
  unfold parseParts at read
  split at read
  · cases read
    exact ⟨by decide, fun member inside => absurd inside List.not_mem_nil, by decide⟩
  · obtain ⟨few, each⟩ := @snapshotMembers_small (cur.drop 4) _ count
    dsimp only at read
    split at read
    · cases read
      exact ⟨few, each, by decide⟩
    · split at read
      · cases read
        exact ⟨few, each, by decide⟩
      · split at read
        · cases read
        · cases read
          exact ⟨few, each, (List.length_take_le _ _).trans_lt (fromLeBytes_take_lt _ 4)⟩

theorem parse_small (known : fromLeBytes (data.take 4) = 1 ∨ fromLeBytes (data.take 4) = 2) (long : 4 ≤ data.length)
    (read : parseSnapshotPayloadV2 data = .ok (engineData, members, rangeTable)) :
    engineData.length < data.length ∧ PayloadFits engineData members rangeTable := by
  have filled : ¬ data.isEmpty = true := by
    rintro empty
    rw [List.isEmpty_iff.mp empty] at long
    exact absurd long (by decide)
  unfold parseSnapshotPayloadV2 at read
  rw [if_neg filled, if_neg (by omega)] at read
  dsimp only at read
  rw [if_neg (by omega)] at read
  split at read
  · cases read
  · split at read
    · cases read
    · obtain ⟨⟨others, table⟩, parts, same⟩ := map_eq_ok.mp read
      cases same
      obtain ⟨few, each, small⟩ := parseParts_small parts
      refine ⟨?_, (List.length_take_le _ _).trans_lt (fromLeBytes_take_lt _ 4), few, each, small⟩
      rw [List.length_take, List.length_drop, List.length_drop]
      omega

end Read

/-- A payload is read back just if its lengths fit in 32 bits, and the bare snapshot
of an engine just if the count of its tables is not taken for a version. -/
theorem parse_exact_iff (engineData : Bytes) (members : List ClusterMember) (rangeTable : Bytes) (view : SnapshotView)
    (content : Manifest.TableMetadata → Bytes) :
    (parseSnapshotPayloadV2 (buildSnapshotPayloadV2 engineData members rangeTable) =
          .ok (engineData, members, rangeTable) ∧
        parseSnapshotPayloadV2 (view.encode content) = .ok (view.encode content, [], [])) ↔
      PayloadFits engineData members rangeTable ∧
        view.pinnedTables.length % 2 ^ 32 ≠ 1 ∧ view.pinnedTables.length % 2 ^ 32 ≠ 2 := by
  have built : fromLeBytes ((buildSnapshotPayloadV2 engineData members rangeTable).take 4) = 2 := by
    simp only [buildSnapshotPayloadV2, List.append_assoc]
    exact fromLeBytes_take (by decide) _
  have counted : fromLeBytes ((view.encode content).take 4) = view.pinnedTables.length % 2 ^ 32 := by
    simp only [SnapshotView.encode, List.append_assoc]
    rw [List.take_left' (length_toLeBytes 4 _), fromLeBytes_toLeBytes]
    rfl
  have long : 4 ≤ (view.encode content).length := by
    simp only [SnapshotView.encode, List.length_append, length_toLeBytes]
    omega
  refine and_congr ⟨fun read => ?_, parse_build⟩ ⟨fun read => ?_, fun other => ?_⟩
  · refine (parse_small (.inr built) ?_ read).2
    simp only [buildSnapshotPayloadV2, List.length_append, length_toLeBytes]
    omega
  · rw [← counted]
    refine ⟨fun one => ?_, fun two => ?_⟩
    · exact lt_irrefl _ (parse_small (.inl one) long read).1
    · exact lt_irrefl _ (parse_small (.inr two) long read).1
  · rw [← counted] at other
    have filled : ¬ (view.encode content).isEmpty = true := by
      rintro empty
      rw [List.isEmpty_iff.mp empty] at long
      exact absurd long (by decide)
    unfold parseSnapshotPayloadV2
    rw [if_neg filled, if_neg (by omega)]
    exact if_pos other

def oneTable : SnapshotView := ⟨[⟨1, 0, "sst/1", [97], [98], 1, 2, 2, 64, 7⟩], [], 2⟩

/-- The count is taken for the first version, and the number of the table for a length. -/
theorem oneTable_not_whole :
    parseSnapshotPayloadV2 (oneTable.encode fun _ => []) ≠ .ok (oneTable.encode fun _ => [], [], []) := by
  decide +kernel

end KayaDB.Server
