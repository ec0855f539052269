import KayaDB.Raft.Log

/-! Replicated commands and their wire form. Integers are little-endian;
lengths are written as 32-bit values and read back as sizes. -/

namespace KayaDB.Raft

inductive ConfigChangePhase where
  | joint
  | final
deriving DecidableEq, Repr

def ConfigChangePhase.toByte : ConfigChangePhase → UInt8
  | .joint => 1
  | .final => 2

structure ClusterMember where
  id : NodeId
  raftAddr : String
  clientAddr : String
  isLearner : Bool
deriving DecidableEq, Repr

def ClusterMember.voterIds (members : List ClusterMember) : List NodeId :=
  (members.filter fun member => !member.isLearner).map ClusterMember.id

/-- A key together with its new value; no value means the key is deleted. -/
abbrev Mutation := Bytes × Option Bytes

inductive RaftCommand where
  | put (key value : Bytes)
  | delete (key : Bytes)
  | configChange (phase : ConfigChangePhase) (members : List ClusterMember)
  | txnCommit (txnId : UInt64) (mutations : List Mutation)
  | txnPrepare (txnId coordinatorGroup : UInt64) (mutations : List Mutation)
  | txnCommit2pc (txnId : UInt64)
  | txnAbort2pc (txnId : UInt64)
  | rangeMeta (baseEpoch : UInt64) (snapshot : Bytes)
  | txnDecision (txnId : UInt64) (commit : Bool)
deriving DecidableEq, Repr

def toLeBytes : (width value : Nat) → Bytes
  | 0, _ => []
  | width + 1, value => UInt8.ofNat value :: toLeBytes width (value / 256)

def fromLeBytes : Bytes → Nat
  | [] => 0
  | byte :: rest => byte.toNat + 256 * fromLeBytes rest

theorem length_toLeBytes (width : Nat) : ∀ value, (toLeBytes width value).length = width := by
  induction width with
  | zero => exact fun _ => rfl
  | succ width ih => exact fun value => congrArg (· + 1) (ih (value / 256))

theorem fromLeBytes_toLeBytes (width : Nat) : ∀ value, fromLeBytes (toLeBytes width value) = value % 256 ^ width := by
  induction width with
  | zero => exact fun value => (Nat.mod_one value).symm
  | succ width ih =>
    intro value
    have parts : value % (256 * 256 ^ width) = value % 256 + 256 * (value / 256 % 256 ^ width) := Nat.mod_mul
    rw [toLeBytes, fromLeBytes, ih, UInt8.toNat_ofNat', Nat.pow_succ' (n := width), parts]

theorem toLeBytes_fromLeBytes (bytes : Bytes) : toLeBytes bytes.length (fromLeBytes bytes) = bytes := by
  induction bytes with
  | nil => rfl
  | cons byte rest ih =>
    have low : UInt8.ofNat (byte.toNat + 256 * fromLeBytes rest) = byte := by
      apply UInt8.toNat_inj.mp
      rw [UInt8.toNat_ofNat']
      have := byte.toNat_lt
      omega
    have high : (byte.toNat + 256 * fromLeBytes rest) / 256 = fromLeBytes rest := by
      have := byte.toNat_lt
      omega
    rw [List.length_cons, toLeBytes, fromLeBytes, low, high, ih]

theorem fromLeBytes_lt (bytes : Bytes) : fromLeBytes bytes < 256 ^ bytes.length := by
  induction bytes with
  | nil => exact Nat.one_pos
  | cons byte rest ih =>
    have := byte.toNat_lt
    rw [fromLeBytes, List.length_cons, Nat.pow_succ]
    omega

def u32Bytes (value : Nat) : Bytes := toLeBytes 4 value

def u64Bytes (value : UInt64) : Bytes := toLeBytes 8 value.toNat

def boolByte (flag : Bool) : UInt8 := if flag then 1 else 0

def pushBytes (bytes : Bytes) : Bytes := u32Bytes bytes.length ++ bytes

def pushString (text : String) : Bytes := pushBytes text.toByteArray.data.toList

def pushMember (member : ClusterMember) : Bytes :=
  u64Bytes member.id.val ++ pushString member.raftAddr ++ pushString member.clientAddr ++ [boolByte member.isLearner]

def pushMutation (mutation : Mutation) : Bytes :=
  pushBytes mutation.1 ++ match mutation.2 with
    | some value => 1 :: pushBytes value
    | none => [0]

def pushMutations (mutations : List Mutation) : Bytes :=
  u32Bytes mutations.length ++ mutations.flatMap pushMutation

def RaftCommand.encode : RaftCommand → Bytes
  | .put key value => 1 :: (pushBytes key ++ pushBytes value)
  | .delete key => 2 :: pushBytes key
  | .configChange phase members =>
    3 :: phase.toByte :: (u32Bytes members.length ++ members.flatMap pushMember)
  | .txnCommit txnId mutations => 4 :: (u64Bytes txnId ++ pushMutations mutations)
  | .txnPrepare txnId coordinatorGroup mutations =>
    5 :: (u64Bytes txnId ++ u64Bytes coordinatorGroup ++ pushMutations mutations)
  | .txnCommit2pc txnId => 6 :: u64Bytes txnId
  | .txnAbort2pc txnId => 7 :: u64Bytes txnId
  | .rangeMeta baseEpoch snapshot => 8 :: (u64Bytes baseEpoch ++ pushBytes snapshot)
  | .txnDecision txnId commit => 9 :: (u64Bytes txnId ++ [boolByte commit])

abbrev Decoder (α : Type) := Bytes → Except String (α × Bytes)

def nextU8 : Decoder UInt8
  | [] => .error "unexpected EOF reading u8"
  | byte :: rest => .ok (byte, rest)

def nextU64 : Decoder UInt64 := fun cur =>
  if cur.length < 8 then .error "unexpected EOF reading u64"
  else .ok (UInt64.ofNat (fromLeBytes (cur.take 8)), cur.drop 8)

def nextU32 : Decoder Nat := fun cur =>
  if cur.length < 4 then .error s!"unexpected EOF reading u32 (have {cur.length} bytes)"
  else .ok (fromLeBytes (cur.take 4), cur.drop 4)

def nextBytes : Decoder Bytes := fun cur => do
  let (length, cur) ← nextU32 cur
  if cur.length < length then .error s!"truncated data: need {length} bytes, have {cur.length}"
  else .ok (cur.take length, cur.drop length)

def nextString : Decoder String := fun cur => do
  let (bytes, cur) ← nextBytes cur
  match String.fromUTF8? ⟨bytes.toArray⟩ with
  | some text => .ok (text, cur)
  | none => .error "invalid utf-8 in member address"

def nextMutation (label : String) : Decoder Mutation := fun cur => do
  let (key, cur) ← nextBytes cur
  let (hasValue, cur) ← nextU8 cur
  if hasValue = 0 then .ok ((key, none), cur)
  else if hasValue = 1 then
    let (value, cur) ← nextBytes cur
    .ok ((key, some value), cur)
  else .error s!"invalid {label} has_value flag: {hasValue} (expected 0 or 1)"

def nextMany (next : Decoder α) : Nat → Decoder (List α)
  | 0, cur => .ok ([], cur)
  | count + 1, cur => do
    let (first, cur) ← next cur
    let (rest, cur) ← nextMany next count cur
    .ok (first :: rest, cur)

def nextMutations (label : String) : Decoder (List Mutation) := fun cur => do
  let (count, cur) ← nextU32 cur
  nextMany (nextMutation label) count cur

def nextVoter : Decoder ClusterMember := fun cur => do
  let (id, cur) ← nextU64 cur
  .ok (⟨⟨id⟩, "", "", false⟩, cur)

def nextMember (withLearnerFlag : Bool) : Decoder ClusterMember := fun cur => do
  let (id, cur) ← nextU64 cur
  let (raftAddr, cur) ← nextString cur
  let (clientAddr, cur) ← nextString cur
  if withLearnerFlag then
    let (flag, cur) ← nextU8 cur
    .ok (⟨⟨id⟩, raftAddr, clientAddr, flag ≠ 0⟩, cur)
  else .ok (⟨⟨id⟩, raftAddr, clientAddr, false⟩, cur)

/-- Members are the last part of a configuration command, so left-over bytes
tell the format with learner flags from the older one without. -/
def decodeMembersWithAddrs (data : Bytes) (count : Nat) (withLearnerFlag : Bool) :
    Except String (List ClusterMember) := do
  let (members, cur) ← nextMany (nextMember withLearnerFlag) count data
  if cur.isEmpty then .ok members else .error "trailing bytes after members"

def decodeConfigChange (cur : Bytes) : Except String RaftCommand := do
  let (phaseByte, cur) ← nextU8 cur
  let phase ← if phaseByte = 1 then .ok ConfigChangePhase.joint
    else if phaseByte = 2 then .ok ConfigChangePhase.final
    else .error s!"unknown ConfigChangePhase: {phaseByte}"
  let (count, cur) ← nextU32 cur
  if cur.length = count * 8 then
    let (members, _) ← nextMany nextVoter count cur
    .ok (.configChange phase members)
  else
    match decodeMembersWithAddrs cur count true with
    | .ok members => .ok (.configChange phase members)
    | .error _ =>
      let members ← decodeMembersWithAddrs cur count false
      .ok (.configChange phase members)

def RaftCommand.decode (data : Bytes) : Except String RaftCommand := do
  let (cmdType, cur) ← nextU8 data
  match cmdType with
  | 1 =>
    let (key, cur) ← nextBytes cur
    let (value, _) ← nextBytes cur
    .ok (.put key value)
  | 2 =>
    let (key, _) ← nextBytes cur
    .ok (.delete key)
  | 3 => decodeConfigChange cur
  | 4 =>
    let (txnId, cur) ← nextU64 cur
    let (mutations, _) ← nextMutations "TxnCommit" cur
    .ok (.txnCommit txnId mutations)
  | 5 =>
    let (txnId, cur) ← nextU64 cur
    let (coordinatorGroup, cur) ← nextU64 cur
    let (mutations, _) ← nextMutations "TxnPrepare" cur
    .ok (.txnPrepare txnId coordinatorGroup mutations)
  | 6 =>
    let (txnId, _) ← nextU64 cur
    .ok (.txnCommit2pc txnId)
  | 7 =>
    let (txnId, _) ← nextU64 cur
    .ok (.txnAbort2pc txnId)
  | 8 =>
    let (baseEpoch, cur) ← nextU64 cur
    let (snapshot, _) ← nextBytes cur
    .ok (.rangeMeta baseEpoch snapshot)
  | 9 =>
    let (txnId, cur) ← nextU64 cur
    let (commit, _) ← nextU8 cur
    .ok (.txnDecision txnId (commit ≠ 0))
  | other => .error s!"unknown RaftCommand type: {other}"

end KayaDB.Raft
