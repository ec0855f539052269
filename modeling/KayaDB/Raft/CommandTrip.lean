import KayaDB.Library.Readers
import KayaDB.Raft.Command

/-! Every command whose lengths fit in 32 bits is decoded from its own bytes. A
member takes more than eight bytes, so no member list in the present form is taken
for one of the older form that has only the ids. -/

namespace KayaDB.Raft
open Readers

theorem fromLeBytes_take {width value : Nat} (small : value < 256 ^ width) (rest : Bytes) :
    fromLeBytes ((toLeBytes width value ++ rest).take width) = value := by
  rw [List.take_left' (length_toLeBytes width value), fromLeBytes_toLeBytes, Nat.mod_eq_of_lt small]

theorem drop_toLeBytes (width value : Nat) (rest : Bytes) : (toLeBytes width value ++ rest).drop width = rest :=
  List.drop_left' (length_toLeBytes width value)

theorem nextU8_bind (byte : UInt8) (rest : Bytes) (further : UInt8 × Bytes → Except String α) :
    (nextU8 (byte :: rest) >>= further) = further (byte, rest) := rfl

theorem reads_word {width value : Nat} (small : value < 256 ^ width) (reason : Bytes → String) (read : Nat → α) :
    Reads (fun cur => if cur.length < width then .error (reason cur)
      else .ok (read (fromLeBytes (cur.take width)), cur.drop width)) (toLeBytes width value) (read value) := by
  intro rest
  have room : ¬ (toLeBytes width value ++ rest).length < width := by simp [length_toLeBytes]
  dsimp only
  rw [if_neg room, fromLeBytes_take small, drop_toLeBytes]

theorem reads_u64 (value : UInt64) : Reads nextU64 (u64Bytes value) value := by
  have read := @reads_word _ 8 _ value.toNat_lt (fun _ => "unexpected EOF reading u64") UInt64.ofNat
  rw [UInt64.ofNat_toNat] at read
  exact read

theorem reads_u32 {value : Nat} (small : value < 2 ^ 32) : Reads nextU32 (u32Bytes value) value :=
  reads_word small _ id

theorem reads_bytes {bytes : Bytes} (fits : bytes.length < 2 ^ 32) : Reads nextBytes (pushBytes bytes) bytes := by
  intro rest
  rw [nextBytes, pushBytes, List.append_assoc, (reads_u32 fits).bind_eq]
  simp

theorem reads_string {text : String} (fits : text.utf8ByteSize < 2 ^ 32) : Reads nextString (pushString text) text := by
  intro rest
  have small : text.toByteArray.data.toList.length < 2 ^ 32 := fits
  have valid : String.fromUTF8? ⟨text.toByteArray.data.toList.toArray⟩ = some text := dif_pos text.isValidUTF8
  rw [nextString, pushString, (reads_bytes small).bind_eq]
  dsimp only
  rw [valid]

theorem reads_many {next : Decoder α} {push : α → Bytes} {values : List α}
    (reads : ∀ value ∈ values, Reads next (push value) value) :
    Reads (nextMany next values.length) (values.flatMap push) values :=
  reads_flatMap (fun _ => rfl) (fun _ _ => rfl) reads

structure Mutation.Fits (mutation : Mutation) : Prop where
  key : mutation.1.length < 2 ^ 32
  value : ∀ value ∈ mutation.2, value.length < 2 ^ 32

theorem reads_mutation (label : String) {mutation : Mutation} (fits : Mutation.Fits mutation) :
    Reads (nextMutation label) (pushMutation mutation) mutation := by
  intro rest
  obtain ⟨key, value⟩ := mutation
  rw [nextMutation, pushMutation, List.append_assoc, (reads_bytes fits.key).bind_eq]
  cases value with
  | none => rfl
  | some value =>
    simp only [List.cons_append, nextU8_bind, (by decide : ¬ (1 : UInt8) = 0), reduceIte,
      (reads_bytes (fits.value value rfl)).bind_eq]

theorem reads_mutations (label : String) {mutations : List Mutation} (few : mutations.length < 2 ^ 32)
    (fits : ∀ mutation ∈ mutations, Mutation.Fits mutation) :
    Reads (nextMutations label) (pushMutations mutations) mutations := by
  intro rest
  rw [nextMutations, pushMutations, List.append_assoc, (reads_u32 few).bind_eq]
  exact reads_many (fun mutation inside => reads_mutation label (fits mutation inside)) rest

structure ClusterMember.Fits (member : ClusterMember) : Prop where
  raftAddr : member.raftAddr.utf8ByteSize < 2 ^ 32
  clientAddr : member.clientAddr.utf8ByteSize < 2 ^ 32

theorem reads_member {member : ClusterMember} (fits : member.Fits) :
    Reads (nextMember true) (pushMember member) member := by
  intro rest
  simp only [nextMember, pushMember, List.append_assoc]
  rw [(reads_u64 _).bind_eq, (reads_string fits.raftAddr).bind_eq, (reads_string fits.clientAddr).bind_eq]
  obtain ⟨id, raftAddr, clientAddr, isLearner⟩ := member
  cases isLearner <;> rfl

theorem length_members (members : List ClusterMember) : 9 * members.length ≤ (members.flatMap pushMember).length := by
  induction members with
  | nil => exact le_rfl
  | cons member members ih =>
    have own : 9 ≤ (pushMember member).length := by
      simp only [pushMember, List.length_append, u64Bytes, length_toLeBytes, List.length_singleton]
      omega
    rw [List.flatMap_cons, List.length_append, List.length_cons]
    omega

theorem decodeConfigChange_encode (phase : ConfigChangePhase) {members : List ClusterMember}
    (few : members.length < 2 ^ 32) (fits : ∀ member ∈ members, member.Fits) :
    decodeConfigChange (phase.toByte :: (u32Bytes members.length ++ members.flatMap pushMember)) =
      .ok (.configChange phase members) := by
  have listed : decodeMembersWithAddrs (members.flatMap pushMember) members.length true = .ok members := by
    rw [decodeMembersWithAddrs, (reads_many fun member inside => reads_member (fits member inside)).bind_last]
    rfl
  cases phase with
  | joint | final =>
    simp only [decodeConfigChange, nextU8_bind, ConfigChangePhase.toByte, reduceIte, (by decide : ¬ (2 : UInt8) = 1),
      ok_bind, (reads_u32 few).bind_eq]
    split
    next short =>
      have empty : members = [] := List.length_eq_zero_iff.mp (by have := length_members members; omega)
      cases empty
      rfl
    next => rw [listed]

theorem decode_rangeMeta (baseEpoch : UInt64) {snapshot : Bytes} (fits : snapshot.length < 2 ^ 32) :
    RaftCommand.decode (RaftCommand.rangeMeta baseEpoch snapshot).encode = .ok (.rangeMeta baseEpoch snapshot) := by
  simp only [RaftCommand.encode, RaftCommand.decode, nextU8_bind, (reads_u64 baseEpoch).bind_eq,
    (reads_bytes fits).bind_last]

def RaftCommand.Fits : RaftCommand → Prop
  | .put key value => key.length < 2 ^ 32 ∧ value.length < 2 ^ 32
  | .delete key => key.length < 2 ^ 32
  | .configChange _ members => members.length < 2 ^ 32 ∧ ∀ member ∈ members, member.Fits
  | .txnCommit _ mutations | .txnPrepare _ _ mutations =>
    mutations.length < 2 ^ 32 ∧ ∀ mutation ∈ mutations, Mutation.Fits mutation
  | .rangeMeta _ snapshot => snapshot.length < 2 ^ 32
  | .txnCommit2pc _ | .txnAbort2pc _ | .txnDecision _ _ => True

theorem decode_encode_command (command : RaftCommand) (fits : command.Fits) :
    RaftCommand.decode command.encode = .ok command := by
  cases command with
  | put key value =>
    simp only [RaftCommand.encode, RaftCommand.decode, nextU8_bind, (reads_bytes fits.1).bind_eq,
      (reads_bytes fits.2).bind_last]
  | delete key =>
    simp only [RaftCommand.encode, RaftCommand.decode, nextU8_bind, (reads_bytes fits).bind_last]
  | configChange phase members =>
    simp only [RaftCommand.encode, RaftCommand.decode, nextU8_bind, decodeConfigChange_encode phase fits.1 fits.2]
  | txnCommit txnId mutations =>
    simp only [RaftCommand.encode, RaftCommand.decode, nextU8_bind, (reads_u64 txnId).bind_eq,
      (reads_mutations _ fits.1 fits.2).bind_last]
  | txnPrepare txnId coordinatorGroup mutations =>
    simp only [RaftCommand.encode, RaftCommand.decode, nextU8_bind, List.append_assoc, (reads_u64 txnId).bind_eq,
      (reads_u64 coordinatorGroup).bind_eq, (reads_mutations _ fits.1 fits.2).bind_last]
  | txnCommit2pc txnId | txnAbort2pc txnId =>
    simp only [RaftCommand.encode, RaftCommand.decode, nextU8_bind, (reads_u64 txnId).bind_last]
  | rangeMeta baseEpoch snapshot => exact decode_rangeMeta baseEpoch fits
  | txnDecision txnId commit =>
    simp only [RaftCommand.encode, RaftCommand.decode, nextU8_bind, (reads_u64 txnId).bind_eq]
    cases commit <;> rfl

theorem decode_encode_learner :
    RaftCommand.decode (RaftCommand.configChange .joint [⟨⟨1⟩, "", "", false⟩, ⟨⟨2⟩, "r", "c", true⟩]).encode =
      .ok (.configChange .joint [⟨⟨1⟩, "", "", false⟩, ⟨⟨2⟩, "r", "c", true⟩]) := by
  apply decode_encode_command
  refine ⟨by decide, ?_⟩
  simp only [List.mem_cons, List.not_mem_nil, or_false]
  rintro member (rfl | rfl) <;> exact ⟨by decide, by decide⟩

end KayaDB.Raft
