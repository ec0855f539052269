import KayaDB.Raft.Frames

/-! Whole operations as compositions. What survives undisturbed changes and single turns
of the apply loop survives every operation of a node but the two messages that rewrite
its log; a node that does not lead only applies what its log already holds. -/

namespace KayaDB.Raft
open RaftNode

inductive Course (first : RaftNode) : RaftNode × List Envelope → Prop
  | still {result : RaftNode × List Envelope} : Modest first result → result.1.commitIndex = first.commitIndex →
      Course first result
  | applied {second : RaftNode} {sent : List Envelope} : Modest first (second, sent) →
      Course first (second.tryAdvanceApply.1, sent)

/-- An operation that may also stand for an election, follow a later term or
grant a vote. -/
def Turn (first : RaftNode) (result : RaftNode × List Envelope) : Prop :=
  ∃ second, Calm first second ∧ (result.1 = second ∨ Course second result)

namespace Course
variable (node : RaftNode)

theorem refl : Course node (node, []) := still (.refl node) rfl

theorem becomeLeader : Course node node.becomeLeader := applied ((Modest.announce node.assumeLeadership []).after rfl)

theorem sendAppendToAll : Course node node.sendAppendToAll := by
  refine still (.sendAppendToAll node) ?_
  obtain ⟨sequence, shape⟩ := sendAppendToAll_shape node
  rw [shape]

theorem broadcast : Course node node.broadcast := by
  rcases broadcast_cases node with ⟨-, same⟩ | same <;> rw [same]
  · exact sendAppendToAll node
  · exact refl node

theorem propose (command : Bytes) : Course node ((node.propose command).1, []) := by
  rcases propose_cases node command with same | ⟨-, same⟩ <;> rw [same]
  · exact refl node
  · exact applied ((Modest.appendOwn node command).precede (.tryAdvanceCommit _))

theorem proposeMembershipChange (members : List ClusterMember) :
    Course node ((node.proposeMembershipChange members).1, []) := by
  rcases proposeMembershipChange_cases node members with same | ⟨-, _, same⟩ <;> rw [same]
  · exact refl node
  · exact applied ((Modest.logJoint node _).precede (.tryAdvanceCommit _))

theorem transferLeadership (target : NodeId) : Course node ((node.transferLeadership target).1, []) := by
  rcases transferLeadership_cases node target with same | same <;> rw [same]
  · exact refl node
  · exact still (.stepDownKeepingVote node) rfl

end Course

namespace Turn
variable (node : RaftNode)

theorem of_calm {node : RaftNode} {result : RaftNode × List Envelope} (calm : Calm node result.1) : Turn node result :=
  ⟨_, calm, .inl rfl⟩

theorem startElection : Turn node node.startElection := by
  have standing : Calm node node.candidacy := .of_fields rfl rfl rfl rfl (List.Subset.refl _) rfl rfl
  rcases startElection_cases node with same | ⟨-, ⟨-, same⟩ | same⟩ <;> rw [same]
  · exact of_calm (.of_core rfl)
  · exact ⟨_, standing, .inr (.becomeLeader _)⟩
  · exact of_calm standing

theorem tickTimers : Turn node node.tickTimers := by
  have ticked : Calm node { node with electionTicks := node.electionTicks + 1 } := .of_core rfl
  rcases tickTimers_cases node with (⟨-, same⟩ | same) | ⟨-, same⟩ | same <;> rw [same]
  · obtain ⟨second, calm, next⟩ := startElection { node with electionTicks := node.electionTicks + 1 }
    exact ⟨second, ⟨ticked.toUndisturbed.trans calm.toUndisturbed, ticked.toReadsKept.trans calm.toReadsKept⟩, next⟩
  · exact of_calm ticked
  · have rested : Calm node { node with heartbeatTicks := 0 } := .of_core rfl
    exact ⟨_, rested, .inr (.sendAppendToAll _)⟩
  · exact of_calm (.of_core rfl)

theorem onVoteResponse (sender : NodeId) (response : VoteResponse) :
    Turn node (node.onVoteResponse sender response) := by
  have counted : Calm node { node with votesReceived := insert sender node.votesReceived } := .of_core rfl
  rcases onVoteResponse_cases node sender response with same | ⟨-, ⟨-, same⟩ | same⟩ <;> rw [same]
  · exact of_calm (.refl node)
  · exact ⟨_, counted, .inr (.becomeLeader _)⟩
  · exact of_calm counted

/-- Messages on entries and snapshots, and answers to entries, are left to the
caller. -/
theorem dispatch (sender : NodeId) {message : Message} (append : ∀ request, message ≠ .appendRequest request)
    (answer : ∀ response, message ≠ .appendResponse response)
    (install : ∀ request, message ≠ .installSnapshotRequest request) : Turn node (node.dispatch sender message) := by
  cases message with
  | voteRequest request => exact of_calm (.onVoteRequest node sender request)
  | voteResponse response => exact onVoteResponse node sender response
  | appendRequest request => exact absurd rfl (append request)
  | appendResponse response => exact absurd rfl (answer response)
  | installSnapshotRequest request => exact absurd rfl (install request)
  | installSnapshotResponse response => exact of_calm (Modest.onInstallSnapshotResponse node sender response).toCalm
  | configChangeRequest request => exact of_calm (.onConfigChangeRequest node sender request)
  | configChangeResponse response => exact of_calm (.refl node)

end Turn

structure Stable (Holds : RaftNode → Prop) : Prop where
  undisturbed : ∀ {first second}, Undisturbed first second → Holds first → Holds second
  applyNext : ∀ {node : RaftNode}, node.lastApplied < node.commitIndex → Holds node → Holds node.applyNext.1

namespace Stable
variable {Holds : RaftNode → Prop} {node other : RaftNode}

theorem of_fields (stable : Stable Holds) (held : Holds node) (log : other.log = node.log)
    (applied : other.lastApplied = node.lastApplied) (entries : other.appliedEntries = node.appliedEntries)
    (snapshot : other.pendingSnapshot = node.pendingSnapshot) (commit : other.commitIndex = node.commitIndex) :
    Holds other :=
  stable.undisturbed ⟨log ▸ .refl node.log, applied, entries, snapshot, commit ▸ Nat.le_max_left _ _⟩ held

theorem applyLoop (stable : Stable Holds) (fuel : Nat) :
    ∀ {node : RaftNode}, Holds node → Holds (RaftNode.applyLoop fuel node).1 := by
  induction fuel with
  | zero => exact id
  | succ fuel ih =>
    intro node held
    unfold RaftNode.applyLoop
    split
    next more => exact ih (stable.applyNext more held)
    next => exact held

section
variable (stable : Stable Holds) (held : Holds node)
include stable held

theorem tryAdvanceApply : Holds node.tryAdvanceApply.1 :=
  stable.undisturbed (.checkPendingReads _) (stable.applyLoop node.applyFuel held)

theorem course {result : RaftNode × List Envelope} (course : Course node result) : Holds result.1 := by
  cases course with
  | still modest _ => exact stable.undisturbed modest.toUndisturbed held
  | applied modest => exact stable.tryAdvanceApply (stable.undisturbed modest.toUndisturbed held)

theorem turn {result : RaftNode × List Envelope} (turn : Turn node result) : Holds result.1 := by
  obtain ⟨second, calm, next⟩ := turn
  have kept := stable.undisturbed calm.toUndisturbed held
  rcases next with same | course
  · exact same ▸ kept
  · exact stable.course kept course

theorem tick : Holds node.tick.1 :=
  stable.tryAdvanceApply (stable.turn held (.tickTimers node))

theorem dispatch (sender : NodeId) {message : Message}
    (append : ∀ request, message = .appendRequest request → Holds (node.onAppendRequest sender request).1)
    (install : ∀ request, message = .installSnapshotRequest request →
      Holds (node.onInstallSnapshotRequest sender request).1) : Holds (node.dispatch sender message).1 := by
  cases message with
  | appendRequest request => exact append request rfl
  | appendResponse response => exact stable.undisturbed (.onAppendResponse node sender response) held
  | installSnapshotRequest request => exact install request rfl
  | _ => exact stable.turn held (.dispatch node sender nofun nofun nofun)

theorem observeTerm (term : Nat) : Holds (node.observeTerm term) :=
  stable.undisturbed (Calm.observeTerm node term).toUndisturbed held

theorem proposeRead (requestId : UInt64) : Holds (node.proposeRead requestId).1 := by
  rcases proposeRead_cases node requestId with same | ⟨-, same⟩ <;> rw [same]
  · exact held
  · have queued : Holds (node.queueRead requestId) := stable.of_fields held rfl rfl rfl rfl rfl
    exact stable.undisturbed (.checkPendingReads _) queued

end

end Stable

theorem LogGrows.stable (log : MemLog) : Stable fun node => LogGrows log node.log :=
  ⟨fun kept grows => grows.trans kept.toLogGrows, fun _ grows => grows.trans (.applyNext _)⟩

theorem handle_floor (node : RaftNode) (env : Envelope) :
    (node.handle env).1.log.lastIncludedIndex = node.log.lastIncludedIndex ∨
      ∃ request, env.message = .installSnapshotRequest request ∧
        (node.handle env).1.log.lastIncludedIndex = request.lastIncludedIndex := by
  have floor : Stable fun other => other.log.lastIncludedIndex = node.log.lastIncludedIndex :=
    ⟨fun kept same => kept.floor.trans same, fun _ same => (LogGrows.applyNext _).floor.trans same⟩
  have observed := floor.observeTerm rfl env.message.term
  unfold RaftNode.handle thenApply
  generalize node.observeTerm env.message.term = self at *
  by_cases shipped : ∃ request, env.message = .installSnapshotRequest request
  · obtain ⟨request, message⟩ := shipped
    rw [message, ((LogGrows.stable _).tryAdvanceApply (.refl _)).floor]
    unfold RaftNode.dispatch RaftNode.onInstallSnapshotRequest
    dsimp only
    split
    next => exact Or.inl observed
    next =>
      have stepped : (if self.currentTerm < request.term then self.stepDown request.term else self).log = self.log := by
        split <;> rfl
      rw [stepped]
      rcases self.log.installSnapshot_cases request.lastIncludedIndex request.lastIncludedTerm request.data
        with kept | moved
      · exact Or.inl (kept.trans observed)
      · exact Or.inr ⟨request, rfl, moved⟩
  · refine Or.inl (floor.tryAdvanceApply (floor.dispatch observed env.sender (fun request _ => ?_)
      fun request message => absurd ⟨request, message⟩ shipped))
    unfold RaftNode.onAppendRequest
    dsimp only
    split
    next => exact observed
    next =>
      split
      next => exact observed
      next => exact (mergeEntries_lastIncludedIndex _ _ _).trans observed

/-- A node that does not lead, with the same log and the same progress. -/
structure Passive (first second : RaftNode) : Prop where
  log : second.log = first.log
  commitIndex : second.commitIndex = first.commitIndex
  lastApplied : second.lastApplied = first.lastApplied
  appliedEntries : second.appliedEntries = first.appliedEntries
  role : second.role ≠ .leader

namespace Passive

variable {node first second : RaftNode}

theorem refl (role : node.role ≠ .leader) : Passive node node := ⟨rfl, rfl, rfl, rfl, role⟩

theorem leaveIfRemoved (passive : Passive first second) : Passive first second.leaveIfRemoved := by
  unfold RaftNode.leaveIfRemoved
  split
  · exact ⟨passive.log, passive.commitIndex, passive.lastApplied, passive.appliedEntries, nofun⟩
  · exact passive

theorem seeded {third : RaftNode} (passive : Passive first second) (seeded : Seeded second third) :
    Passive first third := by
  obtain ⟨next, matched, same⟩ := seeded.shape
  rw [same]
  exact ⟨passive.log, passive.commitIndex, passive.lastApplied, passive.appliedEntries, passive.role⟩

theorem settleConfig (role : node.role ≠ .leader) (members : List ClusterMember) :
    Passive node (node.settleConfig members) := by
  have adopted : Passive node { node.adoptConfig (.stable (.fromVoters (ClusterMember.voterIds members))) members with
      pendingMembership := none } := ⟨rfl, rfl, rfl, rfl, role⟩
  exact adopted.seeded (seeded_members _ members)

theorem applyJoint (role : node.role ≠ .leader) (members : List ClusterMember) :
    Passive node (node.applyJoint members).1 := by
  have adopted : Passive node (node.adoptConfig (.joint node.effectiveConfig.stableConfig
      (.fromVoters (ClusterMember.voterIds members))) members) := ⟨rfl, rfl, rfl, rfl, role⟩
  have joined := adopted.seeded (seeded_members _ members)
  unfold RaftNode.applyJoint
  dsimp only
  split
  next leading _ => exact absurd leading joined.role
  next => exact joined

theorem applyEntry (role : node.role ≠ .leader) (entry : LogEntry) : Passive node (node.applyEntry entry).1 := by
  unfold RaftNode.applyEntry
  split
  next phase members _ =>
    cases phase with
    | joint => exact (applyJoint role members).leaveIfRemoved
    | final => exact (settleConfig role members).leaveIfRemoved
  next => exact refl role

end Passive
end KayaDB.Raft
