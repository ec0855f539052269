import KayaDB.Raft.ApplySteps

/-! The apply loop reaches the commit index. Applying a joint configuration may
append one entry and commit it, but only once, since it consumes the pending
membership; so no commit index ever passes a bound known in advance. -/

namespace KayaDB.Raft
open RaftNode

/-- No index beyond this is committed while committed entries are applied. -/
def commitBound (node : RaftNode) : Nat :=
  max node.commitIndex (node.log.lastIndex + if node.pendingMembership.isSome then 1 else 0)

section
variable (node : RaftNode)
include node

theorem commitBound_seed (members : List ClusterMember) :
    commitBound (node.seedReplicationForMembers members) = commitBound node := by
  obtain ⟨next, matched, same⟩ := (seeded_members node members).shape
  rw [same]
  rfl

theorem commitBound_leaveIfRemoved : commitBound node.leaveIfRemoved = commitBound node := by
  unfold RaftNode.leaveIfRemoved
  split <;> rfl

theorem commitBound_forget : commitBound { node with pendingMembership := none } ≤ commitBound node := by
  unfold commitBound
  simp only [Option.isSome_none, Bool.false_eq_true, if_false]
  split <;> omega

theorem tryAdvanceCommit_pendingMembership : node.tryAdvanceCommit.pendingMembership = node.pendingMembership := by
  unfold RaftNode.tryAdvanceCommit
  split <;> rfl

theorem tryAdvanceCommit_log : node.tryAdvanceCommit.log = node.log := by
  unfold RaftNode.tryAdvanceCommit
  split <;> rfl

theorem commitBound_logFinal (command : Bytes) (pending : node.pendingMembership.isSome) :
    commitBound (RaftNode.appendOwn { node with pendingMembership := none } command).sendAppendToAll.1.tryAdvanceCommit
      ≤ commitBound node := by
  obtain ⟨sequence, same⟩ := sendAppendToAll_shape (RaftNode.appendOwn { node with pendingMembership := none } command)
  rw [same]
  have commit := (Modest.tryAdvanceCommit { RaftNode.appendOwn { node with pendingMembership := none } command with
    lastSentAckSeq := sequence }).commit
  rw [tryAdvanceCommit_log] at commit
  unfold commitBound
  rw [tryAdvanceCommit_pendingMembership, tryAdvanceCommit_log]
  dsimp only [RaftNode.appendOwn] at commit ⊢
  rw [MemLog.lastIndex_append] at commit ⊢
  simp only [Option.isSome_none, Bool.false_eq_true, if_false, Nat.add_zero, if_pos pending]
  omega

theorem commitBound_applyJoint (members : List ClusterMember) :
    commitBound (node.applyJoint members).1 ≤ commitBound node := by
  unfold RaftNode.applyJoint
  have joined := commitBound_seed (node.adoptConfig (.joint node.effectiveConfig.stableConfig
    (.fromVoters (ClusterMember.voterIds members))) members) members
  have adopted : commitBound (node.adoptConfig (.joint node.effectiveConfig.stableConfig
    (.fromVoters (ClusterMember.voterIds members))) members) = commitBound node := rfl
  rw [adopted] at joined
  dsimp only
  generalize (node.adoptConfig (.joint node.effectiveConfig.stableConfig
    (.fromVoters (ClusterMember.voterIds members))) members).seedReplicationForMembers members = self at *
  split
  next final _ pending => exact (commitBound_logFinal self _ (by rw [pending]; rfl)).trans joined.le
  next => exact joined.le

theorem commitBound_applyEntry (entry : LogEntry) : commitBound (node.applyEntry entry).1 ≤ commitBound node := by
  unfold RaftNode.applyEntry
  split
  next phase members _ =>
    cases phase with
    | joint =>
      rw [RaftNode.applyConfigCommand, commitBound_leaveIfRemoved]
      exact commitBound_applyJoint node members
    | final =>
      rw [RaftNode.applyConfigCommand, commitBound_leaveIfRemoved, RaftNode.settleConfig, commitBound_seed]
      exact commitBound_forget _
  next => exact Nat.le_refl _

theorem applyNext_progress : node.applyNext.1.lastApplied = node.lastApplied + 1 ∧
    commitBound node.applyNext.1 ≤ commitBound node := by
  unfold RaftNode.applyNext
  dsimp only
  split
  next => exact ⟨rfl, Nat.le_refl _⟩
  next entry _ =>
    exact ⟨(Modest.applyEntry { node with lastApplied := node.lastApplied + 1 } entry).lastApplied,
      commitBound_applyEntry { node with lastApplied := node.lastApplied + 1 } entry⟩

end

theorem applyLoop_complete (fuel : Nat) : ∀ node : RaftNode, commitBound node ≤ node.lastApplied + fuel →
    (applyLoop fuel node).1.commitIndex ≤ (applyLoop fuel node).1.lastApplied := by
  induction fuel with
  | zero =>
    intro node enough
    exact (Nat.le_max_left _ _).trans enough
  | succ fuel ih =>
    intro node enough
    unfold applyLoop
    split
    next =>
      obtain ⟨applied, bound⟩ := applyNext_progress node
      exact ih node.applyNext.1 (by omega)
    next done => exact Nat.not_lt.mp done

theorem tryAdvanceApply_complete (node : RaftNode) :
    node.tryAdvanceApply.1.commitIndex ≤ node.tryAdvanceApply.1.lastApplied := by
  have complete := applyLoop_complete node.applyFuel node (by
    unfold commitBound RaftNode.applyFuel
    split <;> omega)
  have same := checkPendingReads_same (applyLoop node.applyFuel node).1
  unfold RaftNode.tryAdvanceApply
  dsimp only
  rw [same.commitIndex, same.lastApplied]
  exact complete

end KayaDB.Raft
