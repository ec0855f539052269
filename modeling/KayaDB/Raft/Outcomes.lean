import KayaDB.Raft.Node

/-! What each operation of a node can come to, with the conditions under which
it does. Proofs about the node split on these outcomes. -/

namespace KayaDB.Raft.RaftNode

def candidacy (self : RaftNode) : RaftNode :=
  { self with
    currentTerm := self.currentTerm + 1
    role := .candidate
    votedFor := some self.config.id
    electionTicks := 0
    votesReceived := {self.config.id} }

section
variable (self : RaftNode)
include self

theorem startElection_cases :
    self.startElection = ({ self with electionTicks := 0 }, []) ∨
      (self.isSelfLearner = false ∧ self.isSelfVoter = true) ∧
        (self.candidacy.effectiveConfig.electionQuorum ≤ self.candidacy.votesReceived.card ∧
            self.startElection = self.candidacy.becomeLeader ∨
          self.startElection = (self.candidacy, self.config.peers.map fun peer => self.candidacy.envelope peer
            (.voteRequest ⟨self.currentTerm + 1, self.config.id, self.log.lastIndex, self.log.lastTerm⟩))) := by
  unfold startElection
  split
  next => exact Or.inl rfl
  next standing =>
    rw [Bool.or_eq_true, not_or, Bool.not_eq_true, Bool.not_eq_true, Bool.not_eq_false'] at standing
    refine Or.inr ⟨standing, ?_⟩
    dsimp only
    split
    next enough => exact Or.inl ⟨enough, rfl⟩
    next => exact Or.inr rfl

theorem tickTimers_cases :
    (self.config.electionTimeoutTicks ≤ self.electionTicks + 1 ∧
        self.tickTimers = startElection { self with electionTicks := self.electionTicks + 1 } ∨
      self.tickTimers = ({ self with electionTicks := self.electionTicks + 1 }, [])) ∨
    self.role = .leader ∧ self.tickTimers = sendAppendToAll { self with heartbeatTicks := 0 } ∨
    self.tickTimers = ({ self with heartbeatTicks := self.heartbeatTicks + 1 }, []) := by
  have election : (self.config.electionTimeoutTicks ≤ self.electionTicks + 1 ∧
        (if self.config.electionTimeoutTicks ≤ self.electionTicks + 1 then
          startElection { self with electionTicks := self.electionTicks + 1 }
        else ({ self with electionTicks := self.electionTicks + 1 }, [])) =
          startElection { self with electionTicks := self.electionTicks + 1 }) ∨
      (if self.config.electionTimeoutTicks ≤ self.electionTicks + 1 then
          startElection { self with electionTicks := self.electionTicks + 1 }
        else ({ self with electionTicks := self.electionTicks + 1 }, [])) =
          ({ self with electionTicks := self.electionTicks + 1 }, []) := by
    split
    next due => exact Or.inl ⟨due, rfl⟩
    next => exact Or.inr rfl
  unfold tickTimers
  split
  next => exact Or.inl election
  next => exact Or.inl election
  next role =>
    dsimp only
    split
    next => exact Or.inr (Or.inl ⟨role, rfl⟩)
    next => exact Or.inr (Or.inr rfl)

theorem observeTerm_cases (term : Nat) :
    self.currentTerm < term ∧ self.observeTerm term = self.stepDown term ∨
      term ≤ self.currentTerm ∧ self.observeTerm term = self := by
  unfold observeTerm
  split
  next later => exact Or.inl ⟨later, rfl⟩
  next known => exact Or.inr ⟨Nat.not_lt.mp known, rfl⟩

theorem onVoteRequest_cases (sender : NodeId) (request : VoteRequest) :
    self.onVoteRequest sender request =
        (self, [self.envelope sender (.voteResponse ⟨self.currentTerm, false⟩)]) ∨
      (self.currentTerm ≤ request.term ∧ self.logOk request = true ∧
        (self.votedFor = none ∨ self.votedFor = some sender)) ∧
      self.onVoteRequest sender request = ({ self with votedFor := some sender, electionTicks := 0 },
        [self.envelope sender (.voteResponse ⟨self.currentTerm, true⟩)]) := by
  unfold onVoteRequest
  split
  next => exact Or.inl rfl
  next =>
    dsimp only
    cases granted : self.grantsVote sender request with
    | false => exact Or.inl rfl
    | true =>
      rw [grantsVote, Bool.and_eq_true, Bool.and_eq_true, Bool.or_eq_true, beq_iff_eq, beq_iff_eq] at granted
      exact Or.inr ⟨⟨of_decide_eq_true granted.1.1, granted.1.2, granted.2⟩, rfl⟩

theorem onVoteResponse_cases (sender : NodeId) (response : VoteResponse) :
    self.onVoteResponse sender response = (self, []) ∨
      (self.role = .candidate ∧ self.currentTerm ≤ response.term ∧ response.voteGranted = true) ∧
        (self.effectiveConfig.electionQuorum ≤ (insert sender self.votesReceived).card ∧
            self.onVoteResponse sender response =
              becomeLeader { self with votesReceived := insert sender self.votesReceived } ∨
          self.onVoteResponse sender response =
            ({ self with votesReceived := insert sender self.votesReceived }, [])) := by
  unfold onVoteResponse
  split
  next => exact Or.inl rfl
  next counting =>
    rw [not_or, not_not, Nat.not_lt] at counting
    split
    next granted =>
      refine Or.inr ⟨⟨counting.1, counting.2, granted⟩, ?_⟩
      dsimp only
      split
      next enough => exact Or.inl ⟨enough, rfl⟩
      next => exact Or.inr rfl
    next => exact Or.inl rfl

theorem propose_cases (command : Bytes) :
    self.propose command = (self, none) ∨ self.role = .leader ∧ self.propose command =
      ((self.appendOwn command).tryAdvanceCommit.tryAdvanceApply.1, some (self.appendOwn command).log.lastIndex) := by
  unfold propose
  split
  next => exact Or.inl rfl
  next leading => exact Or.inr ⟨not_not.mp leading, rfl⟩

end

def queueRead (self : RaftNode) (requestId : UInt64) : RaftNode :=
  { self with
    currentAckSeq := self.currentAckSeq + 1
    pendingReads := self.pendingReads ++
      [⟨requestId, self.commitIndex, self.currentTerm, self.currentAckSeq + 1, {self.config.id}⟩] }

theorem proposeRead_cases (self : RaftNode) (requestId : UInt64) :
    self.proposeRead requestId = (self, none) ∨ self.role = .leader ∧
      self.proposeRead requestId = ((self.queueRead requestId).checkPendingReads, some self.commitIndex) := by
  unfold proposeRead
  split
  next => exact Or.inl rfl
  next leading => exact Or.inr ⟨not_not.mp leading, rfl⟩

def logJoint (self : RaftNode) (members : List ClusterMember) : RaftNode :=
  (appendOwn { self with pendingMembership := some members }
    (RaftCommand.configChange .joint members).encode).seedReplicationForMembers members

theorem proposeMembershipChange_cases (self : RaftNode) (newMembers : List ClusterMember) :
    self.proposeMembershipChange newMembers = (self, none) ∨ self.role = .leader ∧ ∃ index,
      self.proposeMembershipChange newMembers =
        ((self.logJoint (self.membershipProposal newMembers)).tryAdvanceCommit.tryAdvanceApply.1, some index) := by
  unfold proposeMembershipChange
  split
  next => exact Or.inl rfl
  next leading =>
    split
    next => exact Or.inl rfl
    next =>
      split
      next => exact Or.inl rfl
      next => exact Or.inr ⟨not_not.mp leading, _, rfl⟩

theorem transferLeadership_cases (self : RaftNode) (target : NodeId) :
    (self.transferLeadership target).1 = self ∨ (self.transferLeadership target).1 = self.stepDownKeepingVote := by
  unfold transferLeadership
  split
  next => exact Or.inl rfl
  next =>
    split
    next => exact Or.inl rfl
    next =>
      split
      next => exact Or.inl rfl
      next => exact Or.inr rfl

theorem broadcast_cases (self : RaftNode) :
    self.role = .leader ∧ self.broadcast = self.sendAppendToAll ∨ self.broadcast = (self, []) := by
  unfold broadcast
  split
  next leading => exact Or.inl ⟨leading, rfl⟩
  next => exact Or.inr rfl

end KayaDB.Raft.RaftNode
