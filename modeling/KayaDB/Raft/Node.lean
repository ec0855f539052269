import KayaDB.Raft.Config
import KayaDB.Raft.Message
import Mathlib.Data.List.AList

/-! A complete Raft node without I/O. Each operation takes the node and returns
the updated node with the envelopes it emits; the caller dispatches them. -/

namespace KayaDB.Raft

structure HardState where
  currentTerm : Nat
  votedFor : Option NodeId
  lastIncludedIndex : Nat
  lastIncludedTerm : Nat
deriving DecidableEq, Repr

structure PersistedRaftState where
  hardState : HardState
  log : MemLog
deriving DecidableEq, Repr

structure RaftConfig where
  id : NodeId
  peers : List NodeId
  electionTimeoutTicks : Nat
  heartbeatIntervalTicks : Nat
deriving DecidableEq, Repr

inductive Role where
  | follower
  | candidate
  | leader
deriving DecidableEq, Repr

structure PendingRead where
  requestId : UInt64
  readIndex : Nat
  term : Nat
  ackSeq : Nat
  acks : Finset NodeId
deriving DecidableEq

/-- Per-peer counters. Lookups see the latest insertion; only the order of
emitted envelopes depends on the order of the keys. -/
abbrev PeerMap := AList (fun _ : NodeId => Nat)

structure RaftNode where
  config : RaftConfig
  currentTerm : Nat
  votedFor : Option NodeId
  log : MemLog
  commitIndex : Nat
  lastApplied : Nat
  role : Role
  leaderId : Option NodeId
  electionTicks : Nat
  votesReceived : Finset NodeId
  nextIndex : PeerMap
  matchIndex : PeerMap
  heartbeatTicks : Nat
  appliedEntries : List (Nat × Nat × Bytes)
  pendingReads : List PendingRead
  currentAckSeq : Nat
  lastSentAckSeq : PeerMap
  readyReads : List UInt64
  pendingSnapshot : Option (Nat × Nat × Bytes)
  effectiveConfig : EffectiveConfig
  currentMembership : List ClusterMember
  pendingMembership : Option (List ClusterMember)

def membersFromVoterIds (voters : SortedSet NodeId) : List ClusterMember :=
  voters.elems.map fun id => ⟨id, "", "", false⟩

namespace RaftNode
variable (self : RaftNode)

def recover (config : RaftConfig) (state : PersistedRaftState) : RaftNode :=
  let voters := (SortedSet.ofList config.peers).insert config.id
  { config
    currentTerm := state.hardState.currentTerm
    votedFor := state.hardState.votedFor
    log := state.log
    commitIndex := 0
    lastApplied := 0
    role := .follower
    leaderId := none
    electionTicks := 0
    votesReceived := ∅
    nextIndex := ∅
    matchIndex := ∅
    heartbeatTicks := 0
    appliedEntries := []
    pendingReads := []
    currentAckSeq := 0
    lastSentAckSeq := ∅
    readyReads := []
    pendingSnapshot := none
    effectiveConfig := .stable ⟨voters⟩
    currentMembership := membersFromVoterIds voters
    pendingMembership := none }

/-- A fresh node is one recovered from an empty store. -/
def new (config : RaftConfig) : RaftNode := recover config ⟨⟨0, none, 0, 0⟩, .new⟩

def persistView : PersistedRaftState :=
  { hardState :=
      { currentTerm := self.currentTerm
        votedFor := self.votedFor
        lastIncludedIndex := self.log.lastIncludedIndex
        lastIncludedTerm := self.log.lastIncludedTerm }
    log := self.log }

def setRecoveredApplyFloor (lastApplied : Nat) : RaftNode :=
  { self with lastApplied := lastApplied, commitIndex := lastApplied }

def isLeader : Bool := self.role == .leader

def quorum (self : RaftNode) : Nat := self.effectiveConfig.stableConfig.quorum

def matchOf (peer : NodeId) : Nat := (self.matchIndex.lookup peer).getD 0

/-- The commit index after looking at one more index. Entries of earlier terms
are skipped; they are committed along with a later entry of the current term. -/
def considerCommit (commit index : Nat) : Nat :=
  if self.log.termAt index ≠ some self.currentTerm then commit
  else if self.effectiveConfig.commitQuorumMet (fun id => decide (index ≤ self.matchOf id)) then index
  else commit

def tryAdvanceCommit : RaftNode :=
  if self.role ≠ .leader then self
  else
    let last := self.log.lastIndex
    { self with
      commitIndex :=
        (List.range' (self.commitIndex + 1) (last - self.commitIndex)).foldl self.considerCommit self.commitIndex }

def learnerFlag (members : List ClusterMember) : Option Bool :=
  (members.find? fun member => member.id = self.config.id).map ClusterMember.isLearner

def isSelfLearner : Bool :=
  match self.pendingMembership.bind self.learnerFlag with
  | some flag => flag
  | none => (self.learnerFlag self.currentMembership).getD false

def isSelfVoter : Bool := decide (self.config.id ∈ self.effectiveConfig.allVoters)

def syncPeersFromEffectiveConfig : RaftNode :=
  { self with config.peers := self.effectiveConfig.stableConfig.peersOf self.config.id }

def orInsert (map : PeerMap) (peer : NodeId) (value : Nat) : PeerMap :=
  if (map.lookup peer).isSome then map else map.insert peer value

def insertAll (map : PeerMap) (peers : List NodeId) (value : Nat) : PeerMap :=
  peers.foldl (fun map peer => map.insert peer value) map

def seedReplicationForMembers (members : List ClusterMember) : RaftNode :=
  let last := self.log.lastIndex
  members.foldl (fun self member =>
    if member.id = self.config.id then self
    else { self with
      nextIndex := orInsert self.nextIndex member.id (last + 1)
      matchIndex := orInsert self.matchIndex member.id 0 }) self

def stepDown (newTerm : Nat) : RaftNode :=
  { self with
    currentTerm := newTerm
    votedFor := none
    role := .follower
    leaderId := none
    electionTicks := 0
    votesReceived := ∅
    pendingReads := [] }

def stepDownKeepingVote : RaftNode :=
  { self with
    role := .follower
    leaderId := none
    electionTicks := 0
    votesReceived := ∅
    pendingReads := [] }

/-- Append an entry of the current term to the own log and account for it. -/
def appendOwn (command : Bytes) : RaftNode :=
  let log := self.log.append ⟨self.currentTerm, command⟩
  { self with
    log
    matchIndex := self.matchIndex.insert self.config.id log.lastIndex
    nextIndex := self.nextIndex.insert self.config.id (log.lastIndex + 1) }

def envelope (receiver : NodeId) (message : Message) : Envelope :=
  .new self.config.id receiver message

/-- The message for `peer`: the snapshot when the peer is behind it, otherwise
everything the own log has from the peer's next index on. -/
def appendMessage (peer : NodeId) : Message :=
  let next := (self.nextIndex.lookup peer).getD (self.log.lastIndex + 1)
  let snapIdx := self.log.lastIncludedIndex
  let append : Message := .appendRequest
    { term := self.currentTerm
      leaderId := self.config.id
      prevLogIndex := next - 1
      prevLogTerm := (self.log.termAt (next - 1)).getD 0
      entries := self.log.entriesFrom next
      leaderCommit := self.commitIndex }
  if next ≤ snapIdx ∧ 0 < snapIdx then
    match self.log.snapshotView with
    | some (index, term, data) => .installSnapshotRequest
        { term := self.currentTerm
          leaderId := self.config.id
          lastIncludedIndex := index
          lastIncludedTerm := term
          data }
    | none => append
  else append

def sendAppendTo (peer : NodeId) : RaftNode × List Envelope :=
  ({ self with lastSentAckSeq := self.lastSentAckSeq.insert peer self.currentAckSeq },
    [self.envelope peer (self.appendMessage peer)])

def appendTargets : List NodeId :=
  self.nextIndex.keys.foldl (fun targets id =>
    if id ≠ self.config.id ∧ id ∉ targets then targets ++ [id] else targets) self.config.peers

def sendAppendToAll : RaftNode × List Envelope :=
  self.appendTargets.foldl (fun (self, out) peer =>
    let (self, sent) := self.sendAppendTo peer
    (self, out ++ sent)) (self, [])

def checkPendingReads : RaftNode :=
  if self.role ≠ .leader then self
  else
    let ready := fun read : PendingRead => decide (self.quorum ≤ read.acks.card ∧ read.readIndex ≤ self.lastApplied)
    { self with
      pendingReads := self.pendingReads.filter (fun read => !ready read)
      readyReads := self.readyReads ++ (self.pendingReads.filter ready).map PendingRead.requestId }

def adoptConfig (config : EffectiveConfig) (members : List ClusterMember) : RaftNode :=
  syncPeersFromEffectiveConfig { self with effectiveConfig := config, currentMembership := members }

/-- The current voters become the outgoing side; a leader that proposed the
change now logs the final configuration. -/
def applyJoint (members : List ClusterMember) : RaftNode × List Envelope :=
  let outgoing := self.effectiveConfig.stableConfig
  let incoming := ClusterConfiguration.fromVoters (ClusterMember.voterIds members)
  let self := (self.adoptConfig (.joint outgoing incoming) members).seedReplicationForMembers members
  match self.role, self.pendingMembership with
  | .leader, some finalMembers =>
    let self := { self with pendingMembership := none }
    let self := self.appendOwn (RaftCommand.configChange .final finalMembers).encode
    let (self, out) := self.sendAppendToAll
    (self.tryAdvanceCommit, out)
  | _, _ => (self, [])

def settleConfig (members : List ClusterMember) : RaftNode :=
  let incoming := ClusterConfiguration.fromVoters (ClusterMember.voterIds members)
  let self := { self.adoptConfig (.stable incoming) members with pendingMembership := none }
  self.seedReplicationForMembers members

def leaveIfRemoved : RaftNode :=
  if !self.isSelfVoter && self.role != .follower then self.stepDownKeepingVote else self

def applyConfigCommand (phase : ConfigChangePhase) (members : List ClusterMember) :
    RaftNode × List Envelope :=
  match phase with
  | .joint => ((self.applyJoint members).1.leaveIfRemoved, (self.applyJoint members).2)
  | .final => ((self.settleConfig members).leaveIfRemoved, [])

/-- Carry out a committed entry. Only configuration changes concern the node
itself; whatever does not decode to one is left to the state machine. -/
def applyEntry (entry : LogEntry) : RaftNode × List Envelope :=
  match RaftCommand.decode entry.command with
  | .ok (.configChange phase members) => self.applyConfigCommand phase members
  | _ => (self, [])

/-- One turn of the apply loop: the next index is applied, and an index the log
does not store (it lies in the snapshot) is passed over. -/
def applyNext : RaftNode × List Envelope :=
  let self := { self with lastApplied := self.lastApplied + 1 }
  match self.log.get self.lastApplied with
  | none => (self, [])
  | some entry =>
    let applied := self.applyEntry entry
    ({ applied.1 with
      appliedEntries := applied.1.appliedEntries ++ [(self.lastApplied, entry.term, entry.command)] }, applied.2)

def applyLoop : Nat → RaftNode → RaftNode × List Envelope
  | 0, self => (self, [])
  | fuel + 1, self =>
    if self.lastApplied < self.commitIndex then
      let (self, out) := self.applyNext
      let (self, rest) := applyLoop fuel self
      (self, out ++ rest)
    else (self, [])

/-- Applying a joint configuration may append and commit one further entry, so
the loop never runs past one index beyond the present log. -/
def applyFuel : Nat := max self.commitIndex (self.log.lastIndex + 1) - self.lastApplied

def tryAdvanceApply : RaftNode × List Envelope :=
  let (self, out) := applyLoop self.applyFuel self
  (self.checkPendingReads, out)

/-- Leadership with fresh replication counters for the peers; counters of
other nodes are left as they are. -/
def assumeLeadership : RaftNode :=
  let last := self.log.lastIndex
  { self with
    role := .leader
    leaderId := some self.config.id
    heartbeatTicks := 0
    nextIndex := (insertAll self.nextIndex self.config.peers (last + 1)).insert self.config.id (last + 1)
    matchIndex := (insertAll self.matchIndex self.config.peers 0).insert self.config.id last }

def becomeLeader : RaftNode × List Envelope :=
  let sent := (self.assumeLeadership.appendOwn []).sendAppendToAll
  (sent.1.tryAdvanceCommit.tryAdvanceApply.1, sent.2)

def startElection : RaftNode × List Envelope :=
  if self.isSelfLearner || !self.isSelfVoter then ({ self with electionTicks := 0 }, [])
  else
    let self := { self with
      currentTerm := self.currentTerm + 1
      role := .candidate
      votedFor := some self.config.id
      electionTicks := 0
      votesReceived := {self.config.id} }
    if self.effectiveConfig.electionQuorum ≤ self.votesReceived.card then self.becomeLeader
    else
      let request : VoteRequest :=
        { term := self.currentTerm
          candidateId := self.config.id
          lastLogIndex := self.log.lastIndex
          lastLogTerm := self.log.lastTerm }
      (self, self.config.peers.map fun peer => self.envelope peer (.voteRequest request))

/-- Apply what a handler has committed and send along what that gives rise to. -/
def thenApply (result : RaftNode × List Envelope) : RaftNode × List Envelope :=
  (result.1.tryAdvanceApply.1, result.2 ++ result.1.tryAdvanceApply.2)

def tickTimers : RaftNode × List Envelope :=
  match self.role with
  | .follower | .candidate =>
    let self := { self with electionTicks := self.electionTicks + 1 }
    if self.config.electionTimeoutTicks ≤ self.electionTicks then self.startElection else (self, [])
  | .leader =>
    let self := { self with heartbeatTicks := self.heartbeatTicks + 1 }
    if self.config.heartbeatIntervalTicks ≤ self.heartbeatTicks then
      { self with heartbeatTicks := 0 }.sendAppendToAll
    else (self, [])

def tick : RaftNode × List Envelope := thenApply self.tickTimers

/-- Log terms are compared first, then log lengths. -/
def logOk (request : VoteRequest) : Bool :=
  decide (self.log.lastTerm < request.lastLogTerm ∨
    (self.log.lastTerm = request.lastLogTerm ∧ self.log.lastIndex ≤ request.lastLogIndex))

def grantsVote (sender : NodeId) (request : VoteRequest) : Bool :=
  decide (self.currentTerm ≤ request.term) && self.logOk request &&
    (self.votedFor == none || self.votedFor == some sender)

def onVoteRequest (sender : NodeId) (request : VoteRequest) : RaftNode × List Envelope :=
  if self.isSelfLearner then
    (self, [self.envelope sender (.voteResponse ⟨self.currentTerm, false⟩)])
  else
    let granted := self.grantsVote sender request
    let self := if granted then { self with votedFor := some sender, electionTicks := 0 } else self
    (self, [self.envelope sender (.voteResponse ⟨self.currentTerm, granted⟩)])

def onVoteResponse (sender : NodeId) (response : VoteResponse) : RaftNode × List Envelope :=
  if self.role ≠ .candidate ∨ response.term < self.currentTerm then (self, [])
  else if response.voteGranted then
    let self := { self with votesReceived := insert sender self.votesReceived }
    if self.effectiveConfig.electionQuorum ≤ self.votesReceived.card then self.becomeLeader else (self, [])
  else (self, [])

/-- Entries are matched by term only: a conflicting one cuts the log, a missing
one is appended, and one whose term agrees is skipped. -/
def mergeEntry (log : MemLog) (index : Nat) (entry : LogEntry) : MemLog :=
  match log.termAt index with
  | some existingTerm => if existingTerm ≠ entry.term then (log.truncateFrom index).append entry else log
  | none => log.append entry

def mergeEntries (log : MemLog) (prevLogIndex : Nat) : List LogEntry → MemLog
  | [] => log
  | entry :: rest => mergeEntries (mergeEntry log (prevLogIndex + 1) entry) (prevLogIndex + 1) rest

def prevOk (log : MemLog) (request : AppendRequest) : Bool :=
  request.prevLogIndex == 0 || log.termAt request.prevLogIndex == some request.prevLogTerm

def onAppendRequest (sender : NodeId) (request : AppendRequest) : RaftNode × List Envelope :=
  if request.term < self.currentTerm then
    (self, [self.envelope sender (.appendResponse ⟨self.currentTerm, false, 0⟩)])
  else
    let self := { self with role := .follower, leaderId := some request.leaderId, electionTicks := 0 }
    if !prevOk self.log request then
      (self, [self.envelope sender (.appendResponse ⟨self.currentTerm, false, self.log.lastIndex⟩)])
    else
      let self := { self with log := mergeEntries self.log request.prevLogIndex request.entries }
      let self := { self with
        commitIndex := if self.commitIndex < request.leaderCommit then min request.leaderCommit self.log.lastIndex
          else self.commitIndex }
      (self, [self.envelope sender (.appendResponse ⟨self.currentTerm, true, self.log.lastIndex⟩)])

/-- An acknowledgement counts for every read proposed before the latest message
sent to that peer, whichever message it answers. -/
def acknowledgeReads (sender : NodeId) : RaftNode :=
  match self.lastSentAckSeq.lookup sender with
  | none => self
  | some lastSent => { self with
      pendingReads := self.pendingReads.map fun read =>
        if read.ackSeq ≤ lastSent ∧ read.term = self.currentTerm then
          { read with acks := insert sender read.acks } else read }

def onAppendResponse (sender : NodeId) (response : AppendResponse) : RaftNode × List Envelope :=
  if self.role ≠ .leader ∨ response.term < self.currentTerm then (self, [])
  else
    let self := if response.term = self.currentTerm then self.acknowledgeReads sender else self
    if response.success then
      let self := if self.matchOf sender < response.matchIndex then
        { self with
          matchIndex := self.matchIndex.insert sender response.matchIndex
          nextIndex := self.nextIndex.insert sender (response.matchIndex + 1) } else self
      (self.tryAdvanceCommit, [])
    else
      let next := (self.nextIndex.lookup sender).getD 1
      let backed := if 0 < response.matchIndex ∧ response.matchIndex < next then response.matchIndex
        else max (next - 1) 1
      { self with nextIndex := self.nextIndex.insert sender backed }.sendAppendTo sender

def onInstallSnapshotRequest (sender : NodeId) (request : InstallSnapshotRequest) :
    RaftNode × List Envelope :=
  if request.term < self.currentTerm then
    (self, [self.envelope sender (.installSnapshotResponse ⟨self.currentTerm, false⟩)])
  else
    let self := if self.currentTerm < request.term then self.stepDown request.term else self
    let self := { self with
      log := self.log.installSnapshot request.lastIncludedIndex request.lastIncludedTerm request.data
      commitIndex := max self.commitIndex request.lastIncludedIndex
      lastApplied := max self.lastApplied request.lastIncludedIndex
      pendingSnapshot := some (request.lastIncludedIndex, request.lastIncludedTerm, request.data) }
    (self, [self.envelope sender (.installSnapshotResponse ⟨self.currentTerm, true⟩)])

/-- The peer is credited with the snapshot the leader holds now, which need not
be the one the peer has answered for. -/
def onInstallSnapshotResponse (sender : NodeId) (response : InstallSnapshotResponse) :
    RaftNode × List Envelope :=
  if self.role ≠ .leader ∨ response.term < self.currentTerm then (self, [])
  else if response.success then
    ({ self with
      matchIndex := self.matchIndex.insert sender self.log.lastIncludedIndex
      nextIndex := self.nextIndex.insert sender (self.log.lastIncludedIndex + 1) }, [])
  else (self, [])

def onConfigChangeRequest (sender : NodeId) (request : ConfigChangeRequest) :
    RaftNode × List Envelope :=
  if request.term < self.currentTerm then
    (self, [self.envelope sender (.configChangeResponse ⟨self.currentTerm, false⟩)])
  else
    let self := if self.currentTerm < request.term then self.stepDown request.term else self
    (self, [self.envelope sender (.configChangeResponse ⟨self.currentTerm, true⟩)])

def dispatch (sender : NodeId) : Message → RaftNode × List Envelope
  | .voteRequest request => self.onVoteRequest sender request
  | .voteResponse response => self.onVoteResponse sender response
  | .appendRequest request => self.onAppendRequest sender request
  | .appendResponse response => self.onAppendResponse sender response
  | .installSnapshotRequest request => self.onInstallSnapshotRequest sender request
  | .installSnapshotResponse response => self.onInstallSnapshotResponse sender response
  | .configChangeRequest request => self.onConfigChangeRequest sender request
  | .configChangeResponse _ => (self, [])

/-- A message of a higher term turns the node into a follower of that term
before it is looked at. -/
def observeTerm (term : Nat) : RaftNode :=
  if self.currentTerm < term then self.stepDown term else self

def handle (env : Envelope) : RaftNode × List Envelope :=
  thenApply ((self.observeTerm env.message.term).dispatch env.sender env.message)

def propose (command : Bytes) : RaftNode × Option Nat :=
  if self.role ≠ .leader then (self, none)
  else
    let self := self.appendOwn command
    let index := self.log.lastIndex
    (self.tryAdvanceCommit.tryAdvanceApply.1, some index)

def proposeRead (requestId : UInt64) : RaftNode × Option Nat :=
  if self.role ≠ .leader then (self, none)
  else
    let ackSeq := self.currentAckSeq + 1
    let read : PendingRead :=
      { requestId
        readIndex := self.commitIndex
        term := self.currentTerm
        ackSeq
        acks := {self.config.id} }
    let self := { self with currentAckSeq := ackSeq, pendingReads := self.pendingReads ++ [read] }
    (self.checkPendingReads, some self.commitIndex)

def transferLeadership (target : NodeId) : RaftNode × Except String Unit :=
  if self.role ≠ .leader then (self, .error "not leader")
  else if target ∉ self.effectiveConfig.allVoters then
    (self, .error s!"target node {target.val} is not a voter in the effective config")
  else if target = self.config.id then (self, .ok ())
  else (self.stepDownKeepingVote, .ok ())

def broadcast : RaftNode × List Envelope :=
  if self.role = .leader then self.sendAppendToAll else (self, [])

def drainApplied : RaftNode × List (Nat × Nat × Bytes) :=
  ({ self with appliedEntries := [] }, self.appliedEntries)

def drainReadyReads : RaftNode × List UInt64 :=
  ({ self with readyReads := [] }, self.readyReads)

def drainInstalledSnapshot : RaftNode × Option (Nat × Nat × Bytes) :=
  ({ self with pendingSnapshot := none }, self.pendingSnapshot)

def compact (upToIndex upToTerm : Nat) (data : Bytes) : RaftNode :=
  { self with
    log := self.log.installSnapshot upToIndex upToTerm data
    commitIndex := max self.commitIndex upToIndex
    lastApplied := max self.lastApplied upToIndex
    appliedEntries := self.appliedEntries.dropWhile fun entry => !decide (upToIndex < entry.1) }

def restoreConfigFromSnapshot (members : List ClusterMember) : RaftNode :=
  self.settleConfig members

/-- The proposed list always contains the leader; a member list is ordered by
node id, equal ids keeping their order. -/
def membershipProposal (newMembers : List ClusterMember) : List ClusterMember :=
  let members := if newMembers.any fun member => member.id = self.config.id then newMembers
    else newMembers ++ [⟨self.config.id, "", "", false⟩]
  members.insertionSort fun first second => first.id ≤ second.id

def proposeMembershipChange (newMembers : List ClusterMember) : RaftNode × Option Nat :=
  if self.role ≠ .leader then (self, none)
  else match self.effectiveConfig with
    | .joint _ _ => (self, none)
    | .stable _ =>
      if self.pendingMembership.isSome then (self, none)
      else
        let members := self.membershipProposal newMembers
        let self := { self with pendingMembership := some members }
        let self := self.appendOwn (RaftCommand.configChange .joint members).encode
        let index := self.log.lastIndex
        let self := self.seedReplicationForMembers members
        (self.tryAdvanceCommit.tryAdvanceApply.1, some index)

end RaftNode
end KayaDB.Raft
