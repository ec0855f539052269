import KayaDB.Raft.Merge

/-! The relation between a cluster and the history of its replicated log. It is
stated for one node and for one sent envelope, so that a step of one node leaves
everything about the others to two monotonicity results. -/

namespace KayaDB.Raft

abbrev History := Replication NodeId LogEntry

/-- Every side of the configuration consists of the given voters. -/
def EffectiveConfig.Fixed (voters : Finset NodeId) : EffectiveConfig → Prop
  | .stable config => config.voters.toFinset = voters
  | .joint outgoing incoming => outgoing.voters.toFinset = voters ∧ incoming.voters.toFinset = voters

/-- A valid history in which no entry changes the voters. -/
structure Sane (voters : Finset NodeId) (history : History) : Prop where
  valid : history.Valid voters
  keeps : ∀ term leader, history.leader term = some leader →
    ∀ entry ∈ history.book term, KeepsVoters voters entry.command

/-- A candidate has the ballots it counts. It stood with its present log unless
somebody has already won the term. -/
structure Standing (voters : Finset NodeId) (history : History) (id : NodeId) (node : RaftNode) : Prop where
  votes : node.votesReceived ⊆ voters
  ballots : ∀ voter ∈ node.votesReceived, (node.currentTerm, voter, id) ∈ history.ballots
  stood : history.leader node.currentTerm = none → history.campaign node.currentTerm id = some (history.log id)
  fresh : history.leader node.currentTerm ≠ some id

/-- Match indices stand for acknowledgements of the leader's own term. -/
structure Leading (voters : Finset NodeId) (history : History) (id : NodeId) (node : RaftNode) : Prop where
  leads : history.leader node.currentTerm = some id
  acked : ∀ peer ∈ voters, ∀ index, node.matchIndex.lookup peer = some index → 0 < index →
    ∃ reached, index ≤ reached ∧ (node.currentTerm, peer, reached) ∈ history.acks
  chosen : ∀ length, (node.currentTerm, length) ∈ history.chosen → length ≤ node.commitIndex

structure Local (voters : Finset NodeId) (snapshots : Prop) (history : History) (id : NodeId) (node : RaftNode) :
    Prop where
  own : node.config.id = id
  term : history.term id = node.currentTerm
  vote : history.vote id = node.votedFor
  views : Views node.log (history.log id)
  whole : ¬ snapshots → node.log.lastIncludedIndex = 0
  covered : history.Settled (history.log id) node.currentTerm node.log.lastIncludedIndex
  committed : history.Settled (history.log id) node.currentTerm node.commitIndex
  applied : node.lastApplied ≤ node.commitIndex
  handed : ∀ entry ∈ node.appliedEntries, 0 < entry.1 ∧ entry.1 ≤ node.lastApplied ∧
    (history.log id)[entry.1 - 1]? = some ⟨entry.2.1, entry.2.2⟩
  nexts : ∀ peer index, node.nextIndex.lookup peer = some index → 0 < index
  voter : node.role ≠ .follower → id ∈ voters
  config : id ∈ voters → node.effectiveConfig.Fixed voters
  peers : id ∈ voters → ∀ peer, peer ∈ node.config.peers ↔ peer ∈ voters ∧ peer ≠ id
  pending : id ∈ voters → ∀ members, node.pendingMembership = some members →
    KeepsVoters voters (RaftCommand.configChange .final members).encode
  candidate : node.role = .candidate → Standing voters history id node
  leader : node.role = .leader → Leading voters history id node

/-- The entries of the request run from the previous index to the end of the
leader's log as it was, and that log ends with an entry of the leader's term. -/
structure Slice (history : History) (request : AppendRequest) : Prop where
  nonempty : 0 < request.prevLogIndex + request.entries.length
  bound : request.prevLogIndex + request.entries.length ≤ (history.book request.term).length
  entries : request.entries =
    ((history.book request.term).take (request.prevLogIndex + request.entries.length)).drop request.prevLogIndex
  prevTerm : 0 < request.prevLogIndex →
    (history.book request.term)[request.prevLogIndex - 1]?.map LogEntry.term = some request.prevLogTerm
  own : (history.book request.term)[request.prevLogIndex + request.entries.length - 1]?.map LogEntry.term =
    some request.term
  settled : history.Settled
    ((history.book request.term).take (request.prevLogIndex + request.entries.length))
    request.term request.leaderCommit

/-- A request whose previous index lies beyond the leader's log carries term
zero there, which no log can match. -/
structure Offered (history : History) (sender : NodeId) (request : AppendRequest) : Prop where
  led : history.leader request.term = some sender
  part : 0 < request.prevLogIndex ∧ request.prevLogTerm = 0 ∨ Slice history request

structure Shipped (history : History) (image : List LogEntry) (sender : NodeId)
    (request : InstallSnapshotRequest) : Prop where
  led : history.leader request.term = some sender
  positive : 0 < request.lastIncludedIndex
  bound : request.lastIncludedIndex ≤ (history.book request.term).length
  image : (history.book request.term).take request.lastIncludedIndex = image.take request.lastIncludedIndex
  stamp : (history.book request.term)[request.lastIncludedIndex - 1]?.map LogEntry.term =
    some request.lastIncludedTerm
  settled : history.Settled ((history.book request.term).take request.lastIncludedIndex) request.term
    request.lastIncludedIndex

def Told (voters : Finset NodeId) (snapshots : Prop) (history : History) (image : List LogEntry)
    (answers : Option Envelope) (env : Envelope) : Prop :=
  match env.message with
  | .voteRequest request => env.receiver ∈ voters ∧
    ∃ log, history.campaign request.term env.sender = some log ∧ request.lastLogIndex = log.length ∧
      request.lastLogTerm = lastTerm log
  | .voteResponse response => response.voteGranted = true →
    env.sender ∈ voters ∧ (response.term, env.sender, env.receiver) ∈ history.ballots
  | .appendRequest request => env.sender ≠ env.receiver ∧ Offered history env.sender request
  | .appendResponse response => env.sender ≠ env.receiver ∧ (response.success = true →
    (response.term, env.sender, response.matchIndex) ∈ history.acks)
  | .installSnapshotRequest request => snapshots ∧ env.sender ≠ env.receiver ∧
    Shipped history image env.sender request
  | .installSnapshotResponse response => response.success = true →
    ∃ request install, answers = some request ∧ request.message = .installSnapshotRequest install ∧
      (response.term, env.sender, install.lastIncludedIndex) ∈ history.acks
  | .configChangeRequest _ => True
  | .configChangeResponse _ => True

section
variable {voters : Finset NodeId} {snapshots : Prop} {before after : History}
  {sender : NodeId} {image : List LogEntry}

theorem Slice.grow {request : AppendRequest} (slice : Slice before request)
    (led : before.leader request.term = some sender) (valid : before.Valid voters) (growth : before.Grows after) :
    Slice after request := by
  have inside := growth.book _ _ led
  have bound := slice.bound
  have same : (after.book request.term).take (request.prevLogIndex + request.entries.length)
      = (before.book request.term).take (request.prevLogIndex + request.entries.length) :=
    List.take_prefix_of_prefix inside bound
  obtain ⟨rest, whole⟩ := inside
  have length := slice.nonempty
  refine ⟨length, ?_, ?_, fun positive => ?_, ?_, ?_⟩
  · rw [← whole, List.length_append]
    omega
  · rw [same]
    exact slice.entries
  · rw [← whole, List.getElem?_append_left (by omega)]
    exact slice.prevTerm positive
  · rw [← whole, List.getElem?_append_left (by omega)]
    exact slice.own
  · rw [same]
    exact slice.settled.grow valid growth

theorem Shipped.grow {request : InstallSnapshotRequest} (shipped : Shipped before image sender request)
    (valid : before.Valid voters) (growth : before.Grows after) : Shipped after image sender request := by
  have inside := growth.book _ _ shipped.led
  have bound := shipped.bound
  have positive := shipped.positive
  have same := List.take_prefix_of_prefix inside bound
  obtain ⟨rest, whole⟩ := inside
  refine ⟨growth.leader _ _ shipped.led, positive, ?_, ?_, ?_, ?_⟩
  · rw [← whole, List.length_append]
    omega
  · rw [same]
    exact shipped.image
  · rw [← whole, List.getElem?_append_left (by omega)]
    exact shipped.stamp
  · rw [same]
    exact shipped.settled.grow valid growth

theorem Told.grow {answers : Option Envelope} {env : Envelope} (told : Told voters snapshots before image answers env)
    (valid : before.Valid voters) (growth : before.Grows after) : Told voters snapshots after image answers env := by
  unfold Told at told ⊢
  split at told
  next =>
    obtain ⟨inside, log, stood, rest⟩ := told
    exact ⟨inside, log, growth.campaign _ _ _ stood, rest⟩
  next => exact fun granted => ⟨(told granted).1, growth.ballots (told granted).2⟩
  next =>
    obtain ⟨distinct, led, part⟩ := told
    exact ⟨distinct, growth.leader _ _ led, part.imp_right fun slice => slice.grow led valid growth⟩
  next => exact ⟨told.1, fun success => growth.acks (told.2 success)⟩
  next => exact ⟨told.1, told.2.1, told.2.2.grow valid growth⟩
  next =>
    intro success
    obtain ⟨request, install, answered, message, ack⟩ := told success
    exact ⟨request, install, answered, message, growth.acks ack⟩
  next => trivial
  next => trivial

theorem Local.grow {id other : NodeId} {node : RaftNode} (here : Local voters snapshots before other node)
    (valid : before.Valid voters) (growth : before.Grows after) (frame : Replication.Frame id before after)
    (different : other ≠ id) : Local voters snapshots after other node := by
  have sameLog := frame.log other different
  refine
    { own := here.own
      term := (frame.term other different).trans here.term
      vote := (frame.vote other different).trans here.vote
      views := sameLog ▸ here.views
      whole := here.whole
      covered := sameLog ▸ here.covered.grow valid growth
      committed := sameLog ▸ here.committed.grow valid growth
      applied := here.applied
      handed := sameLog ▸ here.handed
      nexts := here.nexts
      voter := here.voter
      config := here.config
      peers := here.peers
      pending := here.pending
      candidate := fun role => ?_
      leader := fun role => ?_ }
  · obtain ⟨votes, ballots, standing, fresh⟩ := here.candidate role
    refine ⟨votes, fun voter inside => growth.ballots (ballots voter inside), fun vacant => ?_, fun led => ?_⟩
    · rw [sameLog]
      refine growth.campaign _ _ _ (standing ?_)
      cases old : before.leader node.currentTerm with
      | none => rfl
      | some leader =>
        rw [growth.leader _ _ old] at vacant
        cases vacant
    · rcases frame.leader _ _ led with old | own
      · exact fresh old
      · exact different own
  · obtain ⟨leads, acked, chosen⟩ := here.leader role
    refine ⟨growth.leader _ _ leads, fun peer member index found positive => ?_, fun length inside => ?_⟩
    · obtain ⟨reached, short, ack⟩ := acked peer member index found positive
      exact ⟨reached, short, growth.acks ack⟩
    · rcases frame.chosen _ _ inside with old | led
      · exact chosen length old
      · rw [growth.leader _ _ leads] at led
        cases led
        exact absurd rfl different

end
end KayaDB.Raft
