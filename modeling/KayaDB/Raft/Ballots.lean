import KayaDB.Raft.Stable

/-! The votes of a single node, whatever messages it gets. A node's term never
falls, within a term its vote never changes, and every envelope that tells of a
vote tells of the vote the node has just then. -/

namespace KayaDB.Raft
open RaftNode

/-- Terms only rise, and a vote stands for the rest of its term. -/
def KeepsVote (first second : RaftNode) : Prop :=
  first.currentTerm < second.currentTerm ∨
    second.currentTerm = first.currentTerm ∧ (first.votedFor = none ∨ second.votedFor = first.votedFor)

/-- `asker` is the sender of the message that is handled. -/
structure Ballot (asker : Option NodeId) (first : RaftNode) (result : RaftNode × List Envelope) : Prop where
  id : result.1.config.id = first.config.id
  kept : KeepsVote first result.1
  cast : ∀ env ∈ result.2, ∀ vote, castVote env = some vote →
    vote.1 = result.1.currentTerm ∧ result.1.votedFor = some vote.2
  origin : ∀ candidate, result.1.votedFor = some candidate →
    first.votedFor = some candidate ∨ candidate = first.config.id ∨ asker = some candidate

variable {sent : List Envelope} {first second : RaftNode} {result : RaftNode × List Envelope} {asker : Option NodeId}

theorem Silent.old {out : List Envelope} {env : Envelope} {vote : Nat × NodeId} (silent : Silent out)
    (inside : env ∈ sent ++ out) (told : castVote env = some vote) : env ∈ sent := by
  rcases List.mem_append.mp inside with old | new
  · exact old
  · exact nomatch (silent env new).symm.trans told

theorem KeepsVote.trans {third : RaftNode} (left : KeepsVote first second) (right : KeepsVote second third) :
    KeepsVote first third := by
  rcases left with risen | ⟨same, kept⟩
  · rcases right with more | ⟨still, _⟩
    · exact Or.inl (risen.trans more)
    · exact Or.inl (still ▸ risen)
  · rcases right with more | ⟨still, also⟩
    · exact Or.inl (same ▸ more)
    · refine Or.inr ⟨still.trans same, ?_⟩
      rcases kept with free | voted
      · exact Or.inl free
      · exact also.imp (fun free => voted ▸ free) fun again => again.trans voted

theorem Loyal.ballot (loyal : Loyal first second) (silent : Silent sent) (asker : Option NodeId) :
    Ballot asker first (second, sent) where
  id := loyal.id
  kept := Or.inr ⟨loyal.currentTerm, Or.inr loyal.votedFor⟩
  cast := fun env inside _ told => absurd ((silent env inside).symm.trans told) nofun
  origin := fun _ voted => Or.inl (loyal.votedFor ▸ voted)

theorem Ballot.precede (kept : KeepsVote first second) (id : second.config.id = first.config.id)
    (origin : ∀ candidate, second.votedFor = some candidate → first.votedFor = some candidate)
    (ballot : Ballot asker second result) : Ballot asker first result := by
  refine ⟨ballot.id.trans id, kept.trans ballot.kept, ballot.cast, fun candidate voted => ?_⟩
  rcases ballot.origin candidate voted with before | own | asked
  · exact Or.inl (origin candidate before)
  · exact Or.inr (Or.inl (own.trans id))
  · exact Or.inr (Or.inr asked)

namespace Routine

theorem answers {env : Envelope} (loyal : Loyal first second) (same : SameSnapshot first second)
    (told : castVote env = none) (other : ∀ request, env.message ≠ .installSnapshotRequest request) :
    Routine first (second, [env]) :=
  ⟨loyal, same.answers other, silent_answer told⟩

theorem quiet (routine : Routine first result) : Routine first (result.1, []) := still routine.toLoyal routine.same

theorem precede (before : Routine first (second, [])) (routine : Routine second result) : Routine first result :=
  before.andThen routine

theorem follow (routine : Routine first result) (after : Routine result.1 (second, [])) :
    Routine first (second, result.2) :=
  ⟨routine.toLoyal.trans after.toLoyal, routine.toShips.follow after.same, routine.silent⟩

section
variable (node : RaftNode)

theorem refl : Routine node (node, []) := still (.refl node) (.refl node)

theorem applyNext : Routine node node.applyNext := by
  obtain ⟨applied, entries, modest, same⟩ := Modest.applyNext node
  have raised : Routine node ({ node with lastApplied := node.lastApplied + 1 }, []) :=
    still ⟨rfl, rfl, rfl⟩ ⟨rfl, rfl, rfl⟩
  rw [same]
  exact (raised.precede modest.routine).follow (still ⟨rfl, rfl, rfl⟩ ⟨rfl, rfl, rfl⟩)

theorem applyLoop (fuel : Nat) : ∀ node : RaftNode, Routine node (applyLoop fuel node) := by
  induction fuel with
  | zero => exact refl
  | succ fuel ih =>
    intro node
    unfold RaftNode.applyLoop
    split
    next => exact (applyNext node).andThen (ih _)
    next => exact refl node

theorem checkPendingReads : Routine node (node.checkPendingReads, []) := by
  unfold RaftNode.checkPendingReads
  split
  · exact refl node
  · exact still ⟨rfl, rfl, rfl⟩ ⟨rfl, rfl, rfl⟩

theorem tryAdvanceApply : Routine node node.tryAdvanceApply :=
  (applyLoop node.applyFuel node).follow (checkPendingReads _)

theorem course (course : Course first result) : Routine first result := by
  cases course with
  | still modest _ => exact modest.routine
  | applied modest => exact modest.routine.follow (tryAdvanceApply _).quiet

theorem proposeRead (requestId : UInt64) : Routine node ((node.proposeRead requestId).1, []) := by
  rcases proposeRead_cases node requestId with same | ⟨-, same⟩ <;> rw [same]
  · exact refl node
  · have queued : Routine node (node.queueRead requestId, []) := still ⟨rfl, rfl, rfl⟩ ⟨rfl, rfl, rfl⟩
    exact queued.precede (checkPendingReads _)

theorem onAppendResponse (sender : NodeId) (response : AppendResponse) :
    Routine node (node.onAppendResponse sender response) := by
  unfold RaftNode.onAppendResponse
  split
  next => exact refl node
  next =>
    have read : Routine node
        (if response.term = node.currentTerm then node.acknowledgeReads sender else node, []) := by
      unfold RaftNode.acknowledgeReads
      split
      · split
        · exact refl node
        · exact still ⟨rfl, rfl, rfl⟩ ⟨rfl, rfl, rfl⟩
      · exact refl node
    generalize (if response.term = node.currentTerm then node.acknowledgeReads sender else node) = self at *
    refine read.precede (Modest.routine ?_)
    dsimp only
    split
    next =>
      refine Modest.precede ?_ (.tryAdvanceCommit _)
      split
      · exact .of_core rfl
      · exact .refl self
    next => exact (Modest.send _ [sender] rfl).after rfl

end

end Routine

/-- An operation by which a node votes, but changes no snapshot. -/
structure Conduct (asker : Option NodeId) (first : RaftNode) (result : RaftNode × List Envelope) : Prop
    extends Ballot asker first result, Ships first result

section
variable {node : RaftNode}

theorem Routine.conduct (routine : Routine first result) (asker : Option NodeId) : Conduct asker first result :=
  ⟨routine.toLoyal.ballot routine.silent asker, routine.toShips⟩

theorem Ballot.andThen {last : RaftNode × List Envelope} (ballot : Ballot asker first result)
    (routine : Routine result.1 last) : Ballot asker first (last.1, result.2 ++ last.2) := by
  refine ⟨routine.id.trans ballot.id, ballot.kept.trans (Or.inr ⟨routine.currentTerm, Or.inr routine.votedFor⟩), ?_, ?_⟩
  · intro env inside vote told
    rw [routine.currentTerm, routine.votedFor]
    exact ballot.cast env (routine.silent.old inside told) vote told
  · intro candidate voted
    exact ballot.origin candidate (routine.votedFor ▸ voted)

theorem Ballot.thenApply (ballot : Ballot asker node result) : Ballot asker node (thenApply result) :=
  ballot.andThen (.tryAdvanceApply _)

theorem Conduct.andThen {last : RaftNode × List Envelope} (conduct : Conduct asker first result)
    (routine : Routine result.1 last) : Conduct asker first (last.1, result.2 ++ last.2) :=
  ⟨conduct.toBallot.andThen routine, conduct.toShips.andThen routine.toShips⟩

theorem Conduct.follow (conduct : Conduct asker first (second, [])) (routine : Routine second result) :
    Conduct asker first result :=
  conduct.andThen routine

theorem Conduct.still (loyal : Loyal first second) (same : SameSnapshot first second) :
    Conduct asker first (second, []) :=
  (Routine.still loyal same).conduct asker

theorem Conduct.after (conduct : Conduct asker second result) (loyal : Loyal first second)
    (same : SameSnapshot first second) : Conduct asker first result := by
  have kept : KeepsVote first second := Or.inr ⟨loyal.currentTerm, Or.inr loyal.votedFor⟩
  exact ⟨.precede kept loyal.id (fun _ voted => loyal.votedFor ▸ voted) conduct.toBallot, conduct.toShips.precede same⟩

theorem Conduct.startElection (asker : Option NodeId) (node : RaftNode) : Conduct asker node node.startElection := by
  have stood : Ballot asker node (node.candidacy, []) := by
    refine ⟨rfl, Or.inl (Nat.lt_succ_self _), (fun _ inside => nomatch inside), fun candidate voted => ?_⟩
    exact Or.inr (Or.inl (Option.some.inj voted).symm)
  have same : SameSnapshot node node.candidacy := ⟨rfl, rfl, rfl⟩
  rcases startElection_cases node with none | ⟨-, ⟨-, won⟩ | asks⟩
  · rw [none]
    exact .still ⟨rfl, rfl, rfl⟩ ⟨rfl, rfl, rfl⟩
  · rw [won]
    exact Conduct.follow ⟨stood, same.ships⟩ (.course (.becomeLeader _))
  · rw [asks]
    refine ⟨⟨rfl, stood.kept, fun env inside vote told => ?_, stood.origin⟩, same, fun env inside request carried => ?_⟩
    · obtain ⟨peer, _, rfl⟩ := List.mem_map.mp inside
      cases told
      exact ⟨rfl, rfl⟩
    · obtain ⟨peer, -, rfl⟩ := List.mem_map.mp inside
      cases carried

theorem Conduct.tick (node : RaftNode) (asker : Option NodeId) : Conduct asker node node.tick := by
  refine andThen ?_ (.tryAdvanceApply _)
  rcases tickTimers_cases node with (⟨-, same⟩ | same) | ⟨-, same⟩ | same <;> rw [same]
  · exact (startElection asker _).after ⟨rfl, rfl, rfl⟩ ⟨rfl, rfl, rfl⟩
  · exact still ⟨rfl, rfl, rfl⟩ ⟨rfl, rfl, rfl⟩
  · exact ((Modest.sendAppendToAll _).routine.conduct asker).after ⟨rfl, rfl, rfl⟩ ⟨rfl, rfl, rfl⟩
  · exact still ⟨rfl, rfl, rfl⟩ ⟨rfl, rfl, rfl⟩

theorem Ballot.observe (term : Nat) (ballot : Ballot asker (node.observeTerm term) result) :
    Ballot asker node result := by
  rcases observeTerm_cases node term with ⟨later, same⟩ | ⟨-, same⟩ <;> rw [same] at ballot
  · have kept : KeepsVote node (node.stepDown term) := Or.inl later
    have none_voted : (node.stepDown term).votedFor = none := rfl
    exact .precede kept rfl (fun _ voted => nomatch none_voted.symm.trans voted) ballot
  · exact ballot

theorem SameSnapshot.observeTerm (node : RaftNode) (term : Nat) : SameSnapshot node (node.observeTerm term) := by
  rcases observeTerm_cases node term with ⟨-, same⟩ | ⟨-, same⟩ <;> rw [same]
  · exact ⟨rfl, rfl, rfl⟩
  · exact .refl node

theorem mergeEntries_snapshot (entries : List LogEntry) : ∀ (log : MemLog) (index : Nat),
    (mergeEntries log index entries).snapshot = log.snapshot := by
  induction entries with
  | nil => exact fun _ _ => rfl
  | cons entry rest ih =>
    intro log index
    rw [mergeEntries, ih, mergeEntry]
    split
    · split <;> simp
    · simp

section
variable (asker : Option NodeId) (node : RaftNode) (sender : NodeId)

theorem Conduct.onVoteRequest (request : VoteRequest) :
    Conduct (some sender) node (node.onVoteRequest sender request) := by
  rcases onVoteRequest_cases node sender request with same | ⟨⟨-, -, free⟩, same⟩ <;> rw [same]
  · refine Routine.conduct ?_ _
    exact .answers (.refl node) (.refl node) rfl nofun
  · refine ⟨⟨rfl, Or.inr ⟨rfl, free.imp_right Eq.symm⟩, fun env inside vote told => ?_, fun candidate voted => ?_⟩, ?_⟩
    · cases List.mem_singleton.mp inside
      cases told
      exact ⟨rfl, rfl⟩
    · exact Or.inr (Or.inr voted)
    · exact SameSnapshot.answers ⟨rfl, rfl, rfl⟩ nofun

theorem Conduct.onVoteResponse (response : VoteResponse) :
    Conduct asker node (node.onVoteResponse sender response) := by
  have counted : Routine node ({ node with votesReceived := insert sender node.votesReceived }, []) :=
    .still ⟨rfl, rfl, rfl⟩ ⟨rfl, rfl, rfl⟩
  rcases onVoteResponse_cases node sender response with same | ⟨-, ⟨-, same⟩ | same⟩ <;> rw [same]
  · exact (Routine.refl node).conduct asker
  · exact (counted.precede (.course (.becomeLeader _))).conduct asker
  · exact counted.conduct asker

theorem Routine.onAppendRequest (request : AppendRequest) : Routine node (node.onAppendRequest sender request) := by
  unfold RaftNode.onAppendRequest
  split
  next => exact answers (.refl node) (.refl node) rfl nofun
  next =>
    dsimp only
    split
    · exact answers ⟨rfl, rfl, rfl⟩ ⟨rfl, rfl, rfl⟩ rfl nofun
    · exact answers ⟨rfl, rfl, rfl⟩ ⟨mergeEntries_snapshot _ _ _, mergeEntries_lastIncludedIndex _ _ _, rfl⟩ rfl nofun

theorem Ballot.onInstallSnapshotRequest (request : InstallSnapshotRequest) :
    Ballot asker node (node.onInstallSnapshotRequest sender request) := by
  unfold RaftNode.onInstallSnapshotRequest
  split
  next => exact (Loyal.refl node).ballot (silent_answer rfl) asker
  next =>
    refine .observe request.term ?_
    refine Loyal.ballot ?_ ?_ asker
    · exact ⟨rfl, rfl, rfl⟩
    · exact silent_answer rfl

theorem Conduct.onConfigChangeRequest (request : ConfigChangeRequest) :
    Conduct asker node (node.onConfigChangeRequest sender request) := by
  unfold RaftNode.onConfigChangeRequest
  split
  next =>
    refine Routine.conduct ?_ asker
    exact .answers (.refl node) (.refl node) rfl nofun
  next =>
    refine ⟨.observe request.term ?_, (SameSnapshot.observeTerm node request.term).answers nofun⟩
    exact (Loyal.refl _).ballot (silent_answer rfl) asker

theorem Conduct.dispatch (message : Message) (other : ∀ request, message ≠ .installSnapshotRequest request) :
    Conduct (some sender) node (node.dispatch sender message) := by
  cases message with
  | voteRequest request => exact onVoteRequest node sender request
  | voteResponse response => exact onVoteResponse _ node sender response
  | appendRequest request => exact (Routine.onAppendRequest node sender request).conduct _
  | appendResponse response => exact (Routine.onAppendResponse node sender response).conduct _
  | installSnapshotRequest request => exact absurd rfl (other request)
  | installSnapshotResponse response => exact (Modest.onInstallSnapshotResponse node sender response).routine.conduct _
  | configChangeRequest request => exact onConfigChangeRequest _ node sender request
  | configChangeResponse response => exact (Routine.refl node).conduct _

end

theorem Ballot.handle (node : RaftNode) (env : Envelope) : Ballot (some env.sender) node (node.handle env) := by
  refine Ballot.thenApply (.observe env.message.term ?_)
  generalize node.observeTerm env.message.term = self
  by_cases shipped : ∃ request, env.message = .installSnapshotRequest request
  · obtain ⟨request, message⟩ := shipped
    rw [message]
    exact .onInstallSnapshotRequest _ self env.sender request
  · exact (Conduct.dispatch self env.sender env.message fun request message => shipped ⟨request, message⟩).toBallot

end
end KayaDB.Raft
