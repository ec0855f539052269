import KayaDB.Raft.ApplySteps

namespace KayaDB.Raft
open RaftNode

theorem keepsVoters_nil (voters : Finset NodeId) : KeepsVoters voters [] := by
  intro phase members decoded
  cases decoded

variable {value : Nat} {peer : NodeId} {peers : List NodeId}

theorem lookup_insertAll_of_mem :
    ∀ {map : PeerMap}, peer ∈ peers → (insertAll map peers value).lookup peer = some value := by
  induction peers using List.reverseRecOn with
  | nil => exact fun inside => nomatch inside
  | append_singleton rest last ih =>
    intro map inside
    unfold insertAll at ih ⊢
    rw [List.foldl_append]
    by_cases same : peer = last
    · subst same
      exact AList.lookup_insert _
    · refine (AList.lookup_insert_ne same).trans (ih ?_)
      rcases List.mem_append.mp inside with old | fresh
      · exact old
      · exact absurd (List.mem_singleton.mp fresh) same

theorem lookup_insertAll_cases {index : Nat} :
    ∀ {map : PeerMap}, (insertAll map peers value).lookup peer = some index →
      map.lookup peer = some index ∨ index = value := by
  induction peers with
  | nil => exact fun found => Or.inl found
  | cons first rest ih =>
    intro map found
    rcases ih found with old | fresh
    · rcases lookup_insert_cases old with ⟨-, fresh⟩ | ⟨-, older⟩
      · exact Or.inr fresh
      · exact Or.inl older
    · exact Or.inr fresh

section
variable {voters : Finset NodeId} {snapshots : Prop} {history before middle after : History} {id : NodeId}
  {answers : Option Envelope} {node : RaftNode}
  {result : RaftNode × List Envelope} {sender : NodeId}

theorem Moved.precede (steps : Replication.Steps voters id before middle)
    (next : Moved voters snapshots middle id answers result after) :
    Moved voters snapshots before id answers result after :=
  { next with steps := steps.trans next.steps }

theorem observeTerm_le (node : RaftNode) (term : Nat) : term ≤ (node.observeTerm term).currentTerm := by
  unfold RaftNode.observeTerm
  split
  next => exact Nat.le_refl term
  next known => exact Nat.le_of_not_lt known

theorem observeTerm_log (node : RaftNode) (term : Nat) : (node.observeTerm term).log = node.log := by
  unfold RaftNode.observeTerm
  split <;> rfl

theorem Moves.thenApply (odd : Odd voters.card) (moves : Moves voters snapshots history id answers result) :
    Moves voters snapshots history id answers (thenApply result) := by
  obtain ⟨middle, moved⟩ := moves
  obtain ⟨after, applied⟩ : Extends voters snapshots middle id answers result.1.tryAdvanceApply :=
    moved.here.tryAdvanceApply odd moved.sane
  exact ⟨after, moved.andThen applied⟩

theorem Local.follower (here : Local voters snapshots history id node) {other : RaftNode}
    (same : Same { node with role := .follower, votesReceived := other.votesReceived } other) :
    Local voters snapshots history id other := by
  refine Local.same ?_ same
  exact { here with
    voter := fun role => absurd rfl role
    candidate := fun role => nomatch role
    leader := fun role => nomatch role }

section
variable (odd : Odd voters.card) (sane : Sane voters history) (here : Local voters snapshots history id node)
include sane here

theorem Local.stepDown {term : Nat} (later : node.currentTerm < term) :
    Moves voters snapshots history id answers (node.stepDown term, []) := by
  have step : Replication.Step voters id history (history.advance id term) := .advance (by rw [here.term]; exact later)
  have growth := step.grows sane.valid
  refine ⟨_, .silent (.single step) ⟨step.valid sane.valid, sane.keeps⟩ ?_⟩
  exact { here with
    term := Function.update_self _ _ _
    vote := Function.update_self _ _ _
    covered := (here.covered.grow sane.valid growth).later (Nat.le_of_lt later)
    committed := (here.committed.grow sane.valid growth).later (Nat.le_of_lt later)
    voter := fun role => absurd rfl role
    candidate := fun role => nomatch role
    leader := fun role => nomatch role }

theorem Local.observeTerm (term : Nat) :
    Moves voters snapshots history id answers (node.observeTerm term, []) := by
  rcases observeTerm_cases node term with ⟨later, same⟩ | ⟨-, same⟩ <;> rw [same]
  · exact here.stepDown sane later
  · exact (Extends.still sane here).moves

include odd in
/-- Two winners of one term share a voter, who has voted once. -/
theorem Local.vacant (role : node.role = .candidate)
    (enough : node.effectiveConfig.electionQuorum ≤ node.votesReceived.card) :
    Majority voters node.votesReceived ∧ history.leader node.currentTerm = none := by
  have standing := here.candidate role
  have inside : id ∈ voters := here.voter (by rw [role]; decide)
  have majority := (here.config inside).election_majority odd standing.votes enough
  refine ⟨majority, ?_⟩
  cases led : history.leader node.currentTerm with
  | none => rfl
  | some winner =>
    obtain ⟨log, stood, _⟩ := sane.valid.opened _ _ led
    obtain ⟨quorum, elected, ballots⟩ := sane.valid.elected _ _ _ led stood
    obtain ⟨voter, first, second⟩ := majority.meet elected
    have same := sane.valid.polls.unique _ _ _ _ (standing.ballots voter first) (ballots voter second).1
    exact absurd (same ▸ led) standing.fresh

/-- The winner's first entry opens its book; all match indices start from
nothing, whatever earlier leaderships left behind. -/
theorem Local.takeOver (role : node.role = .candidate) (majority : Majority voters node.votesReceived)
    (vacant : history.leader node.currentTerm = none) :
    Extends voters snapshots history id answers (node.assumeLeadership.appendOwn [], []) := by
  have standing := here.candidate role
  have inside : id ∈ voters := here.voter (by rw [role]; decide)
  have sameTerm := here.term
  have following : Local voters snapshots history id { node.assumeLeadership with role := .follower } := by
    refine { here with
      nexts := fun peer index found => ?_
      voter := fun role => absurd rfl role
      candidate := fun role => nomatch role
      leader := fun role => nomatch role }
    rcases lookup_insert_cases found with ⟨-, rfl⟩ | ⟨-, others⟩
    · exact Nat.succ_pos _
    · rcases lookup_insertAll_cases others with old | fresh
      · exact here.nexts peer index old
      · omega
  refine following.write sane rfl inside (.elect ?_ ?_ majority ?_ sameTerm.symm) ?_ (fun term differs => ?_)
    (fun found member => ?_) (fun peer member other index found positive => ?_) fun length chosen => ?_
  · rw [sameTerm]
    exact standing.stood vacant
  · rw [sameTerm]
    exact vacant
  · rw [sameTerm]
    exact standing.ballots
  · rw [sameTerm]
    exact Function.update_self _ _ _
  · rw [sameTerm]
    exact Function.update_of_ne differs _ _
  · rcases List.mem_append.mp member with old | fresh
    · obtain ⟨index, bound, at_⟩ := List.mem_iff_getElem.mp old
      exact sane.keeps_of_log (List.getElem?_eq_some_iff.mpr ⟨bound, at_⟩)
    · rw [List.mem_singleton.mp fresh]
      exact keepsVoters_nil voters
  · rw [assumeLeadership, AList.lookup_insert_ne (here.own ▸ other),
      lookup_insertAll_of_mem ((here.peers inside peer).mpr ⟨member, other⟩)] at found
    cases found
    omega
  · obtain ⟨-, ⟨leader, led⟩, -⟩ := sane.valid.choices _ _ chosen
    exact absurd (vacant.symm.trans led) (by simp)

include odd in
theorem Local.becomeLeader (role : node.role = .candidate)
    (enough : node.effectiveConfig.electionQuorum ≤ node.votesReceived.card) :
    Extends voters snapshots history id answers node.becomeLeader := by
  obtain ⟨majority, vacant⟩ := here.vacant odd sane role enough
  exact (((here.takeOver sane role majority vacant).send rfl).commit odd).apply odd

theorem Local.stand (inside : id ∈ voters) :
    ∃ after, Moved voters snapshots history id answers (node.candidacy, []) after ∧
      after.campaign (node.currentTerm + 1) id = some (history.log id) ∧ after.log id = history.log id := by
  have step : Replication.Step voters id history (history.stand id (node.currentTerm + 1)) :=
    .stand (by rw [here.term]; exact Nat.lt_succ_self _)
  have growth := step.grows sane.valid
  have campaign := Replication.stand_campaign history id (node.currentTerm + 1)
  refine ⟨_, .silent (.single step) ⟨step.valid sane.valid, sane.keeps⟩ ?_, campaign, rfl⟩
  refine { here with
    term := Function.update_self _ _ _
    vote := ?_
    covered := (here.covered.grow sane.valid growth).later (Nat.le_succ _)
    committed := (here.committed.grow sane.valid growth).later (Nat.le_succ _)
    voter := fun _ => inside
    candidate := fun _ => ⟨?_, ?_, fun _ => campaign, ?_⟩
    leader := fun role => nomatch role }
  · rw [RaftNode.candidacy, here.own]
    exact Function.update_self _ _ _
  · rw [RaftNode.candidacy, here.own]
    exact Finset.singleton_subset_iff.mpr inside
  · intro voter member
    rw [RaftNode.candidacy, here.own] at member
    rw [Finset.mem_singleton.mp member]
    have term : (history.toPolls.advance id (node.currentTerm + 1)).term id = node.currentTerm + 1 :=
      Function.update_self _ _ _
    exact Set.mem_insert_iff.mpr (Or.inl (by rw [term]; rfl))
  · intro led
    have reached := (sane.valid.led (node.currentTerm + 1) id led).1
    rw [here.term] at reached
    omega

include odd in
theorem Local.startElection (may : id ∈ voters ∨ node.isSelfLearner = true ∨ node.isSelfVoter = false) :
    Moves voters snapshots history id answers node.startElection := by
  rcases startElection_cases node with same | ⟨⟨notLearner, voter⟩, outcome⟩
  · rw [same]
    exact (Extends.still sane (here.same (by constructor <;> rfl))).moves
  have inside : id ∈ voters := by
    rcases may with inside | learner | outside
    · exact inside
    · exact absurd (notLearner.symm.trans learner) Bool.false_ne_true
    · exact absurd (outside.symm.trans voter) Bool.false_ne_true
  obtain ⟨middle, stood, campaign, log⟩ : ∃ after, Moved voters snapshots history id answers (node.candidacy, []) after ∧
      after.campaign (node.currentTerm + 1) id = some (history.log id) ∧ after.log id = history.log id :=
    here.stand sane inside
  rcases outcome with ⟨enough, same⟩ | same <;> rw [same]
  · obtain ⟨after, leading⟩ := stood.here.becomeLeader odd stood.sane rfl enough
    exact ⟨after, leading.toMoved.precede stood.steps⟩
  · refine ⟨middle, ⟨stood.steps, stood.sane, stood.here, ?_, ?_⟩⟩
    · intro env sent image longer
      obtain ⟨peer, member, rfl⟩ := List.mem_map.mp sent
      refine ⟨((here.peers inside peer).mp member).1, history.log id, ?_, here.views.last_index, here.views.last_term⟩
      rw [RaftNode.envelope, Envelope.new, RaftNode.candidacy, here.own]
      exact campaign
    · intro env sent
      obtain ⟨peer, member, rfl⟩ := List.mem_map.mp sent
      refine ⟨here.own, fun response message => ?_⟩
      cases message

/-- The timer of a node that is not a voter must not start an election. -/
def mayTick (voters : Finset NodeId) (node : RaftNode) : Prop :=
  node.config.id ∈ voters ∨ node.electionTicks + 1 < node.config.electionTimeoutTicks ∨
    node.isSelfLearner = true ∨ node.isSelfVoter = false

include odd in
theorem Local.tickTimers (may : mayTick voters node) :
    Moves voters snapshots history id answers node.tickTimers := by
  have waiting : Local voters snapshots history id { node with electionTicks := node.electionTicks + 1 } :=
    here.same (by constructor <;> rfl)
  have beating : Local voters snapshots history id { node with heartbeatTicks := 0 } :=
    here.same (by constructor <;> rfl)
  rcases tickTimers_cases node with (⟨due, same⟩ | same) | ⟨role, same⟩ | same <;> rw [same]
  · refine waiting.startElection odd sane ?_
    rcases may with inside | early | other
    · exact Or.inl (here.own ▸ inside)
    · omega
    · exact Or.inr other
  · exact (Extends.still sane waiting).moves
  · exact ⟨history, (beating.sendAppendToAll sane role).toMoved⟩
  · exact (Extends.still sane (here.same (by constructor <;> rfl))).moves

include odd in
theorem Local.tick (may : mayTick voters node) : Moves voters snapshots history id answers node.tick :=
  (here.tickTimers odd sane may).thenApply odd

theorem Local.onVoteRequest {request : VoteRequest} (known : request.term ≤ node.currentTerm) (inside : id ∈ voters)
    {log : List LogEntry} (stood : history.campaign request.term sender = some log)
    (length : request.lastLogIndex = log.length) (term : request.lastLogTerm = lastTerm log) :
    Moves voters snapshots history id answers (node.onVoteRequest sender request) := by
  rcases onVoteRequest_cases node sender request with same | ⟨⟨current, fresh, free⟩, same⟩ <;> rw [same]
  · refine ⟨history, Moved.answer sane here (fun _ granted => nomatch granted) ?_⟩
    rintro response ⟨⟩
  · have fresh := of_decide_eq_true fresh
    rw [here.views.last_term, here.views.last_index, length, term] at fresh
    have step : Replication.Step voters id history (history.grant id sender) := by
      refine .grant ?_ ?_ fresh
      · rw [here.vote]
        exact free
      · rw [here.term, ← Nat.le_antisymm known current]
        exact stood
    have growth := step.grows sane.valid
    have ballot : (node.currentTerm, id, sender) ∈ (history.grant id sender).ballots := by
      rw [← here.term]
      exact Set.mem_insert _ _
    have voted : Local voters snapshots (history.grant id sender) id
        { node with votedFor := some sender, electionTicks := 0 } := by
      refine { here with
        vote := Function.update_self _ _ _
        covered := here.covered.grow sane.valid growth
        committed := here.committed.grow sane.valid growth
        candidate := fun role => ?_
        leader := fun role => { here.leader role with } }
      obtain ⟨votes, ballots, standing, open_⟩ := here.candidate role
      exact ⟨votes, fun voter member => growth.ballots (ballots voter member), standing, open_⟩
    refine ⟨_, (Moved.answer ⟨step.valid sane.valid, sane.keeps⟩ voted ?_ ?_).precede (.single step)⟩
    · intro image _
      rw [RaftNode.envelope, Envelope.new]
      simp only [here.own]
      exact ⟨inside, ballot⟩
    · rintro response ⟨⟩

include odd in
theorem Local.onVoteResponse {response : VoteResponse} (known : response.term ≤ node.currentTerm)
    (ballot : response.voteGranted = true → sender ∈ voters ∧ (response.term, sender, id) ∈ history.ballots) :
    Moves voters snapshots history id answers (node.onVoteResponse sender response) := by
  rcases onVoteResponse_cases node sender response with same | ⟨⟨role, current, granted⟩, outcome⟩
  · rw [same]
    exact (Extends.still sane here).moves
  obtain ⟨inside, cast⟩ := ballot granted
  have counted : Local voters snapshots history id
      { node with votesReceived := insert sender node.votesReceived } := by
    refine { here with
      candidate := fun _ => ?_
      leader := fun leading => { here.leader leading with } }
    obtain ⟨votes, ballots, standing, fresh⟩ := here.candidate role
    refine ⟨Finset.insert_subset inside votes, fun voter member => ?_, standing, fresh⟩
    rcases Finset.mem_insert.mp member with rfl | old
    · rw [← Nat.le_antisymm known current]
      exact cast
    · exact ballots voter old
  rcases outcome with ⟨enough, same⟩ | same <;> rw [same]
  · exact (counted.becomeLeader odd sane role enough).moves
  · exact (Extends.still sane counted).moves

end
end
end KayaDB.Raft
