import KayaDB.Raft.Safety

/-! Elections on their own: nodes restart with any terms, votes and logs, and
only vote messages are delivered. A quorum is half of the voters rounded up, so
the outcome depends on the parity of their number. -/

namespace KayaDB.Raft
open RaftNode Cluster

def Cluster.recovered (configs : NodeId → RaftConfig) (states : NodeId → PersistedRaftState) : Cluster where
  nodes := fun node => recover (configs node) (states node)
  shadow := fun node => wholeLog [] (states node).log
  net := []
  handed := []

def isVoteMessage : Message → Bool
  | .voteRequest _ | .voteResponse _ => true
  | _ => false

/-- Voters tick, and only vote messages arrive. -/
def ElectionOnly (voters : Finset NodeId) (cluster : Cluster) : Event → Prop
  | .tick node => node ∈ voters
  | .deliver position => (cluster.net[position]?.all fun sent => isVoteMessage sent.env.message) = true
  | _ => False

/-- A node that has neither committed nor applied anything. -/
structure Idle (node : RaftNode) : Prop where
  commit : node.commitIndex = 0
  applied : node.lastApplied = 0

theorem Idle.tryAdvanceApply {node : RaftNode} (idle : Idle node) :
    node.tryAdvanceApply = (node.checkPendingReads, []) := by
  have still : ∀ fuel, applyLoop fuel node = (node, []) := by
    intro fuel
    cases fuel with
    | zero => rfl
    | succ fuel => rw [applyLoop, if_neg (by rw [idle.commit, idle.applied]; exact Nat.lt_irrefl 0)]
  rw [RaftNode.tryAdvanceApply, still]

/-- A voter's state in terms of the ballots cast. Only its own match index is
ever raised, so with three voters or more nothing is committed. -/
structure Campaigner (voters : Finset NodeId) (polls : Polls NodeId) (id : NodeId) (node : RaftNode) : Prop extends
    Idle node where
  own : node.config.id = id
  term : polls.term id = node.currentTerm
  vote : polls.vote id = node.votedFor
  config : ∃ config, node.effectiveConfig = .stable config ∧ config.voters.toFinset = voters
  peers : ∀ peer ∈ node.config.peers, peer ∈ voters
  alone : ∀ peer, peer ≠ id → node.matchOf peer = 0
  candidate : node.role = .candidate → node.votesReceived ⊆ voters ∧
    ∀ voter ∈ node.votesReceived, (node.currentTerm, voter, id) ∈ polls.ballots
  leader : node.role = .leader → ∃ quorum, Majority voters quorum ∧
    ∀ voter ∈ quorum, (node.currentTerm, voter, id) ∈ polls.ballots

def Spoken (voters : Finset NodeId) (polls : Polls NodeId) (env : Envelope) : Prop :=
  match env.message with
  | .voteRequest _ => env.receiver ∈ voters
  | .voteResponse response => response.voteGranted = true →
    env.sender ∈ voters ∧ (response.term, env.sender, env.receiver) ∈ polls.ballots
  | _ => True

/-- One node's move: ballots are only added, and the others stay as they are. -/
structure Polled (voters : Finset NodeId) (before : Polls NodeId) (id : NodeId) (result : RaftNode × List Envelope)
    (after : Polls NodeId) : Prop where
  valid : after.Valid
  ballots : before.ballots ⊆ after.ballots
  term : ∀ other, other ≠ id → after.term other = before.term other
  vote : ∀ other, other ≠ id → after.vote other = before.vote other
  here : Campaigner voters after id result.1
  spoken : ∀ env ∈ result.2, Spoken voters after env

section
variable {voters : Finset NodeId} {polls before after : Polls NodeId} {id : NodeId} {node : RaftNode}
  {env : Envelope} {result : RaftNode × List Envelope}

theorem Polled.still (valid : polls.Valid) (here : Campaigner voters polls id node) :
    Polled voters polls id (node, []) polls :=
  ⟨valid, Set.Subset.rfl, fun _ _ => rfl, fun _ _ => rfl, here, fun _ inside => nomatch inside⟩

theorem Polled.trans {middle : Polls NodeId} (first : Polled voters before id (node, []) middle)
    (second : Polled voters middle id result after) : Polled voters before id result after :=
  { second with
    ballots := first.ballots.trans second.ballots
    term := fun other different => (second.term other different).trans (first.term other different)
    vote := fun other different => (second.vote other different).trans (first.vote other different) }

theorem Campaigner.grow (here : Campaigner voters before id node) (term : after.term id = before.term id)
    (vote : after.vote id = before.vote id) (ballots : before.ballots ⊆ after.ballots) :
    Campaigner voters after id node :=
  { here with
    term := term.trans here.term
    vote := vote.trans here.vote
    candidate := fun role => (here.candidate role).imp_right fun cast voter member => ballots (cast voter member)
    leader := fun role => (here.leader role).imp fun _ won => won.imp_right fun cast voter member =>
      ballots (cast voter member) }

theorem Spoken.grow (spoken : Spoken voters before env) (ballots : before.ballots ⊆ after.ballots) :
    Spoken voters after env := by
  unfold Spoken at spoken ⊢
  split
  next message =>
    rw [message] at spoken
    exact spoken
  next response message =>
    rw [message] at spoken
    exact fun granted => ⟨(spoken granted).1, ballots (spoken granted).2⟩
  next => trivial

theorem Campaigner.checkPendingReads (here : Campaigner voters polls id node) :
    Campaigner voters polls id node.checkPendingReads := by
  unfold RaftNode.checkPendingReads
  split
  · exact here
  · exact { here with }

theorem Polled.thenApply (polled : Polled voters before id result after) :
    Polled voters before id (thenApply result) after := by
  have idle := polled.here.toIdle.tryAdvanceApply
  unfold RaftNode.thenApply
  rw [idle, List.append_nil]
  exact { polled with here := polled.here.checkPendingReads }

section
variable (here : Campaigner voters polls id node)
include here

theorem Campaigner.considerCommit (many : 3 ≤ voters.card) {commit index : Nat} (positive : 0 < index) :
    node.considerCommit commit index = commit := by
  unfold RaftNode.considerCommit
  split
  next => rfl
  next =>
    obtain ⟨config, stable, same⟩ := here.config
    rw [if_neg]
    intro met
    rw [stable] at met
    have count := of_decide_eq_true met
    rw [ClusterConfiguration.quorum, ← SortedSet.card_toFinset, SortedSet.countP_eq_card_filter, same] at count
    have few : (voters.filter fun peer => decide (index ≤ node.matchOf peer) = true).card ≤ 1 := by
      refine (Finset.card_le_card (t := {id}) fun peer inside => ?_).trans (Finset.card_singleton id).le
      by_contra other
      have alone := here.alone peer (fun same => other (Finset.mem_singleton.mpr same))
      have matched := of_decide_eq_true (Finset.mem_filter.mp inside).2
      omega
    omega

theorem Campaigner.tryAdvanceCommit (many : 3 ≤ voters.card) : node.tryAdvanceCommit = node := by
  unfold RaftNode.tryAdvanceCommit
  split
  next => rfl
  next =>
    have still : ∀ (count start : Nat), 0 < start →
        (List.range' start count).foldl node.considerCommit node.commitIndex = node.commitIndex := by
      intro count
      induction count with
      | zero => exact fun _ _ => rfl
      | succ count ih =>
        intro start positive
        rw [List.range'_succ, List.foldl_cons, here.considerCommit many positive]
        exact ih (start + 1) (Nat.succ_pos _)
    dsimp only
    rw [still _ _ (Nat.succ_pos _)]

theorem Campaigner.sendAppendToAll :
    Campaigner voters polls id node.sendAppendToAll.1 ∧ ∀ env ∈ node.sendAppendToAll.2, Spoken voters polls env := by
  obtain ⟨sequence, shape⟩ := sendAppendToAll_shape node
  rw [shape]
  refine ⟨{ here with }, fun env inside => ?_⟩
  obtain ⟨peer, member, rfl⟩ := List.mem_map.mp inside
  unfold Spoken RaftNode.envelope Envelope.new
  rcases appendMessage_shape node peer with ⟨_, same⟩ | ⟨_, same⟩ <;> rw [same] <;> trivial

theorem Campaigner.assumeLeadership (majority : Majority voters node.votesReceived) (role : node.role = .candidate) :
    Campaigner voters polls id (node.assumeLeadership.appendOwn []) := by
  refine { here with
    alone := fun peer other => ?_
    candidate := fun role => nomatch role
    leader := fun _ => ⟨node.votesReceived, majority, (here.candidate role).2⟩ }
  have other' : peer ≠ node.config.id := by rw [here.own]; exact other
  unfold RaftNode.matchOf RaftNode.appendOwn RaftNode.assumeLeadership
  dsimp only
  rw [AList.lookup_insert_ne other', AList.lookup_insert_ne other']
  cases found : (insertAll node.matchIndex node.config.peers 0).lookup peer with
  | none => rfl
  | some index =>
    rcases lookup_insertAll_cases found with old | fresh
    · have alone := here.alone peer other
      rwa [RaftNode.matchOf, old] at alone
    · exact fresh

section
variable (many : 3 ≤ voters.card) (odd : Odd voters.card) (valid : polls.Valid)
include many odd valid

theorem Campaigner.becomeLeader (role : node.role = .candidate)
    (enough : node.effectiveConfig.electionQuorum ≤ node.votesReceived.card) :
    Polled voters polls id node.becomeLeader polls := by
  obtain ⟨config, stable, same⟩ := here.config
  have fixed : node.effectiveConfig.Fixed voters := by
    rw [stable]
    exact same
  have leading := here.assumeLeadership (fixed.election_majority odd (here.candidate role).1 enough) role
  obtain ⟨sent, spoken⟩ := leading.sendAppendToAll
  unfold RaftNode.becomeLeader
  dsimp only
  rw [sent.tryAdvanceCommit many, sent.toIdle.tryAdvanceApply]
  exact { Polled.still valid sent.checkPendingReads with spoken := spoken }

theorem Campaigner.startElection (inside : id ∈ voters) :
    ∃ after, Polled voters polls id node.startElection after := by
  rcases startElection_cases node with same | ⟨-, outcome⟩
  · rw [same]
    exact ⟨polls, Polled.still valid { here with }⟩
  have later : polls.term id < node.currentTerm + 1 := by
    rw [here.term]
    exact Nat.lt_succ_self _
  have newTerm : (polls.advance id (node.currentTerm + 1)).term id = node.currentTerm + 1 := Function.update_self _ _ _
  have standing : Polled voters polls id (node.candidacy, [])
      ((polls.advance id (node.currentTerm + 1)).cast id id) := by
    refine ⟨(valid.advance later).cast (Or.inl (Function.update_self _ _ _)), fun _ old => Set.mem_insert_of_mem _ old,
      fun other different => Function.update_of_ne different _ _,
      fun other different => (Function.update_of_ne different _ _).trans (Function.update_of_ne different _ _), ?_,
      fun _ inside => nomatch inside⟩
    refine { here with
      term := newTerm
      vote := ?_
      candidate := fun _ => ⟨?_, fun voter member => ?_⟩
      leader := fun role => nomatch role }
    · rw [RaftNode.candidacy, here.own]
      exact Function.update_self _ _ _
    · rw [RaftNode.candidacy, here.own]
      exact Finset.singleton_subset_iff.mpr inside
    · rw [RaftNode.candidacy, here.own] at member
      rw [Finset.mem_singleton.mp member]
      exact Set.mem_insert_iff.mpr (Or.inl (by rw [newTerm]; rfl))
  rcases outcome with ⟨enough, same⟩ | same <;> rw [same]
  · exact ⟨_, standing.trans (standing.here.becomeLeader many odd standing.valid rfl enough)⟩
  · refine ⟨_, { standing with spoken := fun env sent => ?_ }⟩
    obtain ⟨peer, member, rfl⟩ := List.mem_map.mp sent
    exact here.peers peer member

theorem Campaigner.tick (inside : id ∈ voters) : ∃ after, Polled voters polls id node.tick after := by
  suffices timers : ∃ after, Polled voters polls id node.tickTimers after by
    obtain ⟨after, polled⟩ := timers
    exact ⟨after, polled.thenApply⟩
  have waiting : Campaigner voters polls id { node with electionTicks := node.electionTicks + 1 } := { here with }
  have beating : Campaigner voters polls id { node with heartbeatTicks := 0 } := { here with }
  rcases tickTimers_cases node with (⟨-, same⟩ | same) | ⟨-, same⟩ | same <;> rw [same]
  · exact waiting.startElection many odd valid inside
  · exact ⟨polls, Polled.still valid waiting⟩
  · obtain ⟨sent, spoken⟩ := beating.sendAppendToAll
    exact ⟨polls, { Polled.still valid sent with spoken := spoken }⟩
  · exact ⟨polls, Polled.still valid { here with }⟩

end

theorem Campaigner.observeTerm (valid : polls.Valid) (term : Nat) :
    ∃ after, Polled voters polls id (node.observeTerm term, []) after := by
  rcases observeTerm_cases node term with ⟨later, same⟩ | ⟨-, same⟩ <;> rw [same]
  · refine ⟨polls.advance id term, valid.advance (by rw [here.term]; exact later), Set.Subset.rfl,
      fun other different => Function.update_of_ne different _ _,
      fun other different => Function.update_of_ne different _ _, ?_, fun _ inside => nomatch inside⟩
    exact { here with
      term := Function.update_self _ _ _
      vote := Function.update_self _ _ _
      candidate := fun role => nomatch role
      leader := fun role => nomatch role }
  · exact ⟨polls, Polled.still valid here⟩

theorem Campaigner.onVoteRequest (valid : polls.Valid) (inside : id ∈ voters) (sender : NodeId)
    (request : VoteRequest) : ∃ after, Polled voters polls id (node.onVoteRequest sender request) after := by
  rcases onVoteRequest_cases node sender request with same | ⟨⟨-, -, free⟩, same⟩ <;> rw [same]
  · refine ⟨polls, { Polled.still valid here with spoken := fun env sent => ?_ }⟩
    rw [List.mem_singleton.mp sent]
    exact fun granted => nomatch granted
  · rw [← here.vote] at free
    have ballots : polls.ballots ⊆ (polls.cast id sender).ballots := fun _ old => Set.mem_insert_of_mem _ old
    refine ⟨polls.cast id sender, valid.cast free, ballots, fun _ _ => rfl,
      fun other different => Function.update_of_ne different _ _, ?_, fun env sent => ?_⟩
    · exact { here with
        vote := Function.update_self _ _ _
        candidate := fun role => (here.candidate role).imp_right fun cast voter member => ballots (cast voter member)
        leader := fun role => (here.leader role).imp fun _ won => won.imp_right fun cast voter member =>
          ballots (cast voter member) }
    · rw [List.mem_singleton.mp sent]
      intro _
      rw [RaftNode.envelope, Envelope.new]
      simp only [here.own]
      refine ⟨inside, ?_⟩
      rw [← here.term]
      exact Set.mem_insert _ _

theorem Campaigner.onVoteResponse (many : 3 ≤ voters.card) (odd : Odd voters.card) (valid : polls.Valid)
    {sender : NodeId} {response : VoteResponse} (known : response.term ≤ node.currentTerm)
    (ballot : response.voteGranted = true → sender ∈ voters ∧ (response.term, sender, id) ∈ polls.ballots) :
    Polled voters polls id (node.onVoteResponse sender response) polls := by
  rcases onVoteResponse_cases node sender response with same | ⟨⟨role, current, granted⟩, outcome⟩
  · rw [same]
    exact Polled.still valid here
  obtain ⟨member, cast⟩ := ballot granted
  have counted : Campaigner voters polls id { node with votesReceived := insert sender node.votesReceived } := by
    refine { here with candidate := fun _ => ⟨?_, fun voter inside => ?_⟩ }
    · exact Finset.insert_subset member (here.candidate role).1
    · rcases Finset.mem_insert.mp inside with rfl | old
      · rw [← Nat.le_antisymm known current]
        exact cast
      · exact (here.candidate role).2 voter old
  rcases outcome with ⟨enough, same⟩ | same <;> rw [same]
  · exact counted.becomeLeader many odd valid role enough
  · exact Polled.still valid counted

theorem Campaigner.handle (many : 3 ≤ voters.card) (odd : Odd voters.card) (valid : polls.Valid)
    (inside : id ∈ voters) (receiver : env.receiver = id) (vote : isVoteMessage env.message = true)
    (spoken : Spoken voters polls env) : ∃ after, Polled voters polls id (node.handle env) after := by
  obtain ⟨middle, observed⟩ := here.observeTerm valid env.message.term
  have known := observeTerm_le node env.message.term
  have spoken := spoken.grow observed.ballots
  suffices handled : ∃ after, Polled voters middle id
      ((node.observeTerm env.message.term).dispatch env.sender env.message) after by
    obtain ⟨after, polled⟩ := handled
    exact ⟨after, observed.trans polled.thenApply⟩
  have now := observed.here
  have validNow := observed.valid
  generalize node.observeTerm env.message.term = self at *
  unfold Spoken at spoken
  rw [receiver] at spoken
  cases message : env.message with
  | voteRequest request => exact now.onVoteRequest validNow inside env.sender request
  | voteResponse response =>
    simp only [message] at spoken known
    exact ⟨middle, now.onVoteResponse many odd validNow known spoken⟩
  | _ =>
    rw [message] at vote
    cases vote

end

/-- Nodes that never campaign stay followers. -/
structure Outsider (node : RaftNode) : Prop extends Idle node where
  role : node.role = .follower

theorem Outsider.observeTerm (here : Outsider node) (term : Nat) : Outsider (node.observeTerm term) := by
  unfold RaftNode.observeTerm
  split
  · exact ⟨⟨here.commit, here.applied⟩, rfl⟩
  · exact here

theorem Outsider.handle (here : Outsider node) (vote : isVoteMessage env.message = true) :
    Outsider (node.handle env).1 := by
  suffices handled : Outsider ((node.observeTerm env.message.term).dispatch env.sender env.message).1 by
    unfold RaftNode.handle thenApply
    dsimp only
    rw [handled.toIdle.tryAdvanceApply, RaftNode.checkPendingReads, if_pos (by rw [handled.role]; decide)]
    exact handled
  have now := here.observeTerm env.message.term
  generalize node.observeTerm env.message.term = self at *
  cases message : env.message with
  | voteRequest request =>
    unfold RaftNode.dispatch RaftNode.onVoteRequest
    dsimp only
    split
    next => exact now
    next => split <;> exact ⟨⟨now.commit, now.applied⟩, now.role⟩
  | voteResponse response =>
    unfold RaftNode.dispatch RaftNode.onVoteResponse
    dsimp only
    rw [if_pos (Or.inl (by rw [now.role]; decide))]
    exact now
  | _ =>
    rw [message] at vote
    cases vote

theorem Outsider.handle_silent (here : Outsider node) (vote : isVoteMessage env.message = true)
    (unasked : ∀ request, env.message ≠ .voteRequest request) : (node.handle env).2 = [] := by
  cases message : env.message with
  | voteRequest request => exact absurd message (unasked request)
  | voteResponse response =>
    have now := here.observeTerm response.term
    unfold RaftNode.handle thenApply
    rw [message]
    unfold RaftNode.dispatch RaftNode.onVoteResponse Message.term
    dsimp only
    rw [if_pos (Or.inl (by rw [now.role]; decide)), now.toIdle.tryAdvanceApply]
    rfl
  | _ =>
    rw [message] at vote
    cases vote

variable {configs : NodeId → RaftConfig} {states : NodeId → PersistedRaftState} {cluster first last : Cluster}

theorem outsiders_follow (reached : Reaches configs (ElectionOnly voters) (recovered configs states) cluster) :
    ∀ id, id ∉ voters → Outsider (cluster.nodes id) := by
  induction reached with
  | refl => exact fun _ _ => ⟨⟨rfl, rfl⟩, rfl⟩
  | tail _ step ih =>
    obtain ⟨event, allowed, rfl⟩ := step
    intro id outside
    cases event with
    | tick node =>
      have different : id ≠ node := fun same => outside (same ▸ allowed)
      simp only [Cluster.step, Cluster.act, Function.update_of_ne different]
      exact ih id outside
    | deliver position =>
      change Outsider ((Cluster.deliver _ position).nodes id)
      unfold Cluster.deliver
      split
      next => exact ih id outside
      next sent found =>
        by_cases same : id = sent.env.receiver
        · subst same
          simp only [Cluster.act, Function.update_self]
          refine (ih _ outside).handle ?_
          simpa [ElectionOnly, found] using allowed
        · simp only [Cluster.act, Function.update_of_ne same]
          exact ih id outside
    | _ => exact allowed.elim

structure Balloted (voters : Finset NodeId) (cluster : Cluster) (polls : Polls NodeId) : Prop where
  valid : polls.Valid
  nodes : ∀ id ∈ voters, Campaigner voters polls id (cluster.nodes id)
  net : ∀ sent ∈ cluster.net, Spoken voters polls sent.env

theorem Balloted.act (balloted : Balloted voters cluster before) {cause : Option Sent}
    (polled : Polled voters before id result after) : Balloted voters (cluster.act id cause result) after := by
  refine ⟨polled.valid, fun other member => ?_, fun sent inside => ?_⟩
  · by_cases same : other = id
    · subst same
      simp only [Cluster.act, Function.update_self]
      exact polled.here
    · simp only [Cluster.act, Function.update_of_ne same]
      exact (balloted.nodes other member).grow (polled.term other same) (polled.vote other same) polled.ballots
  · rcases List.mem_append.mp inside with old | fresh
    · exact (balloted.net sent old).grow polled.ballots
    · obtain ⟨env, emitted, rfl⟩ := List.mem_map.mp fresh
      exact polled.spoken env emitted

theorem Balloted.step (many : 3 ≤ voters.card) (odd : Odd voters.card) (balloted : Balloted voters cluster before)
    (outsiders : ∀ id, id ∉ voters → Outsider (cluster.nodes id)) {event : Event}
    (allowed : ElectionOnly voters cluster event) :
    ∃ after, before.ballots ⊆ after.ballots ∧ Balloted voters (cluster.step configs event) after := by
  cases event with
  | tick node =>
    obtain ⟨after, polled⟩ := (balloted.nodes node allowed).tick many odd balloted.valid allowed
    exact ⟨after, polled.ballots, balloted.act polled⟩
  | deliver position =>
    change ∃ after, before.ballots ⊆ after.ballots ∧ Balloted voters (cluster.deliver position) after
    unfold Cluster.deliver
    split
    next => exact ⟨before, Set.Subset.rfl, balloted⟩
    next sent found =>
      have vote : isVoteMessage sent.env.message = true := by simpa [ElectionOnly, found] using allowed
      have spoken := balloted.net sent (List.mem_of_getElem? found)
      by_cases inside : sent.env.receiver ∈ voters
      · obtain ⟨after, polled⟩ := (balloted.nodes _ inside).handle many odd balloted.valid inside rfl vote spoken
        exact ⟨after, polled.ballots, balloted.act polled⟩
      · refine ⟨before, Set.Subset.rfl, balloted.valid, fun other member => ?_, fun other known => ?_⟩
        · have different : other ≠ sent.env.receiver := fun same => inside (same ▸ member)
          simp only [Cluster.act, Function.update_of_ne different]
          exact balloted.nodes other member
        · rcases List.mem_append.mp known with old | fresh
          · exact balloted.net other old
          · obtain ⟨env, emitted, rfl⟩ := List.mem_map.mp fresh
            rw [(outsiders _ inside).handle_silent vote (fun request message => ?_)] at emitted
            · cases emitted
            · unfold Spoken at spoken
              rw [message] at spoken
              exact inside spoken
  | _ => exact allowed.elim

def recordedPolls (states : NodeId → PersistedRaftState) : Polls NodeId where
  term := fun node => (states node).hardState.currentTerm
  vote := fun node => (states node).hardState.votedFor
  ballots := { ballot | ballot.1 = (states ballot.2.1).hardState.currentTerm ∧
    (states ballot.2.1).hardState.votedFor = some ballot.2.2 }

theorem Balloted.recovered (voting : Voting voters configs) (states : NodeId → PersistedRaftState) :
    Balloted voters (Cluster.recovered configs states) (recordedPolls states) := by
  refine ⟨⟨?_, ?_⟩, fun id inside => ?_, fun _ inside => nomatch inside⟩
  · exact fun term voter candidate ballot => ⟨ballot.1.le, fun _ => ballot.2⟩
  · exact fun term voter one two left right => Option.some.inj (left.2.symm.trans right.2)
  · obtain ⟨own, peers⟩ := voting id
    exact
      { commit := rfl
        applied := rfl
        own := own
        term := rfl
        vote := rfl
        config := ⟨_, rfl, voters_of_peers own inside (peers inside)⟩
        peers := fun peer member => ((peers inside peer).mp member).1
        alone := fun _ _ => rfl
        candidate := fun role => nomatch role
        leader := fun role => nomatch role }

theorem Balloted.run (many : 3 ≤ voters.card) (odd : Odd voters.card)
    (start : Reaches configs (ElectionOnly voters) (Cluster.recovered configs states) first)
    (balloted : Balloted voters first before) (reached : Reaches configs (ElectionOnly voters) first last) :
    ∃ after, before.ballots ⊆ after.ballots ∧ Balloted voters last after := by
  induction reached with
  | refl => exact ⟨before, Set.Subset.rfl, balloted⟩
  | tail path step ih =>
    obtain ⟨middle, grown, here⟩ := ih
    obtain ⟨event, allowed, rfl⟩ := step
    obtain ⟨after, more, next⟩ := here.step many odd (outsiders_follow (start.trans path)) allowed
    exact ⟨after, grown.trans more, next⟩

/-- With an odd number of voters at most one node ever leads a term. -/
theorem one_leader_per_term (odd : Odd voters.card) (voting : Voting voters configs)
    (reached : Reaches configs (ElectionOnly voters) (Cluster.recovered configs states) first)
    (later : Reaches configs (ElectionOnly voters) first last) {one two : NodeId}
    (leads : (first.nodes one).role = .leader) (also : (last.nodes two).role = .leader)
    (same : (first.nodes one).currentTerm = (last.nodes two).currentTerm) : one = two := by
  have member : ∀ {cluster : Cluster} {id : NodeId},
      Reaches configs (ElectionOnly voters) (Cluster.recovered configs states) cluster →
      (cluster.nodes id).role = .leader → id ∈ voters := by
    intro cluster id path role
    by_contra outside
    have follower := (outsiders_follow path id outside).role
    rw [role] at follower
    cases follower
  have inFirst := member reached leads
  have inLast := member (reached.trans later) also
  rcases Nat.lt_or_ge voters.card 3 with few | many
  · obtain ⟨half, count⟩ := odd
    have single : voters.card = 1 := by omega
    obtain ⟨only, shape⟩ := Finset.card_eq_one.mp single
    rw [shape, Finset.mem_singleton] at inFirst inLast
    rw [inFirst, inLast]
  · obtain ⟨early, -, before⟩ := Balloted.run many odd .refl (Balloted.recovered voting states) reached
    obtain ⟨late, grown, after⟩ := before.run many odd reached later
    obtain ⟨quorum, majority, ballots⟩ := (before.nodes one inFirst).leader leads
    obtain ⟨other, wins, cast⟩ := (after.nodes two inLast).leader also
    refine after.valid.winner_unique majority wins (fun voter inside => grown (ballots voter inside)) ?_
    rw [same]
    exact cast

end

def blankState : PersistedRaftState := ⟨⟨0, none, 0, 0⟩, .new⟩

theorem one_leader_per_term_in_trio :
    (((Cluster.recovered trio fun _ => blankState).run trio [.tick ⟨1⟩, .deliver 0, .deliver 2]).nodes ⟨1⟩).role
        = .leader ∧ (⟨1⟩ : NodeId) = ⟨1⟩ := by
  have ticking : (⟨1⟩ : NodeId) ∈ trioVoters := by decide
  have permitted : Permits trio (ElectionOnly trioVoters) (Cluster.recovered trio fun _ => blankState)
      [.tick ⟨1⟩, .deliver 0, .deliver 2] := by
    refine ⟨ticking, ?_, ?_, trivial⟩ <;> unfold ElectionOnly <;> decide +kernel
  have leads : (((Cluster.recovered trio fun _ => blankState).run trio [.tick ⟨1⟩, .deliver 0, .deliver 2]).nodes
      ⟨1⟩).role = .leader := by decide +kernel
  exact ⟨leads, one_leader_per_term (by decide) trio_voting permitted.reaches .refl leads leads rfl⟩

def pair (id : NodeId) : RaftConfig := ⟨id, ([⟨1⟩, ⟨2⟩] : List NodeId).filter (· ≠ id), 1, 1⟩

def pairVoters : Finset NodeId := {⟨1⟩, ⟨2⟩}

/-- Both voters tick once and lead the same term. -/
theorem two_voters_elect_two_leaders :
    Voting pairVoters pair ∧
      ∃ cluster, Reaches pair (ElectionOnly pairVoters) (Cluster.recovered pair fun _ => blankState) cluster ∧
        (cluster.nodes ⟨1⟩).role = .leader ∧ (cluster.nodes ⟨2⟩).role = .leader ∧
        (cluster.nodes ⟨1⟩).currentTerm = (cluster.nodes ⟨2⟩).currentTerm ∧ (⟨1⟩ : NodeId) ≠ ⟨2⟩ := by
  have first : (⟨1⟩ : NodeId) ∈ pairVoters := by decide
  have second : (⟨2⟩ : NodeId) ∈ pairVoters := by decide
  have permitted : Permits pair (ElectionOnly pairVoters) (Cluster.recovered pair fun _ => blankState)
      [.tick ⟨1⟩, .tick ⟨2⟩] := ⟨first, second, trivial⟩
  refine ⟨?_, _, permitted.reaches, by decide +kernel, by decide +kernel, by decide +kernel, by decide⟩
  intro node
  refine ⟨rfl, fun _ peer => ?_⟩
  simp [pair, pairVoters]

end KayaDB.Raft
