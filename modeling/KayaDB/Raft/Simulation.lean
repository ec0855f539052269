import KayaDB.Raft.AppendSteps
import KayaDB.Raft.Stable

/-! Every careful event of a cluster with an odd, unchanging set of voters is a
series of steps of the history. -/

namespace KayaDB.Raft
open RaftNode

def shippedIndex (env : Envelope) : Option Nat :=
  match env.message with
  | .installSnapshotRequest install => some install.lastIncludedIndex
  | _ => none

/-- What delivery must respect when logs are compacted: append requests do not
collide with the receiver's snapshot, snapshots do not leave a stale suffix
behind, and an answer to a snapshot is not taken for a newer one. -/
def Prudent (node : RaftNode) (sent : Sent) : Prop :=
  match sent.env.message with
  | .appendRequest request => node.currentTerm ≤ request.term → ClearOfSnapshot node.log request
  | .installSnapshotRequest request => node.currentTerm ≤ request.term → FitsLog node.log request
  | .installSnapshotResponse response => node.role = .leader → response.term = node.currentTerm →
    ∀ index ∈ sent.answers.bind shippedIndex, node.log.lastIncludedIndex ≤ index
  | _ => True

instance (node : RaftNode) (sent : Sent) : Decidable (Prudent node sent) := by
  unfold Prudent ClearOfSnapshot FitsLog
  split <;> infer_instance

/-- The events under which a voter set stays what it is. Compaction keeps the
true term of the entry it ends at. -/
def Careful (voters : Finset NodeId) (cluster : Cluster) : Event → Prop
  | .tick node => mayTick voters (cluster.nodes node)
  | .deliver position => ∀ sent ∈ cluster.net[position]?, Prudent (cluster.nodes sent.env.receiver) sent
  | .propose _ command => KeepsVoters voters command
  | .proposeMembershipChange node members =>
    let members := (cluster.nodes node).membershipProposal members
    KeepsVoters voters (RaftCommand.configChange .joint members).encode ∧
      KeepsVoters voters (RaftCommand.configChange .final members).encode
  | .compact node upToIndex upToTerm _ => upToIndex ≤ (cluster.nodes node).lastApplied ∧
    (cluster.nodes node).log.termAt upToIndex = some upToTerm
  | .restoreConfigFromSnapshot _ members => (ClusterMember.voterIds members).toFinset = voters
  | .restart node floor => floor ≤ (cluster.nodes node).lastApplied
  | _ => True

section
variable {voters : Finset NodeId} {snapshots : Prop} {history before middle after : History} {id : NodeId}
  {answers : Option Envelope} {node : RaftNode}
  {sent : Sent} {result : RaftNode × List Envelope} {configs : NodeId → RaftConfig}

theorem observeTerm_of_leader (node : RaftNode) (term : Nat) (leading : (node.observeTerm term).role = .leader) :
    node.observeTerm term = node := by
  unfold RaftNode.observeTerm at leading ⊢
  split
  next later =>
    rw [if_pos later] at leading
    cases leading
  next => rfl

theorem observeTerm_grows (node : RaftNode) (term : Nat) : node.currentTerm ≤ (node.observeTerm term).currentTerm := by
  unfold RaftNode.observeTerm
  split
  next later => exact Nat.le_of_lt later
  next => exact Nat.le_refl _

section
variable (odd : Odd voters.card) (sane : Sane voters history) (here : Local voters snapshots history id node)
include odd sane here

section
variable (receiver : sent.env.receiver = id) (told : Told voters snapshots history sent.image sent.answers sent.env)
  (prudent : Prudent node sent)
include receiver told prudent

theorem Local.dispatch : Moves voters snapshots history id (some sent.env)
      ((node.observeTerm sent.env.message.term).dispatch sent.env.sender sent.env.message) := by
  obtain ⟨middle, observed⟩ : Moves voters snapshots history id (some sent.env)
    (node.observeTerm sent.env.message.term, []) := here.observeTerm sane _
  obtain ⟨_, growth, _⟩ := observed.steps.keeps sane.valid
  have told := told.grow sane.valid growth
  have known := observeTerm_le node sent.env.message.term
  have raised := observeTerm_grows node sent.env.message.term
  have sameLog := observeTerm_log node sent.env.message.term
  suffices handled : Moves voters snapshots middle id (some sent.env)
      ((node.observeTerm sent.env.message.term).dispatch sent.env.sender sent.env.message) by
    obtain ⟨after, moved⟩ := handled
    exact ⟨after, moved.precede observed.steps⟩
  have steady := observeTerm_of_leader node sent.env.message.term
  have now := observed.here
  have saneNow := observed.sane
  generalize node.observeTerm sent.env.message.term = self at *
  unfold Told at told
  unfold Prudent at prudent
  rw [receiver] at told
  cases message : sent.env.message with
  | voteRequest request =>
    simp only [message] at told known
    obtain ⟨inside, log, stood, length, term⟩ := told
    exact now.onVoteRequest saneNow known inside stood length term
  | voteResponse response =>
    simp only [message] at told known
    exact now.onVoteResponse odd saneNow known told
  | appendRequest request =>
    simp only [message] at told known prudent
    refine now.onAppendRequest saneNow known told.1 told.2 fun current => ?_
    rw [sameLog]
    exact prudent (raised.trans current)
  | appendResponse response =>
    simp only [message] at told known
    exact now.onAppendResponse saneNow odd known told.1 told.2
  | installSnapshotRequest request =>
    simp only [message] at told known prudent
    refine now.onInstallSnapshotRequest saneNow told.1 known told.2.1 told.2.2 (fun current => ?_) rfl message
    rw [sameLog]
    exact prudent (raised.trans current)
  | installSnapshotResponse response =>
    simp only [message] at told known prudent
    refine now.onInstallSnapshotResponse saneNow known fun success leading current => ?_
    obtain ⟨request, install, answered, shipped, ack⟩ := told success
    have same := steady leading
    rw [same] at leading current known ⊢
    refine ⟨_, prudent leading (Nat.le_antisymm known current) install.lastIncludedIndex ?_, ack⟩
    rw [answered, Option.bind_some, shippedIndex, shipped]
    rfl
  | configChangeRequest request =>
    simp only [message] at known
    exact now.onConfigChangeRequest saneNow known
  | configChangeResponse response => exact (Extends.still saneNow now).moves

theorem Local.handle : Moves voters snapshots history id (some sent.env) (node.handle sent.env) :=
  (here.dispatch odd sane receiver told prudent).thenApply odd

end

theorem Local.propose {command : Bytes} (keeps : KeepsVoters voters command) :
    Moves voters snapshots history id answers ((node.propose command).1, []) := by
  rcases propose_cases node command with same | ⟨leading, same⟩ <;> rw [same]
  · exact (Extends.still sane here).moves
  · exact (((here.appendOwn sane leading keeps).commit odd).apply odd).moves

theorem Local.proposeMembershipChange {members : List ClusterMember}
    (joint : KeepsVoters voters (RaftCommand.configChange .joint (node.membershipProposal members)).encode)
    (final : KeepsVoters voters (RaftCommand.configChange .final (node.membershipProposal members)).encode) :
    Moves voters snapshots history id answers ((node.proposeMembershipChange members).1, []) := by
  rcases proposeMembershipChange_cases node members with same | ⟨leading, _, same⟩ <;> rw [same]
  · exact (Extends.still sane here).moves
  · have pending : Local voters snapshots history id
        { node with pendingMembership := some (node.membershipProposal members) } := by
      refine { here with
        pending := fun _ chosen found => ?_
        candidate := fun role => { here.candidate role with }
        leader := fun role => { here.leader role with } }
      cases found
      exact final
    obtain ⟨first, appended⟩ : Extends voters snapshots history id answers (RaftNode.appendOwn _ _, []) :=
      pending.appendOwn sane leading joint
    have logged : Extends voters snapshots history id answers (node.logJoint (node.membershipProposal members), []) :=
      ⟨first, .silent appended.steps appended.sane (appended.here.seeded (seeded_members _ _)), appended.longer,
        appended.steady⟩
    exact ((logged.commit odd).apply odd).moves

end

theorem Local.compact (sane : Sane voters history) (here : Local voters snapshots history id node) (allowed : snapshots)
    {upToIndex upToTerm : Nat} {data : Bytes} (reached : upToIndex ≤ node.lastApplied)
    (stamped : node.log.termAt upToIndex = some upToTerm) :
    Local voters snapshots history id (node.compact upToIndex upToTerm data) := by
  have committed := here.committed.smaller (reached.trans here.applied)
  have within := committed.length_le sane.valid
  have applied := here.applied
  have covered : history.Settled (history.log id) node.currentTerm
      (node.log.installSnapshot upToIndex upToTerm data).lastIncludedIndex := by
    rcases node.log.installSnapshot_cases upToIndex upToTerm data with same | same
    · rw [same]
      exact here.covered
    · rw [same]
      exact committed
  unfold RaftNode.compact
  rw [Nat.max_eq_left (by omega : upToIndex ≤ node.commitIndex), Nat.max_eq_left reached]
  exact { here with
    views := here.views.compact within stamped
    whole := fun never => absurd allowed never
    covered := covered
    handed := fun entry inside => here.handed entry ((List.dropWhile_suffix _).subset inside)
    candidate := fun role => { here.candidate role with }
    leader := fun role => { here.leader role with } }

/-- A restarted node has its term, vote and log, and may apply from any earlier
index again. -/
theorem Local.restart (here : Local voters snapshots history id node) {config : RaftConfig} {floor : Nat}
    (own : config.id = id)
    (peers : id ∈ voters → ∀ peer, peer ∈ config.peers ↔ peer ∈ voters ∧ peer ≠ id)
    (reached : floor ≤ node.lastApplied) :
    Local voters snapshots history id (node.restart config floor) where
  own := own
  term := here.term
  vote := here.vote
  views := here.views
  whole := here.whole
  covered := here.covered
  committed := here.committed.smaller (reached.trans here.applied)
  applied := Nat.le_refl _
  handed := fun _ inside => nomatch inside
  nexts := fun _ _ found => nomatch found
  voter := fun role => absurd rfl role
  config := fun inside => voters_of_peers own inside (peers inside)
  peers := peers
  pending := fun _ _ found => nomatch found
  candidate := fun role => nomatch role
  leader := fun role => nomatch role

/-- An entry handed out was settled when it was, and so for good. -/
def HandedOut (history : History) (record : NodeId × Nat × Nat × Bytes) : Prop :=
  ∃ log bound length, history.Settled log bound length ∧ 0 < record.2.1 ∧ record.2.1 ≤ length ∧
    log[record.2.1 - 1]? = some ⟨record.2.2.1, record.2.2.2⟩

structure Related (voters : Finset NodeId) (snapshots : Prop) (cluster : Cluster) (history : History) : Prop where
  sane : Sane voters history
  nodes : ∀ id, Local voters snapshots history id (cluster.nodes id)
  shadow : ∀ id, cluster.shadow id = history.log id
  net : ∀ sent ∈ cluster.net, Told voters snapshots history sent.image sent.answers sent.env
  handed : ∀ record ∈ cluster.handed, HandedOut history record

variable {cluster : Cluster}

theorem HandedOut.grow {record : NodeId × Nat × Nat × Bytes} (handed : HandedOut before record)
    (valid : before.Valid voters) (growth : before.Grows after) : HandedOut after record := by
  obtain ⟨log, bound, length, settled, rest⟩ := handed
  exact ⟨log, bound, length, settled.grow valid growth, rest⟩

/-- The relation is carried over, and the answers to append requests sent on
the way bear the term their sender then has. -/
structure Advanced (voters : Finset NodeId) (snapshots : Prop) (cluster next : Cluster) (before after : History) :
    Prop where
  grows : before.Grows after
  related : Related voters snapshots next after
  net : cluster.net <+: next.net
  signed : ∀ position sent response, cluster.net.length ≤ position → next.net[position]? = some sent →
    sent.env.message = .appendResponse response → response.term = after.term sent.env.sender

section
variable (related : Related voters snapshots cluster before)
include related

theorem Related.act (cause : Option Sent) (moved : Moved voters snapshots before id (cause.map Sent.env) result after)
    (base : (cluster.shadowBase id cause result.1.log).take result.1.log.lastIncludedIndex =
      (after.log id).take result.1.log.lastIncludedIndex) :
    Advanced voters snapshots cluster (cluster.act id cause result) before after := by
  obtain ⟨valid, growth, frame⟩ := moved.steps.keeps related.sane.valid
  have whole := moved.here.views.whole base
  refine ⟨growth, ⟨moved.sane, fun other => ?_, fun other => ?_, fun sent inside => ?_, fun record inside => ?_⟩,
    List.prefix_append _ _, fun position sent response later found message => ?_⟩
  · by_cases same : other = id
    · subst same
      simp only [Cluster.act, Function.update_self]
      exact moved.here
    · simp only [Cluster.act, Function.update_of_ne same]
      exact (related.nodes other).grow related.sane.valid growth frame same
  · by_cases same : other = id
    · subst same
      simp only [Cluster.act, Function.update_self]
      exact whole
    · simp only [Cluster.act, Function.update_of_ne same]
      exact (related.shadow other).trans (frame.log other same).symm
  · rcases List.mem_append.mp inside with old | fresh
    · exact (related.net sent old).grow related.sane.valid growth
    · obtain ⟨env, emitted, rfl⟩ := List.mem_map.mp fresh
      exact moved.told env emitted _ (whole ▸ List.prefix_rfl)
  · exact (related.handed record inside).grow related.sane.valid growth
  · simp only [Cluster.act] at found
    rw [List.getElem?_append_right later] at found
    obtain ⟨env, emitted, rfl⟩ := List.mem_map.mp (List.mem_of_getElem? found)
    obtain ⟨sender, term⟩ := moved.signed env emitted
    rw [term response message, ← sender]

/-- What a snapshot covers is settled before and after a move, so it is the
same in both logs. -/
theorem Related.shadow_take (moved : Moved voters snapshots before id answers result after)
    (floor : result.1.log.lastIncludedIndex = (cluster.nodes id).log.lastIncludedIndex ∨
      result.1.log.lastIncludedIndex ≤ (cluster.nodes id).commitIndex) :
    (cluster.shadow id).take result.1.log.lastIncludedIndex = (after.log id).take result.1.log.lastIncludedIndex := by
  obtain ⟨valid, growth, frame⟩ := moved.steps.keeps related.sane.valid
  rw [related.shadow]
  have settled : before.Settled (before.log id) (cluster.nodes id).currentTerm result.1.log.lastIncludedIndex := by
    rcases floor with same | below
    · rw [same]
      exact (related.nodes id).covered
    · exact (related.nodes id).committed.smaller below
  exact (settled.grow related.sane.valid growth).agree moved.here.covered valid (Nat.le_refl _) (Nat.le_refl _)

theorem Related.move (moves : Moves voters snapshots before id none result)
    (floor : result.1.log.lastIncludedIndex = (cluster.nodes id).log.lastIncludedIndex ∨
      result.1.log.lastIncludedIndex ≤ (cluster.nodes id).commitIndex) :
    ∃ after, Advanced voters snapshots cluster (cluster.act id none result) before after := by
  obtain ⟨after, moved⟩ := moves
  exact ⟨after, related.act none moved (related.shadow_take moved floor)⟩

theorem Related.rest (here : Local voters snapshots before id node)
    (floor : node.log.lastIncludedIndex = (cluster.nodes id).log.lastIncludedIndex ∨
      node.log.lastIncludedIndex ≤ (cluster.nodes id).commitIndex) :
    ∃ after, Advanced voters snapshots cluster (cluster.act id none (node, [])) before after :=
  related.move (Extends.still related.sane here).moves floor

end

theorem Related.deliver (odd : Odd voters.card) (related : Related voters snapshots cluster before)
    (known : sent ∈ cluster.net) (prudent : Prudent (cluster.nodes sent.env.receiver) sent) :
    ∃ after, Advanced voters snapshots cluster
      (cluster.act sent.env.receiver (some sent) ((cluster.nodes sent.env.receiver).handle sent.env)) before after := by
  have told := related.net sent known
  obtain ⟨after, moved⟩ := (related.nodes sent.env.receiver).handle odd related.sane rfl told prudent
  obtain ⟨valid, growth, frame⟩ := moved.steps.keeps related.sane.valid
  refine ⟨after, related.act (some sent) moved ?_⟩
  unfold Cluster.shadowBase
  dsimp only
  split
  next same => exact related.shadow_take moved (Or.inl same)
  next changed =>
    rcases handle_floor (cluster.nodes sent.env.receiver) sent.env with same | ⟨request, message, index⟩
    · exact absurd same changed
    · unfold Told at told
      simp only [message] at told
      obtain ⟨-, -, shipped⟩ := told
      have settled := shipped.settled
      rw [shipped.image] at settled
      have settled := (settled.shorten (List.take_prefix _ _)).grow related.sane.valid growth
      have covered := moved.here.covered
      rw [index] at covered ⊢
      exact settled.agree covered valid (Nat.le_refl _) (Nat.le_refl _)

theorem Related.drainApplied (related : Related voters snapshots cluster before) (id : NodeId)
    (configs : NodeId → RaftConfig) :
    ∃ after, Advanced voters snapshots cluster (cluster.step configs (.drainApplied id)) before after := by
  have here := related.nodes id
  have drained : Local voters snapshots before id (cluster.nodes id).drainApplied.1 :=
    { here with
      handed := fun _ inside => nomatch inside
      candidate := fun role => { here.candidate role with }
      leader := fun role => { here.leader role with } }
  obtain ⟨after, grows, next, net, signed⟩ := related.rest drained (Or.inl rfl)
  refine ⟨after, grows, ⟨next.sane, next.nodes, next.shadow, next.net, fun record inside => ?_⟩, net, signed⟩
  rcases List.mem_append.mp inside with old | fresh
  · exact (related.handed record old).grow related.sane.valid grows
  · obtain ⟨entry, applied, rfl⟩ := List.mem_map.mp fresh
    obtain ⟨positive, bound, found⟩ := here.handed entry applied
    exact ⟨before.log id, _, _, here.committed.grow related.sane.valid grows, positive, bound.trans here.applied, found⟩

theorem proposeRead_same (node : RaftNode) (requestId : UInt64) : Same node (node.proposeRead requestId).1 := by
  unfold RaftNode.proposeRead
  split
  next => constructor <;> rfl
  next =>
    obtain ⟨config, currentTerm, votedFor, log, commitIndex, lastApplied, role, votesReceived, nextIndex, matchIndex,
      appliedEntries, effectiveConfig, pendingMembership⟩ := checkPendingReads_same { node with
        currentAckSeq := node.currentAckSeq + 1
        pendingReads := node.pendingReads ++ [⟨requestId, node.commitIndex, node.currentTerm, node.currentAckSeq + 1,
          {node.config.id}⟩] }
    exact ⟨config, currentTerm, votedFor, log, commitIndex, lastApplied, role, votesReceived, nextIndex, matchIndex,
      appliedEntries, effectiveConfig, pendingMembership⟩

theorem Related.step (odd : Odd voters.card) (voting : Voting voters configs)
    (related : Related voters snapshots cluster before) {event : Event} (careful : Careful voters cluster event)
    (compacting : ∀ node upToIndex upToTerm data, event = .compact node upToIndex upToTerm data → snapshots) :
    ∃ after, Advanced voters snapshots cluster (cluster.step configs event) before after := by
  have sane := related.sane
  cases event with
  | tick id =>
    exact related.move ((related.nodes id).tick odd sane careful) (Or.inl ((LogGrows.stable _).tick (.refl _)).floor)
  | deliver position =>
    change ∃ after, Advanced voters snapshots cluster (cluster.deliver position) before after
    unfold Cluster.deliver
    split
    next => exact ⟨before, Replication.Grows.refl _, related, List.prefix_rfl,
      fun position sent response later found _ => absurd (List.getElem?_eq_some_iff.mp found).1 (by omega)⟩
    next sent found => exact related.deliver odd (List.mem_of_getElem? found) (careful sent found)
  | propose id command =>
    exact related.move ((related.nodes id).propose odd sane careful)
      (Or.inl ((LogGrows.stable _).course (.refl _) (.propose _ _)).floor)
  | proposeRead id requestId =>
    have same := proposeRead_same (cluster.nodes id) requestId
    exact related.rest ((related.nodes id).same same) (Or.inl (congrArg MemLog.lastIncludedIndex same.log))
  | proposeMembershipChange id members =>
    exact related.move ((related.nodes id).proposeMembershipChange odd sane careful.1 careful.2)
      (Or.inl ((LogGrows.stable _).course (.refl _) (.proposeMembershipChange _ _)).floor)
  | transferLeadership id target =>
    change ∃ after, Advanced voters snapshots cluster
      (cluster.act id none (((cluster.nodes id).transferLeadership target).1, [])) before after
    rcases transferLeadership_cases (cluster.nodes id) target with same | same <;> rw [same]
    · exact related.rest (related.nodes id) (Or.inl rfl)
    · exact related.rest ((related.nodes id).follower (by constructor <;> rfl)) (Or.inl rfl)
  | broadcast id =>
    change ∃ after, Advanced voters snapshots cluster (cluster.act id none (cluster.nodes id).broadcast) before after
    rcases broadcast_cases (cluster.nodes id) with ⟨role, same⟩ | same <;> rw [same]
    · exact related.move ⟨before, ((related.nodes id).sendAppendToAll sane role).toMoved⟩
        (Or.inl (Modest.sendAppendToAll _).floor)
    · exact related.rest (related.nodes id) (Or.inl rfl)
  | drainApplied id => exact related.drainApplied id configs
  | drainReadyReads id => exact related.rest ((related.nodes id).same (by constructor <;> rfl)) (Or.inl rfl)
  | drainInstalledSnapshot id => exact related.rest ((related.nodes id).same (by constructor <;> rfl)) (Or.inl rfl)
  | compact id upToIndex upToTerm data =>
    have reached := careful.1.trans (related.nodes id).applied
    refine related.rest ((related.nodes id).compact sane (compacting _ _ _ _ rfl) careful.1 careful.2) ?_
    rcases (cluster.nodes id).log.installSnapshot_cases upToIndex upToTerm data with same | same
    · exact Or.inl same
    · exact Or.inr (same.trans_le reached)
  | restoreConfigFromSnapshot id members =>
    exact related.rest ((related.nodes id).settleConfig careful) (Or.inl (Modest.settleConfig _ _).floor)
  | restart id floor =>
    exact related.rest ((related.nodes id).restart (voting id).1 (voting id).2 careful) (Or.inl rfl)

theorem Related.initial (voting : Voting voters configs) (snapshots : Prop) :
    Related voters snapshots (Cluster.initial configs) (Replication.empty NodeId LogEntry) := by
  have fresh : ∀ id, Local voters snapshots (Replication.empty NodeId LogEntry) id (RaftNode.new (configs id)) := by
    intro id
    have blank : Local voters snapshots (Replication.empty NodeId LogEntry) id
        { RaftNode.new (configs id) with effectiveConfig := .stable ⟨.ofList voters.toList⟩ } :=
      { own := (voting id).1
        term := rfl
        vote := rfl
        views := Views.new
        whole := fun _ => rfl
        covered := Or.inl rfl
        committed := Or.inl rfl
        applied := Nat.le_refl _
        handed := fun _ inside => nomatch inside
        nexts := fun _ _ found => nomatch found
        voter := fun role => absurd rfl role
        config := fun _ => by
          change (SortedSet.ofList voters.toList).toFinset = voters
          ext peer
          simp
        peers := (voting id).2
        pending := fun _ _ found => nomatch found
        candidate := fun role => nomatch role
        leader := fun role => nomatch role }
    exact blank.restart (voting id).1 (voting id).2 (Nat.zero_le _)
  refine ⟨⟨Replication.empty_valid voters, fun _ _ led => nomatch led⟩, fresh, fun _ => rfl, ?_, ?_⟩
  · exact fun _ inside => nomatch inside
  · exact fun _ inside => nomatch inside

theorem Related.run (odd : Odd voters.card) (voting : Voting voters configs) {allowed : Cluster → Event → Prop}
    (careful : ∀ cluster history event, Related voters snapshots cluster history → allowed cluster event → Careful
      voters cluster event ∧ ∀ node upToIndex upToTerm data, event = .compact node upToIndex upToTerm data →
      snapshots) {first last : Cluster} (reaches : Cluster.Reaches configs allowed first last)
    (related : Related voters snapshots first before) :
    ∃ after, before.Grows after ∧ Related voters snapshots last after := by
  refine reaches.invariant (fun cluster => ∃ after, before.Grows after ∧ Related voters snapshots cluster after)
    ⟨before, Replication.Grows.refl _, related⟩ ?_
  rintro cluster event ⟨middle, growth, here⟩ allow
  obtain ⟨prudent, compacting⟩ := careful _ middle event here allow
  obtain ⟨after, advanced⟩ := here.step odd voting prudent compacting
  exact ⟨after, growth.trans advanced.grows, advanced.related⟩

end
end KayaDB.Raft
