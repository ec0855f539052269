import KayaDB.Raft.Membership

/-! Reads by read index. A read is confirmed by acknowledgements of the leader's term,
whichever messages they answer and whoever sends them. -/

namespace KayaDB.Raft
open Cluster RaftNode

def Message.acknowledges (term : Nat) : Message → Bool
  | .appendResponse response => response.term == term
  | _ => false

/-- Acknowledgements that reach the reader in its term come from voters and
were sent no earlier than the message at position `start`. The request id is
not used again. -/
def PromptFor (voters : Finset NodeId) (reader : NodeId) (requestId : UInt64) (start : Nat) (cluster : Cluster) :
    Event → Prop
  | .deliver position => ∀ sent ∈ cluster.net[position]?, sent.env.receiver = reader →
    sent.env.message.acknowledges (cluster.nodes reader).currentTerm = true →
      start ≤ position ∧ sent.env.sender ∈ voters
  | .proposeRead node other => node = reader → other ≠ requestId
  | _ => True

/-- Everybody counted for the read with this id supports it, and a read that is
ready has been counted often enough. -/
structure Vouched (supporter : NodeId → Prop) (needed term : Nat) (requestId : UInt64) (node : RaftNode) : Prop where
  pending : ∀ read ∈ node.pendingReads, read.requestId = requestId →
    read.term = term ∧ ∀ peer ∈ read.acks, supporter peer
  ready : requestId ∈ node.readyReads → ∃ acks : Finset NodeId, needed ≤ acks.card ∧ ∀ peer ∈ acks, supporter peer

namespace ReadsKept

theorem applyNext (node : RaftNode) : ReadsKept node node.applyNext.1 := by
  obtain ⟨result, entries, modest, same⟩ := Modest.applyNext node
  rw [same]
  exact ⟨modest.pendingReads, modest.readyReads⟩

theorem onAppendRequest (node : RaftNode) (sender : NodeId) (request : AppendRequest) :
    ReadsKept node (node.onAppendRequest sender request).1 := by
  unfold RaftNode.onAppendRequest
  split
  next => exact refl node
  next =>
    dsimp only
    split <;> exact ⟨fun _ inside => inside, fun _ inside => inside⟩

theorem onInstallSnapshotRequest (node : RaftNode) (sender : NodeId) (request : InstallSnapshotRequest) :
    ReadsKept node (node.onInstallSnapshotRequest sender request).1 := by
  unfold RaftNode.onInstallSnapshotRequest
  split
  next => exact refl node
  next =>
    dsimp only
    split
    · exact ⟨List.nil_subset _, fun _ inside => inside⟩
    · exact ⟨fun _ inside => inside, fun _ inside => inside⟩

end ReadsKept

namespace Vouched
variable {supporter : NodeId → Prop} {needed term : Nat} {requestId : UInt64} {node other : RaftNode}
  {sender : NodeId}

section
variable (vouched : Vouched supporter needed term requestId node)
include vouched

theorem kept (kept : ReadsKept node other) : Vouched supporter needed term requestId other :=
  ⟨fun read inside => vouched.pending read (kept.pendingReads inside),
    fun inside => vouched.ready (kept.readyReads inside)⟩

theorem checkPendingReads (enough : needed ≤ node.quorum) :
    Vouched supporter needed term requestId node.checkPendingReads := by
  unfold RaftNode.checkPendingReads
  split
  next => exact vouched
  next =>
    refine ⟨fun read inside => vouched.pending read (List.mem_filter.mp inside).1, fun inside => ?_⟩
    rcases List.mem_append.mp inside with old | fresh
    · exact vouched.ready old
    · obtain ⟨read, picked, same⟩ := List.mem_map.mp fresh
      obtain ⟨inside, met⟩ := List.mem_filter.mp picked
      exact ⟨read.acks, enough.trans (of_decide_eq_true met).1, (vouched.pending read inside same).2⟩

theorem tryAdvanceApply (enough : needed ≤ node.tryAdvanceApply.1.quorum) :
    Vouched supporter needed term requestId node.tryAdvanceApply.1 := by
  have kept : ReadsKept node (applyLoop node.applyFuel node).1 := applyLoop_preserves _ .refl .trans .applyNext _ node
  refine (vouched.kept kept).checkPendingReads ?_
  have same := (checkPendingReads_same (applyLoop node.applyFuel node).1).effectiveConfig
  rw [RaftNode.quorum] at enough ⊢
  rw [← same]
  exact enough

theorem course {result : RaftNode × List Envelope} (course : Course node result) (enough : needed ≤ result.1.quorum) :
    Vouched supporter needed term requestId result.1 := by
  cases course with
  | still modest _ => exact vouched.kept modest.toReadsKept
  | applied modest => exact (vouched.kept modest.toReadsKept).tryAdvanceApply enough

theorem turn {result : RaftNode × List Envelope} (turn : Turn node result) (enough : needed ≤ result.1.quorum) :
    Vouched supporter needed term requestId result.1 := by
  obtain ⟨second, calm, next⟩ := turn
  have kept := vouched.kept calm.toReadsKept
  rcases next with same | course
  · exact same ▸ kept
  · exact kept.course course enough

theorem acknowledgeReads (support : node.currentTerm = term → supporter sender) :
    Vouched supporter needed term requestId (node.acknowledgeReads sender) := by
  unfold RaftNode.acknowledgeReads
  split
  next => exact vouched
  next lastSent _ =>
    refine ⟨fun read inside same => ?_, vouched.ready⟩
    obtain ⟨old, member, rfl⟩ := List.mem_map.mp inside
    by_cases counted : old.ackSeq ≤ lastSent ∧ old.term = node.currentTerm
    · rw [if_pos counted] at same ⊢
      obtain ⟨own, supported⟩ := vouched.pending old member same
      refine ⟨own, fun peer acked => ?_⟩
      rcases Finset.mem_insert.mp acked with rfl | before
      · exact support (counted.2.symm.trans own)
      · exact supported peer before
    · rw [if_neg counted] at same ⊢
      exact vouched.pending old member same

theorem onAppendResponse {response : AppendResponse}
    (support : node.role = .leader → response.term = node.currentTerm → node.currentTerm = term → supporter sender) :
    Vouched supporter needed term requestId (node.onAppendResponse sender response).1 := by
  unfold RaftNode.onAppendResponse
  split
  next => exact vouched
  next leading =>
    have leader : node.role = .leader := not_not.mp fun other => leading (Or.inl other)
    have read : Vouched supporter needed term requestId
        (if response.term = node.currentTerm then node.acknowledgeReads sender else node) := by
      split
      next current => exact vouched.acknowledgeReads (support leader current)
      next => exact vouched
    generalize (if response.term = node.currentTerm then node.acknowledgeReads sender else node) = self at *
    dsimp only
    split
    next =>
      refine Vouched.kept ?_ (Modest.tryAdvanceCommit _).toReadsKept
      split
      · exact ⟨read.pending, read.ready⟩
      · exact read
    next => exact ⟨read.pending, read.ready⟩

theorem dispatch {message : Message}
    (support : ∀ response, message = .appendResponse response → node.role = .leader → response.term =
      node.currentTerm → node.currentTerm = term → supporter sender) :
    needed ≤ (node.dispatch sender message).1.quorum →
      Vouched supporter needed term requestId (node.dispatch sender message).1 := by
  cases message with
  | appendRequest request => exact fun _ => vouched.kept (ReadsKept.onAppendRequest node sender request)
  | appendResponse response => exact fun _ => vouched.onAppendResponse (support response rfl)
  | installSnapshotRequest request =>
    exact fun _ => vouched.kept (ReadsKept.onInstallSnapshotRequest node sender request)
  | _ => exact vouched.turn (.dispatch node sender nofun nofun nofun)

theorem proposeRead (other : UInt64)
    (support : node.role = .leader → other = requestId → node.currentTerm = term ∧ supporter node.config.id)
    (enough : needed ≤ node.quorum) : Vouched supporter needed term requestId (node.proposeRead other).1 := by
  rcases proposeRead_cases node other with same | ⟨leading, same⟩ <;> rw [same]
  · exact vouched
  · refine Vouched.checkPendingReads ⟨fun read inside same => ?_, vouched.ready⟩ enough
    rcases List.mem_append.mp inside with old | fresh
    · exact vouched.pending read old same
    · rw [List.mem_singleton.mp fresh] at same ⊢
      obtain ⟨own, itself⟩ := support leading same
      refine ⟨own, fun peer acked => ?_⟩
      rw [Finset.mem_singleton.mp acked]
      exact itself

end

theorem act {cluster : Cluster} {reader id : NodeId} {cause : Option Sent} {result : RaftNode × List Envelope}
    (vouched : Vouched supporter needed term requestId (cluster.nodes reader))
    (moved : id = reader → needed ≤ result.1.quorum → Vouched supporter needed term requestId result.1)
    (enough : needed ≤ ((cluster.act id cause result).nodes reader).quorum) :
    Vouched supporter needed term requestId ((cluster.act id cause result).nodes reader) := by
  by_cases same : reader = id
  · subst same
    simp only [Cluster.act, Function.update_self] at enough ⊢
    exact moved rfl enough
  · simp only [Cluster.act, Function.update_of_ne same]
    exact vouched

end Vouched

/-- A voter that had not gone beyond the term when the read was proposed. -/
def Supports (voters : Finset NodeId) (origin : History) (term : Nat) (peer : NodeId) : Prop :=
  peer ∈ voters ∧ origin.term peer ≤ term

/-- Since the read was proposed, answers bear terms their senders had already
reached then, and the read is vouched for. -/
structure Tracked (voters : Finset NodeId) (origin : History) (reader : NodeId) (term : Nat) (requestId : UInt64)
    (start : Nat) (cluster : Cluster) : Prop where
  answers : ∀ position sent response, start ≤ position → cluster.net[position]? = some sent →
    sent.env.message = .appendResponse response → origin.term sent.env.sender ≤ response.term
  reads : Vouched (Supports voters origin term) ((voters.card + 1) / 2) term requestId (cluster.nodes reader)

section
variable {voters : Finset NodeId} {snapshots : Prop} {configs : NodeId → RaftConfig} {cluster first last past : Cluster}
  {origin history before after : History} {reader id : NodeId} {node : RaftNode} {term start : Nat} {requestId : UInt64}

theorem Local.quorum_eq (here : Local voters snapshots history id node) (inside : id ∈ voters) :
    node.quorum = (voters.card + 1) / 2 := by
  rw [RaftNode.quorum, ClusterConfiguration.quorum, ← SortedSet.card_toFinset, (here.config inside).stable_config]

theorem Advanced.answers {next : Cluster} (advanced : Advanced voters snapshots cluster next before after)
    (growth : origin.Grows before)
    (answers : ∀ position sent response, start ≤ position → cluster.net[position]? = some sent →
      sent.env.message = .appendResponse response → origin.term sent.env.sender ≤ response.term) :
    ∀ position sent response, start ≤ position → next.net[position]? = some sent →
      sent.env.message = .appendResponse response → origin.term sent.env.sender ≤ response.term := by
  intro position sent response since found message
  rcases Nat.lt_or_ge position cluster.net.length with old | fresh
  · obtain ⟨rest, whole⟩ := advanced.net
    rw [← whole, List.getElem?_append_left old] at found
    exact answers position sent response since found message
  · rw [advanced.signed position sent response fresh found message]
    exact (growth.trans advanced.grows).term _

/-- A handled message keeps the read vouched for: acknowledgements that count
come from voters and were sent since the read was proposed. -/
theorem Tracked.deliver (odd : Odd voters.card) (inside : reader ∈ voters)
    (related : Related voters False cluster before) (tracked : Tracked voters origin reader term requestId start cluster)
    {position : Nat} (prompt : PromptFor voters reader requestId start cluster (.deliver position)) {sent : Sent}
    (found : cluster.net[position]? = some sent) (receiver : sent.env.receiver = reader) :
    (voters.card + 1) / 2 ≤ ((cluster.nodes sent.env.receiver).handle sent.env).1.quorum →
      Vouched (Supports voters origin term) ((voters.card + 1) / 2) term requestId
        ((cluster.nodes sent.env.receiver).handle sent.env).1 := by
  have known := List.mem_of_getElem? found
  obtain ⟨middle, moved⟩ := (related.nodes sent.env.receiver).dispatch odd related.sane rfl (related.net sent known)
    (related.prudent known)
  have enough := (moved.here.quorum_eq (receiver ▸ inside)).ge
  have reads := tracked.reads
  rw [← receiver] at reads
  have observed := reads.kept (Calm.observeTerm _ sent.env.message.term).toReadsKept
  refine (observed.dispatch ?_ enough).tryAdvanceApply
  intro response message leading current own
  rw [observeTerm_of_leader _ _ leading] at current own
  have counted : sent.env.message.acknowledges (cluster.nodes reader).currentTerm = true := by
    rw [message, ← receiver]
    exact beq_iff_eq.mpr current
  obtain ⟨since, member⟩ := prompt sent found receiver counted
  have reached := tracked.answers position sent response since found message
  exact ⟨member, reached.trans_eq (current.trans own)⟩

theorem Tracked.step (odd : Odd voters.card) (voting : Voting voters configs) (inside : reader ∈ voters)
    (growth : origin.Grows before) (related : Related voters False cluster before)
    (tracked : Tracked voters origin reader term requestId start cluster) {event : Event}
    (stable : StableVoters voters cluster event) (prompt : PromptFor voters reader requestId start cluster event) :
    ∃ after, before.Grows after ∧ Related voters False (cluster.step configs event) after ∧
      Tracked voters origin reader term requestId start (cluster.step configs event) := by
  obtain ⟨careful, compacting⟩ := related.careful_of_stable stable
  obtain ⟨after, advanced⟩ := related.step odd voting careful compacting
  refine ⟨after, advanced.grows, advanced.related, advanced.answers growth tracked.answers, ?_⟩
  have reads := tracked.reads
  have enough := ((advanced.related.nodes reader).quorum_eq inside).ge
  have current := ((related.nodes reader).quorum_eq inside).ge
  cases event with
  | tick id =>
    refine reads.act (fun same => ?_) enough
    subst same
    obtain ⟨middle, timers⟩ : Moves voters False before id none (cluster.nodes id).tickTimers :=
      (related.nodes id).tickTimers odd related.sane careful
    exact (reads.turn (.tickTimers _) (timers.here.quorum_eq inside).ge).tryAdvanceApply
  | deliver position =>
    change Vouched _ _ _ _ ((cluster.deliver position).nodes reader)
    change _ ≤ ((cluster.deliver position).nodes reader).quorum at enough
    unfold Cluster.deliver at enough ⊢
    split
    next => exact reads
    next sent found =>
      rw [found] at enough
      exact reads.act (tracked.deliver odd inside related prompt found) enough
  | propose id command => exact reads.act (fun same => by subst same; exact reads.course (.propose _ command)) enough
  | proposeRead id other =>
    refine reads.act (fun same _ => ?_) enough
    subst same
    exact reads.proposeRead other (fun _ same => absurd same (prompt rfl)) current
  | proposeMembershipChange id members =>
    exact reads.act (fun same => by subst same; exact reads.course (.proposeMembershipChange _ members)) enough
  | transferLeadership id target =>
    exact reads.act (fun same => by subst same; exact reads.course (.transferLeadership _ target)) enough
  | broadcast id =>
    exact reads.act (fun same => by subst same; exact reads.course (.broadcast _)) enough
  | drainApplied id =>
    change Vouched _ _ _ _ ((cluster.act id none ((cluster.nodes id).drainApplied.1, [])).nodes reader)
    exact reads.act (fun same _ => by subst same; exact ⟨reads.pending, reads.ready⟩) enough
  | drainReadyReads id =>
    exact reads.act (fun same _ => by subst same; exact ⟨reads.pending, fun ready => nomatch ready⟩) enough
  | drainInstalledSnapshot id =>
    exact reads.act (fun same _ => by subst same; exact ⟨reads.pending, reads.ready⟩) enough
  | compact id upToIndex upToTerm data => exact stable.elim
  | restoreConfigFromSnapshot id members => exact stable.elim
  | restart id floor =>
    exact reads.act (fun _ _ => ⟨(fun _ pending => nomatch pending), (fun ready => nomatch ready)⟩) enough

theorem Tracked.run (odd : Odd voters.card) (voting : Voting voters configs) (inside : reader ∈ voters)
    (reaches : Reaches configs (fun cluster event => StableVoters voters cluster event ∧
      PromptFor voters reader requestId start cluster event) first last)
    (related : Related voters False first before) (growth : origin.Grows before)
    (tracked : Tracked voters origin reader term requestId start first) :
    Tracked voters origin reader term requestId start last := by
  obtain ⟨_, _, _, tracked⟩ := reaches.invariant (fun cluster => ∃ after, origin.Grows after ∧
      Related voters False cluster after ∧ Tracked voters origin reader term requestId start cluster)
    ⟨before, growth, related, tracked⟩ (by
      rintro cluster event ⟨middle, growth, related, tracked⟩ ⟨stable, prompt⟩
      obtain ⟨after, more, next, kept⟩ := tracked.step odd voting inside growth related stable prompt
      exact ⟨after, growth.trans more, next, kept⟩)
  exact tracked

/-- Proposing the read starts the tracking: only the leader itself supports it. -/
theorem Related.track (related : Related voters False cluster origin) (inside : reader ∈ voters)
    (ready : requestId ∉ (cluster.nodes reader).readyReads)
    (pending : ∀ read ∈ (cluster.nodes reader).pendingReads, read.requestId ≠ requestId) :
    Tracked voters origin reader (cluster.nodes reader).currentTerm requestId cluster.net.length
      (cluster.step configs (.proposeRead reader requestId)) := by
  have here := related.nodes reader
  have blank : Vouched (Supports voters origin (cluster.nodes reader).currentTerm) ((voters.card + 1) / 2)
      (cluster.nodes reader).currentTerm requestId (cluster.nodes reader) :=
    ⟨fun read old same => absurd same (pending read old), fun old => absurd old ready⟩
  refine ⟨fun position sent response since found _ => ?_, ?_⟩
  · rw [Cluster.step, Cluster.act, List.map_nil, List.append_nil] at found
    exact absurd (List.getElem?_eq_some_iff.mp found).1 (Nat.not_lt.mpr since)
  · simp only [Cluster.step, Cluster.act, Function.update_self]
    refine blank.proposeRead requestId (fun _ _ => ⟨rfl, ?_⟩) (here.quorum_eq inside).ge
    rw [here.own]
    exact ⟨inside, here.term.le⟩

/-- With an entry of its own term committed, a leader has committed everything
chosen, as long as a majority has not gone beyond its term. -/
theorem Related.committed_all (related : Related voters False cluster history)
    (leads : (cluster.nodes reader).role = .leader)
    (own : (cluster.nodes reader).log.termAt (cluster.nodes reader).commitIndex =
      some (cluster.nodes reader).currentTerm) {quorum : Finset NodeId} (majority : Majority voters quorum)
    (behind : ∀ peer ∈ quorum, history.term peer ≤ (cluster.nodes reader).currentTerm) {chosen length : Nat}
    (choice : (chosen, length) ∈ history.chosen) : length ≤ (cluster.nodes reader).commitIndex := by
  have here := related.nodes reader
  have valid := related.sane.valid
  have leading := here.leader leads
  rcases Nat.lt_trichotomy chosen (cluster.nodes reader).currentTerm with earlier | same | later
  · obtain ⟨opening, stood, inside, -, -⟩ := valid.opened _ _ leading.leads
    have complete := (valid.complete choice _ _ _ earlier leading.leads stood).length_le
    rw [List.length_take, Nat.min_eq_left (valid.chosen_length choice)] at complete
    by_contra short
    have position : 0 < (cluster.nodes reader).commitIndex := by
      by_contra zero
      have zero : (cluster.nodes reader).commitIndex = 0 := by omega
      rw [zero, MemLog.termAt, if_pos rfl] at own
      have := (valid.stood _ _ _ stood).1
      have := Option.some.inj own
      omega
    rw [here.views.term_at position (by rw [here.whole not_false]; exact Nat.zero_le _),
      here.book related.sane leads] at own
    obtain ⟨entry, found, stamped⟩ := Option.map_eq_some_iff.mp own
    obtain ⟨rest, whole⟩ := inside
    rw [← whole, List.getElem?_append_left (by omega)] at found
    have := valid.earlier _ _ _ stood entry (List.mem_of_getElem? found)
    exact absurd (stamped ▸ this) (Nat.lt_irrefl _)
  · subst same
    exact leading.chosen length choice
  · obtain ⟨-, -, -, acked, also, acks⟩ := valid.choices chosen length choice
    obtain ⟨voter, first, second⟩ := majority.meet also
    obtain ⟨reached, -, ack⟩ := acks voter second
    have raised := (valid.acked _ _ _ ack).2.1
    have := behind voter first
    omega

/-- A read that becomes ready covers everything any node had committed before it
was proposed, if its leader had then committed an entry of its own term and only
later answers of voters were counted. -/
theorem ready_reads_cover_commits (odd : Odd voters.card) (voting : Voting voters configs) {readIndex : Nat}
    (earlier : Reaches configs (StableVoters voters) (initial configs) past)
    (reached : Reaches configs (StableVoters voters) past cluster)
    (given : ((cluster.nodes reader).proposeRead requestId).2 = some readIndex)
    (unready : requestId ∉ (cluster.nodes reader).readyReads)
    (unused : ∀ read ∈ (cluster.nodes reader).pendingReads, read.requestId ≠ requestId)
    (own : (cluster.nodes reader).log.termAt readIndex = some (cluster.nodes reader).currentTerm)
    (later : Reaches configs (fun cluster' event => StableVoters voters cluster' event ∧
      PromptFor voters reader requestId cluster.net.length cluster' event)
      (cluster.step configs (.proposeRead reader requestId)) last)
    (ready : requestId ∈ (last.nodes reader).readyReads) (node : NodeId) :
    (past.nodes node).commitIndex ≤ readIndex := by
  obtain ⟨before, _, early⟩ := Related.run odd voting (fun _ _ _ related stable => related.careful_of_stable stable)
    earlier (Related.initial voting False)
  obtain ⟨origin, growth, related⟩ := Related.run odd voting
    (fun _ _ _ related stable => related.careful_of_stable stable) reached early
  have leads : (cluster.nodes reader).role = .leader ∧ (cluster.nodes reader).commitIndex = readIndex := by
    unfold RaftNode.proposeRead at given
    split at given
    next => cases given
    next leading => exact ⟨not_not.mp leading, Option.some.inj given⟩
  obtain ⟨role, rfl⟩ := leads
  have inside : reader ∈ voters := (related.nodes reader).voter (by rw [role]; decide)
  have proposed : Tracked voters origin reader _ requestId cluster.net.length
    (cluster.step configs (.proposeRead reader requestId)) := related.track inside unready unused
  have careful : StableVoters voters cluster (.proposeRead reader requestId) := trivial
  obtain ⟨grown, advanced⟩ := related.step odd voting (related.careful_of_stable careful).1
    (related.careful_of_stable careful).2
  have tracked := Tracked.run odd voting inside later advanced.related advanced.grows proposed
  obtain ⟨acks, enough, supporters⟩ := tracked.reads.ready ready
  have majority := Majority.of_half odd (fun peer member => (supporters peer member).1) enough
  rcases (early.nodes node).committed.grow early.sane.valid growth with zero | ⟨chosen, length, choice, -, short, -⟩
  · rw [zero]
    exact Nat.zero_le _
  · exact short.trans (related.committed_all role own majority (fun peer member => (supporters peer member).2) choice)

end

def committedRun : List Event := [.tick ⟨1⟩, .deliver 0, .deliver 2, .deliver 3, .deliver 5]

theorem committedRun_permitted : Permits trio (StableVoters trioVoters) (initial trio) committedRun :=
  ⟨Or.inl (by decide +kernel), trivial, trivial, trivial, trivial, trivial⟩

def confirmation : List Event := [.tick ⟨1⟩, .deliver 6, .deliver 8]

theorem confirmation_permitted :
    Permits trio (fun cluster event => StableVoters trioVoters cluster event ∧
        PromptFor trioVoters ⟨1⟩ 7 ((initial trio).run trio committedRun).net.length cluster event)
      (((initial trio).run trio committedRun).step trio (.proposeRead ⟨1⟩ 7)) confirmation := by
  refine ⟨⟨Or.inl (by decide +kernel), trivial⟩, ⟨trivial, ?_⟩, ⟨trivial, ?_⟩, trivial⟩ <;> unfold PromptFor <;>
    decide +kernel

theorem ready_reads_cover_commits_in_confirmation :
    7 ∈ (((((initial trio).run trio committedRun).step trio (.proposeRead ⟨1⟩ 7)).run trio confirmation).nodes
        ⟨1⟩).readyReads ∧
      (((initial trio).run trio committedRun).nodes ⟨1⟩).commitIndex ≤ 1 :=
  have ready : 7 ∈ (((((initial trio).run trio committedRun).step trio (.proposeRead ⟨1⟩ 7)).run trio
    confirmation).nodes ⟨1⟩).readyReads := by decide +kernel
  ⟨ready, ready_reads_cover_commits (by decide) trio_voting committedRun_permitted.reaches .refl (by decide +kernel)
    (by decide +kernel) (by decide +kernel) (by decide +kernel) confirmation_permitted.reaches ready ⟨1⟩⟩

/-- Node 2 is elected after node 1 has committed an entry and is asked for a
read before it has committed anything itself; node 3 rejects its entries, and
the rejection counts as an acknowledgement. -/
def unconfirmedLeader : List Event := committedRun ++ [.tick ⟨2⟩, .deliver 7, .deliver 8]

def hastyRead : List Event := [.proposeRead ⟨2⟩ 7, .tick ⟨2⟩, .deliver 12, .deliver 13]

theorem new_leader_reads_stale :
    (((initial trio).run trio unconfirmedLeader).nodes ⟨1⟩).commitIndex = 1 ∧
      ((((initial trio).run trio unconfirmedLeader).nodes ⟨2⟩).proposeRead 7).2 = some 0 ∧
      7 ∈ ((((initial trio).run trio unconfirmedLeader).run trio hastyRead).nodes ⟨2⟩).readyReads := by
  decide +kernel

end KayaDB.Raft
