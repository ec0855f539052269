import KayaDB.Raft.ElectionSteps

/-! Append and snapshot messages as steps of the history. A follower follows its
leader's book and acknowledges all of its log, which then lies in that book. -/

namespace KayaDB.Raft
open RaftNode

/-- No entry of the request lies under the snapshot with a term other than the
one the snapshot reports. -/
def ClearOfSnapshot (log : MemLog) (request : AppendRequest) : Prop :=
  ∀ entry ∈ request.entries.take (log.lastIncludedIndex - request.prevLogIndex), entry.term = log.lastIncludedTerm

/-- The snapshot is not newer than the own one, covers the whole log, or ends
with an entry the log has. -/
def FitsLog (log : MemLog) (request : InstallSnapshotRequest) : Prop :=
  request.lastIncludedIndex ≤ log.lastIncludedIndex ∨ log.lastIndex ≤ request.lastIncludedIndex ∨
    log.termAt request.lastIncludedIndex = some request.lastIncludedTerm

theorem ClearOfSnapshot.term_eq {log : MemLog} {request : AppendRequest} (clear : ClearOfSnapshot log request)
    {offset : Nat} {entry : LogEntry} (found : request.entries[offset]? = some entry)
    (covered : request.prevLogIndex + offset + 1 ≤ log.lastIncludedIndex) : entry.term = log.lastIncludedTerm :=
  clear entry (List.mem_of_getElem? ((List.getElem?_take_of_lt (by omega)).trans found))

theorem prevOk_iff {log : MemLog} {request : AppendRequest} :
    prevOk log request = true ↔
      request.prevLogIndex = 0 ∨ log.termAt request.prevLogIndex = some request.prevLogTerm := by
  rw [prevOk, Bool.or_eq_true, beq_iff_eq, beq_iff_eq]

section
variable {voters : Finset NodeId} {snapshots : Prop} {history before middle after : History} {id : NodeId}
  {answers : Option Envelope} {node : RaftNode}
  {index length : Nat} {leader sender : NodeId} {image : List LogEntry} {request : InstallSnapshotRequest}

theorem Sane.positive_term (sane : Sane voters history) {entry : LogEntry}
    (found : (history.log id)[index]? = some entry) : 0 < entry.term := by
  obtain ⟨⟨leader, led⟩, -⟩ := sane.valid.logs id index entry found
  obtain ⟨opening, stood, -⟩ := sane.valid.opened _ _ led
  exact (sane.valid.stood _ _ _ stood).1

theorem Sane.matching (sane : Sane voters history) {term : Nat} (led : history.leader term = some leader) :
    Matching (history.log id) (history.book term) :=
  fun _ _ _ left right same => (sane.valid.logs id).agree (sane.valid.books term leader led) left right same

/-- After following a prefix that ends with an entry of the leader's term, the
whole log is part of the leader's book. -/
theorem Sane.followed_in_book (sane : Sane voters history) (positive : 0 < length)
    (bound : length ≤ (history.book (history.term id)).length)
    (own : (history.book (history.term id))[length - 1]?.map LogEntry.term = some (history.term id)) :
    adopt (history.log id) ((history.book (history.term id)).take length) <+: history.book (history.term id) := by
  rcases adopt_cases (history.log id) ((history.book (history.term id)).take length) with ⟨same, held⟩ | ⟨same, _⟩
  · rw [same]
    obtain ⟨longer, equal⟩ := (List.take_prefix_iff bound).mp held
    have last : (history.log id).length - 1 < (history.log id).length := by omega
    have found : (history.log id)[(history.log id).length - 1]? =
        some (history.log id)[(history.log id).length - 1] := List.getElem?_eq_getElem last
    obtain ⟨⟨winner, wins⟩, inside⟩ := sane.valid.logs id _ _ found
    rw [Nat.sub_add_cancel (by omega), List.take_length] at inside
    have late : history.term id ≤ termOf (history.log id)[(history.log id).length - 1] := by
      obtain ⟨entry, present, stamped⟩ := Option.map_eq_some_iff.mp own
      have here : (history.log id)[length - 1]? = some entry := by
        rw [List.prefix_of_getElem?_take equal (by omega)]
        exact present
      have there : entry ∈ history.book (termOf (history.log id)[(history.log id).length - 1]) :=
        inside.subset (List.mem_of_getElem? here)
      exact stamped ▸ sane.valid.book_terms wins there
    have early := sane.valid.bounded id _ (List.getElem_mem last)
    rw [Nat.le_antisymm early late] at inside
    exact inside
  · rw [same]
    exact List.take_prefix _ _

section
variable (sane : Sane voters history) (here : Local voters snapshots history id node)
include sane here

/-- Terms of stored entries are positive, so term zero is never matched. -/
theorem Local.termAt_ne_zero (positive : 0 < index) : node.log.termAt index ≠ some 0 := by
  intro reported
  rcases Nat.lt_or_ge index node.log.lastIncludedIndex with below | above
  · rw [MemLog.termAt, if_neg (by omega), if_pos (by omega)] at reported
    have stamp := here.views.stamp (by omega)
    rw [Option.some.inj reported] at stamp
    obtain ⟨entry, found, zero⟩ := Option.map_eq_some_iff.mp stamp
    have := sane.positive_term found
    omega
  · rw [here.views.term_at positive above] at reported
    obtain ⟨entry, found, zero⟩ := Option.map_eq_some_iff.mp reported
    have := sane.positive_term found
    omega

/-- The consistency check makes the logs agree up to the previous index. Below
the snapshot they agree anyway. -/
theorem Local.agree_at_prev (led : history.leader node.currentTerm = some leader) {request : AppendRequest}
    (sameTerm : request.term = node.currentTerm) (slice : Slice history request)
    (ok : prevOk node.log request = true) :
    request.prevLogIndex ≤ (history.log id).length ∧
      (history.log id).take request.prevLogIndex = (history.book node.currentTerm).take request.prevLogIndex := by
  rcases Nat.eq_zero_or_pos request.prevLogIndex with zero | positive
  · rw [zero]
    exact ⟨Nat.zero_le _, rfl⟩
  have reported := (prevOk_iff.mp ok).resolve_left positive.ne'
  rcases Nat.lt_or_ge request.prevLogIndex node.log.lastIncludedIndex with below | above
  · have within := here.views.within
    have shared := here.covered.in_book sane.valid (Nat.le_refl _) led
    have settled := ((List.take_prefix_iff within).mp shared).2
    have equal := congrArg (List.take request.prevLogIndex) settled.symm
    rw [List.take_take, List.take_take, Nat.min_eq_left (by omega)] at equal
    exact ⟨by omega, equal⟩
  · rw [here.views.term_at positive above] at reported
    obtain ⟨entry, found, stamped⟩ := Option.map_eq_some_iff.mp reported
    have offered := slice.prevTerm positive
    rw [sameTerm] at offered
    obtain ⟨other, present, term⟩ := Option.map_eq_some_iff.mp offered
    have equal := sane.matching led (request.prevLogIndex - 1) entry other found present (stamped.trans term.symm)
    rw [Nat.sub_add_cancel positive] at equal
    exact ⟨by have := (List.getElem?_eq_some_iff.mp found).1; omega, equal⟩

omit sane in
theorem Local.follow_log (length : Nat) : (history.follow id length).log id =
    adopt (history.log id) ((history.book node.currentTerm).take length) := by
  rw [← here.term]
  exact Function.update_self _ _ _

/-- A node that is not the leader of its term may follow the leader's book; it
keeps what it has committed and applied. -/
theorem Local.follow (led : history.leader node.currentTerm = some leader) (distinct : leader ≠ id) {log : MemLog}
    (views : Views log ((history.follow id length).log id)) (whole : ¬ snapshots → log.lastIncludedIndex = 0)
    (covered : history.Settled ((history.follow id length).log id) node.currentTerm log.lastIncludedIndex) :
    Replication.Step voters id history (history.follow id length) ∧ Sane voters (history.follow id length) ∧
      Local voters snapshots (history.follow id length) id { node with log := log } := by
  have step : Replication.Step voters id history (history.follow id length) :=
    .follow (by rw [here.term]; exact led)
  have growth := step.grows sane.valid
  have kept : (history.log id).take node.commitIndex <+: (history.follow id length).log id := by
    rw [here.follow_log]
    exact kept_prefix_adopt (List.take_prefix _ _) (here.committed.in_book sane.valid (Nat.le_refl _) led)
      (List.take_prefix length _)
  refine ⟨step, ⟨step.valid sane.valid, sane.keeps⟩, ?_⟩
  refine { here with
    views := views
    whole := whole
    covered := covered.grow sane.valid growth
    committed := (here.committed.grow sane.valid growth).carry (Nat.le_refl _) kept
    handed := fun entry inside => ?_
    candidate := fun role => ?_
    leader := fun role => ?_ }
  · obtain ⟨positive, bound, found⟩ := here.handed entry inside
    have reached := here.applied
    refine ⟨positive, bound, ?_⟩
    obtain ⟨rest, equal⟩ := kept
    have present : ((history.log id).take node.commitIndex)[entry.1 - 1]? = some ⟨entry.2.1, entry.2.2⟩ := by
      rw [List.getElem?_take_of_lt (by omega)]
      exact found
    rw [← equal, List.getElem?_append_left (List.getElem?_eq_some_iff.mp present).1]
    exact present
  · obtain ⟨votes, ballots, -, fresh⟩ := here.candidate role
    exact ⟨votes, ballots, fun vacant => absurd (led.symm.trans vacant) (by simp), fresh⟩
  · have leads := (here.leader role).leads
    exact absurd (Option.some.inj (led.symm.trans leads)) distinct

theorem Local.acknowledge (led : history.leader node.currentTerm = some leader)
    (short : length ≤ (history.book node.currentTerm).length)
    (held : (history.book node.currentTerm).take length <+: history.log id) :
    Replication.Step voters id history (history.acknowledge id length) ∧
      Sane voters (history.acknowledge id length) ∧
      Local voters snapshots (history.acknowledge id length) id node ∧
      (node.currentTerm, id, length) ∈ (history.acknowledge id length).acks := by
  have step : Replication.Step voters id history (history.acknowledge id length) := by
    rw [← here.term] at led short held
    exact .acknowledge led short held
  have growth := step.grows sane.valid
  refine ⟨step, ⟨step.valid sane.valid, sane.keeps⟩, ?_, ?_⟩
  · refine { here with
      covered := here.covered.grow sane.valid growth
      committed := here.committed.grow sane.valid growth
      candidate := fun role => { here.candidate role with }
      leader := fun role => ?_ }
    obtain ⟨leads, acked, chosen⟩ := here.leader role
    refine ⟨leads, fun peer member index found positive => ?_, chosen⟩
    obtain ⟨reached, below, ack⟩ := acked peer member index found positive
    exact ⟨reached, below, growth.acks ack⟩
  · rw [← here.term]
    exact Set.mem_insert _ _

theorem Local.onAppendRequest {request : AppendRequest} (known : request.term ≤ node.currentTerm)
    (distinct : sender ≠ id) (offered : Offered history sender request)
    (clear : node.currentTerm ≤ request.term → ClearOfSnapshot node.log request) :
    Moves voters snapshots history id answers (node.onAppendRequest sender request) := by
  have apart : node.config.id ≠ sender := by
    rw [here.own]
    exact distinct.symm
  unfold RaftNode.onAppendRequest
  split
  next =>
    refine ⟨history, Moved.answer sane here (fun _ => ⟨apart, fun success => nomatch success⟩) ?_⟩
    rintro response ⟨⟩
    rfl
  next current =>
  have same : request.term = node.currentTerm := by omega
  have following : Local voters snapshots history id
      { node with role := .follower, leaderId := some request.leaderId, electionTicks := 0 } :=
    here.follower (by constructor <;> rfl)
  have led : history.leader node.currentTerm = some sender := same ▸ offered.led
  dsimp only
  split
  next =>
    refine ⟨history, Moved.answer sane following (fun _ => ⟨apart, fun success => nomatch success⟩) ?_⟩
    rintro response ⟨⟩
    rfl
  next consistent =>
  have ok : prevOk node.log request = true := by simpa using consistent
  rcases offered.part with ⟨positive, zero⟩ | slice
  · have matched := (prevOk_iff.mp ok).resolve_left positive.ne'
    exact absurd (zero ▸ matched) (here.termAt_ne_zero sane positive)
  obtain ⟨reached, agreed⟩ := here.agree_at_prev sane led same slice ok
  have bound := slice.bound
  have entries := slice.entries
  have own := slice.own
  have settled := slice.settled
  rw [same] at bound entries own settled
  have shared := here.covered.in_book sane.valid (Nat.le_refl _) led
  have merged := mergeEntries_views bound request.entries request.prevLogIndex node.log (history.log id) here.views
    (sane.matching led) reached agreed (Nat.le_add_right _ _) entries shared
    (fun _ _ => (clear same.ge).term_eq)
  rw [← here.follow_log] at merged
  have index := mergeEntries_lastIncludedIndex request.entries node.log request.prevLogIndex
  obtain ⟨step, followed, tracking⟩ := following.follow sane led distinct merged
    (fun never => index.trans (here.whole never))
    (by rw [index, here.follow_log]; exact here.covered.adopt sane.valid (Nat.le_refl _) led)
  have growth := step.grows sane.valid
  have nonempty := slice.nonempty
  generalize request.prevLogIndex + request.entries.length = length at *
  have announced : (history.follow id length).Settled ((history.follow id length).log id) node.currentTerm
      request.leaderCommit := by
    rw [here.follow_log]
    exact (settled.grow sane.valid growth).shorten (offered_prefix_adopt _ _)
  have complete : (history.follow id length).log id <+: history.book node.currentTerm := by
    rw [here.follow_log, ← here.term]
    rw [← here.term] at bound own
    exact sane.followed_in_book nonempty bound own
  have raised : Local voters snapshots (history.follow id length) id { node with
      role := .follower
      leaderId := some request.leaderId
      electionTicks := 0
      log := mergeEntries node.log request.prevLogIndex request.entries
      commitIndex := if node.commitIndex < request.leaderCommit then
          min request.leaderCommit (mergeEntries node.log request.prevLogIndex request.entries).lastIndex
        else node.commitIndex } := by
    split
    next more =>
      rw [merged.last_index, Nat.min_eq_left (announced.length_le followed.valid)]
      exact tracking.raiseCommit (Nat.le_of_lt more) announced
    next => exact tracking
  have held : (history.book node.currentTerm).take ((history.follow id length).log id).length
      <+: (history.follow id length).log id := by
    rw [← List.prefix_iff_eq_take.mp complete]
  obtain ⟨acked, saneAcked, final, ack⟩ := raised.acknowledge followed led complete.length_le held
  refine ⟨_, (Moved.answer saneAcked final ?_ ?_).precede ((Relation.ReflTransGen.single step).tail acked)⟩
  · refine fun image => ⟨apart, fun _ => ?_⟩
    simp only [RaftNode.envelope, Envelope.new, merged.last_index, here.own]
    exact ack
  · rintro response ⟨⟩
    rfl

omit sane here in
theorem acknowledgeReads_same (node : RaftNode) (sender : NodeId) : Same node (node.acknowledgeReads sender) := by
  unfold RaftNode.acknowledgeReads
  split <;> constructor <;> rfl

omit sane in
theorem Local.recordMatch {next : Nat} (positive : 0 < next)
    (acked : node.role = .leader → 0 < index → ∃ reached, index ≤ reached ∧ (node.currentTerm, sender, reached) ∈
      history.acks) :
    Local voters snapshots history id { node with
      matchIndex := node.matchIndex.insert sender index
      nextIndex := node.nextIndex.insert sender next } := by
  refine { here with
    nexts := fun peer value found => ?_
    candidate := fun role => { here.candidate role with }
    leader := fun role => ?_ }
  · rcases lookup_insert_cases found with ⟨-, rfl⟩ | ⟨-, old⟩
    · exact positive
    · exact here.nexts peer value old
  · obtain ⟨leads, others, chosen⟩ := here.leader role
    refine ⟨leads, fun peer member value found above => ?_, chosen⟩
    rcases lookup_insert_cases found with ⟨rfl, rfl⟩ | ⟨-, old⟩
    · exact acked role above
    · exact others peer member value old above

theorem Local.onAppendResponse (odd : Odd voters.card) {response : AppendResponse}
    (known : response.term ≤ node.currentTerm) (distinct : sender ≠ id)
    (acked : response.success = true → (response.term, sender, response.matchIndex) ∈ history.acks) :
    Moves voters snapshots history id answers (node.onAppendResponse sender response) := by
  unfold RaftNode.onAppendResponse
  split
  next => exact (Extends.still sane here).moves
  next counting =>
  obtain ⟨leading, current⟩ := not_or.mp counting
  have role := not_not.mp leading
  have same : response.term = node.currentTerm := by omega
  rw [if_pos same]
  have reads := acknowledgeReads_same node sender
  have told := here.same reads
  have role' : (node.acknowledgeReads sender).role = .leader := reads.role.trans role
  generalize node.acknowledgeReads sender = self at *
  have sameTerm : response.term = self.currentTerm := same.trans reads.currentTerm.symm
  dsimp only
  split
  next success =>
    have recorded : Local voters snapshots history id
        (if self.matchOf sender < response.matchIndex then
          { self with
            matchIndex := self.matchIndex.insert sender response.matchIndex
            nextIndex := self.nextIndex.insert sender (response.matchIndex + 1) } else self) := by
      split
      next =>
        refine told.recordMatch (Nat.succ_pos _) fun _ _ => ⟨_, Nat.le_refl _, ?_⟩
        rw [← sameTerm]
        exact acked success
      next => exact told
    exact (recorded.tryAdvanceCommit odd sane).moves
  next =>
    have backed : Local voters snapshots history id { self with
        nextIndex := self.nextIndex.insert sender
          (if 0 < response.matchIndex ∧ response.matchIndex < (self.nextIndex.lookup sender).getD 1 then
            response.matchIndex else max ((self.nextIndex.lookup sender).getD 1 - 1) 1) } := by
      refine { told with
        nexts := fun peer value found => ?_
        candidate := fun role => { told.candidate role with }
        leader := fun role => { told.leader role with } }
      rcases lookup_insert_cases found with ⟨-, rfl⟩ | ⟨-, old⟩
      · split <;> omega
      · exact told.nexts peer value old
    exact ⟨history, (backed.sendAppendTo sane role' distinct).toMoved⟩

theorem Local.onInstallSnapshotResponse {response : InstallSnapshotResponse} (known : response.term ≤ node.currentTerm)
    (acked : response.success = true → node.role = .leader → node.currentTerm ≤ response.term → ∃ reached,
      node.log.lastIncludedIndex ≤ reached ∧ (response.term, sender, reached) ∈ history.acks) :
    Moves voters snapshots history id answers (node.onInstallSnapshotResponse sender response) := by
  unfold RaftNode.onInstallSnapshotResponse
  split
  next => exact (Extends.still sane here).moves
  next counting =>
  obtain ⟨leading, current⟩ := not_or.mp counting
  split
  next success =>
    refine (Extends.still sane (here.recordMatch (Nat.succ_pos _) fun role _ => ?_)).moves
    obtain ⟨reached, covers, ack⟩ := acked success role (by omega)
    have same : response.term = node.currentTerm := by omega
    exact ⟨reached, covers, same ▸ ack⟩
  next => exact (Extends.still sane here).moves

/-- A shipped snapshot that fits the log is a prefix of the leader's book the
node follows. -/
theorem Local.installed_views (same : request.term = node.currentTerm) (shipped : Shipped history image sender request)
    (newer : node.log.lastIncludedIndex < request.lastIncludedIndex) (fits : FitsLog node.log request) :
    Views (node.log.installSnapshot request.lastIncludedIndex request.lastIncludedTerm request.data)
      ((history.follow id request.lastIncludedIndex).log id) := by
  rw [here.follow_log]
  have bound := shipped.bound
  have stamp := shipped.stamp
  have led := shipped.led
  have positive := shipped.positive
  rw [same] at bound stamp led
  have views : Views (node.log.installSnapshot request.lastIncludedIndex request.lastIncludedTerm request.data) _ :=
    here.views.install newer bound stamp
  have length : ((history.book node.currentTerm).take request.lastIncludedIndex).length
      = request.lastIncludedIndex := List.length_take_of_le bound
  rcases fits with old | short | matched
  · omega
  · rw [here.views.last_index] at short
    rw [List.drop_eq_nil_of_le short, List.append_nil] at views
    rcases adopt_cases (history.log id) ((history.book node.currentTerm).take request.lastIncludedIndex)
      with ⟨kept, inside⟩ | ⟨kept, _⟩
    · rw [kept, ← inside.eq_of_length (by have := inside.length_le; omega)]
      exact views
    · rw [kept]
      exact views
  · rw [here.views.term_at positive (by omega)] at matched
    obtain ⟨entry, found, term⟩ := Option.map_eq_some_iff.mp matched
    obtain ⟨other, present, stamped⟩ := Option.map_eq_some_iff.mp stamp
    have agree := sane.matching led _ entry other found present (term.trans stamped.symm)
    rw [Nat.sub_add_cancel positive] at agree
    rw [← agree, List.take_append_drop] at views
    rw [← agree, adopt_of_inside (List.take_prefix _ _)]
    exact views

theorem Local.onInstallSnapshotRequest {env : Envelope} (allowed : snapshots) (known : request.term ≤ node.currentTerm) (distinct : sender ≠ id)
    (shipped : Shipped history image sender request)
    (fits : node.currentTerm ≤ request.term → FitsLog node.log request) (cause : answers = some env)
    (message : env.message = .installSnapshotRequest request) :
    Moves voters snapshots history id answers (node.onInstallSnapshotRequest sender request) := by
  unfold RaftNode.onInstallSnapshotRequest
  split
  next =>
    refine ⟨history, Moved.answer sane here (fun _ success => nomatch success) ?_⟩
    rintro response ⟨⟩
  next current =>
  have same : request.term = node.currentTerm := by omega
  rw [if_neg (by omega)]
  have led : history.leader node.currentTerm = some sender := same ▸ shipped.led
  have bound := shipped.bound
  have settled := shipped.settled
  rw [same] at bound settled
  have part : (history.book node.currentTerm).take request.lastIncludedIndex <+:
      (history.follow id request.lastIncludedIndex).log id := by
    rw [here.follow_log]
    exact offered_prefix_adopt _ _
  have views : Views (node.log.installSnapshot request.lastIncludedIndex request.lastIncludedTerm request.data)
      ((history.follow id request.lastIncludedIndex).log id) := by
    rcases Nat.lt_or_ge node.log.lastIncludedIndex request.lastIncludedIndex with newer | older
    · exact here.installed_views sane same shipped newer (fits same.ge)
    · rw [here.follow_log, MemLog.installSnapshot, if_pos older, adopt_of_inside]
      · exact here.views
      · have shared := (here.covered.smaller older).in_book sane.valid (Nat.le_refl _) led
        have := here.views.within
        rw [((List.take_prefix_iff (by omega)).mp shared).2]
        exact List.take_prefix _ _
  have covered : history.Settled ((history.follow id request.lastIncludedIndex).log id) node.currentTerm
      (node.log.installSnapshot request.lastIncludedIndex request.lastIncludedTerm request.data).lastIncludedIndex := by
    rw [MemLog.installSnapshot]
    split
    next =>
      rw [here.follow_log]
      exact here.covered.adopt sane.valid (Nat.le_refl _) led
    next => exact settled.shorten part
  obtain ⟨step, followed, tracking⟩ := here.follow sane led distinct views (fun never => absurd allowed never) covered
  have growth := step.grows sane.valid
  have reached : (history.follow id request.lastIncludedIndex).Settled
      ((history.follow id request.lastIncludedIndex).log id) node.currentTerm
      (max node.commitIndex request.lastIncludedIndex) := by
    rcases Nat.le_total node.commitIndex request.lastIncludedIndex with below | above
    · rw [Nat.max_eq_right below]
      exact (settled.grow sane.valid growth).shorten part
    · rw [Nat.max_eq_left above]
      exact tracking.committed
  have applied := here.applied
  have raised := (tracking.raiseCommit (Nat.le_max_left node.commitIndex request.lastIncludedIndex) reached).raiseApplied
    (Nat.le_max_left node.lastApplied request.lastIncludedIndex)
    (show max node.lastApplied request.lastIncludedIndex ≤ max node.commitIndex request.lastIncludedIndex by omega)
  obtain ⟨acked, saneAcked, final, ack⟩ := raised.acknowledge followed led bound part
  refine ⟨_, (Moved.answer saneAcked (final.same (by constructor <;> rfl)) ?_ ?_).precede
    ((Relation.ReflTransGen.single step).tail acked)⟩
  · refine fun image _ => ⟨env, request, cause, message, ?_⟩
    simp only [RaftNode.envelope, Envelope.new, here.own]
    exact ack
  · rintro response ⟨⟩

theorem Local.onConfigChangeRequest {request : ConfigChangeRequest} (known : request.term ≤ node.currentTerm) :
    Moves voters snapshots history id answers (node.onConfigChangeRequest sender request) := by
  unfold RaftNode.onConfigChangeRequest
  split
  next =>
    refine ⟨history, Moved.answer sane here (fun _ => trivial) ?_⟩
    rintro response ⟨⟩
  next =>
    rw [if_neg (by omega)]
    refine ⟨history, Moved.answer sane here (fun _ => trivial) ?_⟩
    rintro response ⟨⟩

end
end
end KayaDB.Raft
