import KayaDB.Raft.Frames
import KayaDB.Raft.Refinement

/-! The operations of a node, part by part, as steps of the history: sending,
appending, committing and applying. A part that changes nothing the relation
reads needs no step. -/

namespace KayaDB.Raft
open RaftNode

/-- Equal in everything the relation to the history reads. -/
structure Same (first second : RaftNode) : Prop where
  config : second.config = first.config
  currentTerm : second.currentTerm = first.currentTerm
  votedFor : second.votedFor = first.votedFor
  log : second.log = first.log
  commitIndex : second.commitIndex = first.commitIndex
  lastApplied : second.lastApplied = first.lastApplied
  role : second.role = first.role
  votesReceived : second.votesReceived = first.votesReceived
  nextIndex : second.nextIndex = first.nextIndex
  matchIndex : second.matchIndex = first.matchIndex
  appliedEntries : second.appliedEntries = first.appliedEntries
  effectiveConfig : second.effectiveConfig = first.effectiveConfig
  pendingMembership : second.pendingMembership = first.pendingMembership

/-- What one node's operation does to the history and what it sends. -/
structure Moved (voters : Finset NodeId) (snapshots : Prop) (before : History) (id : NodeId)
    (answers : Option Envelope) (result : RaftNode × List Envelope) (after : History) : Prop where
  steps : Replication.Steps voters id before after
  sane : Sane voters after
  here : Local voters snapshots after id result.1
  told : ∀ env ∈ result.2, ∀ image, after.log id <+: image → Told voters snapshots after image answers env
  signed : ∀ env ∈ result.2, env.sender = id ∧
    ∀ response, env.message = .appendResponse response → response.term = after.term id

/-- An operation that only extends the log, within its term. -/
structure Extended (voters : Finset NodeId) (snapshots : Prop) (before : History) (id : NodeId)
    (answers : Option Envelope) (result : RaftNode × List Envelope) (after : History) : Prop extends
    Moved voters snapshots before id answers result after where
  longer : before.log id <+: after.log id
  steady : after.term id = before.term id

abbrev Moves (voters : Finset NodeId) (snapshots : Prop) (before : History) (id : NodeId) (answers : Option Envelope)
    (result : RaftNode × List Envelope) : Prop :=
  ∃ after, Moved voters snapshots before id answers result after

abbrev Extends (voters : Finset NodeId) (snapshots : Prop) (before : History) (id : NodeId)
    (answers : Option Envelope) (result : RaftNode × List Envelope) : Prop :=
  ∃ after, Extended voters snapshots before id answers result after

section
variable {voters : Finset NodeId} {snapshots : Prop} {history before middle after : History} {id : NodeId}
  {answers : Option Envelope} {node : RaftNode}
  {other : RaftNode} {result first last : RaftNode × List Envelope}

theorem Local.same (here : Local voters snapshots history id node) (same : Same node other) :
    Local voters snapshots history id other := by
  obtain ⟨config, currentTerm, votedFor, log, commitIndex, lastApplied, role, votesReceived, nextIndex, matchIndex,
    appliedEntries, effectiveConfig, pendingMembership⟩ := same
  constructor
  case own => rw [config]; exact here.own
  case term => rw [currentTerm]; exact here.term
  case vote => rw [votedFor]; exact here.vote
  case views => rw [log]; exact here.views
  case whole => rw [log]; exact here.whole
  case covered => rw [log, currentTerm]; exact here.covered
  case committed => rw [commitIndex, currentTerm]; exact here.committed
  case applied => rw [lastApplied, commitIndex]; exact here.applied
  case handed => rw [appliedEntries, lastApplied]; exact here.handed
  case nexts => rw [nextIndex]; exact here.nexts
  case voter => rw [role]; exact here.voter
  case config => rw [effectiveConfig]; exact here.config
  case peers => rw [config]; exact here.peers
  case pending => rw [pendingMembership]; exact here.pending
  case candidate =>
    rw [role]
    intro standing
    obtain ⟨votes, ballots, stood, fresh⟩ := here.candidate standing
    exact ⟨votesReceived ▸ votes, by rwa [votesReceived, currentTerm], by rwa [currentTerm], by rwa [currentTerm]⟩
  case leader =>
    rw [role]
    intro leading
    obtain ⟨leads, acked, chosen⟩ := here.leader leading
    exact ⟨by rwa [currentTerm], by rwa [matchIndex, currentTerm], by rwa [currentTerm, commitIndex]⟩

theorem Moved.silent (steps : Replication.Steps voters id before after) (sane : Sane voters after)
    (here : Local voters snapshots after id node) : Moved voters snapshots before id answers (node, []) after :=
  ⟨steps, sane, here, (fun _ inside => nomatch inside), fun _ inside => nomatch inside⟩

theorem Moved.still (sane : Sane voters history) (here : Local voters snapshots history id node) :
    Extended voters snapshots history id answers (node, []) history :=
  ⟨.silent .refl sane here, List.prefix_rfl, rfl⟩

theorem Extends.still (sane : Sane voters history) (here : Local voters snapshots history id node) :
    Extends voters snapshots history id answers (node, []) :=
  ⟨history, Moved.still sane here⟩

theorem Extends.moves (extends_ : Extends voters snapshots before id answers result) :
    Moves voters snapshots before id answers result := by
  obtain ⟨after, moved⟩ := extends_
  exact ⟨after, moved.toMoved⟩

theorem Moved.answer (sane : Sane voters history) (here : Local voters snapshots history id node) {sender : NodeId}
    {message : Message}
    (told : ∀ image, Told voters snapshots history image answers (node.envelope sender message))
    (signed : ∀ response, message = .appendResponse response → response.term = node.currentTerm) :
    Moved voters snapshots history id answers (node, [node.envelope sender message]) history := by
  refine ⟨.refl, sane, here, ?_, ?_⟩
  · intro env sent image _
    rw [List.mem_singleton.mp sent]
    exact told image
  · intro env sent
    rw [List.mem_singleton.mp sent]
    refine ⟨here.own, fun response same => ?_⟩
    rw [here.term]
    exact signed response same

theorem Moved.andThen (moved : Moved voters snapshots before id answers first middle)
    (next : Extended voters snapshots middle id answers last after) :
    Moved voters snapshots before id answers (last.1, first.2 ++ last.2) after := by
  obtain ⟨_, growth, _⟩ := next.steps.keeps moved.sane.valid
  refine ⟨moved.steps.trans next.steps, next.sane, next.here, ?_, ?_⟩
  · intro env inside image longer
    rcases List.mem_append.mp inside with old | fresh
    · exact (moved.told env old image (next.longer.trans longer)).grow moved.sane.valid growth
    · exact next.told env fresh image longer
  · intro env inside
    rcases List.mem_append.mp inside with old | fresh
    · rw [next.steady]
      exact moved.signed env old
    · exact next.signed env fresh

theorem Extended.andThen (moved : Extended voters snapshots before id answers first middle)
    (next : Extended voters snapshots middle id answers last after) :
    Extended voters snapshots before id answers (last.1, first.2 ++ last.2) after :=
  ⟨moved.toMoved.andThen next, moved.longer.trans next.longer, next.steady.trans moved.steady⟩

theorem Extended.quiet (moved : Extended voters snapshots before id answers result after) :
    Extended voters snapshots before id answers (result.1, []) after :=
  ⟨.silent moved.steps moved.sane moved.here, moved.longer, moved.steady⟩

theorem Extended.same (moved : Extended voters snapshots before id answers result after)
    (same : Same result.1 other) : Extended voters snapshots before id answers (other, result.2) after :=
  ⟨⟨moved.steps, moved.sane, moved.here.same same, moved.told, moved.signed⟩, moved.longer, moved.steady⟩

section
variable (here : Local voters snapshots history id node) (sane : Sane voters history) (role : node.role = .leader)
include here sane role

theorem Local.book : history.log id = history.book node.currentTerm :=
  (sane.valid.led _ _ (here.leader role).leads).2 here.term

theorem Local.last_own : 0 < (history.log id).length ∧
      (history.book node.currentTerm)[(history.log id).length - 1]?.map LogEntry.term = some node.currentTerm := by
  obtain ⟨opening, _, _, longer, own⟩ := sane.valid.opened _ _ (here.leader role).leads
  rw [here.book sane role]
  have bound : (history.book node.currentTerm).length - 1 < (history.book node.currentTerm).length := by omega
  have last : (history.book node.currentTerm)[(history.book node.currentTerm).length - 1] ∈
      (history.book node.currentTerm).drop opening.length := by
    refine List.mem_drop_iff_getElem.mpr ⟨(history.book node.currentTerm).length - 1 - opening.length, ?_, ?_⟩
    · omega
    · congr 1
      omega
  refine ⟨by omega, ?_⟩
  rw [List.getElem?_eq_getElem bound]
  exact congrArg some (own _ last)

end

end

section
variable {voters : Finset NodeId} {snapshots : Prop} {history : History} {id : NodeId}
  {answers : Option Envelope} {node : RaftNode}
  {peer : NodeId}

theorem Local.appendMessage_told (here : Local voters snapshots history id node) (sane : Sane voters history)
    (role : node.role = .leader) (distinct : peer ≠ id) {image : List LogEntry} (longer : history.log id <+: image) :
    Told voters snapshots history image answers (node.envelope peer (node.appendMessage peer)) := by
  have leads := (here.leader role).leads
  have book := here.book sane role
  have within := here.views.within
  have sender : node.config.id = id := here.own
  obtain ⟨nonempty, last⟩ := here.last_own sane role
  have forward : 0 < (node.nextIndex.lookup peer).getD (node.log.lastIndex + 1) := by
    cases found : node.nextIndex.lookup peer with
    | none => exact Nat.succ_pos _
    | some index => exact here.nexts peer index found
  unfold RaftNode.appendMessage
  generalize (node.nextIndex.lookup peer).getD (node.log.lastIndex + 1) = next at *
  simp only
  split
  next behind =>
    obtain ⟨data, stored⟩ := Option.isSome_iff_exists.mp (here.views.stored behind.2)
    have allowed : snapshots := by
      by_contra never
      have := here.whole never
      omega
    simp only [MemLog.snapshotView, stored, Option.map_some]
    refine ⟨allowed, ?_, ?_⟩
    · rw [RaftNode.envelope, Envelope.new, sender]
      exact distinct.symm
    · rw [RaftNode.envelope, Envelope.new, sender]
      refine ⟨leads, behind.2, book ▸ within, ?_, ?_, ?_⟩
      · rw [← book]
        exact (List.take_prefix_of_prefix longer within).symm
      · rw [← book]
        exact here.views.stamp behind.2
      · rw [← book]
        exact here.covered.carry (Nat.le_refl _) List.prefix_rfl
  next ahead =>
    have above : node.log.lastIncludedIndex < next := by omega
    refine ⟨?_, ?_, ?_⟩
    · rw [RaftNode.envelope, Envelope.new, sender]
      exact distinct.symm
    · rw [RaftNode.envelope, Envelope.new, sender]
      exact leads
    simp only
    rw [here.views.entries_from above]
    rcases Nat.lt_or_ge (history.log id).length (next - 1) with beyond | inside
    · refine Or.inl ⟨by omega, ?_⟩
      rw [here.views.term_at (by omega) (by omega), List.getElem?_eq_none (by omega)]
      rfl
    · right
      have length : next - 1 + ((history.log id).drop (next - 1)).length = (history.log id).length := by
        rw [List.length_drop]
        omega
      constructor <;> simp only [length]
      · exact nonempty
      · rw [← book]
      · rw [← book, List.take_length]
      · intro positive
        rw [here.views.term_at (by omega) (by omega), ← book, List.getElem?_eq_getElem (by omega)]
        rfl
      · exact last
      · rw [← book, List.take_length]
        exact here.committed

theorem appendTargets_distinct (self : RaftNode) (peers : ∀ peer ∈ self.config.peers, peer ≠ self.config.id) :
    ∀ peer ∈ self.appendTargets, peer ≠ self.config.id := by
  unfold RaftNode.appendTargets
  generalize self.nextIndex.keys = keys
  generalize self.config.peers = targets at peers
  induction keys generalizing targets with
  | nil => exact peers
  | cons key rest ih =>
    refine ih _ ?_
    dsimp only
    split
    next fresh =>
      intro peer inside
      rcases List.mem_append.mp inside with old | last
      · exact peers peer old
      · rw [List.mem_singleton.mp last]
        exact fresh.1
    next => exact peers

section
variable (here : Local voters snapshots history id node) (sane : Sane voters history) (role : node.role = .leader)
include here sane role

theorem Local.sendAppendTo (distinct : peer ≠ id) :
    Extended voters snapshots history id answers (node.sendAppendTo peer) history := by
  refine ⟨⟨.refl, sane, here.same (by constructor <;> rfl), ?_, ?_⟩, List.prefix_rfl, rfl⟩
  · intro env inside image longer
    rw [List.mem_singleton.mp inside]
    exact here.appendMessage_told sane role distinct longer
  · intro env inside
    rw [List.mem_singleton.mp inside]
    refine ⟨here.own, fun response message => ?_⟩
    have shape : node.appendMessage peer = .appendResponse response := message
    rcases appendMessage_shape node peer with ⟨_, other⟩ | ⟨_, other⟩ <;> exact nomatch other.symm.trans shape

theorem Local.sendAppendToAll : Extended voters snapshots history id answers node.sendAppendToAll history := by
  obtain ⟨sequence, shape⟩ := sendAppendToAll_shape node
  have inside : id ∈ voters := here.voter (by rw [role]; decide)
  have apart : ∀ peer ∈ node.appendTargets, peer ≠ id := by
    have := appendTargets_distinct node fun peer member => here.own ▸ ((here.peers inside peer).mp member).2
    rwa [here.own] at this
  rw [shape]
  refine ⟨⟨.refl, sane, here.same (by constructor <;> rfl), ?_, ?_⟩, List.prefix_rfl, rfl⟩
  · intro env sent image longer
    obtain ⟨peer, member, rfl⟩ := List.mem_map.mp sent
    exact here.appendMessage_told sane role (apart peer member) longer
  · intro env sent
    obtain ⟨peer, member, rfl⟩ := List.mem_map.mp sent
    have single : Extended voters snapshots history id answers (node.sendAppendTo peer) history :=
      here.sendAppendTo sane role (apart peer member)
    exact single.signed _ (List.mem_singleton.mpr rfl)

end

theorem Extends.send (extends_ : Extends voters snapshots before id answers (node, [])) (role : node.role = .leader) :
    Extends voters snapshots before id answers node.sendAppendToAll := by
  obtain ⟨after, moved⟩ := extends_
  exact ⟨after, moved.andThen (moved.here.sendAppendToAll moved.sane role)⟩

end
end KayaDB.Raft
