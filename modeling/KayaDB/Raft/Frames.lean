import KayaDB.Raft.Merge
import KayaDB.Raft.Outcomes

/-! What operations leave alone. Only a snapshot message or a compaction moves the
snapshot; all else extends the log at most, and nothing that is sent meanwhile tells of
a vote or carries another snapshot. -/

namespace KayaDB.Raft
open RaftNode

structure LogGrows (first second : MemLog) : Prop where
  floor : second.lastIncludedIndex = first.lastIncludedIndex
  longer : first.entries <+: second.entries

structure Undisturbed (first second : RaftNode) : Prop extends LogGrows first.log second.log where
  lastApplied : second.lastApplied = first.lastApplied
  appliedEntries : second.appliedEntries = first.appliedEntries
  pendingSnapshot : second.pendingSnapshot = first.pendingSnapshot
  commit : second.commitIndex ≤ max first.commitIndex second.log.lastIndex

/-- No read is confirmed or acknowledged; pending reads may be dropped. -/
structure ReadsKept (first second : RaftNode) : Prop where
  pendingReads : second.pendingReads ⊆ first.pendingReads
  readyReads : second.readyReads ⊆ first.readyReads

/-- Identity, term and vote are the same. -/
structure Loyal (first second : RaftNode) : Prop where
  id : second.config.id = first.config.id
  currentTerm : second.currentTerm = first.currentTerm
  votedFor : second.votedFor = first.votedFor

structure Calm (first second : RaftNode) : Prop extends Undisturbed first second, ReadsKept first second

structure Quiet (first second : RaftNode) : Prop extends Calm first second, Loyal first second

theorem LogGrows.refl (log : MemLog) : LogGrows log log := ⟨rfl, List.prefix_rfl⟩

theorem LogGrows.trans {first second third : MemLog} (left : LogGrows first second) (right : LogGrows second third) :
    LogGrows first third :=
  ⟨right.floor.trans left.floor, left.longer.trans right.longer⟩

theorem LogGrows.lastIndex_le {first second : MemLog} (grows : LogGrows first second) :
    first.lastIndex ≤ second.lastIndex := by
  rw [MemLog.lastIndex_eq, MemLog.lastIndex_eq, grows.floor]
  exact Nat.add_le_add_left grows.longer.length_le _

theorem LogGrows.get {first second : MemLog} (grows : LogGrows first second) {index : Nat} {entry : LogEntry}
    (found : first.get index = some entry) : second.get index = some entry := by
  unfold MemLog.get at found ⊢
  rw [grows.floor]
  split at found
  next => cases found
  next stored =>
    obtain ⟨more, same⟩ := grows.longer
    rw [if_neg stored, ← same, List.getElem?_append_left (List.getElem?_eq_some_iff.mp found).1]
    exact found

theorem MemLog.lastIndex_of_get {log : MemLog} {index : Nat} {entry : LogEntry} (found : log.get index = some entry) :
    index ≤ log.lastIndex := by
  unfold MemLog.get at found
  split at found
  next => cases found
  next stored =>
    have bound := (List.getElem?_eq_some_iff.mp found).1
    rw [MemLog.lastIndex_eq]
    omega

theorem Undisturbed.refl (node : RaftNode) : Undisturbed node node :=
  ⟨.refl node.log, rfl, rfl, rfl, Nat.le_max_left _ _⟩

variable {first second third : RaftNode}

theorem Undisturbed.trans (left : Undisturbed first second) (right : Undisturbed second third) :
    Undisturbed first third := by
  refine ⟨left.toLogGrows.trans right.toLogGrows, right.lastApplied.trans left.lastApplied,
    right.appliedEntries.trans left.appliedEntries, right.pendingSnapshot.trans left.pendingSnapshot, ?_⟩
  have := left.commit
  have := right.commit
  have := right.lastIndex_le
  omega

theorem ReadsKept.refl (node : RaftNode) : ReadsKept node node := ⟨fun _ inside => inside, fun _ inside => inside⟩

theorem ReadsKept.trans (left : ReadsKept first second) (right : ReadsKept second third) : ReadsKept first third :=
  ⟨fun _ inside => left.pendingReads (right.pendingReads inside),
    fun _ inside => left.readyReads (right.readyReads inside)⟩

theorem Loyal.refl (node : RaftNode) : Loyal node node := ⟨rfl, rfl, rfl⟩

theorem Loyal.trans (left : Loyal first second) (right : Loyal second third) : Loyal first third :=
  ⟨right.id.trans left.id, right.currentTerm.trans left.currentTerm, right.votedFor.trans left.votedFor⟩

theorem Calm.refl (node : RaftNode) : Calm node node := ⟨.refl node, .refl node⟩

theorem Calm.of_fields (log : second.log = first.log) (lastApplied : second.lastApplied = first.lastApplied)
    (entries : second.appliedEntries = first.appliedEntries)
    (snapshot : second.pendingSnapshot = first.pendingSnapshot) (pending : second.pendingReads ⊆ first.pendingReads)
    (ready : second.readyReads = first.readyReads) (commit : second.commitIndex = first.commitIndex) :
    Calm first second :=
  ⟨⟨log ▸ .refl first.log, lastApplied, entries, snapshot,
    commit ▸ Nat.le_max_left _ _⟩, pending, ready ▸ fun _ inside => inside⟩

theorem Quiet.trans (left : Quiet first second) (right : Quiet second third) : Quiet first third :=
  ⟨⟨left.toUndisturbed.trans right.toUndisturbed, left.toReadsKept.trans right.toReadsKept⟩,
    left.toLoyal.trans right.toLoyal⟩

/-- The vote an envelope tells of: a candidate's own or a granted one. -/
def castVote (env : Envelope) : Option (Nat × NodeId) :=
  match env.message with
  | .voteRequest request => some (request.term, env.sender)
  | .voteResponse response => if response.voteGranted then some (response.term, env.receiver) else none
  | _ => none

def Silent (sent : List Envelope) : Prop := ∀ env ∈ sent, castVote env = none

theorem Silent.nil : Silent [] := fun _ inside => nomatch inside

theorem Silent.append {first second : List Envelope} (left : Silent first) (right : Silent second) :
    Silent (first ++ second) :=
  fun env inside => (List.mem_append.mp inside).elim (left env) (right env)

theorem sendAppendTo_fold (targets : List NodeId) : ∀ (self : RaftNode) (out : List Envelope),
    ∃ sequence, targets.foldl (fun (self, out) peer =>
      let (self, sent) := RaftNode.sendAppendTo self peer
      (self, out ++ sent)) (self, out) =
        ({ self with lastSentAckSeq := sequence },
          out ++ targets.map fun peer => self.envelope peer (self.appendMessage peer)) := by
  induction targets with
  | nil => exact fun self out => ⟨self.lastSentAckSeq, by simp⟩
  | cons peer rest ih =>
    intro self out
    obtain ⟨sequence, same⟩ := ih { self with lastSentAckSeq := self.lastSentAckSeq.insert peer self.currentAckSeq }
      (out ++ [self.envelope peer (self.appendMessage peer)])
    refine ⟨sequence, same.trans ?_⟩
    simp only [List.map_cons, List.append_assoc, List.singleton_append]
    rfl

theorem sendAppendToAll_shape (self : RaftNode) : ∃ sequence, self.sendAppendToAll =
    ({ self with lastSentAckSeq := sequence },
      self.appendTargets.map fun peer => self.envelope peer (self.appendMessage peer)) :=
  sendAppendTo_fold self.appendTargets self []

theorem appendMessage_shape (self : RaftNode) (peer : NodeId) :
    (∃ request, self.appendMessage peer = .appendRequest request) ∨
      ∃ request, self.appendMessage peer = .installSnapshotRequest request := by
  unfold RaftNode.appendMessage
  dsimp only
  split
  next =>
    split
    · exact Or.inr ⟨_, rfl⟩
    · exact Or.inl ⟨_, rfl⟩
  next => exact Or.inl ⟨_, rfl⟩

variable {result : RaftNode × List Envelope}

/-- The stored snapshot and the one to be handed out are the same. -/
structure SameSnapshot (first second : RaftNode) : Prop where
  snapshot : second.log.snapshot = first.log.snapshot
  floor : second.log.lastIncludedIndex = first.log.lastIncludedIndex
  pending : second.pendingSnapshot = first.pendingSnapshot

/-- If the envelope carries a snapshot, it is the node's. -/
def CarriesOwn (node : RaftNode) (env : Envelope) : Prop :=
  ∀ request, env.message = .installSnapshotRequest request →
    node.log.snapshot = some request.data ∧ node.log.lastIncludedIndex = request.lastIncludedIndex

/-- An operation that changes no snapshot and sends none but the node's. -/
structure Ships (first : RaftNode) (result : RaftNode × List Envelope) : Prop where
  same : SameSnapshot first result.1
  own : ∀ env ∈ result.2, CarriesOwn first env

/-- An operation that neither votes nor changes a snapshot. -/
structure Routine (first : RaftNode) (result : RaftNode × List Envelope) : Prop
    extends Loyal first result.1, Ships first result where
  silent : Silent result.2

section
variable {env : Envelope}

theorem SameSnapshot.refl (node : RaftNode) : SameSnapshot node node := ⟨rfl, rfl, rfl⟩

theorem SameSnapshot.trans {third : RaftNode} (left : SameSnapshot first second) (right : SameSnapshot second third) :
    SameSnapshot first third :=
  ⟨right.snapshot.trans left.snapshot, right.floor.trans left.floor, right.pending.trans left.pending⟩

section
variable (same : SameSnapshot first second)
include same

theorem CarriesOwn.of_same (own : CarriesOwn second env) : CarriesOwn first env := by
  intro request carried
  rw [← same.snapshot, ← same.floor]
  exact own request carried

theorem SameSnapshot.ships : Ships first (second, []) := by
  refine ⟨same, ?_⟩
  rintro _ ⟨⟩

theorem SameSnapshot.answers (other : ∀ request, env.message ≠ .installSnapshotRequest request) :
    Ships first (second, [env]) := by
  refine ⟨same, fun sent inside request carried => ?_⟩
  cases List.mem_singleton.mp inside
  exact absurd carried (other request)

theorem Ships.precede (ships : Ships second result) : Ships first result :=
  ⟨same.trans ships.same, fun env inside => (ships.own env inside).of_same same⟩

end

theorem Ships.andThen {middle last : RaftNode × List Envelope} (left : Ships first middle)
    (right : Ships middle.1 last) : Ships first (last.1, middle.2 ++ last.2) := by
  refine ⟨left.same.trans right.same, fun env inside => ?_⟩
  rcases List.mem_append.mp inside with before | after
  · exact left.own env before
  · exact (right.own env after).of_same left.same

theorem Ships.follow (ships : Ships first result) (same : SameSnapshot result.1 second) :
    Ships first (second, result.2) :=
  ⟨ships.same.trans same, ships.own⟩

end

theorem silent_answer {env : Envelope} (told : castVote env = none) : Silent [env] :=
  fun _ inside => List.mem_singleton.mp inside ▸ told

theorem silent_append (node : RaftNode) (peer : NodeId) :
    castVote (node.envelope peer (node.appendMessage peer)) = none := by
  unfold castVote RaftNode.envelope Envelope.new
  rcases appendMessage_shape node peer with ⟨_, same⟩ | ⟨_, same⟩ <;> rw [same]

theorem appendMessage_own (node : RaftNode) (peer : NodeId) :
    CarriesOwn node (node.envelope peer (node.appendMessage peer)) := by
  intro request carried
  unfold RaftNode.envelope Envelope.new RaftNode.appendMessage at carried
  dsimp only at carried
  split at carried
  next =>
    split at carried
    next index term data viewed =>
      obtain ⟨stored, held, same⟩ := Option.map_eq_some_iff.mp viewed
      cases same
      cases carried
      exact ⟨held, rfl⟩
    next => cases carried
  next => cases carried

theorem Routine.still (loyal : Loyal first second) (same : SameSnapshot first second) : Routine first (second, []) :=
  ⟨loyal, same.ships, .nil⟩

theorem Routine.andThen {middle last : RaftNode × List Envelope} (left : Routine first middle)
    (right : Routine middle.1 last) : Routine first (last.1, middle.2 ++ last.2) :=
  ⟨left.toLoyal.trans right.toLoyal, left.toShips.andThen right.toShips, left.silent.append right.silent⟩

theorem lookup_insert_cases {map : PeerMap} {key peer : NodeId} {value index : Nat}
    (found : (map.insert key value).lookup peer = some index) :
    peer = key ∧ index = value ∨ peer ≠ key ∧ map.lookup peer = some index := by
  by_cases same : peer = key
  · subst same
    rw [AList.lookup_insert] at found
    exact Or.inl ⟨rfl, (Option.some.inj found).symm⟩
  · rw [AList.lookup_insert_ne same] at found
    exact Or.inr ⟨same, found⟩

theorem lookup_orInsert {map : PeerMap} {key peer : NodeId} {value index : Nat}
    (found : (orInsert map key value).lookup peer = some index) :
    map.lookup peer = some index ∨ index = value := by
  unfold orInsert at found
  split at found
  next => exact Or.inl found
  next =>
    rcases lookup_insert_cases found with ⟨-, fresh⟩ | ⟨-, old⟩
    · exact Or.inr fresh
    · exact Or.inl old

/-- Only the replication counters differ. -/
structure Seeded (first second : RaftNode) : Prop where
  shape : ∃ next matched, second = { first with nextIndex := next, matchIndex := matched }
  nexts : ∀ peer index, second.nextIndex.lookup peer = some index →
    first.nextIndex.lookup peer = some index ∨ 0 < index
  counts : ∀ peer index, second.matchIndex.lookup peer = some index →
    first.matchIndex.lookup peer = some index ∨ index = 0

theorem Seeded.refl (node : RaftNode) : Seeded node node :=
  ⟨⟨_, _, rfl⟩, fun _ _ => Or.inl, fun _ _ => Or.inl⟩

theorem Seeded.trans {first second third : RaftNode} (left : Seeded first second) (right : Seeded second third) :
    Seeded first third := by
  obtain ⟨_, _, rfl⟩ := left.shape
  obtain ⟨_, _, rfl⟩ := right.shape
  refine ⟨⟨_, _, rfl⟩, fun peer index found => ?_, fun peer index found => ?_⟩
  · rcases right.nexts peer index found with old | positive
    · exact left.nexts peer index old
    · exact Or.inr positive
  · rcases right.counts peer index found with old | zero
    · exact left.counts peer index old
    · exact Or.inr zero

theorem seeded_members (node : RaftNode) (members : List ClusterMember) :
    Seeded node (node.seedReplicationForMembers members) := by
  unfold RaftNode.seedReplicationForMembers
  generalize node.log.lastIndex = last
  simp only
  induction members generalizing node with
  | nil => exact Seeded.refl node
  | cons member rest ih =>
    rw [List.foldl_cons]
    refine Seeded.trans ?_ (ih _)
    split
    next => exact Seeded.refl node
    next =>
      refine ⟨⟨_, _, rfl⟩, fun peer index found => ?_, fun peer index found => ?_⟩
      · rcases lookup_orInsert found with old | fresh
        · exact Or.inl old
        · exact Or.inr (by omega)
      · exact lookup_orInsert found

/-- A quiet change, and what is sent with it. -/
structure Modest (first : RaftNode) (result : RaftNode × List Envelope) : Prop extends
    Quiet first result.1, Ships first result where
  silent : Silent result.2

def RaftNode.core (node : RaftNode) :=
  (node.log, node.lastApplied, node.appliedEntries, node.pendingSnapshot, node.commitIndex, node.pendingReads,
    node.readyReads, node.config.id, node.currentTerm, node.votedFor)

namespace Modest

theorem routine (modest : Modest first result) : Routine first result := ⟨modest.toLoyal, modest.toShips, modest.silent⟩

theorem of_quiet (quiet : Quiet first second) (snapshot : second.log.snapshot = first.log.snapshot) :
    Modest first (second, []) :=
  ⟨quiet, SameSnapshot.ships ⟨snapshot, quiet.floor, quiet.pendingSnapshot⟩, .nil⟩

theorem of_core (same : second.core = first.core) : Modest first (second, []) := by
  simp only [RaftNode.core, Prod.mk.injEq] at same
  obtain ⟨log, applied, entries, snapshot, commit, pending, ready, id, term, vote⟩ := same
  exact .of_quiet ⟨.of_fields log applied entries snapshot (pending ▸ List.Subset.refl _) ready commit, id, term, vote⟩
    (by rw [log])

theorem andThen {middle last : RaftNode × List Envelope} (left : Modest first middle) (right : Modest middle.1 last) :
    Modest first (last.1, middle.2 ++ last.2) :=
  ⟨left.toQuiet.trans right.toQuiet, left.toShips.andThen right.toShips, left.silent.append right.silent⟩

theorem precede (before : Modest first (second, [])) (modest : Modest second result) : Modest first result :=
  before.andThen modest

theorem after (modest : Modest second result) (same : second.core = first.core) : Modest first result :=
  (of_core same).precede modest

theorem follow (modest : Modest first result) (after : Modest result.1 (second, [])) :
    Modest first (second, result.2) :=
  ⟨modest.toQuiet.trans after.toQuiet, modest.toShips.follow after.same, modest.silent⟩

section
variable (node : RaftNode) (members : List ClusterMember)

theorem refl : Modest node (node, []) := of_core rfl

theorem appendOwn (command : Bytes) : Modest node (node.appendOwn command, []) :=
  of_quiet ⟨⟨⟨⟨rfl, List.prefix_append _ _⟩, rfl, rfl, rfl, Nat.le_max_left _ _⟩, List.Subset.refl _,
    List.Subset.refl _⟩, rfl, rfl, rfl⟩ rfl

theorem considerCommit_le (indices : List Nat) (last : Nat) :
    ∀ commit, (∀ index ∈ indices, index ≤ last) → indices.foldl node.considerCommit commit ≤ max commit last := by
  induction indices with
  | nil => exact fun commit _ => Nat.le_max_left _ _
  | cons index rest ih =>
    intro commit bounded
    have step : node.considerCommit commit index ≤ max commit last := by
      have := bounded index List.mem_cons_self
      unfold RaftNode.considerCommit
      split
      · omega
      · split <;> omega
    have := ih (node.considerCommit commit index) fun later inside => bounded later (List.mem_cons_of_mem _ inside)
    rw [List.foldl_cons]
    omega

theorem tryAdvanceCommit : Modest node (node.tryAdvanceCommit, []) := by
  unfold RaftNode.tryAdvanceCommit
  split
  next => exact refl node
  next =>
    refine of_quiet ⟨⟨⟨.refl _, rfl, rfl, rfl, ?_⟩, List.Subset.refl _, List.Subset.refl _⟩, rfl, rfl, rfl⟩ rfl
    refine considerCommit_le node _ node.log.lastIndex node.commitIndex fun index inside => ?_
    obtain ⟨low, high⟩ := List.mem_range'_1.mp inside
    omega

theorem send (peers : List NodeId) {other : RaftNode} (same : other.core = node.core) :
    Modest node (other, peers.map fun peer => node.envelope peer (node.appendMessage peer)) := by
  have kept := of_core same
  refine ⟨kept.toQuiet, ⟨kept.same, fun env inside => ?_⟩, fun env inside => ?_⟩
  · obtain ⟨peer, -, rfl⟩ := List.mem_map.mp inside
    exact appendMessage_own node peer
  · obtain ⟨peer, -, rfl⟩ := List.mem_map.mp inside
    exact silent_append node peer

theorem sendAppendToAll : Modest node node.sendAppendToAll := by
  obtain ⟨sequence, shape⟩ := sendAppendToAll_shape node
  rw [shape]
  exact send node _ rfl

theorem announce (command : Bytes) : Modest node ((node.appendOwn command).sendAppendToAll.1.tryAdvanceCommit,
    (node.appendOwn command).sendAppendToAll.2) :=
  ((appendOwn node command).precede (sendAppendToAll _)).follow (tryAdvanceCommit _)

theorem seeded (seeded : Seeded first second) : Modest first (second, []) := by
  obtain ⟨_, _, rfl⟩ := seeded.shape
  exact of_core rfl

theorem settleConfig : Modest node (node.settleConfig members, []) :=
  (seeded (seeded_members _ members)).after rfl

theorem stepDownKeepingVote : Modest node (node.stepDownKeepingVote, []) :=
  of_quiet ⟨.of_fields rfl rfl rfl rfl (List.nil_subset _) rfl rfl, rfl, rfl, rfl⟩ rfl

theorem leaveIfRemoved : Modest node (node.leaveIfRemoved, []) := by
  unfold RaftNode.leaveIfRemoved
  split
  · exact stepDownKeepingVote node
  · exact refl node

theorem applyJoint : Modest node (node.applyJoint members) := by
  unfold RaftNode.applyJoint
  have joined : Modest node ((node.adoptConfig (.joint node.effectiveConfig.stableConfig
      (.fromVoters (ClusterMember.voterIds members))) members).seedReplicationForMembers members, []) :=
    (seeded (seeded_members _ members)).after rfl
  dsimp only
  generalize (node.adoptConfig (.joint node.effectiveConfig.stableConfig
    (.fromVoters (ClusterMember.voterIds members))) members).seedReplicationForMembers members = self at *
  split
  next =>
    exact joined.precede ((announce { self with pendingMembership := none } _).after rfl)
  next => exact joined

theorem applyConfigCommand (phase : ConfigChangePhase) : Modest node (node.applyConfigCommand phase members) := by
  cases phase with
  | joint => exact (applyJoint node members).follow (leaveIfRemoved _)
  | final => exact (settleConfig node members).follow (leaveIfRemoved _)

theorem applyEntry (entry : LogEntry) : Modest node (node.applyEntry entry) := by
  unfold RaftNode.applyEntry
  split
  next phase members _ => exact applyConfigCommand node members phase
  next => exact refl node

theorem applyNext : ∃ result entries, Modest { node with lastApplied := node.lastApplied + 1 } result ∧
    node.applyNext = ({ result.1 with appliedEntries := entries }, result.2) := by
  unfold RaftNode.applyNext
  dsimp only
  split
  next => exact ⟨_, _, refl _, rfl⟩
  next entry _ => exact ⟨_, _, applyEntry _ entry, rfl⟩

theorem logJoint : Modest node (node.logJoint members, []) :=
  ((appendOwn { node with pendingMembership := some members } _).precede (seeded (seeded_members _ members))).after rfl

theorem onInstallSnapshotResponse (sender : NodeId) (response : InstallSnapshotResponse) :
    Modest node (node.onInstallSnapshotResponse sender response) := by
  unfold RaftNode.onInstallSnapshotResponse
  split
  next => exact refl node
  next => split <;> exact of_core rfl

end

end Modest

namespace Calm

theorem of_core (same : second.core = first.core) : Calm first second := (Modest.of_core same).toCalm

theorem observeTerm (node : RaftNode) (term : Nat) : Calm node (node.observeTerm term) := by
  rcases observeTerm_cases node term with ⟨-, same⟩ | ⟨-, same⟩ <;> rw [same]
  · exact of_fields rfl rfl rfl rfl (List.nil_subset _) rfl rfl
  · exact refl node

theorem onVoteRequest (node : RaftNode) (sender : NodeId) (request : VoteRequest) :
    Calm node (node.onVoteRequest sender request).1 := by
  rcases onVoteRequest_cases node sender request with same | ⟨-, same⟩ <;> rw [same]
  · exact refl node
  · exact of_fields rfl rfl rfl rfl (List.Subset.refl _) rfl rfl

theorem onConfigChangeRequest (node : RaftNode) (sender : NodeId) (request : ConfigChangeRequest) :
    Calm node (node.onConfigChangeRequest sender request).1 := by
  unfold RaftNode.onConfigChangeRequest
  split
  next => exact refl node
  next =>
    split
    · exact of_fields rfl rfl rfl rfl (List.nil_subset _) rfl rfl
    · exact refl node

end Calm

namespace Undisturbed

theorem checkPendingReads (node : RaftNode) : Undisturbed node node.checkPendingReads := by
  unfold RaftNode.checkPendingReads
  split <;> exact ⟨.refl _, rfl, rfl, rfl, Nat.le_max_left _ _⟩

theorem acknowledgeReads (node : RaftNode) (sender : NodeId) : Undisturbed node (node.acknowledgeReads sender) := by
  unfold RaftNode.acknowledgeReads
  split <;> exact ⟨.refl _, rfl, rfl, rfl, Nat.le_max_left _ _⟩

theorem onAppendResponse (node : RaftNode) (sender : NodeId) (response : AppendResponse) :
    Undisturbed node (node.onAppendResponse sender response).1 := by
  unfold RaftNode.onAppendResponse
  split
  next => exact refl node
  next =>
    have read : Undisturbed node
        (if response.term = node.currentTerm then node.acknowledgeReads sender else node) := by
      split
      · exact acknowledgeReads node sender
      · exact refl node
    generalize (if response.term = node.currentTerm then node.acknowledgeReads sender else node) = self at *
    dsimp only
    split
    next =>
      refine read.trans (trans ?_ (Modest.tryAdvanceCommit _).toUndisturbed)
      split <;> exact ⟨.refl _, rfl, rfl, rfl, Nat.le_max_left _ _⟩
    next => exact read.trans ⟨.refl _, rfl, rfl, rfl, Nat.le_max_left _ _⟩

end Undisturbed

theorem applyLoop_preserves (Keeps : RaftNode → RaftNode → Prop) (refl : ∀ node, Keeps node node)
    (trans : ∀ {first second third}, Keeps first second → Keeps second third → Keeps first third)
    (turn : ∀ node, Keeps node node.applyNext.1) (fuel : Nat) :
    ∀ node : RaftNode, Keeps node (applyLoop fuel node).1 := by
  induction fuel with
  | zero => exact refl
  | succ fuel ih =>
    intro node
    unfold applyLoop
    split
    next => exact trans (turn node) (ih node.applyNext.1)
    next => exact refl node

namespace LogGrows

theorem applyNext (node : RaftNode) : LogGrows node.log node.applyNext.1.log := by
  obtain ⟨result, entries, modest, same⟩ := Modest.applyNext node
  rw [same]
  exact modest.toLogGrows

end LogGrows
end KayaDB.Raft
