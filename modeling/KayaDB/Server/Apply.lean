import KayaDB.Raft.Progress
import KayaDB.Raft.Stable
import KayaDB.Server.EventLoop

/-! What a node hands to its state machine: an installed snapshot first, applied entries
after it. As long as no snapshot is accepted that lies behind what has been applied, the
state machine only moves forward. -/

namespace KayaDB.Server
open Raft RaftNode

namespace Handed

def index : Handed → Nat
  | .snapshot index _ _ => index
  | .entry index _ _ => index

/-- An entry continues right after the index before; a snapshot may jump ahead. -/
def Follows (last : Nat) : Handed → Prop
  | .snapshot index _ _ => last < index
  | .entry index _ _ => index = last + 1

def isEntry (index : Nat) : Handed → Bool
  | .snapshot _ _ _ => false
  | .entry own _ _ => own == index

end Handed

/-- Every item follows the one before it, the first one the index `last`. -/
def InOrder : Nat → List Handed → Prop
  | _, [] => True
  | last, item :: rest => item.Follows last ∧ InOrder item.index rest

def newest : Nat → List Handed → Nat
  | last, [] => last
  | _, item :: rest => newest item.index rest

def snapshotFloor : Nat → List Handed → Nat
  | floor, [] => floor
  | _, .snapshot index _ _ :: rest => snapshotFloor index rest
  | floor, .entry _ _ _ :: rest => snapshotFloor floor rest

variable {last : Nat} {node : RaftNode}

theorem Handed.Follows.lt {item : Handed} (follows : item.Follows last) : last < item.index := by
  cases item with
  | snapshot index term data => exact follows
  | entry index term command => exact (Nat.lt_succ_self last).trans_eq follows.symm

namespace InOrder
variable {last floor index : Nat} {items more : List Handed}

section
variable (ordered : InOrder last items)
include ordered

theorem append (rest : InOrder (newest last items) more) : InOrder last (items ++ more) := by
  induction items generalizing last with
  | nil => exact rest
  | cons item items ih => exact ⟨ordered.1, ih ordered.2 rest⟩

theorem above : ∀ item ∈ items, last < item.index := by
  induction items generalizing last with
  | nil => exact fun _ inside => nomatch inside
  | cons head items ih =>
    intro item inside
    rcases List.mem_cons.mp inside with rfl | later
    · exact ordered.1.lt
    · exact ordered.1.lt.trans (ih ordered.2 item later)

theorem increasing : (items.map Handed.index).Pairwise (· < ·) := by
  induction items generalizing last with
  | nil => exact List.Pairwise.nil
  | cons head items ih =>
    refine List.Pairwise.cons (fun index inside => ?_) (ih ordered.2)
    obtain ⟨item, later, rfl⟩ := List.mem_map.mp inside
    exact ordered.2.above item later

theorem le_newest : last ≤ newest last items := by
  induction items generalizing last with
  | nil => exact Nat.le_refl _
  | cons item items ih => exact ordered.1.lt.le.trans (ih ordered.2)

theorem floor_le (below : floor ≤ last) : floor ≤ snapshotFloor floor items := by
  induction items generalizing last floor with
  | nil => exact Nat.le_refl _
  | cons item items ih =>
    cases item with
    | snapshot index term data => exact (below.trans ordered.1.lt.le).trans (ih ordered.2 (Nat.le_refl _))
    | entry index term command => exact ih ordered.2 (below.trans ordered.1.lt.le)

theorem count (below : floor ≤ last) (past : snapshotFloor floor items < index)
    (reached : index ≤ newest last items) : items.countP (Handed.isEntry index) = if last < index then 1 else 0 := by
  induction items generalizing last floor with
  | nil => exact (if_neg (Nat.not_lt.mpr reached)).symm
  | cons item items ih =>
    cases item with
    | snapshot own term data =>
      have after := ordered.2.floor_le (Nat.le_refl own)
      have jump := ordered.1.lt
      have rest := ih ordered.2 (Nat.le_refl own) past reached
      rw [List.countP_cons, rest]
      change last < own at jump
      change own ≤ snapshotFloor own items at after
      change snapshotFloor own items < index at past
      change (if own < index then 1 else 0) + (if false = true then 1 else 0) = _
      rw [if_pos (by omega), if_neg Bool.false_ne_true, if_pos (by omega)]
    | entry own term command =>
      have next : own = last + 1 := ordered.1
      subst next
      have rest := ih ordered.2 (below.trans (Nat.le_succ _)) past reached
      rw [List.countP_cons, rest]
      change (if last + 1 < index then 1 else 0) + (if (last + 1 == index) = true then 1 else 0) = _
      rcases Nat.lt_trichotomy index (last + 1) with less | same | more
      · rw [if_neg (by omega), if_neg (by simp; omega), if_neg (by omega)]
      · rw [if_neg (by omega), if_pos (by simp [same]), if_pos (by omega)]
      · rw [if_pos more, if_neg (by simp; omega), if_pos (by omega)]

end

end InOrder

theorem newest_append (last : Nat) (items more : List Handed) :
    newest last (items ++ more) = newest (newest last items) more := by
  induction items generalizing last with
  | nil => rfl
  | cons item items ih => exact ih item.index

structure Replica where
  node : RaftNode
  handed : List Handed

def output (node : RaftNode) : List Handed :=
  (node.pendingSnapshot.toList.map fun (index, term, data) => .snapshot index term data) ++
    node.appliedEntries.map fun (index, term, command) => .entry index term command

/-- What reaches a node: the iterations of the event loop, with the payload a
compaction at their end would get, and what happens beside the loop. -/
inductive Arm where
  | loop (input : Input) (snapData : Bytes)
  | membershipChange (members : List ClusterMember)
  | transferLeadership (target : NodeId)

def Replica.step (parseMembers : Bytes → List ClusterMember) (replica : Replica) : Arm → Replica
  | .loop input snapData =>
    match react replica.node input with
    | (node, none) => { replica with node }
    | (node, some _) =>
      let (node, handed) := drainAndApply parseMembers snapData node
      { node, handed := replica.handed ++ handed }
  | .membershipChange members => { replica with node := (changeMembership replica.node members).1 }
  | .transferLeadership target => { replica with node := (replica.node.transferLeadership target).1 }

/-- A snapshot that is accepted lies ahead of everything applied, and all
applied entries have been drained. -/
def Ahead (node : RaftNode) : Arm → Prop
  | .loop (.message env) _ =>
    match env.message with
    | .installSnapshotRequest request => node.currentTerm ≤ request.term →
      node.lastApplied < request.lastIncludedIndex ∧ node.appliedEntries = []
    | _ => True
  | _ => True

/-- The undrained output of a node continues after `last` and ends at its
applied index; whatever is committed but not applied is in its log. -/
structure Lined (last : Nat) (node : RaftNode) : Prop where
  order : InOrder last (output node)
  reach : newest last (output node) = node.lastApplied
  floor : node.log.lastIncludedIndex ≤ node.lastApplied
  commit : node.commitIndex ≤ max node.lastApplied node.log.lastIndex

theorem installSnapshot_lastIndex_ge (log : MemLog) (upTo term : Nat) (data : Bytes) :
    log.lastIndex ≤ (log.installSnapshot upTo term data).lastIndex ∧
      (log.lastIncludedIndex < upTo → upTo ≤ (log.installSnapshot upTo term data).lastIndex) := by
  unfold MemLog.installSnapshot
  split
  next older => exact ⟨Nat.le_refl _, fun newer => absurd newer (by omega)⟩
  next newer =>
    rw [MemLog.lastIndex_eq, MemLog.lastIndex_eq]
    dsimp only
    rw [if_pos (by omega), List.length_drop]
    omega

namespace Lined
variable {last : Nat} {node other : RaftNode}

theorem undisturbed (lined : Lined last node) (kept : Undisturbed node other) : Lined last other := by
  have same : output other = output node := by rw [output, output, kept.pendingSnapshot, kept.appliedEntries]
  refine ⟨same ▸ lined.order, ?_, ?_, ?_⟩
  · rw [same, kept.lastApplied]
    exact lined.reach
  · rw [kept.floor, kept.lastApplied]
    exact lined.floor
  · have := kept.commit
    have := lined.commit
    have := kept.lastIndex_le
    rw [kept.lastApplied]
    omega

theorem hand (lined : Lined last node) (kept : Undisturbed { node with lastApplied := node.lastApplied + 1 } other)
    (term : Nat) (command : Bytes) :
    Lined last { other with appliedEntries := other.appliedEntries ++ [(node.lastApplied + 1, term, command)] } := by
  have applied : other.lastApplied = node.lastApplied + 1 := kept.lastApplied
  have whole : output { other with
      appliedEntries := other.appliedEntries ++ [(node.lastApplied + 1, term, command)] } =
        output node ++ [.entry (node.lastApplied + 1) term command] := by
    rw [output, output]
    dsimp only
    rw [kept.pendingSnapshot, kept.appliedEntries, List.map_append, List.append_assoc]
    rfl
  refine ⟨?_, ?_, ?_, ?_⟩
  · rw [whole]
    exact lined.order.append ⟨by rw [lined.reach]; rfl, trivial⟩
  · rw [whole, newest_append]
    exact applied.symm
  · change other.log.lastIncludedIndex ≤ other.lastApplied
    rw [kept.floor, applied]
    exact lined.floor.trans (Nat.le_succ _)
  · change other.commitIndex ≤ max other.lastApplied other.log.lastIndex
    have raised : other.commitIndex ≤ max node.commitIndex other.log.lastIndex := kept.commit
    have longer : node.log.lastIndex ≤ other.log.lastIndex := kept.lastIndex_le
    have bound := lined.commit
    omega

theorem applyNext (lined : Lined last node) (more : node.lastApplied < node.commitIndex) :
    Lined last node.applyNext.1 := by
  have floor := lined.floor
  have commit := lined.commit
  rw [MemLog.lastIndex_eq] at commit
  unfold RaftNode.applyNext
  dsimp only
  split
  next missing =>
    rw [MemLog.get, if_neg (by omega)] at missing
    have := List.getElem?_eq_none_iff.mp missing
    omega
  next entry _ => exact lined.hand (Modest.applyEntry _ entry).toUndisturbed entry.term entry.command

theorem stable : Stable (Lined last) := ⟨fun kept lined => lined.undisturbed kept, fun more lined => lined.applyNext more⟩

/-- A log may be cut by a conflicting entry; since everything committed has
been applied, nothing committed is waiting in the part that is cut. -/
theorem onAppendRequest (lined : Lined last node) (rested : node.commitIndex ≤ node.lastApplied) (sender : NodeId)
    (request : AppendRequest) : Lined last (node.onAppendRequest sender request).1 := by
  unfold RaftNode.onAppendRequest
  split
  next => exact lined
  next =>
    dsimp only
    split
    next => exact stable.of_fields lined rfl rfl rfl rfl rfl
    next =>
      refine ⟨lined.order, lined.reach, ?_, ?_⟩
      · dsimp only
        rw [mergeEntries_lastIncludedIndex]
        exact lined.floor
      · dsimp only
        split <;> omega

theorem install (lined : Lined last node) {upTo : Nat} (term : Nat) (data : Bytes) (later : node.lastApplied < upTo)
    (drained : node.appliedEntries = []) :
    Lined last { node with
      log := node.log.installSnapshot upTo term data
      commitIndex := max node.commitIndex upTo
      lastApplied := max node.lastApplied upTo
      pendingSnapshot := some (upTo, term, data) } := by
  obtain ⟨longer, covering⟩ := installSnapshot_lastIndex_ge node.log upTo term data
  have floor := lined.floor
  have commit := lined.commit
  have reached := lined.order.le_newest.trans_eq lined.reach
  refine ⟨?_, ?_, ?_, ?_⟩
  · simp only [output, drained]
    exact ⟨reached.trans_lt later, trivial⟩
  · simp only [output, drained]
    exact (Nat.max_eq_right (Nat.le_of_lt later)).symm
  · dsimp only
    rcases node.log.installSnapshot_cases upTo term data with same | same <;> rw [same] <;> omega
  · have := covering (by omega)
    dsimp only
    omega

theorem onInstallSnapshotRequest (lined : Lined last node) (sender : NodeId) {request : InstallSnapshotRequest}
    (ahead : node.currentTerm ≤ request.term →
      node.lastApplied < request.lastIncludedIndex ∧ node.appliedEntries = []) :
    Lined last (node.onInstallSnapshotRequest sender request).1 := by
  unfold RaftNode.onInstallSnapshotRequest
  split
  next => exact lined
  next accepted =>
    obtain ⟨later, drained⟩ := ahead (Nat.not_lt.mp accepted)
    dsimp only
    split
    next =>
      have stepped : Lined last (node.stepDown request.term) := stable.of_fields lined rfl rfl rfl rfl rfl
      exact stepped.install request.lastIncludedTerm request.data later drained
    next => exact lined.install request.lastIncludedTerm request.data later drained

end Lined

/-- Everything committed has been applied, and the undrained output is in line. -/
structure Resting (last : Nat) (node : RaftNode) : Prop extends Lined last node where
  rested : node.commitIndex ≤ node.lastApplied

namespace Resting
variable {last : Nat} {node other : RaftNode}

theorem of_applied (lined : Lined last node) : Resting last node.tryAdvanceApply.1 :=
  ⟨Lined.stable.tryAdvanceApply lined, tryAdvanceApply_complete node⟩

section
variable (resting : Resting last node)
include resting

theorem tick : Resting last node.tick.1 :=
  of_applied (Lined.stable.turn resting.toLined (.tickTimers node))

theorem handle {env : Envelope} {snapData : Bytes} (ahead : Ahead node (.loop (.message env) snapData)) :
    Resting last (node.handle env).1 := by
  have kept := Calm.observeTerm node env.message.term
  have lined := resting.undisturbed kept.toUndisturbed
  have rested : (node.observeTerm env.message.term).commitIndex ≤ (node.observeTerm env.message.term).lastApplied := by
    rcases observeTerm_cases node env.message.term with ⟨-, same⟩ | ⟨-, same⟩ <;> rw [same] <;> exact resting.rested
  refine of_applied (Lined.stable.dispatch lined env.sender (fun request _ => lined.onAppendRequest rested _ request)
    fun request message => lined.onInstallSnapshotRequest _ fun current => ?_)
  have raised := observeTerm_le node env.message.term
  unfold Ahead at ahead
  simp only [message] at ahead
  rw [kept.lastApplied, kept.appliedEntries]
  refine ahead (le_trans ?_ current)
  rcases observeTerm_cases node env.message.term with ⟨later, same⟩ | ⟨-, same⟩ <;> rw [same]
  exact later.le

theorem course {result : RaftNode × List Envelope} (course : Course node result) : Resting last result.1 := by
  cases course with
  | still modest commit =>
    refine ⟨resting.undisturbed modest.toUndisturbed, ?_⟩
    rw [commit, modest.lastApplied]
    exact resting.rested
  | applied modest => exact of_applied (resting.undisturbed modest.toUndisturbed)

theorem proposeRead (requestId : UInt64) : Resting last (node.proposeRead requestId).1 := by
  rcases proposeRead_cases node requestId with same | ⟨-, same⟩ <;> rw [same]
  · exact resting
  · have queued : Lined last (node.queueRead requestId) := Lined.stable.of_fields resting.toLined rfl rfl rfl rfl rfl
    have checked := checkPendingReads_same (node.queueRead requestId)
    refine ⟨queued.undisturbed (.checkPendingReads _), ?_⟩
    dsimp only
    rw [checked.commitIndex, checked.lastApplied]
    exact resting.rested

end

end Resting

theorem restoreMembers_shape (parseMembers : Bytes → List ClusterMember) (installed : Option (Nat × Nat × Bytes))
    (node : RaftNode) : Undisturbed node (restoreMembers parseMembers installed node) ∧
      (restoreMembers parseMembers installed node).commitIndex = node.commitIndex := by
  rcases restoreMembers_cases parseMembers installed node with same | ⟨members, same⟩ <;> rw [same]
  · exact ⟨.refl node, rfl⟩
  · refine ⟨(Modest.settleConfig node members).toUndisturbed, ?_⟩
    obtain ⟨next, matched, shape⟩ := (seeded_members { node.adoptConfig (.stable (.fromVoters
      (ClusterMember.voterIds members))) members with pendingMembership := none } members).shape
    rw [RaftNode.settleConfig, shape]
    rfl

theorem Resting.of_drained (snapshot : node.pendingSnapshot = none) (entries : node.appliedEntries = [])
    (floor : node.log.lastIncludedIndex ≤ node.lastApplied) (rested : node.commitIndex ≤ node.lastApplied) :
    Resting node.lastApplied node := by
  have empty : output node = [] := by
    rw [output, snapshot, entries]
    rfl
  refine ⟨⟨?_, ?_, floor, by omega⟩, rested⟩
  · rw [empty]
    trivial
  · rw [empty]
    rfl

theorem Resting.maybeCompactRaftLog (node : RaftNode) (snapData : Bytes) (snapshot : node.pendingSnapshot = none)
    (entries : node.appliedEntries = []) (floor : node.log.lastIncludedIndex ≤ node.lastApplied)
    (rested : node.commitIndex ≤ node.lastApplied) :
    Resting node.lastApplied (maybeCompactRaftLog node snapData) := by
  unfold Server.maybeCompactRaftLog
  split
  next =>
    have applied : (node.compact node.lastApplied node.currentTerm snapData).lastApplied = node.lastApplied :=
      Nat.max_self _
    have drained : Resting (node.compact node.lastApplied node.currentTerm snapData).lastApplied
        (node.compact node.lastApplied node.currentTerm snapData) := by
      refine .of_drained snapshot ?_ ?_ ?_
      · change node.appliedEntries.dropWhile _ = []
        rw [entries]
        rfl
      · rw [applied]
        rcases node.log.installSnapshot_cases node.lastApplied node.currentTerm snapData with same | same
        · exact same.trans_le floor
        · exact same.le
      · rw [applied]
        exact Nat.max_le.mpr ⟨rested, Nat.le_refl _⟩
    rw [applied] at drained
    exact drained
  next => exact .of_drained snapshot entries floor rested

/-- All that was handed out is in order, and what comes next continues it. -/
structure Forward (replica : Replica) : Prop where
  order : InOrder 0 replica.handed
  resting : Resting (newest 0 replica.handed) replica.node

variable {parseMembers : Bytes → List ClusterMember} {replica : Replica}

theorem Resting.react (resting : Resting last node) {input : Input} {snapData : Bytes}
    (ahead : Ahead node (.loop input snapData)) : Resting last (react node input).1 := by
  cases input with
  | tick => exact resting.tick
  | message env => exact resting.handle ahead
  | propose command =>
    have proposed := resting.course (.propose node command)
    rcases react_propose node command with same | same <;> rw [same]
    · exact resting
    · exact proposed.course (.broadcast _)
  | proposeRead requestId =>
    have proposed := resting.proposeRead requestId
    rcases react_proposeRead node requestId with same | same <;> rw [same]
    · exact resting
    · exact proposed.course (.broadcast _)

theorem Resting.changeMembership (resting : Resting last node) (members : List ClusterMember) :
    Resting last (changeMembership node members).1 := by
  have proposed := resting.course (.proposeMembershipChange node members)
  rcases changeMembership_cases node members with same | same <;> rw [same]
  · exact proposed
  · exact proposed.course (.broadcast _)

theorem Resting.drainAndApply (resting : Resting last node) (snapData : Bytes) :
    (drainAndApply parseMembers snapData node).2 = output node ∧
      Resting node.lastApplied (drainAndApply parseMembers snapData node).1 := by
  obtain ⟨kept, commit⟩ : Undisturbed { node with pendingSnapshot := none } (restored parseMembers node) ∧
    (restored parseMembers node).commitIndex = node.commitIndex := restoreMembers_shape parseMembers _ _
  rw [drainAndApply_eq]
  generalize restored parseMembers node = restored at *
  have applied : restored.lastApplied = node.lastApplied := kept.lastApplied
  have drained := Resting.maybeCompactRaftLog { restored with appliedEntries := [], readyReads := [] }
    snapData kept.pendingSnapshot rfl (by
      change restored.log.lastIncludedIndex ≤ restored.lastApplied
      rw [kept.floor, applied]
      exact resting.floor) (by
      change restored.commitIndex ≤ restored.lastApplied
      rw [commit, applied]
      exact resting.rested)
  refine ⟨?_, applied ▸ drained⟩
  dsimp only
  rw [output, kept.appliedEntries]

theorem Forward.step (forward : Forward replica) {arm : Arm} (ahead : Ahead replica.node arm) :
    Forward (replica.step parseMembers arm) := by
  obtain ⟨order, resting⟩ := forward
  cases arm with
  | loop input snapData =>
    have reacted := resting.react ahead
    unfold Replica.step
    dsimp only
    split
    next node result =>
      rw [result] at reacted
      exact ⟨order, reacted⟩
    next node sent result =>
      rw [result] at reacted
      obtain ⟨whole, drained⟩ : (drainAndApply parseMembers snapData node).2 = output node ∧
        Resting node.lastApplied (drainAndApply parseMembers snapData node).1 := reacted.drainAndApply snapData
      refine ⟨?_, ?_⟩
      · dsimp only
        rw [whole]
        exact order.append reacted.order
      · dsimp only
        rw [whole, newest_append, reacted.reach]
        exact drained
  | membershipChange members => exact ⟨order, resting.changeMembership members⟩
  | transferLeadership target => exact ⟨order, resting.course (.transferLeadership _ target)⟩

/-- The states of a fresh node's server in which every accepted snapshot lies
ahead of what has been applied. -/
abbrev Replica.Reaches (parseMembers : Bytes → List ClusterMember) : Replica → Replica → Prop :=
  Runs.Reaches (step parseMembers) fun replica => Ahead replica.node

abbrev Replica.Permits (parseMembers : Bytes → List ClusterMember) : Replica → List Arm → Prop :=
  Runs.Permits (step parseMembers) fun replica => Ahead replica.node

def Replica.fresh (config : RaftConfig) : Replica := ⟨.new config, []⟩

/-- The state machine never moves backwards: indices strictly increase, every
entry follows its predecessor directly, and past the last snapshot each index
up to the newest is handed out exactly once. -/
theorem handed_in_order {config : RaftConfig}
    (reached : Replica.Reaches parseMembers (.fresh config) replica) :
    InOrder 0 replica.handed ∧ (replica.handed.map Handed.index).Pairwise (· < ·) ∧
      ∀ index, snapshotFloor 0 replica.handed < index → index ≤ newest 0 replica.handed →
        replica.handed.countP (Handed.isEntry index) = 1 := by
  have blank : Resting (RaftNode.new config).lastApplied (RaftNode.new config) :=
    .of_drained rfl rfl (Nat.le_refl _) (Nat.le_refl _)
  have forward : Forward replica := reached.invariant Forward ⟨trivial, blank⟩ fun forward => forward.step
  refine ⟨forward.order, forward.order.increasing, fun index past reached => ?_⟩
  rw [forward.order.count (Nat.le_refl 0) past reached, if_pos (by omega)]

def Replica.run (parseMembers : Bytes → List ClusterMember) (replica : Replica) (arms : List Arm) : Replica :=
  arms.foldl (step parseMembers) replica

def fromLeader (message : Message) : Arm := .loop (.message (.new ⟨1⟩ ⟨2⟩ message)) []

def secondOfTwo : RaftConfig := ⟨⟨2⟩, [⟨1⟩], 10, 1⟩

def twoEntries : Arm := fromLeader (.appendRequest ⟨1, ⟨1⟩, 0, 0, [⟨1, [7]⟩, ⟨1, [8]⟩], 2⟩)

def laterSnapshot : Arm := fromLeader (.installSnapshotRequest ⟨1, ⟨1⟩, 5, 1, []⟩)

def nextEntry : Arm := fromLeader (.appendRequest ⟨1, ⟨1⟩, 5, 1, [⟨1, [9]⟩], 6⟩)

theorem handed_in_order_past_a_snapshot :
    (Replica.run (fun _ => []) (.fresh secondOfTwo) [twoEntries, laterSnapshot, nextEntry]).handed =
        [.entry 1 1 [7], .entry 2 1 [8], .snapshot 5 1 [], .entry 6 1 [9]] ∧
      ((Replica.run (fun _ => []) (.fresh secondOfTwo) [twoEntries, laterSnapshot, nextEntry]).handed.map
        Handed.index).Pairwise (· < ·) :=
  have permitted : Replica.Permits (fun _ => []) (.fresh secondOfTwo) [twoEntries, laterSnapshot, nextEntry] :=
    ⟨trivial, fun _ => ⟨by decide +kernel, by decide +kernel⟩, trivial, trivial⟩
  ⟨by decide +kernel, (handed_in_order permitted.reaches).2.1⟩

/-- A delayed snapshot is installed over entries applied after it was made. -/
theorem stale_snapshot_is_handed_out :
    (Replica.run (fun _ => []) (.fresh secondOfTwo)
      [twoEntries, fromLeader (.installSnapshotRequest ⟨1, ⟨1⟩, 1, 1, []⟩)]).handed =
        [.entry 1 1 [7], .entry 2 1 [8], .snapshot 1 1 []] := by
  decide +kernel

end KayaDB.Server
