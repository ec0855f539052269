import KayaDB.Server.Durability
import KayaDB.Server.SnapshotPins

/-! Snapshots between the servers of a group. A compacted node keeps the bytes of
its snapshot in memory, for followers that have fallen behind; its files only
tell where the snapshot ends. -/

namespace KayaDB.Raft
open RaftNode

/-- The node has no snapshot but known ones. -/
structure Stocked (known : Nat → Bytes → Prop) (node : RaftNode) : Prop where
  log : ∀ data, node.log.snapshot = some data → known node.log.lastIncludedIndex data
  pending : ∀ index term data, node.pendingSnapshot = some (index, term, data) → known index data

def Carries (known : Nat → Bytes → Prop) (env : Envelope) : Prop :=
  ∀ request, env.message = .installSnapshotRequest request → known request.lastIncludedIndex request.data

/-- An operation that leaves and sends known snapshots only. -/
structure Provided (known : Nat → Bytes → Prop) (result : RaftNode × List Envelope) : Prop where
  node : Stocked known result.1
  sent : ∀ env ∈ result.2, Carries known env

section
variable {known : Nat → Bytes → Prop} {node : RaftNode}
  {data : Bytes} {index : Nat}

section
variable (stocked : Stocked known node)
include stocked

theorem Stocked.same {other : RaftNode} (same : SameSnapshot node other) : Stocked known other := by
  refine ⟨fun data stored => ?_, fun index term data pending => ?_⟩
  · rw [same.floor]
    exact stocked.log data (same.snapshot ▸ stored)
  · exact stocked.pending index term data (same.pending ▸ pending)

theorem Stocked.ships {result : RaftNode × List Envelope} (ships : Ships node result) : Provided known result := by
  refine ⟨stocked.same ships.same, fun env inside request carried => ?_⟩
  obtain ⟨stored, floor⟩ := ships.own env inside request carried
  rw [← floor]
  exact stocked.log _ stored

theorem Stocked.installSnapshot (fresh : known index data) (term : Nat) :
    ∀ stored, (node.log.installSnapshot index term data).snapshot = some stored →
      known (node.log.installSnapshot index term data).lastIncludedIndex stored := by
  unfold MemLog.installSnapshot
  split
  · exact stocked.log
  · rintro stored ⟨⟩
    exact fresh

theorem Stocked.onInstallSnapshotRequest (sender : NodeId) {request : InstallSnapshotRequest}
    (fresh : known request.lastIncludedIndex request.data) :
    Provided known (node.onInstallSnapshotRequest sender request) := by
  unfold RaftNode.onInstallSnapshotRequest
  split
  · apply stocked.ships
    apply (SameSnapshot.refl node).answers
    rintro _ ⟨⟩
  · have stepped : Stocked known (if node.currentTerm < request.term then node.stepDown request.term else node) := by
      split
      · exact stocked.same ⟨rfl, rfl, rfl⟩
      · exact stocked
    refine ⟨⟨stepped.installSnapshot fresh _, ?_⟩, ?_⟩
    · rintro index term data ⟨⟩
      exact fresh
    · intro env inside other carried
      cases List.mem_singleton.mp inside
      cases carried

theorem Stocked.handle {env : Envelope} (carries : Carries known env) : Provided known (node.handle env) := by
  have observed := stocked.same (.observeTerm node env.message.term)
  unfold RaftNode.handle thenApply
  generalize node.observeTerm env.message.term = self at *
  have handled : Provided known (self.dispatch env.sender env.message) := by
    by_cases shipped : ∃ request, env.message = .installSnapshotRequest request
    · obtain ⟨request, message⟩ := shipped
      rw [message]
      exact observed.onInstallSnapshotRequest _ (carries request message)
    · have conduct := Conduct.dispatch self env.sender env.message fun request message => shipped ⟨request, message⟩
      exact observed.ships conduct.toShips
  obtain ⟨applied, more⟩ := handled.node.ships (Routine.tryAdvanceApply _).toShips
  exact ⟨applied, fun sent inside => (List.mem_append.mp inside).elim (handled.sent sent) (more sent)⟩

theorem Stocked.compact (fresh : known index data) (term : Nat) :
    Stocked known (node.compact index term data) := ⟨stocked.installSnapshot fresh term, stocked.pending⟩

end

end

end KayaDB.Raft

namespace KayaDB.Server
open Raft RaftNode

/-- The snapshot of a server that compacts now, the state machine's part of it left
empty if that could not be made. -/
structure Capture where
  engine : Option Bytes
  members : List ClusterMember
  ranges : Bytes

def Capture.payload (capture : Capture) : Bytes :=
  buildSnapshotPayloadV2 (capture.engine.getD []) capture.members capture.ranges

/-- Where the server compacts, if it drains now and has come to a multiple of 64. -/
def compactsAt (process : Process) : Option Nat :=
  match process.phase with
  | .sending [] _ =>
    if 0 < process.node.lastApplied ∧ process.node.lastApplied % 64 = 0 then some process.node.lastApplied else none
  | _ => none

/-- Nothing but known snapshots is stored, sent or about to be sent. -/
structure Supplied (known : Nat → Bytes → Prop) (process : Process) : Prop where
  node : Stocked known process.node
  sent : ∀ env ∈ process.sent, Carries known env
  sending : ∀ out log, process.phase = .sending out log → ∀ env ∈ out, Carries known env

section
variable {known : Nat → Bytes → Prop} {process : Process} (parseMembers : Bytes → List ClusterMember)
  {node : RaftNode}

theorem stocked_react (stocked : Stocked known node) {input : Input}
    (carries : ∀ env, input = .message env → Carries known env) :
    Provided known ((react node input).1, (react node input).2.getD []) := by
  rcases react_cases node input with same | ⟨result, same, ⟨env, rfl, rfl⟩ | conduct⟩ <;> rw [same]
  · exact stocked.ships (SameSnapshot.refl node).ships
  · exact stocked.handle (carries env rfl)
  · exact stocked.ships conduct.toShips

theorem restoreMembers_lastApplied (installed : Option (Nat × Nat × Bytes)) (node : RaftNode) :
    (restoreMembers parseMembers installed node).lastApplied = node.lastApplied := by
  rcases restoreMembers_cases parseMembers installed node with same | ⟨members, same⟩ <;> rw [same]
  exact (Modest.settleConfig node members).lastApplied

theorem stocked_drainAndApply (stocked : Stocked known node) {snapData : Bytes}
    (fresh : 0 < node.lastApplied ∧ node.lastApplied % 64 = 0 → known node.lastApplied snapData) :
    Stocked known (drainAndApply parseMembers snapData node).1 := by
  have taken : Stocked known { node with pendingSnapshot := none } := by
    refine ⟨stocked.log, ?_⟩
    rintro _ _ _ ⟨⟩
  have drained : Stocked known { restored parseMembers node with appliedEntries := [], readyReads := [] } :=
    (taken.same (restoreMembers_routine parseMembers node.pendingSnapshot _).same).same ⟨rfl, rfl, rfl⟩
  have applied : (restored parseMembers node).lastApplied = node.lastApplied :=
    restoreMembers_lastApplied parseMembers _ _
  rw [drainAndApply_eq]
  unfold maybeCompactRaftLog
  split
  next due =>
    apply drained.compact
    dsimp only at due ⊢
    rw [applied] at due ⊢
    exact fresh due
  next => exact drained

theorem Supplied.mono {more : Nat → Bytes → Prop} (supplied : Supplied known process)
    (grows : ∀ index data, known index data → more index data) : Supplied more process where
  node := ⟨fun data stored => grows _ _ (supplied.node.log data stored),
    fun index term data pending => grows _ _ (supplied.node.pending index term data pending)⟩
  sent env inside request carried := grows _ _ (supplied.sent env inside request carried)
  sending out log underway env inside request carried :=
    grows _ _ (supplied.sending out log underway env inside request carried)

theorem load_snapshot {disk : DiskRaftStorage} (whole : disk.load.hardState.lastIncludedIndex = 0) :
    disk.load.log.snapshot = none := by
  have bare (frames : List LogFrame) : (framesToMemlog disk.load.hardState frames).snapshot = none := by
    unfold framesToMemlog
    rw [append_frames, if_neg (by omega)]
    rfl
  unfold DiskRaftStorage.load at bare whole ⊢
  dsimp only at bare whole ⊢
  split
  · exact bare _
  · rw [if_neg (by omega)]
    rfl

theorem stocked_start {persister : RaftPersister} (whole : persister.storage.load.hardState.lastIncludedIndex = 0)
    (config : RaftConfig) (floor : Nat) : Stocked known (persister.start config floor).2 := by
  have empty {node : RaftNode} (log : node.log.snapshot = none) (pending : node.pendingSnapshot = none) :
      Stocked known node := by
    refine ⟨fun data stored => ?_, fun index term data waiting => ?_⟩
    · cases log.symm.trans stored
    · cases pending.symm.trans waiting
  unfold RaftPersister.start
  cases loaded : persister.loadState with
  | none => exact empty rfl rfl
  | some state =>
    apply empty
    · unfold RaftPersister.loadState at loaded
      dsimp only at loaded
      split at loaded
      · cases loaded
      · cases loaded
        exact load_snapshot whole
    · rfl

/-- Steps that bring no unknown snapshot: messages carry known ones, a compaction
has made a known one, and a restart finds files that tell of none. -/
def Supplies (known : Nat → Bytes → Prop) (process : Process) : Event → Prop
  | .receive (.message env) => Carries known env
  | .drain snapData => ∀ index, compactsAt process = some index → known index snapData
  | .crash _ => process.persister.storage.load.hardState.lastIncludedIndex = 0
  | _ => True

theorem Supplied.step (supplied : Supplied known process) {event : Event} (supplies : Supplies known process event) :
    Supplied known (process.step parseMembers event) := by
  obtain ⟨node, sent, sending⟩ := supplied
  cases event with
  | receive input =>
    unfold Process.step
    dsimp only
    split
    · have carries : ∀ env, input = .message env → Carries known env := by
        rintro env rfl
        exact supplies
      obtain ⟨after, out⟩ := stocked_react node carries
      generalize react process.node input = result at after out
      obtain ⟨next, _ | answers⟩ := result
      · exact ⟨after, sent, sending⟩
      · refine ⟨after, sent, ?_⟩
        rintro _ _ ⟨⟩
        exact out
    · exact ⟨node, sent, sending⟩
  | send =>
    unfold Process.step
    dsimp only
    split
    next env rest log underway =>
      have first := sending _ _ underway
      refine ⟨node, fun other inside => ?_, ?_⟩
      · rcases List.mem_append.mp inside with old | new
        · exact sent other old
        · cases List.mem_singleton.mp new
          exact first env List.mem_cons_self
      · rintro _ _ ⟨⟩ other inside
        exact first other (List.mem_cons_of_mem _ inside)
    · exact ⟨node, sent, sending⟩
  | drain snapData =>
    unfold Process.step
    dsimp only
    split
    next log underway =>
      refine ⟨stocked_drainAndApply parseMembers node fun due => ?_, sent, ?_⟩
      · apply supplies
        simp [compactsAt, underway, due]
      · rintro _ _ ⟨⟩
    · exact ⟨node, sent, sending⟩
  | saveHardState =>
    unfold Process.step
    dsimp only
    split
    · split
      · refine ⟨node, sent, ?_⟩
        rintro _ _ ⟨⟩
      · refine ⟨node, sent, ?_⟩
        rintro _ _ ⟨⟩
    · exact ⟨node, sent, sending⟩
  | saveLog =>
    unfold Process.step
    dsimp only
    split
    · refine ⟨node, sent, ?_⟩
      rintro _ _ ⟨⟩
    · exact ⟨node, sent, sending⟩
  | membershipChange members =>
    have changed := node.ships (changeMembership_routine process.node members).1.toShips
    refine ⟨changed.node, fun env inside => ?_, sending⟩
    exact (List.mem_append.mp inside).elim (sent env) (changed.sent env)
  | transferLeadership target =>
    exact ⟨node.same (Routine.course (.transferLeadership process.node target)).same, sent, sending⟩
  | crash floor =>
    refine ⟨stocked_start supplies process.config floor, sent, ?_⟩
    rintro _ _ ⟨⟩

end

/-- The servers, and the snapshots that were taken for compactions: of which index,
and the bytes. -/
structure Fleet where
  processes : NodeId → Process
  taken : List (Nat × Bytes)

/-- Steps that need neither a message nor a snapshot. -/
def Event.isLocal : Event → Bool
  | .receive (.message _) | .drain _ => false
  | _ => true

/-- A message that was sent arrives, once more or for the first time, a server drains
with what it could capture, or takes another step. -/
inductive FleetEvent where
  | deliver (sender : NodeId) (position : Nat)
  | drain (node : NodeId) (capture : Capture)
  | act (node : NodeId) (event : Event) (alone : event.isLocal = true)

namespace Fleet

def fresh (configs : NodeId → RaftConfig) : Fleet := ⟨fun node => .fresh (configs node), []⟩

def move (parseMembers : Bytes → List ClusterMember) (fleet : Fleet) (node : NodeId) (event : Event) : Fleet :=
  { fleet with processes := Function.update fleet.processes node ((fleet.processes node).step parseMembers event) }

def step (parseMembers : Bytes → List ClusterMember) (fleet : Fleet) : FleetEvent → Fleet
  | .deliver sender position =>
    match (fleet.processes sender).sent[position]? with
    | none => fleet
    | some env => fleet.move parseMembers env.receiver (.receive (.message env))
  | .drain node capture =>
    { fleet.move parseMembers node (.drain capture.payload) with
      taken := fleet.taken ++ if capture.engine.isSome then
        ((compactsAt (fleet.processes node)).map fun index => (index, capture.payload)).toList else [] }
  | .act node event _ => fleet.move parseMembers node event

/-- A compaction has a snapshot of the state machine, and a server that restarts has
saved no compacted log. -/
def KeepsBytes (fleet : Fleet) : FleetEvent → Prop
  | .drain node capture => (compactsAt (fleet.processes node)).isSome → capture.engine.isSome
  | .act node (.crash _) _ => (fleet.processes node).persister.storage.load.hardState.lastIncludedIndex = 0
  | _ => True

instance (fleet : Fleet) : (event : FleetEvent) → Decidable (fleet.KeepsBytes event)
  | .drain .. => inferInstanceAs (Decidable (_ → _))
  | .act _ (.crash _) _ => inferInstanceAs (Decidable (_ = _))
  | .deliver .. | .act _ (.receive _) _ | .act _ .send _ | .act _ (.drain _) _ | .act _ .saveHardState _
  | .act _ .saveLog _ | .act _ (.membershipChange _) _ | .act _ (.transferLeadership _) _ => isTrue trivial

def Known (fleet : Fleet) (index : Nat) (data : Bytes) : Prop := (index, data) ∈ fleet.taken

def Kept (fleet : Fleet) : Prop := ∀ node, Supplied fleet.Known (fleet.processes node)

variable {parseMembers : Bytes → List ClusterMember} {fleet : Fleet}

theorem Kept.move (kept : Kept fleet) {node : NodeId} {event : Event} {taken : List (Nat × Bytes)}
    (more : fleet.taken ⊆ taken)
    (supplies : Supplies (fun index data => (index, data) ∈ taken) (fleet.processes node) event) :
    Kept { fleet.move parseMembers node event with taken } := by
  have grown (node : NodeId) : Supplied (fun index data => (index, data) ∈ taken) (fleet.processes node) :=
    (kept node).mono fun _ _ inside => more inside
  intro other
  unfold Fleet.move
  dsimp only
  by_cases same : other = node
  · subst same
    rw [Function.update_self]
    exact (grown other).step parseMembers supplies
  · rw [Function.update_of_ne same]
    exact grown other

theorem Kept.step (kept : Kept fleet) {event : FleetEvent} (keeps : fleet.KeepsBytes event) :
    Kept (fleet.step parseMembers event) := by
  cases event with
  | deliver sender position =>
    unfold Fleet.step
    dsimp only
    split
    · exact kept
    next env found =>
      apply kept.move (List.Subset.refl _)
      exact (kept sender).sent env (List.mem_of_getElem? found)
  | drain node capture =>
    apply kept.move (List.subset_append_left _ _)
    intro index compacts
    have captured : capture.engine.isSome := keeps (by rw [compacts]; rfl)
    apply List.mem_append_right
    simp [captured, compacts]
  | act node event alone =>
    apply kept.move (List.Subset.refl _)
    cases event with
    | receive input =>
      cases input with
      | message env => cases alone
      | tick => trivial
      | propose command => trivial
      | proposeRead requestId => trivial
    | drain data => cases alone
    | crash floor => exact keeps
    | send => trivial
    | saveHardState => trivial
    | saveLog => trivial
    | membershipChange members => trivial
    | transferLeadership target => trivial

end Fleet

def lateCapture : Capture := ⟨some [7], [], []⟩

def finishes (node : NodeId) (count : Nat) : List FleetEvent :=
  List.replicate count (.act node .send rfl) ++
    [.drain node lateCapture, .act node .saveHardState rfl, .act node .saveLog rfl]

def refusal (number : Nat) : List FleetEvent :=
  .deliver ⟨1⟩ number :: finishes ⟨2⟩ 1 ++ .deliver ⟨2⟩ number :: finishes ⟨1⟩ 1

end KayaDB.Server
