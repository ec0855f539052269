import KayaDB.Library.Runs
import KayaDB.Raft.Node
import Mathlib.Logic.Function.Basic

/-! A group of Raft nodes and every envelope they have ever sent. Delivery picks
any of them and takes none away, so messages may be lost, duplicated, delayed
and reordered. A restarted node keeps its persisted view only. -/

namespace KayaDB.Raft

/-- `answers` is the envelope being handled when this one was sent and `image`
the sender's whole log, snapshot prefix included. Both are history: no node
reads them. -/
structure Sent where
  env : Envelope
  answers : Option Envelope
  image : List LogEntry
deriving DecidableEq

/-- `shadow` is each node's log with the entries its snapshot stands for still
in place, and `handed` all entries handed to the state machines. -/
structure Cluster where
  nodes : NodeId → RaftNode
  shadow : NodeId → List LogEntry
  net : List Sent
  handed : List (NodeId × Nat × Nat × Bytes)

inductive Event where
  | tick (node : NodeId)
  | deliver (position : Nat)
  | propose (node : NodeId) (command : Bytes)
  | proposeRead (node : NodeId) (requestId : UInt64)
  | proposeMembershipChange (node : NodeId) (members : List ClusterMember)
  | transferLeadership (node target : NodeId)
  | broadcast (node : NodeId)
  | drainApplied (node : NodeId)
  | drainReadyReads (node : NodeId)
  | drainInstalledSnapshot (node : NodeId)
  | compact (node : NodeId) (upToIndex upToTerm : Nat) (data : Bytes)
  | restoreConfigFromSnapshot (node : NodeId) (members : List ClusterMember)
  | restart (node : NodeId) (floor : Nat)
deriving DecidableEq

/-- Recovery from the persisted view, with the applied index the state machine
has on record. -/
def RaftNode.restart (self : RaftNode) (config : RaftConfig) (floor : Nat) : RaftNode :=
  (recover config self.persistView).setRecoveredApplyFloor floor

namespace Cluster
variable (configs : NodeId → RaftConfig)

def initial : Cluster where
  nodes := fun node => .new (configs node)
  shadow := fun _ => []
  net := []
  handed := []

/-- The log `log` stands for, when `base` is what its snapshot was made of. -/
def wholeLog (base : List LogEntry) (log : MemLog) : List LogEntry :=
  base.take log.lastIncludedIndex ++ log.entries

/-- A snapshot that arrives by message stands for the entries its sender had. -/
def shadowBase (cluster : Cluster) (node : NodeId) (cause : Option Sent) (log : MemLog) : List LogEntry :=
  match cause with
  | none => cluster.shadow node
  | some sent =>
    if log.lastIncludedIndex = (cluster.nodes node).log.lastIncludedIndex then cluster.shadow node else sent.image

def act (cluster : Cluster) (node : NodeId) (cause : Option Sent) (result : RaftNode × List Envelope) : Cluster :=
  let whole := wholeLog (cluster.shadowBase node cause result.1.log) result.1.log
  { cluster with
    nodes := Function.update cluster.nodes node result.1
    shadow := Function.update cluster.shadow node whole
    net := cluster.net ++ result.2.map fun env => ⟨env, cause.map Sent.env, whole⟩ }

def deliver (cluster : Cluster) (position : Nat) : Cluster :=
  match cluster.net[position]? with
  | none => cluster
  | some sent => cluster.act sent.env.receiver (some sent) ((cluster.nodes sent.env.receiver).handle sent.env)

def step (cluster : Cluster) : Event → Cluster
  | .tick node => cluster.act node none (cluster.nodes node).tick
  | .deliver position => cluster.deliver position
  | .propose node command => cluster.act node none (((cluster.nodes node).propose command).1, [])
  | .proposeRead node requestId => cluster.act node none (((cluster.nodes node).proposeRead requestId).1, [])
  | .proposeMembershipChange node members =>
    cluster.act node none (((cluster.nodes node).proposeMembershipChange members).1, [])
  | .transferLeadership node target =>
    cluster.act node none (((cluster.nodes node).transferLeadership target).1, [])
  | .broadcast node => cluster.act node none (cluster.nodes node).broadcast
  | .drainApplied node =>
    let (after, entries) := (cluster.nodes node).drainApplied
    { cluster.act node none (after, []) with handed := cluster.handed ++ entries.map fun entry => (node, entry) }
  | .drainReadyReads node => cluster.act node none ((cluster.nodes node).drainReadyReads.1, [])
  | .drainInstalledSnapshot node => cluster.act node none ((cluster.nodes node).drainInstalledSnapshot.1, [])
  | .compact node upToIndex upToTerm data =>
    cluster.act node none ((cluster.nodes node).compact upToIndex upToTerm data, [])
  | .restoreConfigFromSnapshot node members =>
    cluster.act node none ((cluster.nodes node).restoreConfigFromSnapshot members, [])
  | .restart node floor => cluster.act node none ((cluster.nodes node).restart (configs node) floor, [])

abbrev Reaches (configs : NodeId → RaftConfig) (allowed : Cluster → Event → Prop) : Cluster → Cluster → Prop :=
  Runs.Reaches (step configs) allowed

def run (cluster : Cluster) (events : List Event) : Cluster :=
  events.foldl (step configs) cluster

abbrev Permits (configs : NodeId → RaftConfig) (allowed : Cluster → Event → Prop) : Cluster → List Event → Prop :=
  Runs.Permits (step configs) allowed

end Cluster

/-- The nodes of `voters` know one another as their peers. -/
def Voting (voters : Finset NodeId) (configs : NodeId → RaftConfig) : Prop :=
  ∀ node, (configs node).id = node ∧
    (node ∈ voters → ∀ peer, peer ∈ (configs node).peers ↔ peer ∈ voters ∧ peer ≠ node)

theorem voters_of_peers {voters : Finset NodeId} {config : RaftConfig} {id : NodeId} (own : config.id = id)
    (inside : id ∈ voters) (peers : ∀ peer, peer ∈ config.peers ↔ peer ∈ voters ∧ peer ≠ id) :
    ((SortedSet.ofList config.peers).insert config.id).toFinset = voters := by
  ext peer
  rw [SortedSet.mem_toFinset, SortedSet.mem_insert, SortedSet.mem_ofList, peers, own]
  constructor
  · rintro (rfl | ⟨member, _⟩)
    · exact inside
    · exact member
  · intro member
    by_cases same : peer = id
    · exact Or.inl same
    · exact Or.inr ⟨member, same⟩

/-- The command changes the configuration, if at all, to the given voters. -/
def KeepsVoters (voters : Finset NodeId) (command : Bytes) : Prop :=
  ∀ phase members, RaftCommand.decode command = .ok (.configChange phase members) →
    (ClusterMember.voterIds members).toFinset = voters

end KayaDB.Raft
