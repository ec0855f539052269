import KayaDB.Server.Snapshot

/-! One iteration of the server's event loop for one Raft group: the node reacts
to an input, its envelopes are sent, and what it has applied is drained. -/

namespace KayaDB.Server
open Raft
variable (parseMembers : Bytes → List ClusterMember)

inductive Handed where
  | snapshot (index term : Nat) (data : Bytes)
  | entry (index term : Nat) (command : Bytes)
deriving DecidableEq

inductive Input where
  | tick
  | message (env : Envelope)
  | propose (command : Bytes)
  | proposeRead (requestId : UInt64)

/-- Proposals are followed by a broadcast. Where the node refuses one, the
iteration ends without sending or draining anything. -/
def react (node : RaftNode) : Input → RaftNode × Option (List Envelope)
  | .tick => (node.tick.1, some node.tick.2)
  | .message env => ((node.handle env).1, some (node.handle env).2)
  | .propose command =>
    match node.propose command with
    | (node, none) => (node, none)
    | (node, some _) => (node.broadcast.1, some node.broadcast.2)
  | .proposeRead requestId =>
    match node.proposeRead requestId with
    | (node, none) => (node, none)
    | (node, some _) => (node.broadcast.1, some node.broadcast.2)

/-- A membership change is proposed and broadcast beside the loop. -/
def changeMembership (node : RaftNode) (members : List ClusterMember) : RaftNode × List Envelope :=
  match node.proposeMembershipChange members with
  | (node, none) => (node, [])
  | (node, some _) => node.broadcast

theorem react_propose (node : RaftNode) (command : Bytes) :
    react node (.propose command) = (node, none) ∨ react node (.propose command) =
      ((node.propose command).1.broadcast.1, some (node.propose command).1.broadcast.2) := by
  unfold react
  dsimp only
  rcases RaftNode.propose_cases node command with same | ⟨-, same⟩ <;> rw [same]
  · exact Or.inl rfl
  · exact Or.inr rfl

theorem react_proposeRead (node : RaftNode) (requestId : UInt64) :
    react node (.proposeRead requestId) = (node, none) ∨ react node (.proposeRead requestId) =
      ((node.proposeRead requestId).1.broadcast.1, some (node.proposeRead requestId).1.broadcast.2) := by
  unfold react
  dsimp only
  rcases RaftNode.proposeRead_cases node requestId with same | ⟨-, same⟩ <;> rw [same]
  · exact Or.inl rfl
  · exact Or.inr rfl

theorem changeMembership_cases (node : RaftNode) (members : List ClusterMember) :
    changeMembership node members = ((node.proposeMembershipChange members).1, []) ∨
      changeMembership node members = (node.proposeMembershipChange members).1.broadcast := by
  unfold changeMembership
  rcases node.proposeMembershipChange members with ⟨after, _ | index⟩
  · exact Or.inl rfl
  · exact Or.inr rfl

/-- The members a snapshot carries, if it carries any, become the configuration.
Decoding the payload is left to `parseMembers`. -/
def restoreMembers (installed : Option (Nat × Nat × Bytes))
    (node : RaftNode) : RaftNode :=
  match installed with
  | none => node
  | some (_, _, data) =>
    if (parseMembers data).isEmpty then node else node.restoreConfigFromSnapshot (parseMembers data)

/-- An installed snapshot is handed out before any applied entry; last comes the
periodic compaction. -/
def drainAndApply (snapData : Bytes) (node : RaftNode) :
    RaftNode × List Handed :=
  let (node, installed) := node.drainInstalledSnapshot
  let node := restoreMembers parseMembers installed node
  let (node, applied) := node.drainApplied
  let (node, _) := node.drainReadyReads
  (maybeCompactRaftLog node snapData,
    (installed.toList.map fun (index, term, data) => .snapshot index term data) ++
      applied.map fun (index, term, command) => .entry index term command)

theorem restoreMembers_cases (installed : Option (Nat × Nat × Bytes))
    (node : RaftNode) : restoreMembers parseMembers installed node = node ∨
      ∃ members, restoreMembers parseMembers installed node = node.settleConfig members := by
  unfold restoreMembers
  split
  · exact Or.inl rfl
  · split
    · exact Or.inl rfl
    · exact Or.inr ⟨_, rfl⟩

/-- The node from which applied entries and reads are drained. -/
def restored (node : RaftNode) : RaftNode :=
  restoreMembers parseMembers node.pendingSnapshot { node with pendingSnapshot := none }

theorem drainAndApply_eq (snapData : Bytes) (node : RaftNode) :
    drainAndApply parseMembers snapData node =
      (maybeCompactRaftLog { restored parseMembers node with appliedEntries := [], readyReads := [] } snapData,
        (node.pendingSnapshot.toList.map fun (index, term, data) => .snapshot index term data) ++
          (restored parseMembers node).appliedEntries.map fun (index, term, command) => .entry index term command) :=
  rfl

end KayaDB.Server
