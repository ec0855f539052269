import KayaDB.Server.Host

/-! The event loop of a server that hosts several groups. An iteration takes one input,
carries out what was applied, and only then looks which groups have lost their leader;
operators, the routing table and the transaction sweeper act beside it at any point. -/

namespace KayaDB.Server
open Raft

/-- The state machine behind the loop. Its commands may fail; what they do, and
what a snapshot's payload holds, is left open. -/
structure Machine (σ : Type) where
  execute : σ → Nat → Bytes → σ × Except String Unit
  install : σ → Bytes → σ
  parseMembers : Bytes → List ClusterMember

/-- A client that waits for the outcome of the command it proposed. -/
structure Waiter where
  client : Nat
  command : Bytes
deriving DecidableEq

/-- What a client was told. Success comes with the command that was carried out
at the group and index of the proposal. -/
inductive Answer where
  | ok (key : Nat × Nat) (waiter : Waiter) (applied : Bytes)
  | err (waiter : Waiter) (reason : String)
deriving DecidableEq

/-- Where an iteration stands. Drained commands are carried out one by one. -/
inductive Stage where
  | idle
  | reacted
  | applying (work : List (Nat × Nat × Nat × Bytes))
  | checking
deriving DecidableEq

structure Loop (σ : Type) where
  host : MultiRaftHost
  store : σ
  pending : List ((Nat × Nat) × Waiter)
  pendingReads : List UInt64
  leaderGroups : List Nat
  stage : Stage
  sent : List Envelope
  answers : List Answer
  readAnswers : List (UInt64 × Except String Unit)

inductive Branch where
  | tick
  | message (env : Envelope) (inRoster : Bool)
  | propose (client gid : Nat) (command : Bytes)
  | proposeRead (gid : Nat) (requestId : UInt64)

inductive LoopEvent where
  | select (branch : Branch)
  | drainApplied
  | applyCommand
  | finishDrain (snapData : Bytes) (reclaimed : List Nat)
  | checkLeaders
  | transferLeadership (gid : Nat) (target : NodeId)
  | changeMembership (gid : Nat) (members : List ClusterMember)
  | proposeUnattended (gid : Nat) (command : Bytes)
  | ensureGroupHosted (gid : Nat) (config : RaftConfig) (state : Option PersistedRaftState)

variable {σ : Type}

namespace Loop
variable (loop : Loop σ)

def isKnownRaftPeer (sender : NodeId) (inRoster : Bool) : Bool :=
  inRoster || loop.host.isVoterAnywhere sender

/-- Registering under a key that is taken drops the client that held it. -/
def register (key : Nat × Nat) (waiter : Waiter) : Loop σ :=
  { loop with
    pending := (key, waiter) :: loop.pending.filter (·.1 ≠ key)
    answers := loop.answers ++
      (loop.pending.filter (·.1 = key)).map fun dropped => .err dropped.2 "reply channel dropped" }

/-- A message of an unknown sender is ignored; a refused proposal is answered at
once, and nothing is drained in its iteration. -/
def select : Branch → Loop σ
  | .tick =>
    { loop with host := loop.host.tickAll.1, sent := loop.sent ++ loop.host.tickAll.2, stage := .reacted }
  | .message env inRoster =>
    if loop.isKnownRaftPeer env.sender inRoster then
      { loop with host := (loop.host.handle env).1, sent := loop.sent ++ (loop.host.handle env).2, stage := .reacted }
    else loop
  | .propose client gid command =>
    match (loop.host.propose gid command).2 with
    | none => { loop with answers := loop.answers ++ [.err ⟨client, command⟩ "not_leader"], stage := .checking }
    | some index =>
      let host := (loop.host.propose gid command).1
      { loop.register (gid, index) ⟨client, command⟩ with
        host := (host.broadcastGroup gid).1
        sent := loop.sent ++ (host.broadcastGroup gid).2
        stage := .reacted }
  | .proposeRead gid requestId =>
    match (loop.host.proposeReadGroup gid requestId).2 with
    | none => { loop with
        readAnswers := loop.readAnswers ++ [(requestId, .error "not_leader")], stage := .checking }
    | some _ =>
      let host := (loop.host.proposeReadGroup gid requestId).1
      { loop with
        host := (host.broadcastGroup gid).1
        sent := loop.sent ++ (host.broadcastGroup gid).2
        pendingReads := requestId :: loop.pendingReads
        stage := .reacted }

/-- The members in any group's snapshot become the configuration of every group. -/
def restoreAll (machine : Machine σ) (host : MultiRaftHost) (data : Bytes) : MultiRaftHost :=
  if (machine.parseMembers data).isEmpty then host
  else host.modifyAll fun node => node.restoreConfigFromSnapshot (machine.parseMembers data)

/-- Installed snapshots of all groups come before any applied entry. -/
def drainApplied (machine : Machine σ) (loop : Loop σ) : Loop σ :=
  let installed := loop.host.collect fun node => node.drainInstalledSnapshot.2.toList
  let host := loop.host.modifyAll fun node => node.drainInstalledSnapshot.1
  let host := installed.foldl (fun host (_, _, _, data) => restoreAll machine host data) host
  { loop with
    host := host.drainAllApplied.1
    store := installed.foldl (fun store (_, _, _, data) => machine.install store data) loop.store
    stage := .applying host.drainAllApplied.2 }

/-- The client registered under the entry's group and index gets the outcome. -/
def applyCommand (machine : Machine σ) (loop : Loop σ) (gid index : Nat) (command : Bytes)
    (rest : List (Nat × Nat × Nat × Bytes)) : Loop σ :=
  let outcome := machine.execute loop.store gid command
  { loop with
    store := outcome.1
    pending := loop.pending.filter (·.1 ≠ (gid, index))
    stage := .applying rest
    answers := loop.answers ++ (loop.pending.filter (·.1 = (gid, index))).map fun (key, waiter) =>
      match outcome.2 with
      | .ok () => .ok key waiter command
      | .error reason => .err waiter reason }

/-- Confirmed reads are answered, logs are compacted and dropped groups are no
longer hosted. Which groups the routing table drops is left open. -/
def finishDrain (snapData : Bytes) (reclaimed : List Nat) : Loop σ :=
  let ready := loop.host.drainAllReadyReads.2.map Prod.snd
  let host := loop.host.drainAllReadyReads.1.modifyAll fun node => maybeCompactRaftLog node snapData
  { loop with
    host := reclaimed.foldl MultiRaftHost.remove host
    pendingReads := loop.pendingReads.filter (· ∉ ready)
    stage := .checking
    readAnswers := loop.readAnswers ++ (loop.pendingReads.filter (· ∈ ready)).map fun id => (id, .ok ()) }

/-- Clients of groups that are no longer led here are turned away, and with them
every pending read. -/
def checkLeaders : Loop σ :=
  let current := loop.host.leaders
  let lost := loop.leaderGroups.filter (· ∉ current)
  { loop with
    pending := loop.pending.filter (·.1.1 ∉ lost)
    pendingReads := if lost = [] then loop.pendingReads else []
    leaderGroups := current
    stage := .idle
    answers := loop.answers ++ (loop.pending.filter (·.1.1 ∈ lost)).map fun gone => .err gone.2 "not_leader"
    readAnswers := loop.readAnswers ++
      if lost = [] then [] else loop.pendingReads.map fun id => (id, .error "not_leader") }

/-- A group's node as it is recovered from its directory: a follower that has
applied nothing. -/
def recoveredGroup (config : RaftConfig) : Option PersistedRaftState → RaftNode
  | some state => (RaftNode.recover config state).setRecoveredApplyFloor 0
  | none => RaftNode.new config

def ensureGroupHosted (host : MultiRaftHost) (gid : Nat) (config : RaftConfig) (state : Option PersistedRaftState) :
    MultiRaftHost :=
  match host.get gid with
  | some _ => host
  | none => host.insert gid (recoveredGroup config state)

/-- Steps of an iteration happen in their order; one whose turn has not come
changes nothing. -/
def step (machine : Machine σ) (loop : Loop σ) : LoopEvent → Loop σ
  | .select branch =>
    match loop.stage with
    | .idle => loop.select branch
    | _ => loop
  | .drainApplied =>
    match loop.stage with
    | .reacted => loop.drainApplied machine
    | _ => loop
  | .applyCommand =>
    match loop.stage with
    | .applying ((gid, index, _, command) :: rest) => loop.applyCommand machine gid index command rest
    | _ => loop
  | .finishDrain snapData reclaimed =>
    match loop.stage with
    | .applying [] => loop.finishDrain snapData reclaimed
    | _ => loop
  | .checkLeaders =>
    match loop.stage with
    | .checking => loop.checkLeaders
    | _ => loop
  | .transferLeadership gid target => { loop with host := (loop.host.transferLeadership gid target).1 }
  | .changeMembership gid members =>
    { loop with host := loop.host.modify gid fun node => (Server.changeMembership node members).1 }
  | .proposeUnattended gid command => { loop with host := (loop.host.propose gid command).1 }
  | .ensureGroupHosted gid config state => { loop with host := Loop.ensureGroupHosted loop.host gid config state }

/-- A server that has just started: its groups follow, have nothing to hand out,
and nobody waits. -/
structure Started (loop : Loop σ) : Prop where
  stage : loop.stage = .idle
  pending : loop.pending = []
  answers : loop.answers = []
  groups : ∀ gid node, loop.host.get gid = some node → node.role = .follower ∧ node.appliedEntries = []

/-- Success is only reported for the client's own command. -/
def Truthful : Prop :=
  ∀ key waiter applied, Answer.ok key waiter applied ∈ loop.answers → applied = waiter.command

end Loop
end KayaDB.Server
