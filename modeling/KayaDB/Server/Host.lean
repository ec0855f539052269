import KayaDB.Server.EventLoop

/-! Several Raft groups in one process. Ticks go to every group in the order of
their ids, messages and proposals to the group they name, and what a group emits
is stamped with its id. -/

namespace KayaDB.Server
open Raft

structure MultiRaftHost where
  ids : SortedSet Nat
  groups : Nat → Option RaftNode
  hosted : ∀ gid, gid ∈ ids ↔ (groups gid).isSome

namespace MultiRaftHost

def new : MultiRaftHost := ⟨.ofList [], fun _ => none, fun gid => by simp⟩

def get (host : MultiRaftHost) (gid : Nat) : Option RaftNode := host.groups gid

def insert (host : MultiRaftHost) (gid : Nat) (node : RaftNode) : MultiRaftHost where
  ids := host.ids.insert gid
  groups other := if other = gid then some node else host.groups other
  hosted other := by
    rw [SortedSet.mem_insert, host.hosted]
    split <;> simp [*]

def remove (host : MultiRaftHost) (gid : Nat) : MultiRaftHost where
  ids := .ofList (host.ids.elems.filter (· ≠ gid))
  groups other := if other = gid then none else host.groups other
  hosted other := by
    rw [SortedSet.mem_ofList, List.mem_filter, ← SortedSet.mem_def, host.hosted]
    split <;> simp [*]

/-- A group that is not hosted stays as it is. -/
def modify (host : MultiRaftHost) (gid : Nat) (change : RaftNode → RaftNode) : MultiRaftHost where
  ids := host.ids
  groups other := if other = gid then (host.groups gid).map change else host.groups other
  hosted other := by
    rw [host.hosted]
    split <;> simp [*]

def modifyAll (host : MultiRaftHost) (change : RaftNode → RaftNode) : MultiRaftHost where
  ids := host.ids
  groups gid := (host.groups gid).map change
  hosted gid := by rw [host.hosted, Option.isSome_map]

def sortedGroupIds (host : MultiRaftHost) : List Nat := host.ids.elems

def isLeaderOf (host : MultiRaftHost) (gid : Nat) : Bool := (host.get gid).any RaftNode.isLeader

/-- What the groups emit, in the order of their ids. -/
def collect {α : Type} (host : MultiRaftHost) (emit : RaftNode → List α) : List (Nat × α) :=
  host.sortedGroupIds.flatMap fun gid => ((host.get gid).elim [] emit).map fun item => (gid, item)

def stamp (gid : Nat) (env : Envelope) : Envelope := { env with groupId := .ofNat gid }

def tickAll (host : MultiRaftHost) : MultiRaftHost × List Envelope :=
  (host.modifyAll fun node => node.tick.1, (host.collect fun node => node.tick.2).map fun (gid, env) => stamp gid env)

def propose (host : MultiRaftHost) (gid : Nat) (command : Bytes) : MultiRaftHost × Option Nat :=
  (host.modify gid fun node => (node.propose command).1, (host.get gid).bind fun node => (node.propose command).2)

def handle (host : MultiRaftHost) (env : Envelope) : MultiRaftHost × List Envelope :=
  (host.modify env.groupId.toNat fun node => (node.handle env).1,
    ((host.get env.groupId.toNat).elim [] fun node => (node.handle env).2).map (stamp env.groupId.toNat))

def transferLeadership (host : MultiRaftHost) (gid : Nat) (target : NodeId) : MultiRaftHost × Except String Unit :=
  (host.modify gid fun node => (node.transferLeadership target).1,
    (host.get gid).elim (.error s!"group {gid} not hosted") fun node => (node.transferLeadership target).2)

def proposeReadGroup (host : MultiRaftHost) (gid : Nat) (requestId : UInt64) : MultiRaftHost × Option Nat :=
  (host.modify gid fun node => (node.proposeRead requestId).1,
    (host.get gid).bind fun node => (node.proposeRead requestId).2)

def broadcastGroup (host : MultiRaftHost) (gid : Nat) : MultiRaftHost × List Envelope :=
  (host.modify gid fun node => node.broadcast.1,
    ((host.get gid).elim [] fun node => node.broadcast.2).map (stamp gid))

def drainAllApplied (host : MultiRaftHost) : MultiRaftHost × List (Nat × Nat × Nat × Bytes) :=
  (host.modifyAll fun node => node.drainApplied.1, host.collect fun node => node.drainApplied.2)

def drainAllReadyReads (host : MultiRaftHost) : MultiRaftHost × List (Nat × UInt64) :=
  (host.modifyAll fun node => node.drainReadyReads.1, host.collect fun node => node.drainReadyReads.2)

def isVoterAnywhere (host : MultiRaftHost) (sender : NodeId) : Bool :=
  host.sortedGroupIds.any fun gid => (host.get gid).any fun node => sender ∈ node.effectiveConfig.allVoters

def leaders (host : MultiRaftHost) : List Nat := host.sortedGroupIds.filter host.isLeaderOf

variable {host : MultiRaftHost} {gid other : Nat}

@[simp] theorem get_insert (node : RaftNode) :
    (host.insert gid node).get other = if other = gid then some node else host.get other := rfl

@[simp] theorem get_remove : (host.remove gid).get other = if other = gid then none else host.get other := rfl

@[simp] theorem get_modify (change : RaftNode → RaftNode) :
    (host.modify gid change).get other = if other = gid then (host.get gid).map change else host.get other := rfl

theorem modify_modify (first second : RaftNode → RaftNode) :
    (host.modify gid first).modify gid second = host.modify gid fun node => second (first node) := by
  unfold modify
  congr 1
  funext other
  by_cases here : other = gid <;> simp [here, Function.comp_def]

theorem mem_sortedGroupIds : gid ∈ host.sortedGroupIds ↔ ∃ node, host.get gid = some node :=
  (host.hosted gid).trans Option.isSome_iff_exists

theorem mem_leaders : gid ∈ host.leaders ↔ ∃ node, host.get gid = some node ∧ node.role = .leader := by
  unfold leaders isLeaderOf
  rw [List.mem_filter, mem_sortedGroupIds]
  constructor
  · rintro ⟨⟨node, found⟩, leading⟩
    refine ⟨node, found, ?_⟩
    simpa [found, RaftNode.isLeader] using leading
  · rintro ⟨node, found, leading⟩
    exact ⟨⟨node, found⟩, by simp [found, RaftNode.isLeader, leading]⟩

theorem mem_collect {α : Type} {emit : RaftNode → List α} {item : α} :
    (gid, item) ∈ host.collect emit ↔ ∃ node, host.get gid = some node ∧ item ∈ emit node := by
  unfold collect
  rw [List.mem_flatMap]
  constructor
  · rintro ⟨id, -, inside⟩
    obtain ⟨found, emitted, same⟩ := List.mem_map.mp inside
    cases same
    cases held : host.get gid with
    | none =>
      rw [held] at emitted
      cases emitted
    | some node =>
      rw [held] at emitted
      exact ⟨node, rfl, emitted⟩
  · rintro ⟨node, held, emitted⟩
    refine ⟨gid, mem_sortedGroupIds.mpr ⟨node, held⟩, ?_⟩
    simpa [held] using emitted

theorem get_modify_eq {change : RaftNode → RaftNode} {node : RaftNode}
    (found : (host.modify gid change).get other = some node) :
    other ≠ gid ∧ host.get other = some node ∨
      other = gid ∧ ∃ before, host.get gid = some before ∧ node = change before := by
  rw [get_modify] at found
  split at found
  next same =>
    obtain ⟨before, held, rfl⟩ := Option.map_eq_some_iff.mp found
    exact Or.inr ⟨same, before, held, rfl⟩
  next differs => exact Or.inl ⟨differs, found⟩

end MultiRaftHost
end KayaDB.Server
