import KayaDB.Raft.Log

namespace KayaDB.Raft

structure VoteRequest where
  term : Nat
  candidateId : NodeId
  lastLogIndex : Nat
  lastLogTerm : Nat
deriving DecidableEq, Repr

structure VoteResponse where
  term : Nat
  voteGranted : Bool
deriving DecidableEq, Repr

structure AppendRequest where
  term : Nat
  leaderId : NodeId
  prevLogIndex : Nat
  prevLogTerm : Nat
  entries : List LogEntry
  leaderCommit : Nat
deriving DecidableEq, Repr

structure AppendResponse where
  term : Nat
  success : Bool
  matchIndex : Nat
deriving DecidableEq, Repr

structure InstallSnapshotRequest where
  term : Nat
  leaderId : NodeId
  lastIncludedIndex : Nat
  lastIncludedTerm : Nat
  data : Bytes
deriving DecidableEq, Repr

structure InstallSnapshotResponse where
  term : Nat
  success : Bool
deriving DecidableEq, Repr

structure ConfigChangeRequest where
  term : Nat
  oldPeers : List NodeId
  newPeers : List NodeId
deriving DecidableEq, Repr

structure ConfigChangeResponse where
  term : Nat
  success : Bool
deriving DecidableEq, Repr

inductive Message where
  | voteRequest (request : VoteRequest)
  | voteResponse (response : VoteResponse)
  | appendRequest (request : AppendRequest)
  | appendResponse (response : AppendResponse)
  | installSnapshotRequest (request : InstallSnapshotRequest)
  | installSnapshotResponse (response : InstallSnapshotResponse)
  | configChangeRequest (request : ConfigChangeRequest)
  | configChangeResponse (response : ConfigChangeResponse)
deriving DecidableEq, Repr

def Message.term : Message → Nat
  | .voteRequest request => request.term
  | .voteResponse response => response.term
  | .appendRequest request => request.term
  | .appendResponse response => response.term
  | .installSnapshotRequest request => request.term
  | .installSnapshotResponse response => response.term
  | .configChangeRequest request => request.term
  | .configChangeResponse response => response.term

/-- `groupId` multiplexes the traffic of several Raft groups over one transport. -/
structure Envelope where
  sender : NodeId
  receiver : NodeId
  groupId : UInt64
  message : Message
deriving DecidableEq, Repr

def Envelope.new (sender receiver : NodeId) (message : Message) : Envelope := ⟨sender, receiver, 0, message⟩

end KayaDB.Raft
