import KayaDB.Raft.Command
import KayaDB.Library.SortedSet

/-! Voting configurations, stable or joint. Every quorum is half of the voters
rounded up, whatever the parity of their number. -/

namespace KayaDB.Raft

structure ClusterConfiguration where
  voters : SortedSet NodeId
deriving DecidableEq

namespace ClusterConfiguration
variable (config : ClusterConfiguration)

def fromVoters (voters : List NodeId) : ClusterConfiguration := ⟨.ofList voters⟩

def quorum : Nat := (config.voters.card + 1) / 2

def peersOf (selfId : NodeId) : List NodeId :=
  config.voters.elems.filter (· ≠ selfId)

def met (matchCounts : NodeId → Bool) : Bool :=
  decide (config.quorum ≤ config.voters.elems.countP matchCounts)

end ClusterConfiguration

inductive EffectiveConfig where
  | stable (config : ClusterConfiguration)
  | joint (outgoing incoming : ClusterConfiguration)
deriving DecidableEq

namespace EffectiveConfig

def stableConfig : EffectiveConfig → ClusterConfiguration
  | .stable config => config
  | .joint _ incoming => incoming

def allVoters : EffectiveConfig → SortedSet NodeId
  | .stable config => config.voters
  | .joint outgoing incoming => outgoing.voters.union incoming.voters

def commitQuorumMet (config : EffectiveConfig) (matchCounts : NodeId → Bool) : Bool :=
  match config with
  | .stable config => config.met matchCounts
  | .joint outgoing incoming => outgoing.met matchCounts && incoming.met matchCounts

/-- A joint election needs as many votes as the larger side's quorum, from any
nodes: unlike a commit it does not ask for a majority of each side. -/
def electionQuorum : EffectiveConfig → Nat
  | .stable config => config.quorum
  | .joint outgoing incoming => (max outgoing.voters.card incoming.voters.card + 1) / 2

end EffectiveConfig
end KayaDB.Raft
