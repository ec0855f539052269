import KayaDB.Raft.Simulation

/-! Safety of the consensus core without snapshots and membership changes. Any
order of ticks, proposals, transfers, restarts and deliveries keeps logs
matching, and no two state machines are given different commands. -/

namespace KayaDB.Raft
open Cluster

/-- The events of a fixed voter set that never compacts its logs. A restart may
resume from any applied index on record. -/
def Plain (voters : Finset NodeId) (cluster : Cluster) : Event → Prop
  | .tick node => node ∈ voters
  | .propose _ command => ∀ phase members, RaftCommand.decode command ≠ .ok (.configChange phase members)
  | .restart node floor => floor ≤ (cluster.nodes node).lastApplied
  | .deliver _ | .proposeRead _ _ | .transferLeadership _ _ | .broadcast _ | .drainApplied _ | .drainReadyReads _ => True
  | .proposeMembershipChange _ _ | .compact _ _ _ _ | .restoreConfigFromSnapshot _ _ | .drainInstalledSnapshot _ => False

section
variable {voters : Finset NodeId} {configs : NodeId → RaftConfig} {cluster : Cluster} {history : History}

theorem Related.prudent (related : Related voters False cluster history) {sent : Sent} (known : sent ∈ cluster.net) :
    Prudent (cluster.nodes sent.env.receiver) sent := by
  have none := (related.nodes sent.env.receiver).whole not_false
  have told := related.net sent known
  unfold Told at told
  unfold Prudent
  split
  next =>
    intro _ entry inside
    rw [none, Nat.zero_sub, List.take_zero] at inside
    cases inside
  next request message =>
    rw [message] at told
    exact told.1.elim
  next => exact fun _ _ index _ => none.trans_le (Nat.zero_le _)
  next => trivial

theorem Related.careful_of_plain (related : Related voters False cluster history) {event : Event}
    (plain : Plain voters cluster event) : Careful voters cluster event ∧
      ∀ node upToIndex upToTerm data, event = .compact node upToIndex upToTerm data → False := by
  cases event with
  | tick node =>
    have inside : (cluster.nodes node).config.id ∈ voters := by
      rw [(related.nodes node).own]
      exact plain
    exact ⟨Or.inl inside, fun _ _ _ _ same => nomatch same⟩
  | deliver position =>
    exact ⟨fun sent found => related.prudent (List.mem_of_getElem? found), fun _ _ _ _ same => nomatch same⟩
  | propose node command =>
    exact ⟨fun phase members decoded => absurd decoded (plain phase members), fun _ _ _ _ same => nomatch same⟩
  | proposeRead node requestId => exact ⟨trivial, fun _ _ _ _ same => nomatch same⟩
  | proposeMembershipChange node members => exact plain.elim
  | transferLeadership node target => exact ⟨trivial, fun _ _ _ _ same => nomatch same⟩
  | broadcast node => exact ⟨trivial, fun _ _ _ _ same => nomatch same⟩
  | drainApplied node => exact ⟨trivial, fun _ _ _ _ same => nomatch same⟩
  | drainReadyReads node => exact ⟨trivial, fun _ _ _ _ same => nomatch same⟩
  | drainInstalledSnapshot node => exact plain.elim
  | compact node upToIndex upToTerm data => exact plain.elim
  | restoreConfigFromSnapshot node members => exact plain.elim
  | restart node floor => exact ⟨plain, fun _ _ _ _ same => nomatch same⟩

theorem plain_related (odd : Odd voters.card) (voting : Voting voters configs)
    (reached : Reaches configs (Plain voters) (initial configs) cluster) :
    ∃ history, Related voters False cluster history := by
  obtain ⟨history, _, related⟩ := Related.run odd voting
    (fun _ _ _ related plain => related.careful_of_plain plain) reached (Related.initial voting False)
  exact ⟨history, related⟩

theorem Related.handed_agree {snapshots : Prop} (related : Related voters snapshots cluster history)
    {first second : NodeId} {index term other : Nat} {command different : Bytes}
    (left : (first, index, term, command) ∈ cluster.handed)
    (right : (second, index, other, different) ∈ cluster.handed) : term = other ∧ command = different := by
  obtain ⟨log, bound, length, settled, positive, inside, found⟩ := related.handed _ left
  obtain ⟨log', bound', length', settled', _, inside', found'⟩ := related.handed _ right
  dsimp only at positive inside inside' found found'
  have agree := settled.agree settled' related.sane.valid inside inside'
  rw [List.prefix_of_getElem?_take agree (by omega), found'] at found
  simp only [Option.some.injEq, LogEntry.mk.injEq] at found
  exact ⟨found.1.symm, found.2.symm⟩

/-- No two nodes hand out different commands at one log index. -/
theorem handed_commands_agree (odd : Odd voters.card) (voting : Voting voters configs)
    (reached : Reaches configs (Plain voters) (initial configs) cluster)
    {first second : NodeId} {index term other : Nat} {command different : Bytes}
    (left : (first, index, term, command) ∈ cluster.handed)
    (right : (second, index, other, different) ∈ cluster.handed) : command = different := by
  obtain ⟨history, related⟩ := plain_related odd voting reached
  exact (related.handed_agree left right).2

end

def trio (id : NodeId) : RaftConfig := ⟨id, ([⟨1⟩, ⟨2⟩, ⟨3⟩] : List NodeId).filter (· ≠ id), 1, 1⟩

def trioVoters : Finset NodeId := {⟨1⟩, ⟨2⟩, ⟨3⟩}

theorem trio_voting : Voting trioVoters trio := by
  intro node
  refine ⟨rfl, fun _ peer => ?_⟩
  simp [trio, trioVoters]

/-- Node 1 is elected by node 2, replicates its first entry and a command to it,
and both hand them out. -/
def replicationRun : List Event :=
  [.tick ⟨1⟩, .deliver 0, .deliver 2, .propose ⟨1⟩ [255], .tick ⟨1⟩, .deliver 5, .deliver 7, .drainApplied ⟨1⟩,
    .tick ⟨1⟩, .deliver 8, .drainApplied ⟨2⟩]

theorem replicationRun_permitted : Permits trio (Plain trioVoters) (initial trio) replicationRun := by
  have ticking : (⟨1⟩ : NodeId) ∈ trioVoters := by decide
  exact ⟨ticking, trivial, trivial, (fun _ _ decoded => nomatch decoded), ticking, trivial, trivial, trivial,
    ticking, trivial, trivial, trivial⟩

theorem handed_commands_agree_in_replicationRun :
    (⟨1⟩, 2, 1, [255]) ∈ ((initial trio).run trio replicationRun).handed ∧
      (⟨2⟩, 2, 1, [255]) ∈ ((initial trio).run trio replicationRun).handed ∧ ([255] : Bytes) = [255] :=
  have first : (⟨1⟩, 2, 1, [255]) ∈ ((initial trio).run trio replicationRun).handed := by decide +kernel
  have second : (⟨2⟩, 2, 1, [255]) ∈ ((initial trio).run trio replicationRun).handed := by decide +kernel
  ⟨first, second, handed_commands_agree (by decide) trio_voting replicationRun_permitted.reaches first second⟩

section
variable {voters : Finset NodeId} {configs : NodeId → RaftConfig} {cluster : Cluster}

/-- Logs that hold entries of one term at one index are identical up to it. -/
theorem logs_match (odd : Odd voters.card) (voting : Voting voters configs)
    (reached : Reaches configs (Plain voters) (initial configs) cluster)
    {first second : NodeId} {index : Nat} {left right : LogEntry}
    (inFirst : (cluster.nodes first).log.get index = some left)
    (inSecond : (cluster.nodes second).log.get index = some right) (same : left.term = right.term) :
    ∀ earlier ≤ index, (cluster.nodes first).log.get earlier = (cluster.nodes second).log.get earlier := by
  obtain ⟨history, related⟩ := plain_related odd voting reached
  have one := related.nodes first
  have two := related.nodes second
  obtain ⟨positive, left'⟩ := one.views.of_get inFirst
  obtain ⟨-, right'⟩ := two.views.of_get inSecond
  have agree := (related.sane.valid.logs first).agree (related.sane.valid.logs second) left' right' same
  intro earlier below
  rcases Nat.eq_zero_or_pos earlier with zero | above
  · rw [zero, MemLog.get, MemLog.get, if_pos (Or.inl rfl), if_pos (Or.inl rfl)]
  · rw [one.views.get_eq (by rw [one.whole not_false]; exact above),
      two.views.get_eq (by rw [two.whole not_false]; exact above)]
    exact List.prefix_of_getElem?_take agree (by omega)

end

theorem logs_match_in_replicationRun :
    ((initial trio).run trio replicationRun |>.nodes ⟨1⟩).log.get 2 = some ⟨1, [255]⟩ ∧
      ((initial trio).run trio replicationRun |>.nodes ⟨2⟩).log.get 2 = some ⟨1, [255]⟩ ∧
      ∀ earlier ≤ 2, ((initial trio).run trio replicationRun |>.nodes ⟨1⟩).log.get earlier =
        ((initial trio).run trio replicationRun |>.nodes ⟨2⟩).log.get earlier :=
  have first : ((initial trio).run trio replicationRun |>.nodes ⟨1⟩).log.get 2 = some ⟨1, [255]⟩ := by decide +kernel
  have second : ((initial trio).run trio replicationRun |>.nodes ⟨2⟩).log.get 2 = some ⟨1, [255]⟩ := by decide +kernel
  ⟨first, second, logs_match (by decide) trio_voting replicationRun_permitted.reaches first second rfl⟩

end KayaDB.Raft
