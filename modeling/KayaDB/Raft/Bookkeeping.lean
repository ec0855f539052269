import KayaDB.Raft.Safety

/-! Replication counters and snapshots. In a careful run a match index says what
the follower holds; an answer to an old snapshot, taken for the newer one the
leader has made since, breaks this. -/

namespace KayaDB.Raft
open Cluster

section
variable {voters : Finset NodeId} {snapshots : Prop} {configs : NodeId → RaftConfig} {cluster : Cluster}
  {history : History} {leader peer : NodeId} {index : Nat}

theorem careful_related (odd : Odd voters.card) (voting : Voting voters configs)
    (reached : Reaches configs (Careful voters) (initial configs) cluster) :
    ∃ history, Related voters True cluster history := by
  obtain ⟨history, _, related⟩ := Related.run odd voting (fun _ _ _ _ careful => ⟨careful, fun _ _ _ _ _ => trivial⟩)
    reached (Related.initial voting True)
  exact ⟨history, related⟩

/-- While the follower is in the leader's term, nothing can have taken from it
what it acknowledged. -/
theorem Related.matched (related : Related voters snapshots cluster history)
    (leads : (cluster.nodes leader).role = .leader) (member : peer ∈ voters)
    (counted : (cluster.nodes leader).matchIndex.lookup peer = some index)
    (same : (cluster.nodes peer).currentTerm = (cluster.nodes leader).currentTerm) :
    (history.log leader).take index <+: history.log peer ∧ index ≤ (history.log leader).length := by
  rcases Nat.eq_zero_or_pos index with rfl | positive
  · exact ⟨List.nil_prefix, Nat.zero_le _⟩
  obtain ⟨reached, short, ack⟩ := ((related.nodes leader).leader leads).acked peer member index counted positive
  have bound := (related.sane.valid.acked _ _ _ ack).2.2
  rw [(related.nodes leader).book related.sane leads]
  refine ⟨related.sane.valid.held _ _ _ ack index short ?_, short.trans bound⟩
  -- no term lies between the leader's and the follower's
  intro later node log past within
  rw [(related.nodes peer).term, same] at within
  omega

/-- The follower's whole log, its snapshot's part included, agrees with the
leader's up to the match index. -/
theorem match_index_truthful (odd : Odd voters.card) (voting : Voting voters configs)
    (reached : Reaches configs (Careful voters) (initial configs) cluster)
    (leads : (cluster.nodes leader).role = .leader) (member : peer ∈ voters)
    (counted : (cluster.nodes leader).matchIndex.lookup peer = some index)
    (same : (cluster.nodes peer).currentTerm = (cluster.nodes leader).currentTerm) :
    index ≤ (cluster.shadow peer).length ∧ (cluster.shadow peer).take index = (cluster.shadow leader).take index := by
  obtain ⟨history, related⟩ := careful_related odd voting reached
  obtain ⟨held, bound⟩ := related.matched leads member counted same
  rw [related.shadow, related.shadow]
  exact (List.take_prefix_iff bound).mp held

end

def snapshotRun : List Event :=
  [.tick ⟨1⟩, .deliver 0, .deliver 2, .deliver 3, .deliver 5, .propose ⟨1⟩ [255], .tick ⟨1⟩, .deliver 6, .deliver 8,
    .compact ⟨1⟩ 1 1 [], .tick ⟨1⟩, .deliver 10]

theorem snapshotRun_permitted :
    Permits trio (Careful trioVoters) (initial trio) (snapshotRun ++ [.deliver 11]) := by
  refine ⟨?_, ?_, ?_, ?_, ?_, (fun _ _ decoded => nomatch decoded), ?_, ?_, ?_, ?_, ?_, ?_, ?_, trivial⟩
  case refine_1 => exact Or.inl (by decide +kernel)
  case refine_6 => exact Or.inl (by decide +kernel)
  case refine_10 => exact Or.inl (by decide +kernel)
  all_goals
    unfold Careful
    decide +kernel

theorem match_index_truthful_in_snapshotRun :
    ((initial trio).run trio (snapshotRun ++ [.deliver 11]) |>.nodes ⟨1⟩).matchIndex.lookup ⟨3⟩ = some 1 ∧
      1 ≤ ((initial trio).run trio (snapshotRun ++ [.deliver 11]) |>.shadow ⟨3⟩).length ∧
      ((initial trio).run trio (snapshotRun ++ [.deliver 11]) |>.shadow ⟨3⟩).take 1 =
        ((initial trio).run trio (snapshotRun ++ [.deliver 11]) |>.shadow ⟨1⟩).take 1 :=
  have counted : ((initial trio).run trio (snapshotRun ++ [.deliver 11]) |>.nodes ⟨1⟩).matchIndex.lookup ⟨3⟩ =
    some 1 := by decide +kernel
  ⟨counted, match_index_truthful (by decide) trio_voting snapshotRun_permitted.reaches (by decide +kernel)
    (by decide) counted (by decide +kernel)⟩

/-- The leader compacts once more before the answer to its first snapshot
arrives, and credits node 3 with an entry it does not have. -/
theorem old_answer_credits_new_snapshot :
    let cluster := (initial trio).run trio (snapshotRun ++ [.compact ⟨1⟩ 2 1 [], .deliver 11])
    (cluster.nodes ⟨1⟩).role = .leader ∧ (cluster.nodes ⟨1⟩).matchIndex.lookup ⟨3⟩ = some 2 ∧
      (cluster.nodes ⟨3⟩).currentTerm = (cluster.nodes ⟨1⟩).currentTerm ∧
      (cluster.shadow ⟨3⟩).take 2 ≠ (cluster.shadow ⟨1⟩).take 2 := by
  decide +kernel

end KayaDB.Raft
