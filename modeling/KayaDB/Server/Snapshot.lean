import KayaDB.Raft.Compaction

/-! Automatic compaction by the server. Whenever the applied index is a positive
multiple of 64 the log is compacted there, under the node's current term rather
than the term of the entry at that index. -/

namespace KayaDB.Server
open Raft

/-- One group's part of the periodic compaction. The payload of the snapshot
(engine data, members and ranges) is left to the caller. -/
def maybeCompactRaftLog (node : RaftNode) (snapData : Bytes) : RaftNode :=
  if 0 < node.lastApplied ∧ node.lastApplied % 64 = 0 then
    node.compact node.lastApplied node.currentTerm snapData
  else node

/-- Elections and replication see no difference between two states of a node. -/
structure Invisible (before after : RaftNode) : Prop where
  lastIndex : after.log.lastIndex = before.log.lastIndex
  lastTerm : after.log.lastTerm = before.log.lastTerm
  compactionTerm : after.log.termAt before.lastApplied = before.log.termAt before.lastApplied
  votes : ∀ sender request, (after.onVoteRequest sender request).2 = (before.onVoteRequest sender request).2
  checks : ∀ request, RaftNode.prevOk after.log request = RaftNode.prevOk before.log request

theorem Invisible.refl (node : RaftNode) : Invisible node node := ⟨rfl, rfl, rfl, fun _ _ => rfl, fun _ => rfl⟩

section
variable {log : MemLog} {upTo term : Nat} {data : Bytes}
  {index : Nat} {node : RaftNode}

theorem termAt_installSnapshot (later : log.lastIncludedIndex < upTo) (index : Nat) :
    (log.installSnapshot upTo term data).termAt index =
      if 0 < index ∧ index ≤ upTo then some term else log.termAt index := by
  rw [MemLog.installSnapshot, if_neg (Nat.not_le.mpr later)]
  unfold MemLog.termAt
  dsimp only
  rcases Nat.eq_zero_or_pos index with zero | positive
  · rw [if_pos zero, if_neg (by omega), if_pos zero]
  · rw [if_neg (by omega), if_pos (show log.lastIncludedIndex + 1 < upTo + 1 by omega)]
    rcases Nat.lt_or_ge upTo index with above | covered
    swap
    · rw [if_pos covered, if_pos ⟨positive, covered⟩]
    · rw [if_neg (by omega), if_neg (by omega), if_neg (by omega), if_neg (by omega), List.getElem?_drop]
      rcases Nat.le_total (upTo + 1 - (log.lastIncludedIndex + 1)) log.entries.length with short | long
      · rw [Nat.min_eq_left short]
        congr 2
        omega
      · rw [Nat.min_eq_right long, List.getElem?_eq_none (by omega), List.getElem?_eq_none (by omega)]

theorem get_installSnapshot (above : upTo < index) :
    (log.installSnapshot upTo term data).get index = log.get index := by
  unfold MemLog.installSnapshot
  split
  next => rfl
  next newer =>
    unfold MemLog.get
    dsimp only
    rw [if_neg (by omega), if_pos (show log.lastIncludedIndex + 1 < upTo + 1 by omega), if_neg (by omega),
      List.getElem?_drop]
    rcases Nat.le_total (upTo + 1 - (log.lastIncludedIndex + 1)) log.entries.length with short | long
    · rw [Nat.min_eq_left short]
      congr 1
      omega
    · rw [Nat.min_eq_right long, List.getElem?_eq_none (by omega), List.getElem?_eq_none (by omega)]

theorem lastIndex_installSnapshot (term : Nat) (data : Bytes) (later : log.lastIncludedIndex < upTo) (within : upTo ≤ log.lastIndex) :
    (log.installSnapshot upTo term data).lastIndex = log.lastIndex := by
  rw [MemLog.lastIndex_eq] at within
  rw [MemLog.installSnapshot, if_neg (Nat.not_le.mpr later), MemLog.lastIndex_eq, MemLog.lastIndex_eq]
  dsimp only
  rw [if_pos (by omega), List.length_drop]
  omega

theorem termAt_lastIndex (log : MemLog) (positive : 0 < log.lastIndex) : log.termAt log.lastIndex = some log.lastTerm := by
  rw [MemLog.lastIndex_eq] at positive ⊢
  rw [MemLog.termAt, if_neg (by omega), MemLog.lastTerm]
  cases empty : log.entries with
  | nil => rw [if_pos (by simp)]; rfl
  | cons entry rest =>
    rw [if_neg (by simp), List.getLast?_eq_getElem?, List.length_cons]
    rw [show log.lastIncludedIndex + (rest.length + 1) - log.lastIncludedIndex - 1 = rest.length by omega,
      Nat.add_sub_cancel, List.getElem?_eq_getElem (by simp)]
    rfl

theorem lastIndex_of_termAt (above : log.lastIncludedIndex < index) (found : log.termAt index = some term) :
    index ≤ log.lastIndex := by
  rw [MemLog.termAt, if_neg (by omega), if_neg (by omega)] at found
  obtain ⟨entry, held, -⟩ := Option.map_eq_some_iff.mp found
  have := (List.getElem?_eq_some_iff.mp held).1
  rw [MemLog.lastIndex_eq]
  omega

theorem Invisible.of_terms (index : (node.log.installSnapshot upTo term data).lastIndex = node.log.lastIndex)
    (last : (node.log.installSnapshot upTo term data).lastTerm = node.log.lastTerm)
    (terms : ∀ index, (node.log.installSnapshot upTo term data).termAt index = node.log.termAt index) :
    Invisible node (node.compact upTo term data) := by
  refine ⟨index, last, terms _, fun sender request => ?_, fun request => ?_⟩
  · have granted : (node.compact upTo term data).grantsVote sender request = node.grantsVote sender request := by
      unfold RaftNode.grantsVote RaftNode.logOk RaftNode.compact
      rw [index, last]
    have learner : (node.compact upTo term data).isSelfLearner = node.isSelfLearner := rfl
    unfold RaftNode.onVoteRequest
    rw [granted, learner]
    split
    · rfl
    · dsimp only
      split <;> rfl
  · rw [RaftNode.prevOk, RaftNode.prevOk]
    exact congrArg (fun reported => request.prevLogIndex == 0 || reported == some request.prevLogTerm) (terms _)

theorem Invisible.compact (data : Bytes) (later : node.log.lastIncludedIndex < node.lastApplied)
    (uniform : ∀ index, 0 < index → index ≤ node.lastApplied → node.log.termAt index = some node.currentTerm) :
    Invisible node (node.compact node.lastApplied node.currentTerm data) := by
  have within := lastIndex_of_termAt later (uniform _ (by omega) (Nat.le_refl _))
  have index := lastIndex_installSnapshot node.currentTerm data later within
  have terms : ∀ index, (node.log.installSnapshot node.lastApplied node.currentTerm data).termAt index =
      node.log.termAt index := by
    intro index
    rw [termAt_installSnapshot later]
    split
    next covered => exact (uniform index covered.1 covered.2).symm
    next => rfl
  have before := termAt_lastIndex node.log (by omega)
  have after := termAt_lastIndex (node.log.installSnapshot node.lastApplied node.currentTerm data)
    (by rw [index]; omega)
  rw [index, terms, before] at after
  exact .of_terms index (Option.some.inj after).symm terms

/-- Automatic compaction is invisible exactly when it does nothing or every
index it covers already reports the current term. -/
theorem compaction_invisible_iff (node : RaftNode) (data : Bytes) :
    Invisible node (maybeCompactRaftLog node data) ↔
      node.lastApplied % 64 ≠ 0 ∨ node.lastApplied ≤ node.log.lastIncludedIndex ∨
        ∀ index, 0 < index → index ≤ node.lastApplied → node.log.termAt index = some node.currentTerm := by
  unfold maybeCompactRaftLog
  split
  next due =>
    rcases Nat.lt_or_ge node.log.lastIncludedIndex node.lastApplied with later | older
    · constructor
      · intro invisible
        refine Or.inr (Or.inr fun index positive below => ?_)
        -- ask about the index under the current term: the compacted log agrees
        have check := invisible.checks ⟨0, node.config.id, index, node.currentTerm, [], 0⟩
        have reported : (node.log.installSnapshot node.lastApplied node.currentTerm data).termAt index =
            some node.currentTerm := by
          rw [termAt_installSnapshot later, if_pos ⟨positive, below⟩]
        rw [RaftNode.prevOk, RaftNode.prevOk] at check
        dsimp only [RaftNode.compact] at check
        rw [reported, beq_self_eq_true, Bool.or_true, eq_comm, Bool.or_eq_true, beq_iff_eq, beq_iff_eq] at check
        exact check.resolve_left (by omega)
      · rintro (never | covered | uniform)
        · exact absurd due.2 never
        · omega
        · exact .compact data later uniform
    · refine ⟨fun _ => Or.inr (Or.inl older), fun _ => ?_⟩
      have same : node.log.installSnapshot node.lastApplied node.currentTerm data = node.log := by
        rw [MemLog.installSnapshot, if_pos older]
      exact .of_terms (by rw [same]) (by rw [same]) fun index => by rw [same]
  next idle =>
    refine ⟨fun _ => ?_, fun _ => .refl node⟩
    rcases Nat.eq_zero_or_pos node.lastApplied with zero | positive
    · exact Or.inr (Or.inl (by omega))
    · exact Or.inl fun due => idle ⟨positive, due⟩

end

def longApplied : RaftNode :=
  { RaftNode.new ⟨⟨1⟩, [⟨2⟩], 1, 1⟩ with
    currentTerm := 2
    log := .whole (List.replicate 64 ⟨1, []⟩)
    commitIndex := 64
    lastApplied := 64 }

/-- Compaction raises the last term, and a candidate with the very same log no
longer gets the node's vote. -/
theorem compaction_loses_a_vote :
    longApplied.log.lastTerm = 1 ∧ (maybeCompactRaftLog longApplied []).log.lastTerm = 2 ∧
      longApplied.grantsVote ⟨2⟩ ⟨2, ⟨2⟩, 64, 1⟩ = true ∧
      (maybeCompactRaftLog longApplied []).grantsVote ⟨2⟩ ⟨2, ⟨2⟩, 64, 1⟩ = false := by
  decide +kernel

end KayaDB.Server
