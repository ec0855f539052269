import KayaDB.Raft.Bookkeeping
import KayaDB.Raft.Membership

/-! Safety with log compaction, snapshot transfer and restarts, between any two
states of a careful run. What lies below a snapshot is gone from a node's log, so
nodes are compared where they still hold entries. -/

namespace KayaDB.Raft
open Cluster

section
variable {voters : Finset NodeId} {configs : NodeId → RaftConfig} {first last : Cluster}
  (odd : Odd voters.card) (voting : Voting voters configs)
  (reached : Reaches configs (Careful voters) (initial configs) first)
include odd voting reached

theorem logs_match_above_snapshots : ∀ one two index left right, (first.nodes one).log.get index = some left →
    (first.nodes two).log.get index = some right → left.term = right.term →
    ∀ earlier ≤ index, (first.nodes one).log.lastIncludedIndex < earlier →
      (first.nodes two).log.lastIncludedIndex < earlier →
      (first.nodes one).log.get earlier = (first.nodes two).log.get earlier := by
  obtain ⟨history, related⟩ := careful_related odd voting reached
  intro one two index left right inFirst inSecond same earlier below above beyond
  obtain ⟨-, held⟩ := (related.nodes one).views.of_get inFirst
  obtain ⟨-, also⟩ := (related.nodes two).views.of_get inSecond
  have agree := (related.sane.valid.logs one).agree (related.sane.valid.logs two) held also same
  rw [(related.nodes one).views.get_eq above, (related.nodes two).views.get_eq beyond]
  exact List.prefix_of_getElem?_take agree (by omega)

/-- Nodes that restart hand entries out again, but never other ones. -/
theorem handed_agree_with_snapshots : ∀ one two index term other command different,
    (one, index, term, command) ∈ first.handed → (two, index, other, different) ∈ first.handed →
      term = other ∧ command = different := by
  obtain ⟨history, related⟩ := careful_related odd voting reached
  intro one two index term other command different left right
  exact related.handed_agree left right

variable (later : Reaches configs (Careful voters) first last)
include later

theorem careful_growth : ∃ before after, Related voters True first before ∧ Related voters True last after ∧
    before.Grows after := by
  obtain ⟨before, early⟩ := careful_related odd voting reached
  obtain ⟨after, growth, late⟩ := Related.run odd voting
    (fun _ _ _ _ careful => ⟨careful, fun _ _ _ _ _ => trivial⟩) later early
  exact ⟨before, after, early, late, growth⟩

/-- What is committed at an index is the same on all nodes and at all times. -/
theorem committed_entries_agree : ∀ one two index left right, index ≤ (first.nodes one).commitIndex →
    index ≤ (last.nodes two).commitIndex → (first.nodes one).log.get index = some left →
    (last.nodes two).log.get index = some right → left = right := by
  obtain ⟨before, after, early, late, growth⟩ := careful_growth odd voting reached later
  intro one two index left right inside insideToo inFirst inLast
  obtain ⟨positive, held⟩ := (early.nodes one).views.of_get inFirst
  obtain ⟨-, also⟩ := (late.nodes two).views.of_get inLast
  have settled := (early.nodes one).committed.grow early.sane.valid growth
  have agree := settled.agree (late.nodes two).committed late.sane.valid inside insideToo
  rw [List.prefix_of_getElem?_take agree (by omega), also] at held
  exact (Option.some.inj held).symm

/-- A term has one leader, and a leader keeps what was committed before it. -/
theorem leaders_hold_commits : (∀ one two, (first.nodes one).role = .leader → (last.nodes two).role = .leader →
      (first.nodes one).currentTerm = (last.nodes two).currentTerm → one = two) ∧
    ∀ node leader index entry, index ≤ (first.nodes node).commitIndex → (first.nodes node).log.get index = some entry →
      (last.nodes leader).role = .leader → (first.nodes node).currentTerm ≤ (last.nodes leader).currentTerm →
      (last.nodes leader).log.lastIncludedIndex < index → (last.nodes leader).log.get index = some entry := by
  obtain ⟨before, after, early, late, growth⟩ := careful_growth odd voting reached later
  refine ⟨fun one two leads also same => early.same_leader late growth leads also same, ?_⟩
  intro node leader index entry committed stored leads past above
  obtain ⟨positive, found⟩ := (early.nodes node).views.of_get stored
  obtain ⟨rest, whole⟩ := early.committed_in_leader late growth leads past
  have inside : ((before.log node).take (first.nodes node).commitIndex)[index - 1]? = some entry := by
    rw [List.getElem?_take_of_lt (by omega)]
    exact found
  rw [(late.nodes leader).views.get_eq above, ← whole,
    List.getElem?_append_left (List.getElem?_eq_some_iff.mp inside).1]
  exact inside

end

def compacted : Cluster := (initial trio).run trio (snapshotRun ++ [.deliver 11])

theorem compacted_reached : Reaches trio (Careful trioVoters) (initial trio) compacted := snapshotRun_permitted.reaches

/-- Nodes 2 and 3 catch up, node 1 restarts at its snapshot, and node 2 is elected. -/
def aftermath : List Event :=
  [.drainApplied ⟨1⟩, .tick ⟨1⟩, .deliver 12, .deliver 13, .drainApplied ⟨2⟩, .drainApplied ⟨3⟩, .restart ⟨1⟩ 1,
    .tick ⟨2⟩, .deliver 16, .deliver 18]

theorem aftermath_permitted : Permits trio (Careful trioVoters) compacted aftermath := by
  refine ⟨trivial, Or.inl (by decide +kernel), ?_, ?_, trivial, trivial, ?_, Or.inl (by decide +kernel), ?_, ?_,
    trivial⟩
  all_goals
    unfold Careful
    decide +kernel

def restarted : Cluster := compacted.run trio aftermath

theorem restarted_reached : Reaches trio (Careful trioVoters) compacted restarted := aftermath_permitted.reaches

theorem logs_match_after_restart : (restarted.nodes ⟨1⟩).log.get 2 = (restarted.nodes ⟨2⟩).log.get 2 :=
  logs_match_above_snapshots (by decide) trio_voting (compacted_reached.trans restarted_reached)
    ⟨1⟩ ⟨2⟩ 2 ⟨1, [255]⟩ ⟨1, [255]⟩ (by decide +kernel) (by decide +kernel) rfl 2 (Nat.le_refl 2) (by decide +kernel)
    (by decide +kernel)

theorem handed_agree_after_restart : (⟨1⟩, 2, 1, [255]) ∈ restarted.handed ∧
    (⟨3⟩, 2, 1, [255]) ∈ restarted.handed ∧ 1 = 1 ∧ ([255] : Bytes) = [255] :=
  have left : (⟨1⟩, 2, 1, [255]) ∈ restarted.handed := by decide +kernel
  have right : (⟨3⟩, 2, 1, [255]) ∈ restarted.handed := by decide +kernel
  ⟨left, right, handed_agree_with_snapshots (by decide) trio_voting (compacted_reached.trans restarted_reached)
    ⟨1⟩ ⟨3⟩ 2 1 1 [255] [255] left right⟩

theorem committed_entries_agree_after_restart : (compacted.nodes ⟨1⟩).log.get 2 = some ⟨1, [255]⟩ ∧
    (restarted.nodes ⟨3⟩).log.get 2 = some ⟨1, [255]⟩ ∧ (⟨1, [255]⟩ : LogEntry) = ⟨1, [255]⟩ :=
  have early : (compacted.nodes ⟨1⟩).log.get 2 = some ⟨1, [255]⟩ := by decide +kernel
  have late : (restarted.nodes ⟨3⟩).log.get 2 = some ⟨1, [255]⟩ := by decide +kernel
  ⟨early, late, committed_entries_agree (by decide) trio_voting compacted_reached restarted_reached
    ⟨1⟩ ⟨3⟩ 2 _ _ (by decide +kernel) (by decide +kernel) early late⟩

theorem leaders_hold_commits_after_restart :
    (restarted.nodes ⟨2⟩).role = .leader ∧ (restarted.nodes ⟨2⟩).log.get 2 = some ⟨1, [255]⟩ :=
  have leads : (restarted.nodes ⟨2⟩).role = .leader := by decide +kernel
  ⟨leads, (leaders_hold_commits (by decide) trio_voting compacted_reached restarted_reached).2 ⟨1⟩ ⟨2⟩ 2
    ⟨1, [255]⟩ (by decide +kernel) (by decide +kernel) leads (by decide +kernel) (by decide +kernel)⟩

end KayaDB.Raft
