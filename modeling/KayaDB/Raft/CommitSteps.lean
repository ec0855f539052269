import KayaDB.Raft.NodeSteps

namespace KayaDB.Raft
open RaftNode

section
variable {voters : Finset NodeId} {config : EffectiveConfig}
  {test : NodeId → Bool}

private theorem met_majority {side : ClusterConfiguration} (odd : Odd voters.card)
    (same : side.voters.toFinset = voters) (met : side.met test = true) :
    Majority voters (voters.filter fun id => test id = true) := by
  refine Majority.of_half odd (Finset.filter_subset _ _) ?_
  have count := of_decide_eq_true met
  rw [ClusterConfiguration.quorum, ← SortedSet.card_toFinset, SortedSet.countP_eq_card_filter, same] at count
  exact count

section
variable (fixed : config.Fixed voters)
include fixed

theorem EffectiveConfig.Fixed.commit_majority (odd : Odd voters.card)
    (met : config.commitQuorumMet test = true) : Majority voters (voters.filter fun id => test id = true) := by
  cases config with
  | stable side => exact met_majority odd fixed met
  | joint outgoing incoming =>
    rw [EffectiveConfig.commitQuorumMet, Bool.and_eq_true] at met
    exact met_majority odd fixed.1 met.1

theorem EffectiveConfig.Fixed.election_majority (odd : Odd voters.card)
    {votes : Finset NodeId} (inside : votes ⊆ voters) (enough : config.electionQuorum ≤ votes.card) :
    Majority voters votes := by
  refine Majority.of_half odd inside ?_
  cases config with
  | stable side =>
    rw [EffectiveConfig.electionQuorum, ClusterConfiguration.quorum, ← SortedSet.card_toFinset,
      show side.voters.toFinset = voters from fixed] at enough
    exact enough
  | joint outgoing incoming =>
    rw [EffectiveConfig.electionQuorum, ← SortedSet.card_toFinset, ← SortedSet.card_toFinset, fixed.1, fixed.2,
      Nat.max_self] at enough
    exact enough

theorem EffectiveConfig.Fixed.all_voters (id : NodeId) : id ∈ config.allVoters ↔ id ∈ voters := by
  cases config with
  | stable side => rw [← show side.voters.toFinset = voters from fixed, SortedSet.mem_toFinset]; rfl
  | joint outgoing incoming =>
    rw [EffectiveConfig.allVoters, SortedSet.mem_union, ← SortedSet.mem_toFinset, ← SortedSet.mem_toFinset,
      fixed.1, fixed.2, or_self]

theorem EffectiveConfig.Fixed.stable_config : config.stableConfig.voters.toFinset = voters := by
  cases config with
  | stable side => exact fixed
  | joint outgoing incoming => exact fixed.2

end

end

section
variable {voters : Finset NodeId} {snapshots : Prop} {history before after : History} {id : NodeId}
  {answers : Option Envelope} {node : RaftNode}
  {index : Nat}

theorem Local.raiseCommit (here : Local voters snapshots history id node) (later : node.commitIndex ≤ index)
    (settled : history.Settled (history.log id) node.currentTerm index) :
    Local voters snapshots history id { node with commitIndex := index } := by
  refine { here with
    committed := settled
    applied := here.applied.trans later
    candidate := fun role => { here.candidate role with }
    leader := fun role => ?_ }
  obtain ⟨leads, acked, chosen⟩ := here.leader role
  exact ⟨leads, acked, fun length inside => (chosen length inside).trans later⟩

theorem Local.raiseApplied (here : Local voters snapshots history id node) (later : node.lastApplied ≤ index)
    (reached : index ≤ node.commitIndex) : Local voters snapshots history id { node with lastApplied := index } :=
  { here with
    applied := reached
    handed := fun entry inside =>
      ⟨(here.handed entry inside).1, (here.handed entry inside).2.1.trans later, (here.handed entry inside).2.2⟩
    candidate := fun role => { here.candidate role with }
    leader := fun role => { here.leader role with } }

/-- A leader chooses an entry of its own term on a majority of match indices.
Below the snapshot nothing is chosen: those entries are settled already. -/
theorem Local.considerCommit (odd : Odd voters.card) (role : node.role = .leader) {commit : Nat}
    (sane : Sane voters history) (here : Local voters snapshots history id { node with commitIndex := commit })
    (later : commit < index) :
    node.considerCommit commit index ≤ index ∧ Extends voters snapshots history id answers
      ({ node with commitIndex := node.considerCommit commit index }, []) := by
  unfold RaftNode.considerCommit
  split
  next => exact ⟨Nat.le_of_lt later, .still sane here⟩
  next reported =>
  split
  next met =>
    refine ⟨Nat.le_refl _, ?_⟩
    rcases Nat.lt_or_ge node.log.lastIncludedIndex index with above | below
    · have term := not_not.mp reported
      rw [here.views.term_at (by omega) (Nat.le_of_lt above)] at term
      obtain ⟨entry, found, own⟩ := Option.map_eq_some_iff.mp term
      have member : id ∈ voters := here.voter (by rw [role]; decide)
      have leading := here.leader role
      have book := here.book sane role
      have majority := (here.config member).commit_majority odd met
      have sameTerm : history.term id = node.currentTerm := here.term
      have present : (history.book (history.term id))[index - 1]? = some entry := by
        rw [sameTerm, ← show history.log id = history.book node.currentTerm from book]
        exact found
      have step : Replication.Step voters id history (history.choose (history.term id) index) := by
        refine .choose (by rw [sameTerm]; exact leading.leads) majority ?_ (by omega) present
          (by rw [sameTerm]; exact own)
        intro voter inside
        obtain ⟨voting, matched⟩ := Finset.mem_filter.mp inside
        have matched := of_decide_eq_true matched
        unfold RaftNode.matchOf at matched
        cases known : node.matchIndex.lookup voter with
        | none =>
          rw [known] at matched
          exact absurd matched (by simp only [Option.getD_none]; omega)
        | some reached =>
          rw [known, Option.getD_some] at matched
          obtain ⟨acked, short, ack⟩ := leading.acked voter voting reached known (by omega)
          exact ⟨acked, matched.trans short, by rw [sameTerm]; exact ack⟩
      have growth := step.grows sane.valid
      refine ⟨_, .silent (.single step) ⟨step.valid sane.valid, sane.keeps⟩ ?_, List.prefix_rfl, rfl⟩
      refine { here with
        covered := here.covered.grow sane.valid growth
        committed := ?_
        applied := here.applied.trans (Nat.le_of_lt later)
        candidate := fun standing => absurd (role.symm.trans standing) (by decide)
        leader := fun _ => ⟨leading.leads, leading.acked, ?_⟩ }
      · refine Or.inr ⟨node.currentTerm, index, ?_, Nat.le_refl _, Nat.le_refl _, ?_⟩
        · rw [sameTerm]
          exact Set.mem_insert _ _
        · change (history.book node.currentTerm).take index <+: history.log id
          rw [show history.log id = history.book node.currentTerm from book]
          exact List.take_prefix _ _
      · intro length chosen
        rcases Set.mem_insert_iff.mp chosen with fresh | old
        · exact (congrArg Prod.snd fresh).le
        · exact (leading.chosen length old).trans (Nat.le_of_lt later)
    · exact .still sane (here.raiseCommit (Nat.le_of_lt later) (here.covered.smaller below))
  next => exact ⟨Nat.le_of_lt later, .still sane here⟩

theorem Local.consider_all (odd : Odd voters.card) (role : node.role = .leader) (count : Nat) :
    ∀ (start commit : Nat) (history : History), Sane voters history →
      Local voters snapshots history id { node with commitIndex := commit } → commit < start →
      Extends voters snapshots history id answers
        ({ node with commitIndex := (List.range' start count).foldl node.considerCommit commit }, []) := by
  induction count with
  | zero => exact fun start commit history sane here _ => .still sane here
  | succ count ih =>
    intro start commit history sane here later
    have first : _ ∧ Extends voters snapshots history id answers _ := here.considerCommit odd role sane later
    obtain ⟨bound, middle, moved⟩ := first
    obtain ⟨after, rest⟩ := ih (start + 1) _ middle moved.sane moved.here (by omega)
    exact ⟨after, moved.andThen rest⟩

theorem Local.tryAdvanceCommit (odd : Odd voters.card) (sane : Sane voters history)
    (here : Local voters snapshots history id node) :
    Extends voters snapshots history id answers (node.tryAdvanceCommit, []) := by
  unfold RaftNode.tryAdvanceCommit
  split
  next => exact .still sane here
  next leading =>
    exact Local.consider_all odd (not_not.mp leading) _ _ _ history sane here (Nat.lt_succ_self _)

theorem Extends.commit (odd : Odd voters.card) {result : RaftNode × List Envelope}
    (extends_ : Extends voters snapshots before id answers result) :
    Extends voters snapshots before id answers (result.1.tryAdvanceCommit, result.2) := by
  obtain ⟨middle, moved⟩ := extends_
  obtain ⟨after, committed⟩ := moved.here.tryAdvanceCommit odd moved.sane
  exact ⟨after, List.append_nil result.2 ▸ moved.andThen committed⟩

/-- A leader's own entry is in its book and acknowledged by itself at once. -/
theorem Local.write (sane : Sane voters history) (here : Local voters snapshots history id { node with role := .follower })
    (role : node.role = .leader) (inside : id ∈ voters) {command : Bytes} {leader : Nat → Option NodeId}
    (first : Replication.Step voters id history { history.append id ⟨node.currentTerm, command⟩ with leader := leader })
    (leads : leader node.currentTerm = some id)
    (others : ∀ term, term ≠ node.currentTerm → leader term = history.leader term)
    (keeps : ∀ entry ∈ history.log id ++ [⟨node.currentTerm, command⟩], KeepsVoters voters entry.command)
    (acked : ∀ peer ∈ voters, peer ≠ id → ∀ index, node.matchIndex.lookup peer = some index → 0 < index →
      ∃ reached, index ≤ reached ∧ (node.currentTerm, peer, reached) ∈ history.acks)
    (chosen : ∀ length, (node.currentTerm, length) ∈ history.chosen → length ≤ node.commitIndex) :
    Extends voters snapshots history id answers (node.appendOwn command, []) := by
  unfold RaftNode.appendOwn
  generalize (⟨node.currentTerm, command⟩ : LogEntry) = entry at *
  have sameTerm : history.term id = node.currentTerm := here.term
  rw [← sameTerm] at leads others
  set middle : History := { history.append id entry with leader := leader }
  have newLog : middle.log id = history.log id ++ [entry] := Function.update_self _ _ _
  have newBook : middle.book (history.term id) = history.log id ++ [entry] := Function.update_self _ _ _
  have second : Replication.Step voters id middle (middle.acknowledge id (history.log id ++ [entry]).length) := by
    refine .acknowledge leads (congrArg List.length newBook).ge ?_
    rw [newLog]
    exact (List.take_prefix _ _).trans (newBook ▸ List.prefix_rfl)
  have valid := first.valid sane.valid
  have grows := (first.grows sane.valid).trans (second.grows valid)
  have part : history.log id <+: middle.log id := newLog ▸ List.prefix_append _ _
  have ownAck : (node.currentTerm, id, (history.log id ++ [entry]).length) ∈
      (middle.acknowledge id (history.log id ++ [entry]).length).acks :=
    Set.mem_insert_iff.mpr (Or.inl (by rw [← sameTerm]; rfl))
  refine ⟨_, .silent ((Relation.ReflTransGen.single first).tail second) ⟨second.valid valid, ?_⟩ ?_, part, rfl⟩
  · intro term other led found inBook
    by_cases same : term = history.term id
    · subst same
      exact keeps found (newBook ▸ inBook)
    · have old : found ∈ history.book term := (Function.update_of_ne same _ _ : middle.book term = _) ▸ inBook
      exact sane.keeps _ _ ((others term same).symm.trans led) found old
  · refine { here with
      views := newLog ▸ here.views.append entry
      covered := (here.covered.grow sane.valid grows).shorten part
      committed := (here.committed.grow sane.valid grows).shorten part
      handed := ?_
      nexts := ?_
      voter := fun _ => inside
      candidate := fun standing => absurd (role.symm.trans standing) (by decide)
      leader := fun _ => ⟨sameTerm ▸ leads, ?_, chosen⟩ }
    · intro applied member
      obtain ⟨positive, bound, found⟩ := here.handed applied member
      refine ⟨positive, bound, ?_⟩
      change (middle.log id)[_]? = _
      rw [newLog, List.getElem?_append_left (List.getElem?_eq_some_iff.mp found).1]
      exact found
    · intro peer index found
      rcases lookup_insert_cases found with ⟨-, rfl⟩ | ⟨-, old⟩
      · exact Nat.succ_pos _
      · exact here.nexts peer index old
    · intro peer member index found positive
      have own : node.config.id = id := here.own
      rcases lookup_insert_cases found with ⟨rfl, rfl⟩ | ⟨other, old⟩
      · exact ⟨_, ((here.views.append entry).last_index).le, own ▸ ownAck⟩
      · obtain ⟨reached, short, ack⟩ := acked peer member (own ▸ other) index old positive
        exact ⟨reached, short, grows.acks ack⟩

theorem Local.appendOwn (sane : Sane voters history) (here : Local voters snapshots history id node)
    (role : node.role = .leader) {command : Bytes} (keeps : KeepsVoters voters command) :
    Extends voters snapshots history id answers (node.appendOwn command, []) := by
  have leading := here.leader role
  have following : Local voters snapshots history id { node with role := .follower } :=
    { here with
      voter := fun role => absurd rfl role
      candidate := fun role => nomatch role
      leader := fun role => nomatch role }
  refine following.write sane role (here.voter (by rw [role]; decide)) (.append ?_ ?_) leading.leads (fun _ _ => rfl)
    (fun found inside => ?_) (fun peer member _ => leading.acked peer member) leading.chosen
  · rw [here.term]
    exact leading.leads
  · exact here.term.symm
  · rcases List.mem_append.mp inside with old | fresh
    · exact sane.keeps _ _ leading.leads found (here.book sane role ▸ old)
    · rw [List.mem_singleton.mp fresh]
      exact keeps

end
end KayaDB.Raft
