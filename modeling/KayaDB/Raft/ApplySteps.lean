import KayaDB.Raft.CommitSteps

namespace KayaDB.Raft
open RaftNode

theorem toFinset_fromVoters (ids : List NodeId) : (ClusterConfiguration.fromVoters ids).voters.toFinset = ids.toFinset := by
  ext id
  simp [ClusterConfiguration.fromVoters]

section
variable {voters : Finset NodeId} {snapshots : Prop} {history before after : History} {id : NodeId}
  {answers : Option Envelope} {node : RaftNode}
  {members : List ClusterMember}

section
variable (here : Local voters snapshots history id node)
include here

theorem Local.seeded {other : RaftNode} (seeded : Seeded node other) : Local voters snapshots history id other := by
  have nexts := seeded.nexts
  have counts := seeded.counts
  obtain ⟨_, _, rfl⟩ := seeded.shape
  refine { here with
    nexts := fun peer index found => ?_
    candidate := fun role => { here.candidate role with }
    leader := fun role => ?_ }
  · rcases nexts peer index found with old | positive
    · exact here.nexts peer index old
    · exact positive
  · obtain ⟨leads, acked, chosen⟩ := here.leader role
    refine ⟨leads, fun peer member index found positive => ?_, chosen⟩
    rcases counts peer index found with old | zero
    · exact acked peer member index old positive
    · omega

theorem Local.adoptConfig {config : EffectiveConfig} (fixed : id ∈ voters → config.Fixed voters)
    (members : List ClusterMember) : Local voters snapshots history id (node.adoptConfig config members) := by
  refine { here with
    config := fixed
    peers := fun inside peer => ?_
    candidate := fun role => { here.candidate role with }
    leader := fun role => { here.leader role with } }
  have same := (fixed inside).stable_config
  simp only [RaftNode.adoptConfig, RaftNode.syncPeersFromEffectiveConfig, ClusterConfiguration.peersOf,
    List.mem_filter, decide_eq_true_eq]
  rw [here.own, ← same, SortedSet.mem_toFinset]
  rfl

theorem Local.forget_pending : Local voters snapshots history id { node with pendingMembership := none } :=
  { here with
    pending := fun _ _ found => nomatch found
    candidate := fun role => { here.candidate role with }
    leader := fun role => { here.leader role with } }

theorem Local.leaveIfRemoved : node.leaveIfRemoved = node := by
  rw [RaftNode.leaveIfRemoved, if_neg]
  intro removed
  rw [Bool.and_eq_true, Bool.not_eq_true', bne_iff_ne] at removed
  have inside := here.voter removed.2
  have listed : node.config.id ∈ node.effectiveConfig.allVoters := by
    rw [here.own]
    exact ((here.config inside).all_voters id).mpr inside
  exact of_decide_eq_false removed.1 listed

theorem Local.settleConfig (same : (ClusterMember.voterIds members).toFinset = voters) :
    Local voters snapshots history id (node.settleConfig members) := by
  have incoming := (toFinset_fromVoters (ClusterMember.voterIds members)).trans same
  have synced := here.adoptConfig (fun _ => show EffectiveConfig.Fixed voters
    (.stable (.fromVoters (ClusterMember.voterIds members))) from incoming) members
  exact synced.forget_pending.seeded (seeded_members _ members)

end

theorem Sane.keeps_of_log (sane : Sane voters history) {index : Nat} {entry : LogEntry}
    (found : (history.log id)[index]? = some entry) : KeepsVoters voters entry.command := by
  obtain ⟨⟨leader, led⟩, inside⟩ := sane.valid.logs id index entry found
  refine sane.keeps _ leader led entry (inside.subset ?_)
  exact List.mem_of_getElem? ((List.getElem?_take_of_lt (Nat.lt_succ_self index)).trans found)

section
variable (odd : Odd voters.card) (sane : Sane voters history) (here : Local voters snapshots history id node)
include odd sane here

theorem Local.applyJoint (same : (ClusterMember.voterIds members).toFinset = voters) :
    Extends voters snapshots history id answers (node.applyJoint members) := by
  have incoming := (toFinset_fromVoters (ClusterMember.voterIds members)).trans same
  obtain ⟨config, joint⟩ : ∃ config : EffectiveConfig, config = .joint node.effectiveConfig.stableConfig
    (.fromVoters (ClusterMember.voterIds members)) := ⟨_, rfl⟩
  have fixed : id ∈ voters → config.Fixed voters := by
    intro inside
    rw [joint]
    exact ⟨(here.config inside).stable_config, incoming⟩
  have seeded := seeded_members (node.adoptConfig config members) members
  have joined := (here.adoptConfig fixed members).seeded seeded
  obtain ⟨next, matched, shape⟩ := seeded.shape
  unfold RaftNode.applyJoint
  simp only [← joint]
  rw [shape] at joined ⊢
  split
  next finalMembers role pending =>
    have leading : node.role = .leader := role
    have inside : id ∈ voters := here.voter (by rw [leading]; decide)
    -- the leader that applies the joint configuration logs the final one
    have keeps := here.pending inside finalMembers pending
    exact ((joined.forget_pending.appendOwn sane role keeps).send role).commit odd
  next => exact .still sane joined

theorem Local.applyConfigCommand (phase : ConfigChangePhase)
    (same : (ClusterMember.voterIds members).toFinset = voters) :
    Extends voters snapshots history id answers (node.applyConfigCommand phase members) := by
  cases phase with
  | joint =>
    obtain ⟨after, joined⟩ : Extends voters snapshots history id answers (node.applyJoint members) :=
      here.applyJoint odd sane same
    refine ⟨after, ?_⟩
    rw [RaftNode.applyConfigCommand, joined.here.leaveIfRemoved]
    exact joined
  | final =>
    have final := here.settleConfig same
    rw [RaftNode.applyConfigCommand, final.leaveIfRemoved]
    exact .still sane final

theorem Local.applyNext (more : node.lastApplied < node.commitIndex) :
    Extends voters snapshots history id answers node.applyNext := by
  have turned : Local voters snapshots history id { node with lastApplied := node.lastApplied + 1 } :=
    here.raiseApplied (Nat.le_succ _) more
  unfold RaftNode.applyNext
  simp only
  split
  next => exact .still sane turned
  next entry stored =>
    obtain ⟨positive, found⟩ := here.views.of_get stored
    have reconfigured : ∃ after, Extended voters snapshots history id answers
        (applyEntry { node with lastApplied := node.lastApplied + 1 } entry) after ∧
          (applyEntry { node with lastApplied := node.lastApplied + 1 } entry).1.lastApplied = node.lastApplied + 1 := by
      unfold RaftNode.applyEntry
      split
      next phase members decoded =>
        obtain ⟨after, changed⟩ := turned.applyConfigCommand odd sane phase
          (sane.keeps_of_log found phase members decoded)
        exact ⟨after, changed, (Modest.applyConfigCommand _ members phase).lastApplied⟩
      next => exact ⟨history, Moved.still sane turned, rfl⟩
    obtain ⟨after, changed, applied⟩ := reconfigured
    refine ⟨after, ⟨changed.steps, changed.sane, ?_, changed.told, changed.signed⟩, changed.longer, changed.steady⟩
    refine { changed.here with
      handed := fun record inside => ?_
      candidate := fun role => { changed.here.candidate role with }
      leader := fun role => { changed.here.leader role with } }
    rcases List.mem_append.mp inside with old | fresh
    · exact changed.here.handed record old
    · rw [List.mem_singleton.mp fresh]
      refine ⟨positive, applied.ge, ?_⟩
      obtain ⟨rest, whole⟩ := changed.longer
      rw [← whole, List.getElem?_append_left (List.getElem?_eq_some_iff.mp found).1]
      exact found

omit sane here in
theorem Local.applyLoop (fuel : Nat) : ∀ (history : History) (node : RaftNode),
    Sane voters history → Local voters snapshots history id node →
      Extends voters snapshots history id answers (RaftNode.applyLoop fuel node) := by
  induction fuel with
  | zero => exact fun history node sane here => .still sane here
  | succ fuel ih =>
    intro history node sane here
    unfold RaftNode.applyLoop
    split
    next more =>
      obtain ⟨middle, turn⟩ : Extends voters snapshots history id answers node.applyNext :=
        here.applyNext odd sane more
      obtain ⟨after, rest⟩ := ih middle node.applyNext.1 turn.sane turn.here
      exact ⟨after, turn.andThen rest⟩
    next => exact .still sane here

omit odd sane here in
theorem checkPendingReads_same (node : RaftNode) : Same node node.checkPendingReads := by
  unfold RaftNode.checkPendingReads
  split <;> constructor <;> rfl

theorem Local.tryAdvanceApply : Extends voters snapshots history id answers node.tryAdvanceApply := by
  obtain ⟨after, applied⟩ : Extends voters snapshots history id answers (RaftNode.applyLoop node.applyFuel node) :=
    Local.applyLoop odd node.applyFuel history node sane here
  exact ⟨after, applied.same (checkPendingReads_same _)⟩

end

/-- What is sent while entries are applied may be dropped. -/
theorem Extends.apply (odd : Odd voters.card) {result : RaftNode × List Envelope}
    (extends_ : Extends voters snapshots before id answers result) :
    Extends voters snapshots before id answers (result.1.tryAdvanceApply.1, result.2) := by
  obtain ⟨middle, moved⟩ := extends_
  obtain ⟨after, applied⟩ := moved.here.tryAdvanceApply odd moved.sane
  exact ⟨after, List.append_nil result.2 ▸ moved.andThen applied.quiet⟩

end
end KayaDB.Raft
