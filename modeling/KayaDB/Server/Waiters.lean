import KayaDB.Server.Apply
import KayaDB.Server.Loop

/-! Whom the event loop answers. A client waits under the group and index of its
proposal; while its node leads, the log holds the command there until it is applied. -/

namespace KayaDB.Server
open Raft RaftNode

/-- The node hands out nothing but `command` at `index`: the log holds it until
it is applied. -/
structure Promised (index : Nat) (command : Bytes) (node : RaftNode) : Prop where
  queued : ∀ entry ∈ node.appliedEntries, entry.1 = index → entry.2.2 = command
  logged : node.lastApplied < index → ∃ term, node.log.get index = some ⟨term, command⟩

/-- The node does not lead, and what is committed at `index`, if anything, is
`command`. -/
structure Shielded (index : Nat) (command : Bytes) (node : RaftNode) : Prop where
  queued : ∀ entry ∈ node.appliedEntries, entry.1 = index → entry.2.2 = command
  role : node.role ≠ .leader
  committed : node.lastApplied < index → index ≤ node.commitIndex →
    ∀ entry, node.log.get index = some entry → entry.command = command

/-- Entries that wait to be drained are in the log, or were. -/
def Bounded (node : RaftNode) : Prop := ∀ entry ∈ node.appliedEntries, entry.1 ≤ node.log.lastIndex

/-- An append request leaves alone what clients wait for: where it is accepted
and commits `index`, the merged log has `command` there. -/
def Harmless (node : RaftNode) (request : AppendRequest) (index : Nat) (command : Bytes) : Prop :=
  node.currentTerm ≤ request.term → prevOk node.log request = true → node.lastApplied < index →
    index ≤ max node.commitIndex request.leaderCommit →
      ∀ entry ∈ (mergeEntries node.log request.prevLogIndex request.entries).get index, entry.command = command

instance (node : RaftNode) (request : AppendRequest) (index : Nat) (command : Bytes) :
    Decidable (Harmless node request index command) := inferInstanceAs (Decidable (_ → _ → _ → _ → _))

variable {index : Nat} {command : Bytes} {node other : RaftNode}
  {request : AppendRequest}

theorem Bounded.stable : Stable Bounded where
  undisturbed kept bounded entry inside := by
    rw [kept.appliedEntries] at inside
    exact (bounded entry inside).trans kept.lastIndex_le
  applyNext := by
    intro node _ bounded
    unfold RaftNode.applyNext
    dsimp only
    split
    next => exact bounded
    next entry found =>
      have quiet := Modest.applyEntry { node with lastApplied := node.lastApplied + 1 } entry
      intro queued inside
      rcases List.mem_append.mp inside with old | new
      · rw [quiet.appliedEntries] at old
        exact (bounded queued old).trans quiet.lastIndex_le
      · cases List.mem_singleton.mp new
        exact (MemLog.lastIndex_of_get found).trans quiet.lastIndex_le

namespace Promised

theorem stable : Stable (Promised index command) where
  undisturbed kept promised := by
    refine ⟨fun entry inside => promised.queued entry (kept.appliedEntries ▸ inside), fun ahead => ?_⟩
    obtain ⟨term, found⟩ := promised.logged (kept.lastApplied ▸ ahead)
    exact ⟨term, kept.toLogGrows.get found⟩
  applyNext := by
    intro node _ promised
    unfold RaftNode.applyNext
    dsimp only
    split
    next => exact ⟨promised.queued, fun ahead => promised.logged (Nat.lt_of_succ_lt ahead)⟩
    next entry found =>
      have quiet := Modest.applyEntry { node with lastApplied := node.lastApplied + 1 } entry
      refine ⟨fun queued inside here => ?_, fun ahead => ?_⟩
      · rcases List.mem_append.mp inside with old | new
        · rw [quiet.appliedEntries] at old
          exact promised.queued queued old here
        · cases List.mem_singleton.mp new
          -- the entry just applied is the one the log holds for the client
          subst here
          obtain ⟨term, held⟩ := promised.logged (Nat.lt_succ_self node.lastApplied)
          cases held.symm.trans found
          rfl
      · have applied : (RaftNode.applyEntry { node with lastApplied := node.lastApplied + 1 } entry).1.lastApplied =
            node.lastApplied + 1 := quiet.lastApplied
        dsimp only at ahead
        obtain ⟨term, held⟩ := promised.logged (by omega)
        exact ⟨term, quiet.toLogGrows.get held⟩

/-- A snapshot that reaches beyond `index` counts it as applied. -/
theorem install (promised : Promised index command node) {upTo term : Nat} {data : Bytes}
    (log : other.log = node.log.installSnapshot upTo term data)
    (applied : other.lastApplied = max node.lastApplied upTo)
    (entries : other.appliedEntries ⊆ node.appliedEntries) : Promised index command other := by
  refine ⟨fun entry inside => promised.queued entry (entries inside), fun ahead => ?_⟩
  obtain ⟨entryTerm, found⟩ := promised.logged (by omega)
  exact ⟨entryTerm, by rw [log, get_installSnapshot (by omega), found]⟩

theorem onInstallSnapshotRequest (promised : Promised index command node) (sender : NodeId)
    (request : InstallSnapshotRequest) : Promised index command (node.onInstallSnapshotRequest sender request).1 := by
  unfold RaftNode.onInstallSnapshotRequest
  split
  next => exact promised
  next =>
    dsimp only
    split
    next => exact promised.install rfl rfl (fun _ inside => inside)
    next => exact promised.install rfl rfl (fun _ inside => inside)

theorem proposed (leading : node.role = .leader) (bounded : Bounded node) (command : Bytes) :
    Promised (node.appendOwn command).log.lastIndex command (node.propose command).1 := by
  have appended : Promised (node.appendOwn command).log.lastIndex command (node.appendOwn command) := by
    have last : (node.appendOwn command).log.lastIndex = node.log.lastIndex + 1 := MemLog.lastIndex_append _ _
    rw [last]
    refine ⟨fun entry inside here => ?_, fun _ => ⟨node.currentTerm, ?_⟩⟩
    · have := bounded entry inside
      omega
    · unfold RaftNode.appendOwn MemLog.append MemLog.get
      dsimp only
      rw [MemLog.lastIndex_eq, if_neg (by omega),
        show node.log.lastIncludedIndex + node.log.entries.length + 1 - node.log.lastIncludedIndex - 1 =
          node.log.entries.length from by omega]
      exact List.getElem?_concat_length
  rcases propose_cases node command with same | ⟨-, same⟩
  · have refused := congrArg Prod.snd same
    unfold RaftNode.propose at refused
    rw [if_neg (not_not.mpr leading)] at refused
    cases refused
  · rw [same]
    exact stable.tryAdvanceApply (stable.undisturbed (Modest.tryAdvanceCommit _).toUndisturbed appended)

end Promised

namespace Shielded

theorem passive (shielded : Shielded index command node) (kept : Passive node other) :
    Shielded index command other := by
  refine ⟨fun entry inside => shielded.queued entry (kept.appliedEntries ▸ inside), kept.role, ?_⟩
  rw [kept.lastApplied, kept.commitIndex, kept.log]
  exact shielded.committed

theorem applyNext (shielded : Shielded index command node) (more : node.lastApplied < node.commitIndex) :
    Shielded index command node.applyNext.1 := by
  unfold RaftNode.applyNext
  dsimp only
  split
  next =>
    exact ⟨shielded.queued, shielded.role, fun ahead => shielded.committed (Nat.lt_of_succ_lt ahead)⟩
  next entry found =>
    have role : ({ node with lastApplied := node.lastApplied + 1 } : RaftNode).role ≠ .leader := shielded.role
    have kept := Passive.applyEntry role entry
    refine ⟨fun queued inside here => ?_, kept.role, ?_⟩
    · rcases List.mem_append.mp inside with old | new
      · rw [kept.appliedEntries] at old
        exact shielded.queued queued old here
      · cases List.mem_singleton.mp new
        subst here
        exact shielded.committed (Nat.lt_succ_self _) more entry found
    · dsimp only
      rw [kept.lastApplied, kept.commitIndex, kept.log]
      exact fun ahead => shielded.committed (Nat.lt_of_succ_lt ahead)

theorem applyLoop (fuel : Nat) : ∀ {node : RaftNode}, Shielded index command node →
    Shielded index command (RaftNode.applyLoop fuel node).1 := by
  induction fuel with
  | zero => exact id
  | succ fuel ih =>
    intro node shielded
    unfold RaftNode.applyLoop
    split
    next more => exact ih (shielded.applyNext more)
    next => exact shielded

theorem tryAdvanceApply (shielded : Shielded index command node) :
    Shielded index command node.tryAdvanceApply.1 := by
  have applied := shielded.applyLoop node.applyFuel
  unfold RaftNode.tryAdvanceApply RaftNode.checkPendingReads
  dsimp only
  rw [if_pos applied.role]
  exact applied

end Shielded

/-- What a client waits for is still safe with the node. -/
def Secured (index : Nat) (command : Bytes) (node : RaftNode) : Prop :=
  Promised index command node ∨ Shielded index command node

theorem Promised.onAppendRequest (promised : Promised index command node) (sender : NodeId)
    (harmless : Harmless node request index command) :
    Secured index command (node.onAppendRequest sender request).1 := by
  unfold RaftNode.onAppendRequest
  split
  next => exact Or.inl promised
  next current =>
    dsimp only
    split
    next => exact Or.inl ⟨promised.queued, promised.logged⟩
    next matched =>
      refine Or.inr ⟨promised.queued, nofun, fun ahead committed entry found => ?_⟩
      refine harmless (Nat.not_lt.mp current) (by simpa using matched) ahead ?_ entry found
      dsimp only at committed
      split at committed <;> omega

theorem Harmless.observeTerm (harmless : Harmless node request index command) :
    Harmless (node.observeTerm request.term) request index command := by
  rcases observeTerm_cases node request.term with ⟨later, same⟩ | ⟨-, same⟩ <;> rw [same]
  · exact fun _ => harmless later.le
  · exact harmless

theorem Promised.handle (promised : Promised index command node) {env : Envelope}
    (harmless : ∀ request, env.message = .appendRequest request → Harmless node request index command) :
    Secured index command (node.handle env).1 := by
  have observed := stable.observeTerm promised env.message.term
  unfold RaftNode.handle thenApply
  by_cases appending : ∃ request, env.message = .appendRequest request
  · obtain ⟨request, message⟩ := appending
    rw [message] at observed ⊢
    rcases observed.onAppendRequest env.sender (harmless request message).observeTerm with held | held
    · exact Or.inl (stable.tryAdvanceApply held)
    · exact Or.inr held.tryAdvanceApply
  · left
    exact stable.tryAdvanceApply (stable.dispatch observed env.sender
      (fun request message => absurd ⟨request, message⟩ appending)
      fun request _ => observed.onInstallSnapshotRequest env.sender request)

namespace Secured

section
variable (secured : Secured index command node)
include secured

theorem fields (other : RaftNode) (log : other.log = node.log) (applied : other.lastApplied = node.lastApplied)
    (entries : other.appliedEntries ⊆ node.appliedEntries) (commit : other.commitIndex = node.commitIndex)
    (role : other.role = node.role) : Secured index command other := by
  rcases secured with held | held
  · exact Or.inl ⟨fun entry inside => held.queued entry (entries inside), by rw [applied, log]; exact held.logged⟩
  · exact Or.inr ⟨fun entry inside => held.queued entry (entries inside), role ▸ held.role,
      by rw [applied, log, commit]; exact held.committed⟩

theorem maybeCompactRaftLog (snapData : Bytes) : Secured index command (maybeCompactRaftLog node snapData) := by
  unfold Server.maybeCompactRaftLog
  split
  next =>
    have fewer : (node.compact node.lastApplied node.currentTerm snapData).appliedEntries ⊆ node.appliedEntries :=
      (List.dropWhile_sublist _).subset
    rcases secured with held | held
    · exact Or.inl (held.install rfl rfl fewer)
    · refine Or.inr ⟨fun entry inside => held.queued entry (fewer inside), held.role, fun ahead committed entry found => ?_⟩
      unfold RaftNode.compact at ahead committed found
      dsimp only at ahead committed found
      rw [get_installSnapshot (by omega)] at found
      exact held.committed (by omega) (by omega) entry found
  next => exact secured

theorem restoreConfig (members : List ClusterMember) :
    Secured index command (node.restoreConfigFromSnapshot members) := by
  rcases secured with held | held
  · exact Or.inl (Promised.stable.undisturbed (Modest.settleConfig node members).toUndisturbed held)
  · exact Or.inr (held.passive (.settleConfig held.role members))

theorem promised (leading : node.role = .leader) :
    Promised index command node := secured.resolve_right fun held => held.role leading

end

end Secured
end KayaDB.Server
