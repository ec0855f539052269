import KayaDB.Raft.Safety

/-! Membership changes. A configuration counts from the moment a node applies it, and
quorums are halves rounded up, so changing the voters can elect two leaders of one term.
-/

namespace KayaDB.Raft
open Cluster

/-- Every configuration that is proposed, as a membership change or as a raw
command, has the given voters; learners come and go freely. No log is compacted,
and nodes that are not voters do not campaign. -/
def StableVoters (voters : Finset NodeId) (cluster : Cluster) : Event → Prop
  | .tick node => mayTick voters (cluster.nodes node)
  | .propose _ command => KeepsVoters voters command
  | .proposeMembershipChange node members =>
    let members := (cluster.nodes node).membershipProposal members
    KeepsVoters voters (RaftCommand.configChange .joint members).encode ∧
      KeepsVoters voters (RaftCommand.configChange .final members).encode
  | .restart node floor => floor ≤ (cluster.nodes node).lastApplied
  | .compact _ _ _ _ | .restoreConfigFromSnapshot _ _ => False
  | .deliver _ | .proposeRead _ _ | .transferLeadership _ _ | .broadcast _ => True
  | .drainApplied _ | .drainReadyReads _ | .drainInstalledSnapshot _ => True

section
variable {voters : Finset NodeId} {snapshots : Prop} {configs : NodeId → RaftConfig} {cluster first last : Cluster}
  {history before after : History}

theorem Related.careful_of_stable (related : Related voters False cluster history) {event : Event}
    (stable : StableVoters voters cluster event) : Careful voters cluster event ∧
      ∀ node upToIndex upToTerm data, event = .compact node upToIndex upToTerm data → False := by
  refine ⟨?_, ?_⟩
  · cases event with
    | deliver position => exact fun sent found => related.prudent (List.mem_of_getElem? found)
    | compact node upToIndex upToTerm data => exact stable.elim
    | restoreConfigFromSnapshot node members => exact stable.elim
    | _ => exact stable
  · rintro node upToIndex upToTerm data rfl
    exact stable

section
variable (early : Related voters snapshots first before) (late : Related voters snapshots last after)
  (growth : before.Grows after)
include early late growth

theorem Related.same_leader {one two : NodeId} (leads : (first.nodes one).role = .leader)
    (also : (last.nodes two).role = .leader)
    (same : (first.nodes one).currentTerm = (last.nodes two).currentTerm) : one = two := by
  have left := growth.leader _ _ ((early.nodes one).leader leads).leads
  have right := ((late.nodes two).leader also).leads
  rw [same] at left
  exact Option.some.inj (left.symm.trans right)

/-- What a node has committed is in the log of every leader of its term or a
later one. -/
theorem Related.committed_in_leader {node leader : NodeId} (leads : (last.nodes leader).role = .leader)
    (past : (first.nodes node).currentTerm ≤ (last.nodes leader).currentTerm) :
    (before.log node).take (first.nodes node).commitIndex <+: after.log leader := by
  have settled := (early.nodes node).committed.grow early.sane.valid growth
  have inside := settled.in_book late.sane.valid past ((late.nodes leader).leader leads).leads
  rw [(late.nodes leader).book late.sane leads]
  exact inside

end

/-- Membership changes that keep an odd set of voters are safe: one leader a
term, and committed entries stay in the logs of all later leaders. -/
theorem stable_voters_are_safe (odd : Odd voters.card) (voting : Voting voters configs)
    (reached : Reaches configs (StableVoters voters) (initial configs) first)
    (later : Reaches configs (StableVoters voters) first last) :
    (∀ one two, (first.nodes one).role = .leader → (last.nodes two).role = .leader →
      (first.nodes one).currentTerm = (last.nodes two).currentTerm → one = two) ∧
    ∀ node leader index entry, index ≤ (first.nodes node).commitIndex →
      (first.nodes node).log.get index = some entry → (last.nodes leader).role = .leader →
      (first.nodes node).currentTerm ≤ (last.nodes leader).currentTerm →
      (last.nodes leader).log.get index = some entry := by
  have careful : ∀ cluster history event, Related voters False cluster history → StableVoters voters cluster event →
      Careful voters cluster event ∧
        ∀ node upToIndex upToTerm data, event = .compact node upToIndex upToTerm data → False :=
    fun _ _ _ related stable => related.careful_of_stable stable
  obtain ⟨before, _, early⟩ := Related.run odd voting careful reached (Related.initial voting False)
  obtain ⟨after, growth, late⟩ := Related.run odd voting careful later early
  refine ⟨fun one two leads also same => early.same_leader late growth leads also same, ?_⟩
  intro node leader index entry committed stored leads past
  obtain ⟨positive, found⟩ := (early.nodes node).views.of_get stored
  obtain ⟨rest, whole⟩ := early.committed_in_leader late growth leads past
  rw [(late.nodes leader).views.get_eq (by rw [(late.nodes leader).whole not_false]; exact positive), ← whole]
  have inside : ((before.log node).take (first.nodes node).commitIndex)[index - 1]? = some entry := by
    rw [List.getElem?_take_of_lt (by omega)]
    exact found
  rw [List.getElem?_append_left (List.getElem?_eq_some_iff.mp inside).1]
  exact inside

end

def voterMember (id : UInt64) : ClusterMember := ⟨⟨id⟩, "", "", false⟩

def withLearner : List ClusterMember := [voterMember 1, voterMember 2, voterMember 3, ⟨⟨4⟩, "", "", true⟩]

theorem withLearner_keeps (phase : ConfigChangePhase) {proposal : List ClusterMember} (same : proposal = withLearner) :
    KeepsVoters trioVoters (RaftCommand.configChange phase proposal).encode := by
  subst same
  have decoded : RaftCommand.decode (RaftCommand.configChange phase withLearner).encode =
      .ok (.configChange phase withLearner) := by cases phase <;> decide +kernel
  intro other members found
  cases decoded.symm.trans found
  decide

def learnerRun : List Event :=
  [.tick ⟨1⟩, .deliver 0, .deliver 2, .proposeMembershipChange ⟨1⟩ withLearner, .tick ⟨1⟩, .deliver 5, .deliver 8]

theorem learnerRun_permitted : Permits trio (StableVoters trioVoters) (initial trio) learnerRun := by
  refine ⟨Or.inl (by decide +kernel), trivial, trivial, ?_, Or.inl (by decide +kernel), trivial, trivial, trivial⟩
  unfold StableVoters
  exact ⟨withLearner_keeps _ (by decide +kernel), withLearner_keeps _ (by decide +kernel)⟩

def succession : List Event := [.tick ⟨2⟩, .deliver 13, .deliver 14]

theorem succession_permitted :
    Permits trio (StableVoters trioVoters) ((initial trio).run trio learnerRun) succession :=
  ⟨Or.inl (by decide +kernel), trivial, trivial, trivial⟩

theorem stable_voters_are_safe_in_succession :
    ((((initial trio).run trio learnerRun).run trio succession).nodes ⟨2⟩).role = .leader ∧
      ((((initial trio).run trio learnerRun).run trio succession).nodes ⟨2⟩).log.get 2 =
        some ⟨1, (RaftCommand.configChange .joint withLearner).encode⟩ :=
  have leads : ((((initial trio).run trio learnerRun).run trio succession).nodes ⟨2⟩).role = .leader := by
    decide +kernel
  ⟨leads, (stable_voters_are_safe (by decide) trio_voting learnerRun_permitted.reaches
    succession_permitted.reaches).2 ⟨1⟩ ⟨2⟩ 2 _ (by decide +kernel) (by decide +kernel) leads (by decide +kernel)⟩

/-- Node 3 is removed from three voters. The remaining two each are a quorum;
node 1 gives up its leadership, both campaign, and both win. -/
def removalRun : List Event :=
  [.tick ⟨1⟩, .deliver 0, .deliver 2, .proposeMembershipChange ⟨1⟩ [voterMember 1, voterMember 2], .tick ⟨1⟩,
    .deliver 5, .deliver 7, .deliver 8, .deliver 10, .tick ⟨1⟩, .deliver 11, .transferLeadership ⟨1⟩ ⟨2⟩,
    .tick ⟨1⟩, .tick ⟨2⟩]

theorem removal_elects_two_leaders :
    (((initial trio).run trio removalRun).nodes ⟨1⟩).role = .leader ∧
      (((initial trio).run trio removalRun).nodes ⟨2⟩).role = .leader ∧
      (((initial trio).run trio removalRun).nodes ⟨1⟩).currentTerm =
        (((initial trio).run trio removalRun).nodes ⟨2⟩).currentTerm := by
  decide +kernel

end KayaDB.Raft
