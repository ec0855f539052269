import KayaDB.Raft.Safety
import KayaDB.Server.Waiters

/-! Whether the event loop tells clients the truth. The invariant follows every waiting
client through an iteration. -/

namespace KayaDB.Server
open Raft RaftNode

variable {σ : Type} {machine : Machine σ} {loop : Loop σ}

def Stage.work : Stage → List (Nat × Nat × Nat × Bytes)
  | .applying work => work
  | _ => []

/-- Every hosted node keeps what its clients wait for. -/
def Holding (pending : List ((Nat × Nat) × Waiter)) (host : MultiRaftHost) : Prop :=
  ∀ wait ∈ pending, ∀ node, host.get wait.1.1 = some node → Secured wait.1.2 wait.2.command node

/-- Between iterations each client's group is hosted and its command promised,
and the loop knows all groups that are led. -/
structure Ready (loop : Loop σ) : Prop where
  leaders : ∀ gid node, loop.host.get gid = some node → node.role = .leader → gid ∈ loop.leaderGroups
  promised : ∀ wait ∈ loop.pending, ∃ node,
    loop.host.get wait.1.1 = some node ∧ Promised wait.1.2 wait.2.command node

structure Accountable (loop : Loop σ) : Prop where
  led : ∀ wait ∈ loop.pending, wait.1.1 ∈ loop.leaderGroups
  holding : Holding loop.pending loop.host
  work : ∀ gid index term command, (gid, index, term, command) ∈ loop.stage.work →
    ∀ waiter, ((gid, index), waiter) ∈ loop.pending → command = waiter.command
  bounded : loop.stage ≠ .reacted → ∀ gid node, loop.host.get gid = some node → Bounded node
  ready : loop.stage = .idle → Ready loop
  truthful : loop.Truthful

/-- An append request that the loop takes up replaces nothing a client waits for
by something committed. -/
def Respects (loop : Loop σ) : LoopEvent → Prop
  | .select (.message env _) =>
    match env.message with
    | .appendRequest request => ∀ node ∈ loop.host.get env.groupId.toNat, ∀ wait ∈ loop.pending,
      wait.1.1 = env.groupId.toNat → Harmless node request wait.1.2 wait.2.command
    | _ => True
  | _ => True

instance (loop : Loop σ) (event : LoopEvent) : Decidable (Respects loop event) :=
  match event with
  | .select (.message env _) =>
    match h : env.message with
    | .appendRequest request => decidable_of_iff (∀ node ∈ loop.host.get env.groupId.toNat, ∀ wait ∈ loop.pending,
        wait.1.1 = env.groupId.toNat → Harmless node request wait.1.2 wait.2.command) (by simp only [Respects, h])
    | .voteRequest _ | .voteResponse _ | .appendResponse _ | .installSnapshotRequest _ | .installSnapshotResponse _
    | .configChangeRequest _ | .configChangeResponse _ => isTrue (by simp only [Respects, h])
  | .select .tick | .select (.propose ..) | .select (.proposeRead ..) | .drainApplied | .applyCommand
  | .finishDrain .. | .checkLeaders | .transferLeadership .. | .changeMembership .. | .proposeUnattended ..
  | .ensureGroupHosted .. => isTrue trivial

/-- What is done to a node beside the loop: it keeps all that is stable, and it
concerns leaders only. -/
structure Aside (change : RaftNode → RaftNode) : Prop where
  stable : ∀ {Holds : RaftNode → Prop}, Stable Holds → ∀ {node}, Holds node → Holds (change node)
  others : ∀ {node : RaftNode}, node.role ≠ .leader → change node = node

namespace Aside

theorem transferLeadership (target : NodeId) : Aside fun node => (node.transferLeadership target).1 where
  stable stable _ held := stable.course held (.transferLeadership _ target)
  others following := by
    unfold RaftNode.transferLeadership
    rw [if_pos following]

theorem propose (command : Bytes) : Aside fun node => (node.propose command).1 where
  stable stable _ held := stable.course held (.propose _ command)
  others following := by
    unfold RaftNode.propose
    rw [if_pos following]

theorem changeMembership (members : List ClusterMember) : Aside fun node => (changeMembership node members).1 where
  stable {Holds} stable node held := by
    have proposed := stable.course held (.proposeMembershipChange _ members)
    rcases changeMembership_cases node members with same | same <;> rw [same]
    · exact proposed
    · exact stable.course proposed (.broadcast _)
  others following := by
    unfold Server.changeMembership RaftNode.proposeMembershipChange
    rw [if_pos following]

theorem secured {change : RaftNode → RaftNode} (aside : Aside change) {index : Nat} {command : Bytes}
    {node : RaftNode} (secured : Secured index command node) : Secured index command (change node) := by
  rcases secured with held | held
  · exact Or.inl (aside.stable Promised.stable held)
  · rw [aside.others held.role]
    exact Or.inr held

end Aside

namespace Holding
variable {pending : List ((Nat × Nat) × Waiter)} {host : MultiRaftHost}
  {change : RaftNode → RaftNode}

theorem modifyAll (holding : Holding pending host)
    (each : ∀ index command node, Secured index command node → Secured index command (change node)) :
    Holding pending (host.modifyAll change) := by
  intro wait waiting node found
  obtain ⟨before, held, rfl⟩ := Option.map_eq_some_iff.mp found
  exact each _ _ _ (holding wait waiting before held)

theorem modify (holding : Holding pending host) {gid : Nat}
    (each : ∀ wait ∈ pending, wait.1.1 = gid → ∀ node, host.get gid = some node → Secured wait.1.2 wait.2.command
      (change node)) : Holding pending (host.modify gid change) := by
  intro wait waiting node found
  rcases MultiRaftHost.get_modify_eq found with ⟨-, held⟩ | ⟨here, before, held, rfl⟩
  · exact holding wait waiting node held
  · exact each wait waiting here before held

theorem restoreAll (holding : Holding pending host) (data : Bytes) :
    Holding pending (Loop.restoreAll machine host data) := by
  unfold Loop.restoreAll
  split
  · exact holding
  · exact holding.modifyAll fun _ _ _ secured => secured.restoreConfig _

theorem restoreEach (machine : Machine σ) (installed : List (Nat × Nat × Nat × Bytes)) : ∀ {host : MultiRaftHost}, Holding pending host →
    Holding pending (installed.foldl (fun host (_, _, _, data) => Loop.restoreAll machine host data) host) := by
  induction installed with
  | nil => exact id
  | cons item rest ih => exact fun holding => ih (holding.restoreAll _)

theorem removeEach (reclaimed : List Nat) : ∀ {host : MultiRaftHost}, Holding pending host →
    Holding pending (reclaimed.foldl MultiRaftHost.remove host) := by
  induction reclaimed with
  | nil => exact id
  | cons gid rest ih =>
    intro host holding
    refine ih fun wait waiting node found => ?_
    rw [MultiRaftHost.get_remove] at found
    split at found
    next => cases found
    next => exact holding wait waiting node found

end Holding

namespace Accountable

variable {after : Loop σ} {node : RaftNode}

theorem reacted (accountable : Accountable loop) (stage : after.stage = .reacted)
    (led : ∀ wait ∈ after.pending, wait.1.1 ∈ after.leaderGroups) (holding : Holding after.pending after.host)
    (answers : ∀ key waiter applied, Answer.ok key waiter applied ∈ after.answers → Answer.ok key waiter applied ∈
      loop.answers) : Accountable after where
  led := led
  holding := holding
  work gid index term command inside := by
    rw [stage] at inside
    cases inside
  bounded settled := absurd stage settled
  ready idle := by
    rw [stage] at idle
    cases idle
  truthful key waiter applied told := accountable.truthful key waiter applied (answers key waiter applied told)

section
variable (accountable : Accountable loop) (idle : loop.stage = .idle)
include accountable idle

theorem promised_at {wait : (Nat × Nat) × Waiter} (waiting : wait ∈ loop.pending)
    (found : loop.host.get wait.1.1 = some node) : Promised wait.1.2 wait.2.command node := by
  obtain ⟨held, same, promised⟩ := (accountable.ready idle).promised wait waiting
  cases found.symm.trans same
  exact promised

theorem refused (stage : after.stage = .checking) (host : after.host = loop.host)
    (pending : after.pending = loop.pending) (groups : after.leaderGroups = loop.leaderGroups)
    (answers : ∀ key waiter applied, Answer.ok key waiter applied ∈ after.answers →
      Answer.ok key waiter applied ∈ loop.answers) : Accountable after where
  led := by
    rw [pending, groups]
    exact accountable.led
  holding := by
    rw [pending, host]
    exact accountable.holding
  work gid index term command inside := by
    rw [stage] at inside
    cases inside
  bounded _ := by
    rw [host]
    exact accountable.bounded (by rw [idle]; nofun)
  ready idle := by
    rw [stage] at idle
    cases idle
  truthful key waiter applied told := accountable.truthful key waiter applied (answers key waiter applied told)

theorem tick : Accountable (loop.select .tick) := by
  refine accountable.reacted rfl accountable.led ?_ fun _ _ _ told => told
  intro wait waiting node found
  obtain ⟨before, held, rfl⟩ := Option.map_eq_some_iff.mp found
  exact Or.inl (Promised.stable.tick (accountable.promised_at idle waiting held))

theorem message {env : Envelope} {inRoster : Bool} (respects : Respects loop (.select (.message env inRoster))) :
    Accountable (loop.select (.message env inRoster)) := by
  unfold Loop.select
  dsimp only
  split
  swap
  · exact accountable
  refine accountable.reacted rfl accountable.led (accountable.holding.modify ?_) fun _ _ _ told => told
  intro wait waiting here node found
  refine (accountable.promised_at idle waiting (here ▸ found)).handle fun request appending => ?_
  unfold Respects at respects
  simp only [appending] at respects
  exact respects node found wait waiting here

theorem proposeRead (gid : Nat) (requestId : UInt64) : Accountable (loop.select (.proposeRead gid requestId)) := by
  unfold Loop.select
  dsimp only
  split
  next => exact accountable.refused idle rfl rfl rfl rfl fun _ _ _ told => told
  next =>
    refine accountable.reacted rfl accountable.led ?_ fun _ _ _ told => told
    unfold MultiRaftHost.proposeReadGroup MultiRaftHost.broadcastGroup
    dsimp only
    rw [MultiRaftHost.modify_modify]
    refine accountable.holding.modify fun wait waiting here node found => Or.inl ?_
    have promised := accountable.promised_at idle waiting (here ▸ found)
    exact Promised.stable.course (Promised.stable.proposeRead promised requestId) (.broadcast _)

/-- The new client waits at the end of its leader's log, where nothing that is
still to be drained comes from. -/
theorem propose (client gid : Nat) (command : Bytes) : Accountable (loop.select (.propose client gid command)) := by
  unfold Loop.select
  dsimp only
  split
  next =>
    refine accountable.refused idle rfl rfl rfl rfl fun key waiter applied told => ?_
    rcases List.mem_append.mp told with old | new
    · exact old
    · cases List.mem_singleton.mp new
  next index given =>
    obtain ⟨node, found, accepted⟩ := Option.bind_eq_some_iff.mp given
    obtain ⟨leading, rfl⟩ : node.role = .leader ∧ index = (node.appendOwn command).log.lastIndex := by
      rcases propose_cases node command with same | ⟨leading, same⟩ <;> rw [same] at accepted
      · cases accepted
      · exact ⟨leading, (Option.some.inj accepted).symm⟩
    have bounded := accountable.bounded (by rw [idle]; nofun) gid node found
    refine accountable.reacted rfl ?_ ?_ ?_
    · intro wait waiting
      rcases List.mem_cons.mp waiting with rfl | old
      · exact (accountable.ready idle).leaders gid node found leading
      · exact accountable.led wait (List.mem_filter.mp old).1
    · intro wait waiting after held
      unfold MultiRaftHost.propose MultiRaftHost.broadcastGroup at held
      dsimp only at held
      rw [MultiRaftHost.modify_modify] at held
      rcases List.mem_cons.mp waiting with rfl | old
      · rcases MultiRaftHost.get_modify_eq held with ⟨elsewhere, -⟩ | ⟨-, before, same, rfl⟩
        · exact absurd rfl elsewhere
        · cases found.symm.trans same
          exact Or.inl (Promised.stable.course (Promised.proposed leading bounded command) (.broadcast _))
      · have before := (List.mem_filter.mp old).1
        refine accountable.holding.modify (fun wait waiting here node found => Or.inl ?_) wait before after held
        have promised := accountable.promised_at idle waiting (here ▸ found)
        exact Promised.stable.course (Promised.stable.course promised (.propose _ command)) (.broadcast _)
    · intro key waiter applied told
      rcases List.mem_append.mp told with old | new
      · exact old
      · obtain ⟨dropped, -, same⟩ := List.mem_map.mp new
        cases same

end

theorem drainApplied (accountable : Accountable loop) : Accountable (loop.drainApplied machine) := by
  have emptied := accountable.holding.modifyAll fun _ _ node secured =>
    secured.fields node.drainInstalledSnapshot.1 rfl rfl (fun _ inside => inside) rfl rfl
  have restored := Holding.restoreEach machine
    (loop.host.collect fun node => node.drainInstalledSnapshot.2.toList) emptied
  refine ⟨accountable.led, ?_, ?_, ?_, nofun, accountable.truthful⟩
  · exact restored.modifyAll fun _ _ node secured =>
      secured.fields node.drainApplied.1 rfl rfl (List.nil_subset _) rfl rfl
  · intro gid index term command inside waiter waiting
    obtain ⟨node, found, queued⟩ := MultiRaftHost.mem_collect.mp inside
    rcases restored _ waiting node found with held | held
    · exact held.queued _ queued rfl
    · exact held.queued _ queued rfl
  · intro _ gid node found
    obtain ⟨before, -, rfl⟩ := Option.map_eq_some_iff.mp found
    exact fun entry inside => nomatch inside

theorem applyCommand (accountable : Accountable loop) {gid index term : Nat} {command : Bytes}
    {rest : List (Nat × Nat × Nat × Bytes)} (stage : loop.stage = .applying ((gid, index, term, command) :: rest)) :
    Accountable (loop.applyCommand machine gid index command rest) where
  led wait waiting := accountable.led wait (List.mem_filter.mp waiting).1
  holding wait waiting := accountable.holding wait (List.mem_filter.mp waiting).1
  work item place old other inside waiter waiting := by
    refine accountable.work item place old other ?_ waiter (List.mem_filter.mp waiting).1
    rw [stage]
    exact List.mem_cons_of_mem _ inside
  bounded _ := accountable.bounded (by rw [stage]; nofun)
  ready := nofun
  truthful key waiter applied told := by
    rcases List.mem_append.mp told with old | new
    · exact accountable.truthful key waiter applied old
    · obtain ⟨⟨place, waiting⟩, inside, same⟩ := List.mem_map.mp new
      obtain ⟨present, here⟩ := List.mem_filter.mp inside
      cases of_decide_eq_true here
      dsimp only at same
      split at same
      next =>
        cases same
        refine accountable.work gid index term command ?_ waiter present
        rw [stage]
        exact List.mem_cons_self
      next => cases same

theorem bounded_compacted (bounded : Bounded node) (snapData : Bytes) :
    Bounded (maybeCompactRaftLog node snapData) := by
  unfold maybeCompactRaftLog
  split
  next =>
    intro entry inside
    refine (bounded entry ((List.dropWhile_sublist _).subset inside)).trans ?_
    exact (installSnapshot_lastIndex_ge node.log node.lastApplied node.currentTerm snapData).1
  next => exact bounded

theorem get_removeEach (reclaimed : List Nat) : ∀ {host : MultiRaftHost} {gid : Nat} {node : RaftNode},
    (reclaimed.foldl MultiRaftHost.remove host).get gid = some node → host.get gid = some node := by
  induction reclaimed with
  | nil => exact id
  | cons dropped rest ih =>
    intro host gid node found
    have later := ih found
    rw [MultiRaftHost.get_remove] at later
    split at later
    next => cases later
    next => exact later

section
variable (accountable : Accountable loop)
include accountable

theorem finishDrain (stage : loop.stage = .applying []) (snapData : Bytes) (reclaimed : List Nat) :
    Accountable (loop.finishDrain snapData reclaimed) := by
  refine ⟨accountable.led, ?_, nofun, ?_, nofun, accountable.truthful⟩
  · have drained := accountable.holding.modifyAll fun _ _ node secured =>
      secured.fields node.drainReadyReads.1 rfl rfl (fun _ inside => inside) rfl rfl
    exact .removeEach reclaimed (drained.modifyAll fun _ _ _ secured => secured.maybeCompactRaftLog snapData)
  · intro _ gid node found
    obtain ⟨drained, held, rfl⟩ := Option.map_eq_some_iff.mp (get_removeEach reclaimed found)
    obtain ⟨before, same, rfl⟩ := Option.map_eq_some_iff.mp held
    have bounded : Bounded before.drainReadyReads.1 := accountable.bounded (by rw [stage]; nofun) gid before same
    exact bounded_compacted bounded snapData

/-- A client whose group is not led any more leaves; with a leader, what was kept
is a promise again. -/
theorem checkLeaders (stage : loop.stage = .checking) : Accountable loop.checkLeaders := by
  have leading : ∀ wait ∈ loop.checkLeaders.pending, wait ∈ loop.pending ∧ wait.1.1 ∈ loop.host.leaders := by
    intro wait waiting
    obtain ⟨present, kept⟩ := List.mem_filter.mp waiting
    refine ⟨present, ?_⟩
    have stays := of_decide_eq_true kept
    rw [List.mem_filter, not_and] at stays
    simpa using stays (accountable.led wait present)
  refine ⟨fun wait waiting => (leading wait waiting).2, fun wait waiting => accountable.holding wait (leading wait waiting).1,
    nofun, fun _ => accountable.bounded (by rw [stage]; nofun), fun _ => ⟨?_, ?_⟩, ?_⟩
  · intro gid node found leader
    exact MultiRaftHost.mem_leaders.mpr ⟨node, found, leader⟩
  · intro wait waiting
    obtain ⟨present, led⟩ := leading wait waiting
    obtain ⟨node, found, leader⟩ := MultiRaftHost.mem_leaders.mp led
    exact ⟨node, found, (accountable.holding wait present node found).promised leader⟩
  · intro key waiter applied told
    rcases List.mem_append.mp told with old | new
    · exact accountable.truthful key waiter applied old
    · obtain ⟨gone, -, same⟩ := List.mem_map.mp new
      cases same

theorem aside {change : RaftNode → RaftNode} (aside : Aside change) (gid : Nat) :
    Accountable { loop with host := loop.host.modify gid change } where
  led := accountable.led
  holding := accountable.holding.modify fun wait waiting here node found =>
    aside.secured (accountable.holding wait waiting node (here ▸ found))
  work := accountable.work
  bounded settled other node found := by
    rcases MultiRaftHost.get_modify_eq found with ⟨-, held⟩ | ⟨-, before, held, rfl⟩
    · exact accountable.bounded settled other node held
    · exact aside.stable Bounded.stable (accountable.bounded settled gid before held)
  ready idle := by
    have ready := accountable.ready idle
    refine ⟨fun other node found leading => ?_, fun wait waiting => ?_⟩
    · rcases MultiRaftHost.get_modify_eq found with ⟨-, held⟩ | ⟨rfl, before, held, rfl⟩
      · exact ready.leaders other node held leading
      · refine ready.leaders _ before held ?_
        by_contra following
        rw [aside.others following] at leading
        exact following leading
    · obtain ⟨node, held, promised⟩ := ready.promised wait waiting
      dsimp only
      by_cases here : wait.1.1 = gid
      · refine ⟨change node, ?_, aside.stable Promised.stable promised⟩
        rw [MultiRaftHost.get_modify, if_pos here, ← here, held]
        rfl
      · refine ⟨node, ?_, promised⟩
        rw [MultiRaftHost.get_modify, if_neg here, held]
  truthful := accountable.truthful

/-- A group that is hosted anew has applied nothing and committed nothing. -/
theorem ensureGroupHosted (gid : Nat) (config : RaftConfig) (state : Option PersistedRaftState) :
    Accountable { loop with host := Loop.ensureGroupHosted loop.host gid config state } := by
  unfold Loop.ensureGroupHosted
  split
  next => exact accountable
  next absent =>
    have fresh : (Loop.recoveredGroup config state).appliedEntries = [] ∧
        (Loop.recoveredGroup config state).role = .follower ∧ (Loop.recoveredGroup config state).commitIndex = 0 := by
      cases state <;> exact ⟨rfl, rfl, rfl⟩
    obtain ⟨empty, follower, nothing⟩ := fresh
    refine ⟨accountable.led, ?_, accountable.work, ?_, fun idle => ⟨?_, ?_⟩, accountable.truthful⟩
    · intro wait waiting node found
      rw [MultiRaftHost.get_insert] at found
      split at found
      next =>
        cases found
        refine Or.inr ⟨?_, ?_, fun ahead committed => ?_⟩
        · rw [empty]
          nofun
        · rw [follower]
          nofun
        · rw [nothing] at committed
          omega
      next => exact accountable.holding wait waiting node found
    · intro settled other node found
      rw [MultiRaftHost.get_insert] at found
      split at found
      next =>
        cases found
        unfold Bounded
        rw [empty]
        nofun
      next => exact accountable.bounded settled other node found
    · intro other node found leading
      rw [MultiRaftHost.get_insert] at found
      split at found
      next =>
        cases found
        rw [follower] at leading
        cases leading
      next => exact (accountable.ready idle).leaders other node found leading
    · intro wait waiting
      obtain ⟨node, held, promised⟩ := (accountable.ready idle).promised wait waiting
      refine ⟨node, ?_, promised⟩
      rw [MultiRaftHost.get_insert, if_neg, held]
      rintro rfl
      rw [absent] at held
      cases held

theorem step {event : LoopEvent} (respects : Respects loop event) : Accountable (loop.step machine event) := by
  cases event with
  | select branch =>
    unfold Loop.step
    dsimp only
    split
    next idle =>
      cases branch with
      | tick => exact accountable.tick idle
      | message env inRoster => exact accountable.message idle respects
      | propose client gid command => exact accountable.propose idle client gid command
      | proposeRead gid requestId => exact accountable.proposeRead idle gid requestId
    next => exact accountable
  | drainApplied =>
    unfold Loop.step
    dsimp only
    split
    next => exact accountable.drainApplied
    next => exact accountable
  | applyCommand =>
    unfold Loop.step
    dsimp only
    split
    next stage => exact accountable.applyCommand stage
    next => exact accountable
  | finishDrain snapData reclaimed =>
    unfold Loop.step
    dsimp only
    split
    next stage => exact accountable.finishDrain stage snapData reclaimed
    next => exact accountable
  | checkLeaders =>
    unfold Loop.step
    dsimp only
    split
    next stage => exact accountable.checkLeaders stage
    next => exact accountable
  | transferLeadership gid target => exact accountable.aside (.transferLeadership target) gid
  | changeMembership gid members => exact accountable.aside (.changeMembership members) gid
  | proposeUnattended gid command => exact accountable.aside (.propose command) gid
  | ensureGroupHosted gid config state => exact accountable.ensureGroupHosted gid config state

end

theorem of_started (started : loop.Started) : Accountable loop := by
  refine ⟨?_, ?_, ?_, fun _ gid node found => ?_, fun _ => ⟨fun gid node found leading => ?_, ?_⟩, ?_⟩
  · rw [started.pending]
    nofun
  · unfold Holding
    rw [started.pending]
    nofun
  · rw [started.stage]
    nofun
  · unfold Bounded
    rw [(started.groups gid node found).2]
    nofun
  · rw [(started.groups gid node found).1] at leading
    cases leading
  · rw [started.pending]
    nofun
  · unfold Loop.Truthful
    rw [started.answers]
    nofun

end Accountable

/-- In every run in which no append request commits another entry in the place
of one a client waits for, success is only reported for the client's own command. -/
theorem acknowledgements_truthful {first last : Loop σ} (started : first.Started)
    (reached : Runs.Reaches (Loop.step machine) Respects first last) : last.Truthful :=
  (reached.invariant Accountable (.of_started started) fun accountable respects =>
    accountable.step respects).truthful

def recorder : Machine (List Bytes) where
  execute store _ command := (store ++ [command], .ok ())
  install store _ := store
  parseMembers _ := []

def firstServer : Loop (List Bytes) where
  host := MultiRaftHost.new.insert 0 (.new (trio ⟨1⟩))
  store := []
  pending := []
  pendingReads := []
  leaderGroups := []
  stage := .idle
  sent := []
  answers := []
  readAnswers := []

theorem firstServer_started : firstServer.Started := by
  refine ⟨rfl, rfl, rfl, fun gid node found => ?_⟩
  unfold firstServer at found
  rw [MultiRaftHost.get_insert] at found
  split at found
  next =>
    cases found
    exact ⟨rfl, rfl⟩
  next => cases found

def iteration (branch : Branch) : List LoopEvent :=
  [.select branch, .drainApplied, .applyCommand, .finishDrain [] [], .checkLeaders]

def voteOfSecond : Envelope := ⟨⟨2⟩, ⟨1⟩, 0, .voteResponse ⟨1, true⟩⟩

def storedBySecond (index : Nat) : Envelope := ⟨⟨2⟩, ⟨1⟩, 0, .appendResponse ⟨1, true, index⟩⟩

/-- The first server is elected, commits its own first entry and takes a
client's command at index 2. -/
def clientRun : List LoopEvent :=
  iteration .tick ++ iteration (.message voteOfSecond false) ++ iteration (.message (storedBySecond 1) false) ++
    iteration (.propose 9 0 [7])

theorem acknowledgements_truthful_for_client :
    .ok (0, 2) ⟨9, [7]⟩ [7] ∈
        ((clientRun ++ iteration (.message (storedBySecond 2) false)).foldl (Loop.step recorder) firstServer).answers ∧
      ((clientRun ++ iteration (.message (storedBySecond 2) false)).foldl (Loop.step recorder) firstServer).Truthful := by
  have permitted : Runs.Permits (Loop.step recorder) Respects firstServer
      (clientRun ++ iteration (.message (storedBySecond 2) false)) := by decide +kernel
  exact ⟨by decide +kernel, acknowledgements_truthful firstServer_started permitted.reaches⟩

/-- The first server leads and takes the command, and before that gets anywhere
the second is elected by the third and commits an empty entry in its place. -/
def takeover : List Raft.Event :=
  [.tick ⟨1⟩, .deliver 0, .deliver 2, .deliver 3, .deliver 4, .deliver 5, .propose ⟨1⟩ [7], .broadcast ⟨1⟩,
    .tick ⟨2⟩, .deliver 10, .deliver 11, .deliver 13, .deliver 14, .tick ⟨2⟩]

/-- What the second server then sends to the first. -/
def replacement : Envelope := ⟨⟨2⟩, ⟨1⟩, 0, .appendRequest ⟨2, ⟨2⟩, 1, 1, [⟨2, []⟩], 2⟩⟩

/-- The lost command is confirmed: the entry that took its place is carried out
before the loop notices that it no longer leads. -/
theorem lost_command_confirmed :
    (∀ env ∈ [voteOfSecond, storedBySecond 1, replacement],
      env ∈ ((Cluster.initial trio).run trio takeover).net.map Sent.env) ∧
    ¬ ((clientRun ++ iteration (.message replacement false)).foldl (Loop.step recorder) firstServer).Truthful := by
  refine ⟨by decide +kernel, fun truthful => ?_⟩
  have confirmed : .ok (0, 2) ⟨9, [7]⟩ [] ∈
      ((clientRun ++ iteration (.message replacement false)).foldl (Loop.step recorder) firstServer).answers := by
    decide +kernel
  exact absurd (truthful _ _ _ confirmed) (by decide)

end KayaDB.Server
