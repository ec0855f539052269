import KayaDB.Server.Acknowledgements
import Mathlib.Data.List.Perm.Basic

/-! Every client that proposes gets one answer or still waits, on a group that is led. -/

namespace KayaDB.Server
open Raft
variable {σ : Type}

def Answer.waiter : Answer → Waiter
  | .ok _ waiter _ | .err waiter _ => waiter

namespace Loop

/-- The clients that wait and those that were answered, once for each answer. -/
def clients (loop : Loop σ) : List Waiter := loop.pending.map Prod.snd ++ loop.answers.map Answer.waiter

/-- Proposals are received by an idle loop only. -/
def received (loop : Loop σ) : LoopEvent → List Waiter
  | .select (.propose client _ command) => if loop.stage = .idle then [⟨client, command⟩] else []
  | _ => []

def receivedIn (machine : Machine σ) : Loop σ → List LoopEvent → List Waiter
  | _, [] => []
  | loop, event :: rest => loop.received event ++ receivedIn machine (loop.step machine event) rest

theorem clients_unchanged {loop after : Loop σ} (pending : after.pending = loop.pending)
    (answers : after.answers = loop.answers) : after.clients.Perm (loop.clients ++ []) := by
  rw [clients, pending, answers, List.append_nil]
  exact .refl _

/-- The clients that leave the pending ones are those that are answered. -/
theorem clients_answered (loop : Loop σ) (gone : (Nat × Nat) × Waiter → Prop) [DecidablePred gone]
    (reply : (Nat × Nat) × Waiter → Answer) (same : ∀ wait, (reply wait).waiter = wait.2) :
    ((loop.pending.filter (¬ gone ·)).map Prod.snd ++
      (loop.answers ++ (loop.pending.filter (gone ·)).map reply).map Answer.waiter).Perm (loop.clients ++ []) := by
  have split := (List.filter_append_perm (gone ·) loop.pending).map Prod.snd
  have replied : (fun wait => (reply wait).waiter) = Prod.snd := funext same
  simp only [clients, List.map_append, List.map_map, Function.comp_def, replied, decide_not]
  refine List.perm_iff_count.mpr fun waiter => ?_
  have parts := split.count_eq waiter
  simp only [List.map_append, List.count_append, List.count_nil] at parts ⊢
  omega

theorem clients_select (loop : Loop σ) (idle : loop.stage = .idle) (branch : Branch) :
    (loop.select branch).clients.Perm (loop.clients ++ loop.received (.select branch)) := by
  cases branch with
  | tick => exact clients_unchanged rfl rfl
  | message env inRoster =>
    dsimp only [select]
    split <;> exact clients_unchanged rfl rfl
  | propose client gid command =>
    dsimp only [select, received]
    rw [if_pos idle]
    split
    next =>
      rw [clients, clients, List.map_append, ← List.append_assoc]
      exact .refl _
    next index _ =>
      have moved := clients_answered loop (·.1 = (gid, index)) (fun dropped => .err dropped.2 "reply channel dropped")
        (fun _ => rfl)
      rw [List.append_nil] at moved
      exact (moved.cons _).trans (List.perm_append_singleton _ _).symm
  | proposeRead gid requestId =>
    dsimp only [select]
    split <;> exact clients_unchanged rfl rfl

theorem clients_step (machine : Machine σ) (loop : Loop σ) (event : LoopEvent) :
    (loop.step machine event).clients.Perm (loop.clients ++ loop.received event) := by
  cases event with
  | select branch =>
    dsimp only [step]
    split
    next idle => exact clients_select loop idle branch
    next busy =>
      have none : loop.received (.select branch) = [] := by
        cases branch with
        | propose client gid command => exact if_neg busy
        | _ => rfl
      rw [none]
      exact clients_unchanged rfl rfl
  | applyCommand =>
    dsimp only [step]
    split
    next gid index _ command rest _ =>
      refine clients_answered loop (·.1 = (gid, index)) _ (fun wait => ?_)
      dsimp only
      split <;> rfl
    next => exact clients_unchanged rfl rfl
  | checkLeaders =>
    dsimp only [step]
    split
    next => exact clients_answered loop (·.1.1 ∈ loop.leaderGroups.filter (· ∉ loop.host.leaders)) _ (fun _ => rfl)
    next => exact clients_unchanged rfl rfl
  | drainApplied | finishDrain =>
    dsimp only [step]
    split <;> exact clients_unchanged rfl rfl
  | transferLeadership | changeMembership | proposeUnattended | ensureGroupHosted => exact clients_unchanged rfl rfl

theorem proposals_answered_once (machine : Machine σ) (events : List LoopEvent) : ∀ loop : Loop σ,
    (events.foldl (step machine) loop).clients.Perm (loop.clients ++ receivedIn machine loop events) := by
  induction events with
  | nil => exact fun loop => clients_unchanged rfl rfl
  | cons event rest ih =>
    intro loop
    rw [List.foldl_cons, receivedIn, ← List.append_assoc]
    exact (ih _).trans ((clients_step machine loop event).append_right _)

/-- Clients only wait on groups that the loop takes to be led, and between two
iterations it takes no led group for one that follows. -/
structure Tended (loop : Loop σ) : Prop where
  led : ∀ wait ∈ loop.pending, wait.1.1 ∈ loop.leaderGroups
  known : loop.stage = .idle → ∀ gid node, loop.host.get gid = some node → node.role = .leader → gid ∈ loop.leaderGroups

namespace Tended
variable {machine : Machine σ} {loop : Loop σ}

theorem propose (tended : loop.Tended) (idle : loop.stage = .idle) (client gid : Nat) (command : Bytes) :
    (loop.select (.propose client gid command)).Tended := by
  dsimp only [select]
  split
  next => exact ⟨tended.led, nofun⟩
  next index given =>
    refine ⟨fun wait waiting => ?_, nofun⟩
    rcases List.mem_cons.mp waiting with rfl | old
    · obtain ⟨node, found, accepted⟩ := Option.bind_eq_some_iff.mp given
      refine tended.known idle gid node found ?_
      by_contra following
      rw [RaftNode.propose, if_pos following] at accepted
      cases accepted
    · exact tended.led wait (List.mem_filter.mp old).1

theorem checkLeaders (tended : loop.Tended) : ∀ wait ∈ loop.checkLeaders.pending, wait.1.1 ∈ loop.host.leaders := by
  intro wait waiting
  obtain ⟨present, kept⟩ := List.mem_filter.mp waiting
  have stays := of_decide_eq_true kept
  rw [List.mem_filter, not_and] at stays
  simpa using stays (tended.led wait present)

theorem aside (tended : loop.Tended) {change : RaftNode → RaftNode} (aside : Aside change) (gid : Nat) :
    Tended { loop with host := loop.host.modify gid change } := by
  refine ⟨tended.led, fun idle other node found leading => ?_⟩
  rcases MultiRaftHost.get_modify_eq found with ⟨-, held⟩ | ⟨rfl, before, held, rfl⟩
  · exact tended.known idle other node held leading
  · refine tended.known idle _ before held ?_
    by_contra following
    rw [aside.others following] at leading
    exact following leading

theorem ensureGroupHosted (tended : loop.Tended) (gid : Nat) (config : RaftConfig) (state : Option PersistedRaftState) :
    Tended { loop with host := Loop.ensureGroupHosted loop.host gid config state } := by
  unfold Loop.ensureGroupHosted
  split
  next => exact tended
  next =>
    refine ⟨tended.led, fun idle other node found leading => ?_⟩
    rw [MultiRaftHost.get_insert] at found
    split at found
    next =>
      cases found
      cases state <;> cases leading
    next => exact tended.known idle other node found leading

theorem step (tended : loop.Tended) (event : LoopEvent) : (loop.step machine event).Tended := by
  cases event with
  | select branch =>
    dsimp only [Loop.step]
    split
    next idle =>
      cases branch with
      | tick => exact ⟨tended.led, nofun⟩
      | message env inRoster =>
        dsimp only [select]
        split
        next => exact ⟨tended.led, nofun⟩
        next => exact tended
      | propose client gid command => exact tended.propose idle client gid command
      | proposeRead gid requestId =>
        dsimp only [select]
        split <;> exact ⟨tended.led, nofun⟩
    next => exact tended
  | applyCommand =>
    dsimp only [Loop.step]
    split
    next => exact ⟨fun wait waiting => tended.led wait (List.mem_filter.mp waiting).1, nofun⟩
    next => exact tended
  | checkLeaders =>
    dsimp only [Loop.step]
    split
    next => exact ⟨tended.checkLeaders, fun _ _ node found leading => MultiRaftHost.mem_leaders.mpr ⟨node, found, leading⟩⟩
    next => exact tended
  | drainApplied | finishDrain =>
    dsimp only [Loop.step]
    split
    next => exact ⟨tended.led, nofun⟩
    next => exact tended
  | transferLeadership gid target => exact tended.aside (.transferLeadership target) gid
  | changeMembership gid members => exact tended.aside (.changeMembership members) gid
  | proposeUnattended gid command => exact tended.aside (.propose command) gid
  | ensureGroupHosted gid config state => exact tended.ensureGroupHosted gid config state

end Tended

/-- Who still waits at the end of an iteration waits on a group that is led. -/
theorem waits_end_with_leadership {machine : Machine σ} {first : Loop σ} (started : first.Started)
    (events : List LoopEvent) :
    ∀ wait ∈ (events.foldl (step machine) first).checkLeaders.pending,
      wait.1.1 ∈ (events.foldl (step machine) first).checkLeaders.host.leaders := by
  have tended : (events.foldl (step machine) first).Tended := by
    refine List.foldlRecOn events (step machine) ⟨?_, ?_⟩ fun loop tended event _ => tended.step event
    · rw [started.pending]
      nofun
    · intro _ gid node found leading
      rw [(started.groups gid node found).1] at leading
      cases leading
  exact tended.checkLeaders

theorem waits_end_with_leadership_in_clientRun :
    (clientRun.foldl (step recorder) firstServer).pending ≠ [] ∧
      ∀ wait ∈ (clientRun.foldl (step recorder) firstServer).checkLeaders.pending,
        wait.1.1 ∈ (clientRun.foldl (step recorder) firstServer).checkLeaders.host.leaders :=
  ⟨by decide +kernel, waits_end_with_leadership firstServer_started clientRun⟩

end Loop
end KayaDB.Server
