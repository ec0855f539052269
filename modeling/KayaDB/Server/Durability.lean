import KayaDB.Raft.Ballots
import KayaDB.Server.EventLoop
import KayaDB.Server.Persister

/-! Votes and acknowledgements across crashes. The event loop sends the answers of an
iteration before it saves the node's state, which takes two writes. A crash may fall
between any two steps; a restarted node knows what the files tell. -/

namespace KayaDB.Server
open Raft RaftNode

/-- How far an iteration has come: which envelopes are still to be sent, with
the log as it was when they were made, or which view is half saved. -/
inductive Phase where
  | idle
  | sending (out : List Envelope) (log : MemLog)
  | drained
  | hardSaved (view : PersistedRaftState)

/-- The log has the entry, or a snapshot in its place. -/
def Holds (log : MemLog) (entry : Nat × LogEntry) : Prop :=
  log.get entry.1 = some entry.2 ∨ entry.1 ≤ log.lastIncludedIndex

instance (log : MemLog) : DecidablePred (Holds log) := fun entry => by
  unfold Holds
  infer_instance

/-- The stored entries an envelope acknowledges as appended. -/
def acknowledged (env : Envelope) (log : MemLog) : List (Nat × LogEntry) :=
  match env.message with
  | .appendResponse response =>
    if response.success then
      (List.range' 1 response.matchIndex).filterMap fun index => (log.get index).map fun entry => (index, entry)
    else []
  | _ => []

/-- The envelope commits its sender to a vote or to entries. -/
def binding (env : Envelope) : Bool :=
  match env.message with
  | .voteRequest _ => true
  | .voteResponse response => response.voteGranted
  | .appendResponse response => response.success
  | _ => false

/-- The process of a node. On record beside it are all envelopes sent, the
entries acknowledged and not overwritten since, and whether anything binding
was sent, or a file written, after the state was last saved whole. -/
structure Process where
  config : RaftConfig
  node : RaftNode
  persister : RaftPersister
  phase : Phase
  sent : List Envelope
  acked : List (Nat × LogEntry)
  dirty : Bool

inductive Event where
  | receive (input : Input)
  | send
  | drain (snapData : Bytes)
  | saveHardState
  | saveLog
  | membershipChange (members : List ClusterMember)
  | transferLeadership (target : NodeId)
  | crash (applyFloor : Nat)

namespace Process

def fresh (config : RaftConfig) : Process :=
  { config
    node := .new config
    persister := ⟨⟨none, none⟩, none⟩
    phase := .idle
    sent := []
    acked := []
    dirty := false }

/-- The view is on disk. Entries it lacks have been replaced by a leader's. -/
def finish (process : Process) (view : PersistedRaftState) : Process :=
  { process with
    phase := .idle
    acked := process.acked.filter fun entry => Holds view.log entry
    dirty := false }

/-- One step of the event loop, of a client task beside it, or a crash followed
by a restart. A step that is not due does nothing. -/
def step (parseMembers : Bytes → List ClusterMember) (process : Process) : Event → Process
  | .receive input =>
    match process.phase with
    | .idle =>
      match react process.node input with
      | (node, none) => { process with node }
      | (node, some out) => { process with node, phase := .sending out node.log }
    | _ => process
  | .send =>
    match process.phase with
    | .sending (env :: rest) log =>
      { process with
        phase := .sending rest log
        sent := process.sent ++ [env]
        acked := process.acked ++ acknowledged env log
        dirty := process.dirty || binding env }
    | _ => process
  | .drain snapData =>
    match process.phase with
    | .sending [] _ =>
      { process with node := (drainAndApply parseMembers snapData process.node).1, phase := .drained }
    | _ => process
  | .saveHardState =>
    match process.phase with
    | .drained =>
      let view := process.node.persistView
      if process.persister.lastPersisted = some view then process.finish view
      else
        { process with
          persister.storage := process.persister.storage.saveHardState view.hardState
          phase := .hardSaved view
          dirty := true }
    | _ => process
  | .saveLog =>
    match process.phase with
    | .hardSaved view =>
      { process with persister := ⟨process.persister.storage.saveLog view.log, some view⟩ }.finish view
    | _ => process
  | .membershipChange members =>
    { process with
      node := (changeMembership process.node members).1
      sent := process.sent ++ (changeMembership process.node members).2 }
  | .transferLeadership target => { process with node := (process.node.transferLeadership target).1 }
  | .crash applyFloor =>
    { process with
      persister := (process.persister.start process.config applyFloor).1
      node := (process.persister.start process.config applyFloor).2
      phase := .idle
      dirty := false }

end Process

/-- Crashes spare the time between a binding envelope and the end of the save
that follows it, and the time between the two writes of a save. Node zero takes
no part: its id is what the hard-state file has for no vote. -/
def Spared (process : Process) : Event → Prop
  | .crash _ => process.dirty = false
  | .receive (.message env) => env.sender ≠ ⟨0⟩
  | _ => True

/-- A node in this term with this vote will not vote otherwise in the vote's term. -/
def Covers (term : Nat) (votedFor : Option NodeId) (vote : Nat × NodeId) : Prop :=
  vote.1 < term ∨ vote.1 = term ∧ votedFor = some vote.2

variable {vote : Nat × NodeId} {first second : RaftNode} {entry : Nat × LogEntry}

theorem Covers.agree {term : Nat} {votedFor : Option NodeId} {candidate : NodeId} (covers : Covers term votedFor vote)
    (same : vote.1 = term) (voted : votedFor = some candidate) : vote.2 = candidate := by
  rcases covers with past | ⟨_, chosen⟩
  · omega
  · exact Option.some.inj (chosen.symm.trans voted)

theorem Covers.keep (covers : Covers first.currentTerm first.votedFor vote) (kept : KeepsVote first second) :
    Covers second.currentTerm second.votedFor vote := by
  rcases covers with past | ⟨current, chosen⟩
  · rcases kept with risen | ⟨same, _⟩
    · exact Or.inl (past.trans risen)
    · exact Or.inl (same ▸ past)
  · rcases kept with risen | ⟨same, free | stands⟩
    · exact Or.inl (current ▸ risen)
    · exact nomatch free.symm.trans chosen
    · exact Or.inr ⟨current.trans same.symm, stands.trans chosen⟩

theorem Covers.loyal (covers : Covers first.currentTerm first.votedFor vote) (loyal : Loyal first second) :
    Covers second.currentTerm second.votedFor vote := by
  rw [loyal.currentTerm, loyal.votedFor]
  exact covers

theorem Holds.le_lastIndex {log : MemLog} (held : Holds log entry) : entry.1 ≤ log.lastIndex := by
  rcases held with stored | covered
  · exact MemLog.lastIndex_of_get stored
  · rw [MemLog.lastIndex_eq]
    exact covered.trans (Nat.le_add_right _ _)

theorem Holds.grow {first second : MemLog} (held : Holds first entry) (grows : LogGrows first second) :
    Holds second entry := by
  rcases held with stored | covered
  · exact Or.inl (grows.get stored)
  · exact Or.inr (covered.trans_eq grows.floor.symm)

section
variable {node : RaftNode}

def Input.asker : Input → Option NodeId
  | .message env => some env.sender
  | _ => none

theorem react_cases (node : RaftNode) (input : Input) :
    react node input = (node, none) ∨ ∃ result, react node input = (result.1, some result.2) ∧
      ((∃ env, input = .message env ∧ result = node.handle env) ∨ Conduct input.asker node result) := by
  cases input with
  | tick => exact Or.inr ⟨node.tick, rfl, Or.inr (.tick node none)⟩
  | message env => exact Or.inr ⟨node.handle env, rfl, Or.inl ⟨env, rfl, rfl⟩⟩
  | propose command =>
    rcases react_propose node command with same | same
    · exact Or.inl same
    · have proposed := Routine.course (.propose node command)
      exact Or.inr ⟨_, same, Or.inr ((proposed.precede (.course (.broadcast _))).conduct none)⟩
  | proposeRead requestId =>
    rcases react_proposeRead node requestId with same | same
    · exact Or.inl same
    · have proposed := Routine.proposeRead node requestId
      exact Or.inr ⟨_, same, Or.inr ((proposed.precede (.course (.broadcast _))).conduct none)⟩

theorem changeMembership_routine (node : RaftNode) (members : List ClusterMember) :
    Routine node (changeMembership node members) ∧ LogGrows node.log (changeMembership node members).1.log := by
  have proposed := Routine.course (.proposeMembershipChange node members)
  have grows := (LogGrows.stable node.log).course (.refl _) (.proposeMembershipChange node members)
  rcases changeMembership_cases node members with same | same <;> rw [same]
  · exact ⟨proposed, grows⟩
  · exact ⟨proposed.precede (.course (.broadcast _)), (LogGrows.stable node.log).course grows (.broadcast _)⟩

theorem restoreMembers_routine (parseMembers : Bytes → List ClusterMember) (installed : Option (Nat × Nat × Bytes))
    (node : RaftNode) : Routine node (restoreMembers parseMembers installed node, []) := by
  rcases restoreMembers_cases parseMembers installed node with same | ⟨members, same⟩ <;> rw [same]
  · exact .refl node
  · exact (Modest.settleConfig node members).routine

theorem drainAndApply_loyal (parseMembers : Bytes → List ClusterMember) (snapData : Bytes) (node : RaftNode) :
    Loyal node (drainAndApply parseMembers snapData node).1 := by
  have taken : Loyal node { node with pendingSnapshot := none } := ⟨rfl, rfl, rfl⟩
  have restored : Loyal node (restored parseMembers node) :=
    taken.trans (restoreMembers_routine parseMembers _ _).toLoyal
  rw [drainAndApply_eq]
  unfold maybeCompactRaftLog
  split
  · exact restored.trans ⟨rfl, rfl, rfl⟩
  · exact restored.trans ⟨rfl, rfl, rfl⟩

end

/-- A node that voted and stored as told: every vote on record is covered, and
every acknowledged entry is held. -/
structure Backed (process : Process) (saved : PersistedRaftState) : Prop where
  votes : ∀ env ∈ process.sent, ∀ vote, castVote env = some vote →
    Covers saved.hardState.currentTerm saved.hardState.votedFor vote
  entries : ∀ entry ∈ process.acked, Holds saved.log entry

/-- A view of which only the hard state is saved so far. -/
structure HalfSaved (process : Process) (view : PersistedRaftState) : Prop where
  hardState : process.persister.storage.hardState = some (encodeHardState view.hardState)
  boundary : view.hardState.lastIncludedIndex = view.log.lastIncludedIndex
  nonzero : view.hardState.votedFor ≠ some ⟨0⟩
  votes : ∀ env ∈ process.sent, ∀ vote, castVote env = some vote →
    Covers view.hardState.currentTerm view.hardState.votedFor vote
  grows : LogGrows view.log process.node.log

def Underway (process : Process) : Phase → Prop
  | .idle => ∀ entry ∈ process.acked, Holds process.node.log entry
  | .sending out _ => ∀ env ∈ out, ∀ vote, castVote env = some vote →
    vote.1 = process.node.currentTerm ∧ process.node.votedFor = some vote.2
  | .drained => True
  | .hardSaved view => HalfSaved process view

/-- The votes a process has sent agree, and the running node stands by them. -/
structure Faithful (process : Process) : Prop where
  id : process.node.config.id = process.config.id
  nonzero : process.config.id ≠ ⟨0⟩
  voted : process.node.votedFor ≠ some ⟨0⟩
  agree : ∀ first ∈ process.sent, ∀ second ∈ process.sent, ∀ term one other,
    castVote first = some (term, one) → castVote second = some (term, other) → one = other
  votes : ∀ env ∈ process.sent, ∀ vote, castVote env = some vote →
    Covers process.node.currentTerm process.node.votedFor vote

/-- The files stand by all that was sent as long as nothing is unsaved. -/
structure Kept (process : Process) : Prop extends Faithful process where
  saved : process.dirty = false → Backed process process.persister.storage.load
  mirror : (∀ view, process.phase ≠ .hardSaved view) → ∀ view, process.persister.lastPersisted = some view →
    Mirrors process.persister.storage.load view
  underway : Underway process process.phase

section
variable {parseMembers : Bytes → List ClusterMember} {process : Process}
  {saved view : PersistedRaftState}

theorem Faithful.loyal (faithful : Faithful process) {other : Process} (config : other.config = process.config)
    (sent : other.sent = process.sent) (loyal : Loyal process.node other.node) : Faithful other := by
  refine ⟨?_, config ▸ faithful.nonzero, loyal.votedFor ▸ faithful.voted, sent ▸ faithful.agree, ?_⟩
  · rw [loyal.id, config]
    exact faithful.id
  · rw [sent]
    exact fun env inside vote told => (faithful.votes env inside vote told).loyal loyal

theorem Kept.receive (kept : Kept process) {input : Input} (spared : Spared process (.receive input)) :
    Kept (process.step parseMembers (.receive input)) := by
  unfold Process.step
  dsimp only
  split
  next idle =>
    rcases react_cases process.node input with same | ⟨result, same, reacted⟩ <;> rw [same]
    · exact kept
    · have ballot : Ballot input.asker process.node result := by
        rcases reacted with ⟨env, rfl, rfl⟩ | conduct
        · exact .handle process.node env
        · exact conduct.toBallot
      refine ⟨⟨ballot.id.trans kept.id, kept.nonzero, ?_, kept.agree, ?_⟩, fun clean => ?_, fun _ => ?_, ballot.cast⟩
      · intro zero
        rcases ballot.origin _ zero with before | own | asked
        · exact kept.voted before
        · exact kept.nonzero (kept.id.symm.trans own.symm)
        · cases input with
          | message env => exact spared (Option.some.inj asked)
          | tick => exact nomatch asked
          | propose command => exact nomatch asked
          | proposeRead requestId => exact nomatch asked
      · exact fun env inside vote told => (kept.votes env inside vote told).keep ballot.kept
      · exact ⟨(kept.saved clean).votes, (kept.saved clean).entries⟩
      · exact kept.mirror fun view other => nomatch idle.symm.trans other
  next => exact kept

theorem silent_of_not_binding {env : Envelope} (log : MemLog) (free : binding env = false) :
    castVote env = none ∧ acknowledged env log = [] := by
  revert free
  unfold binding castVote acknowledged
  cases env.message with
  | voteRequest request => exact fun free => nomatch free
  | voteResponse response => exact fun free => ⟨if_neg (Bool.not_eq_true _ ▸ free), rfl⟩
  | appendResponse response => exact fun free => ⟨rfl, if_neg (Bool.not_eq_true _ ▸ free)⟩
  | _ => exact fun _ => ⟨rfl, rfl⟩

theorem Kept.send (kept : Kept process) : Kept (process.step parseMembers .send) := by
  unfold Process.step
  dsimp only
  split
  next env rest log sending =>
    have underway := kept.underway
    rw [sending] at underway
    have current := underway env List.mem_cons_self
    refine ⟨⟨kept.id, kept.nonzero, kept.voted, ?_, ?_⟩, fun clean => ?_, fun _ => ?_, ?_⟩
    · have past : ∀ old ∈ process.sent, ∀ term one other, castVote old = some (term, one) →
          castVote env = some (term, other) → one = other := by
        intro old inside term one other told now
        obtain ⟨same, voted⟩ := current _ now
        exact (kept.votes old inside _ told).agree same voted
      intro first inFirst second inSecond term one other told also
      rcases List.mem_append.mp inFirst with before | now <;> rcases List.mem_append.mp inSecond with before' | now'
      · exact kept.agree first before second before' term one other told also
      · cases List.mem_singleton.mp now'
        exact past first before term one other told also
      · cases List.mem_singleton.mp now
        exact (past second before' term other one also told).symm
      · cases List.mem_singleton.mp now
        cases List.mem_singleton.mp now'
        exact congrArg Prod.snd (Option.some.inj (told.symm.trans also))
    · intro old inside vote told
      rcases List.mem_append.mp inside with before | now
      · exact kept.votes old before vote told
      · cases List.mem_singleton.mp now
        exact Or.inr (current vote told)
    · obtain ⟨before, free⟩ := Bool.or_eq_false_iff.mp clean
      obtain ⟨silent, nothing⟩ := silent_of_not_binding log free
      refine ⟨fun old inside vote told => ?_, ?_⟩
      · exact (kept.saved before).votes old (Silent.old (silent_answer silent) inside told) vote told
      · change ∀ entry ∈ process.acked ++ acknowledged env log, _
        rw [nothing, List.append_nil]
        exact (kept.saved before).entries
    · exact kept.mirror fun view other => nomatch sending.symm.trans other
    · exact fun later inside => underway later (List.mem_cons_of_mem _ inside)
  next => exact kept

theorem Kept.drain (kept : Kept process) (snapData : Bytes) : Kept (process.step parseMembers (.drain snapData)) := by
  unfold Process.step
  dsimp only
  split
  next sending =>
    refine ⟨kept.loyal rfl rfl (drainAndApply_loyal parseMembers snapData process.node), ?_, fun _ => ?_, trivial⟩
    · exact fun clean => ⟨(kept.saved clean).votes, (kept.saved clean).entries⟩
    · exact kept.mirror fun view other => nomatch sending.symm.trans other
  next => exact kept

theorem Mirrors.covers {vote : Nat × NodeId} (mirrors : Mirrors saved view)
    (covers : Covers view.hardState.currentTerm view.hardState.votedFor vote) :
    Covers saved.hardState.currentTerm saved.hardState.votedFor vote := by
  rw [mirrors.currentTerm, mirrors.votedFor]
  exact covers

theorem Mirrors.holds {entry : Nat × LogEntry} (mirrors : Mirrors saved view) (held : Holds view.log entry) :
    Holds saved.log entry :=
  held.grow ⟨mirrors.log.floor, mirrors.log.entries ▸ List.prefix_rfl⟩

theorem Faithful.finish (faithful : Faithful process) (persisted : process.persister.lastPersisted = some view)
    (mirrors : Mirrors process.persister.storage.load view)
    (votes : ∀ env ∈ process.sent, ∀ vote, castVote env = some vote → Covers view.hardState.currentTerm
      view.hardState.votedFor vote) (grows : LogGrows view.log process.node.log) : Kept (process.finish view) := by
  have held : ∀ entry ∈ (process.finish view).acked, Holds view.log entry :=
    fun entry inside => of_decide_eq_true (List.mem_filter.mp inside).2
  refine ⟨⟨faithful.id, faithful.nonzero, faithful.voted, faithful.agree, faithful.votes⟩, fun _ => ?_, fun _ => ?_, ?_⟩
  · exact ⟨fun env inside vote told => mirrors.covers (votes env inside vote told),
      fun entry inside => mirrors.holds (held entry inside)⟩
  · intro other last
    cases persisted.symm.trans last
    exact mirrors
  · exact fun entry inside => (held entry inside).grow grows

section
variable (kept : Kept process)
include kept

theorem Kept.saveHardState : Kept (process.step parseMembers .saveHardState) := by
  unfold Process.step
  dsimp only
  split
  next drained =>
    split
    next unchanged =>
      have mirrors := kept.mirror (fun view other => nomatch drained.symm.trans other) _ unchanged
      exact kept.toFaithful.finish unchanged mirrors kept.votes (.refl _)
    next =>
      refine ⟨⟨kept.id, kept.nonzero, kept.voted, kept.agree, kept.votes⟩, (fun clean => nomatch clean), ?_, ?_⟩
      · exact fun whole => absurd rfl (whole _)
      · exact ⟨rfl, rfl, kept.voted, kept.votes, .refl _⟩
  next => exact kept

theorem Kept.saveLog : Kept (process.step parseMembers .saveLog) := by
  unfold Process.step
  dsimp only
  split
  next view saving =>
    have half := kept.underway
    rw [saving] at half
    have written : process.persister.storage = process.persister.storage.saveHardState view.hardState := by
      unfold DiskRaftStorage.saveHardState
      rw [← half.hardState]
    have mirrors := mirrors_of_saved process.persister.storage view half.boundary half.nonzero
    rw [← written] at mirrors
    have faithful : Faithful { process with
        persister := ⟨process.persister.storage.saveLog view.log, some view⟩ } := kept.loyal rfl rfl (.refl _)
    exact faithful.finish rfl mirrors half.votes half.grows
  next => exact kept

theorem Kept.beside {node : RaftNode} {out : List Envelope} (loyal : Loyal process.node node)
    (silent : Silent out) (grows : LogGrows process.node.log node.log) :
    Kept { process with node := node, sent := process.sent ++ out } := by
  have moved : Faithful { process with node := node } := kept.loyal rfl rfl loyal
  refine ⟨⟨moved.id, moved.nonzero, moved.voted, ?_, ?_⟩, fun clean => ?_, kept.mirror, ?_⟩
  · intro first inFirst second inSecond term one other told also
    exact kept.agree first (silent.old inFirst told) second (silent.old inSecond also) term one other told also
  · exact fun env inside vote told => moved.votes env (silent.old inside told) vote told
  · exact ⟨fun env inside vote told => (kept.saved clean).votes env (silent.old inside told) vote told,
      (kept.saved clean).entries⟩
  · have underway := kept.underway
    change Underway _ process.phase
    cases phase : process.phase with
    | idle =>
      rw [phase] at underway
      exact fun entry inside => (underway entry inside).grow grows
    | sending pending log =>
      rw [phase] at underway
      intro env inside vote told
      change vote.1 = node.currentTerm ∧ node.votedFor = some vote.2
      rw [loyal.currentTerm, loyal.votedFor]
      exact underway env inside vote told
    | drained => trivial
    | hardSaved view =>
      rw [phase] at underway
      exact ⟨underway.hardState, underway.boundary, underway.nonzero,
        fun env inside vote told => underway.votes env (silent.old inside told) vote told,
        underway.grows.trans grows⟩

theorem Kept.membershipChange (members : List ClusterMember) :
    Kept (process.step parseMembers (.membershipChange members)) :=
  have ⟨routine, grows⟩ := changeMembership_routine process.node members
  kept.beside routine.toLoyal routine.silent grows

theorem Kept.transferLeadership (target : NodeId) : Kept (process.step parseMembers (.transferLeadership target)) := by
  have routine := Routine.course (.transferLeadership process.node target)
  have grows := (LogGrows.stable process.node.log).course (.refl _) (.transferLeadership _ target)
  have moved := kept.beside routine.toLoyal routine.silent grows
  rw [List.append_nil] at moved
  exact moved

end

theorem load_votedFor (disk : DiskRaftStorage) : disk.load.hardState.votedFor ≠ some ⟨0⟩ := by
  unfold DiskRaftStorage.load
  dsimp only
  cases disk.hardState with
  | none => exact nofun
  | some file => exact decodeHardState_votedFor file

theorem start_backed (persister : RaftPersister) (config : RaftConfig) (applyFloor : Nat) :
    (persister.start config applyFloor).2.config = config ∧
      (persister.start config applyFloor).2.currentTerm = persister.storage.load.hardState.currentTerm ∧
      (persister.start config applyFloor).2.votedFor = persister.storage.load.hardState.votedFor ∧
      (∀ entry, Holds persister.storage.load.log entry → Holds (persister.start config applyFloor).2.log entry) ∧
      (persister.start config applyFloor).1.storage = persister.storage ∧
      ∀ view, (persister.start config applyFloor).1.lastPersisted = some view → view = persister.storage.load := by
  unfold RaftPersister.start RaftPersister.loadState
  dsimp only
  split
  next state loaded =>
    split at loaded
    next => exact nomatch loaded
    next =>
      cases loaded
      exact ⟨rfl, rfl, rfl, fun _ held => held, rfl, fun _ same => (Option.some.inj same).symm⟩
  next empty =>
    split at empty
    next blank =>
      refine ⟨rfl, (congrArg HardState.currentTerm blank.1).symm, (congrArg HardState.votedFor blank.1).symm, ?_, rfl,
        fun _ same => nomatch same⟩
      intro entry held
      right
      have bound : entry.1 ≤ persister.storage.load.log.lastIndex := held.le_lastIndex
      exact bound.trans_eq blank.2
    next => exact nomatch empty

theorem Kept.crash (kept : Kept process) {applyFloor : Nat} (spared : Spared process (.crash applyFloor)) :
    Kept (process.step parseMembers (.crash applyFloor)) := by
  obtain ⟨config, term, vote, entries, storage, last⟩ := start_backed process.persister process.config applyFloor
  have saved := kept.saved spared
  unfold Process.step
  dsimp only
  generalize process.persister.start process.config applyFloor = started at *
  refine ⟨⟨congrArg RaftConfig.id config, kept.nonzero, ?_, kept.agree, ?_⟩, fun _ => ?_, fun _ view persisted => ?_, ?_⟩
  · exact vote ▸ load_votedFor _
  · intro env inside cast told
    change Covers started.2.currentTerm started.2.votedFor cast
    rw [term, vote]
    exact saved.votes env inside cast told
  · change Backed _ started.1.storage.load
    rw [storage]
    exact ⟨saved.votes, saved.entries⟩
  · change Mirrors started.1.storage.load view
    rw [storage, last view persisted]
    exact .refl _
  · exact fun entry inside => entries entry (saved.entries entry inside)

theorem Kept.step (kept : Kept process) {event : Event} (spared : Spared process event) :
    Kept (process.step parseMembers event) := by
  cases event with
  | receive input => exact kept.receive spared
  | send => exact kept.send
  | drain snapData => exact kept.drain snapData
  | saveHardState => exact kept.saveHardState
  | saveLog => exact kept.saveLog
  | membershipChange members => exact kept.membershipChange members
  | transferLeadership target => exact kept.transferLeadership target
  | crash applyFloor => exact kept.crash spared

theorem Kept.fresh {config : RaftConfig} (nonzero : config.id ≠ ⟨0⟩) : Kept (.fresh config) where
  id := rfl
  nonzero := nonzero
  voted := nofun
  agree := fun _ inside => nomatch inside
  votes := fun _ inside => nomatch inside
  saved := fun _ => ⟨(fun _ inside => nomatch inside), fun _ inside => nomatch inside⟩
  mirror := fun _ _ persisted => nomatch persisted
  underway := fun _ inside => nomatch inside

/-- The states of a server whose crashes all fall into spared times. -/
abbrev Process.Reaches (parseMembers : Bytes → List ClusterMember) : Process → Process → Prop :=
  Runs.Reaches (step parseMembers) Spared

abbrev Process.Permits (parseMembers : Bytes → List ClusterMember) : Process → List Event → Prop :=
  Runs.Permits (step parseMembers) Spared

end

def Process.run (process : Process) (events : List Event) : Process := events.foldl (step fun _ => []) process

def asked (candidate : NodeId) : List Event :=
  [.receive (.message (.new candidate ⟨2⟩ (.voteRequest ⟨1, candidate, 0, 0⟩))), .send]

def appended : List Event :=
  [.receive (.message (.new ⟨1⟩ ⟨2⟩ (.appendRequest ⟨1, ⟨1⟩, 0, 0, [⟨1, [7]⟩], 0⟩))), .send]

def saved : List Event := [.drain [], .saveHardState, .saveLog]

end KayaDB.Server
