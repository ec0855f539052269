import KayaDB.Wal.Writer

/-! Concurrent appends. A task holds the mutex from the expired batch to its own
sync, in phases with one disk operation each; a task that waits for a sync has
given it back, and returns some time after its channel was served or dropped. -/

namespace KayaDB.Wal
open Raft (Bytes)

/-- What happens on the disk, and which appends return. -/
inductive Event where
  | written (task segment : Nat)
  | fsync (segment : Nat) (done : Bool)
  | returned (task : Nat) (result : Except String AppendResult)

/-- How far the task that holds the mutex has come. -/
inductive Phase where
  | begun (call : AppendCall)
  | encoding (call : AppendCall)
  | writing (call : AppendCall) (record : WalRecord) (encoded : Bytes)
  | settling (call : AppendCall) (record : WalRecord) (offset encodedLen : Nat)

/-- `senders` are the channels kept in the batch, each with what its task returns
when it is served; a task in `arrived` was served, the channel of one in `closed`
was dropped, and neither has noticed. -/
structure Group where
  wal : WalWriter
  tasks : Nat
  holder : Option (Nat × Phase)
  senders : List (Nat × AppendResult)
  arrived : List (Nat × AppendResult)
  closed : List Nat
  trace : List Event

/-- A new task calls `append` and gets the mutex, the task that holds it goes on, or
a waiting task looks at its channel. -/
inductive Action where
  | call (call : AppendCall)
  | resume
  | wake (task : Nat)

namespace Group

def openAt (dir : WalDir) (nextLsn nextSequence : UInt64) : Group where
  wal := .openAt dir nextLsn nextSequence
  tasks := 0
  holder := none
  senders := []
  arrived := []
  closed := []
  trace := []

def hold (group : Group) (task : Nat) (phase : Phase) : Group := { group with holder := some (task, phase) }

def finish (group : Group) (task : Nat) (result : Except String AppendResult) : Group :=
  { group with holder := none, trace := group.trace ++ [.returned task result] }

def flushStrictBatch (group : Group) (fault : Option Fault) : Group :=
  { group with
    wal := (group.wal.flushStrictBatch fault).1
    senders := []
    arrived := if fault.isNone then group.arrived ++ group.senders else group.arrived
    closed := if fault.isNone then group.closed else group.closed ++ group.senders.map Prod.fst
    trace := group.trace ++ [.fsync group.wal.activeSegmentId fault.isNone] }

/-- A sync that fails ends the append. -/
def flushThen (group : Group) (task : Nat) (fault : Option Fault) (later : Group → Group) : Group :=
  if fault.isNone then later (group.flushStrictBatch fault)
  else (group.flushStrictBatch fault).finish task (.error "fsync failed")

def begin (config : WalConfig) (group : Group) (task : Nat) (call : AppendCall) : Group :=
  if config.batch.enabled && group.wal.batch.hasPending &&
      group.wal.batch.intervalExpired config.batch call.expiredBefore then
    group.flushThen task call.faults.expiredFlush fun group => group.hold task (.encoding call)
  else group.hold task (.encoding call)

def encode (config : WalConfig) (group : Group) (task : Nat) (call : AppendCall) : Group :=
  let record := WalRecord.new group.wal.nextLsn group.wal.nextSequence call.payload
  match WalWriter.encodeNext config record with
  | .error reason => group.finish task (.error reason)
  | .ok encoded =>
    let rotate (group : Group) : Group := { group with wal := group.wal.rotate }
    if group.wal.rotates config encoded.length then
      if group.wal.batch.hasPending then
        group.flushThen task call.faults.pendingFlush fun group =>
          (rotate group).hold task (.writing call record encoded)
      else (rotate group).hold task (.writing call record encoded)
    else group.hold task (.writing call record encoded)

def write (group : Group) (task : Nat) (call : AppendCall) (record : WalRecord) (encoded : Bytes) : Group :=
  let active := group.wal.activeSegmentId
  match call.faults.append with
  | some .refused => group.finish task (.error "io error")
  | some (.cut bytes) =>
    { group with wal := { group.wal with dir := group.wal.dir.append active (encoded.take bytes) } }.finish task
      (.error "io error")
  | none =>
    let offset := group.wal.dir.fileLen active
    let written : Group := { group with
      wal := { group.wal with dir := group.wal.dir.append active encoded }
      trace := group.trace ++ [.written task active] }
    if !group.wal.activeDirSynced && call.faults.dirSync then written.finish task (.error "fsync failed")
    else { written with wal := { written.wal with activeDirSynced := true } }.hold task
      (.settling call record offset encoded.length)

def settle (config : WalConfig) (group : Group) (task : Nat) (call : AppendCall) (record : WalRecord)
    (offset encodedLen : Nat) : Group :=
  let result (durable : Bool) : AppendResult :=
    ⟨record.lsn, record.sequence, group.wal.activeSegmentId, offset, encodedLen, durable⟩
  let advance (group : Group) : Group := { group with wal := group.wal.advance offset encodedLen }
  match call.mode with
  | .relaxed => (advance group).finish task (.ok (result false))
  | .strict =>
    if !config.batch.enabled then
      group.flushThen task call.faults.fsync fun group => (advance group).finish task (.ok (result true))
    else
      match group.wal.batch.afterRecordAppended config.batch record (result true) call.expiredAfter with
      | (batch, false) =>
        { group with
          wal := { group.wal.advance offset encodedLen with batch }
          holder := none
          senders := group.senders ++ [(task, result true)] }
      | (batch, true) =>
        { group with wal := { group.wal.advance offset encodedLen with batch } }.flushThen task call.faults.fsync
          fun group => group.finish task (.ok (result true))

def resume (config : WalConfig) (group : Group) (task : Nat) : Phase → Group
  | .begun call => group.begin config task call
  | .encoding call => group.encode config task call
  | .writing call record encoded => group.write task call record encoded
  | .settling call record offset encodedLen => group.settle config task call record offset encodedLen

def wake (group : Group) (task : Nat) : Group :=
  match group.arrived.find? fun served => served.1 = task with
  | some (_, result) =>
    { group with
      arrived := group.arrived.filter fun served => served.1 ≠ task
      trace := group.trace ++ [.returned task (.ok result)] }
  | none =>
    if task ∈ group.closed then
      { group with
        closed := group.closed.filter (· ≠ task)
        trace := group.trace ++ [.returned task (.error "WAL batch waiter dropped before group commit")] }
    else group

/-- An action that is not possible now leaves everything as it is. -/
def step (config : WalConfig) (group : Group) : Action → Group
  | .call call =>
    match group.holder with
    | none => { group with tasks := group.tasks + 1, holder := some (group.tasks, .begun call) }
    | some _ => group
  | .resume =>
    match group.holder with
    | none => group
    | some (task, phase) => group.resume config task phase
  | .wake task => group.wake task

def run (config : WalConfig) (group : Group) (actions : List Action) : Group := actions.foldl (step config) group

/-- A writer and the group that has come as far. -/
def Ends (group : Group) (wal : WalWriter) : Prop := group.holder = none ∧ group.wal = wal

theorem ends_finish (group : Group) (task : Nat) (result : Except String AppendResult) :
    (group.finish task result).Ends group.wal := ⟨rfl, rfl⟩

section
variable (config : WalConfig) (group : Group) (task : Nat) (call : AppendCall) (record : WalRecord)

theorem ends_settle (offset encodedLen : Nat) : (group.settle config task call record offset encodedLen).Ends
      (group.wal.settle config record offset encodedLen call).wal := by
  unfold settle WalWriter.settle
  cases call.mode with
  | relaxed => exact ends_finish _ task _
  | strict =>
    dsimp only
    split
    · rcases call.faults.fsync with _ | _ | bytes
      · exact ends_finish _ task _
      · exact ends_finish _ task _
      · exact ends_finish _ task _
    · generalize group.wal.batch.afterRecordAppended config.batch record _ call.expiredAfter = outcome
      obtain ⟨batch, _ | _⟩ := outcome
      · exact ⟨rfl, rfl⟩
      · rcases call.faults.fsync with _ | _ | bytes
        · exact ends_finish _ task _
        · exact ends_finish _ task _
        · exact ends_finish _ task _

theorem ends_write (encoded : Bytes) : ((group.write task call record encoded).step config .resume).Ends
      (group.wal.writeRecord config record encoded call).wal := by
  unfold write WalWriter.writeRecord
  rcases call.faults.append with _ | _ | bytes
  · dsimp only
    split
    · exact ends_finish _ task _
    · exact ends_settle config _ task call record _ _
  · exact ends_finish _ task _
  · exact ends_finish _ task _

end

/-- The part of `append` after the expired batch. -/
def appendNext (config : WalConfig) (wal : WalWriter) (call : AppendCall) (expired : List (WalRecord × AppendResult)) :
    Appended :=
  let record := WalRecord.new wal.nextLsn wal.nextSequence call.payload
  match WalWriter.encodeNext config record with
  | .error reason => ⟨wal, some (.error reason), expired⟩
  | .ok encoded =>
    match wal.flushPending config encoded.length call with
    | (wal, .error reason) => ⟨wal, some (.error reason), expired⟩
    | (wal, .ok pending) =>
      let ready := if wal.rotates config encoded.length then wal.rotate else wal
      let appended := ready.writeRecord config record encoded call
      { appended with released := expired ++ pending ++ appended.released }

theorem append_eq (config : WalConfig) (wal : WalWriter) (call : AppendCall) : wal.append config call =
    match wal.flushExpired config call with
    | (wal, .error reason) => ⟨wal, some (.error reason), []⟩
    | (wal, .ok expired) => appendNext config wal call expired := rfl

section
variable (config : WalConfig) (group : Group) (task : Nat) (call : AppendCall)

theorem ends_encode (expired : List (WalRecord × AppendResult)) :
    (((group.encode config task call).step config .resume).step config .resume).Ends
      (appendNext config group.wal call expired).wal := by
  unfold encode appendNext WalWriter.flushPending
  dsimp only
  cases WalWriter.encodeNext config (.new group.wal.nextLsn group.wal.nextSequence call.payload) with
  | error reason => exact ends_finish _ task _
  | ok encoded =>
    dsimp only
    by_cases full : group.wal.rotates config encoded.length
    · by_cases pending : group.wal.batch.hasPending
      · simp only [full, pending]
        rcases call.faults.pendingFlush with _ | _ | bytes
        · have still : ({ group.wal with dir := group.wal.dir.fsyncFile group.wal.activeSegmentId, batch := .new } :
            WalWriter).rotates config encoded.length = true := full
          simp only [WalWriter.flushStrictBatch, Bool.and_self, if_true, still]
          exact ends_write config _ task call _ encoded
        · exact ends_finish _ task _
        · exact ends_finish _ task _
      · simp only [full, pending, Bool.and_false, Bool.false_eq_true, if_true, if_false]
        exact ends_write config _ task call _ encoded
    · simp only [full, Bool.false_and, Bool.false_eq_true, if_false]
      exact ends_write config _ task call _ encoded

theorem ends_begin :
    ((((group.begin config task call).step config .resume).step config .resume).step config .resume).Ends
      (group.wal.append config call).wal := by
  rw [append_eq]
  unfold begin WalWriter.flushExpired
  split
  · rcases call.faults.expiredFlush with _ | _ | bytes
    · exact ends_encode config _ task call _
    · exact ends_finish _ task _
    · exact ends_finish _ task _
  · exact ends_encode config _ task call _

end

/-- A call that gets the mutex does to the writer what `append` does. -/
theorem ends_call (config : WalConfig) {group : Group} (free : group.holder = none) (call : AppendCall) :
    (group.run config [.call call, .resume, .resume, .resume, .resume]).Ends (group.wal.append config call).wal := by
  have begun : group.step config (.call call) =
      { group with tasks := group.tasks + 1, holder := some (group.tasks, .begun call) } := by
    simp [step, free]
  simp only [run, List.foldl_cons, List.foldl_nil, begun]
  exact ends_begin config _ group.tasks call

/-- Calls that go through their phases one after the other leave the log that plain appends leave. -/
theorem phases_refine_append (config : WalConfig) (dir : WalDir) (nextLsn nextSequence : UInt64) (calls : List AppendCall) :
    ((openAt dir nextLsn nextSequence).run config
      (calls.flatMap fun call => [.call call, .resume, .resume, .resume, .resume])).Ends
      (calls.foldl (fun wal call => (wal.append config call).wal) (.openAt dir nextLsn nextSequence)) := by
  have each : ∀ group : Group, group.holder = none → (group.run config
      (calls.flatMap fun call => [.call call, .resume, .resume, .resume, .resume])).Ends
      (calls.foldl (fun wal call => (wal.append config call).wal) group.wal) := by
    induction calls with
    | nil => exact fun group free => ⟨free, rfl⟩
    | cons call rest ih =>
      intro group free
      obtain ⟨done, same⟩ := ends_call config free call
      have others := ih _ done
      rw [same] at others
      rw [List.flatMap_cons, run, List.foldl_append]
      exact others
  exact each _ rfl

end Group

def firstSync : List Event → Option (Nat × Bool)
  | [] => none
  | .fsync segment done :: _ => some (segment, done)
  | _ :: rest => firstSync rest

def syncOf (task : Nat) : List Event → Option (Nat × Bool)
  | [] => none
  | .written writer _ :: rest => if writer = task then firstSync rest else syncOf task rest
  | _ :: rest => syncOf task rest

theorem firstSync_append (trace more : List Event) :
    firstSync (trace ++ more) = (firstSync trace).or (firstSync more) := by
  induction trace with
  | nil => rfl
  | cons event rest ih =>
    cases event with
    | fsync => rfl
    | written => exact ih
    | returned => exact ih

variable {trace : List Event} {task segment : Nat}

theorem syncOf_append (inside : .written task segment ∈ trace) (more : List Event) :
    syncOf task (trace ++ more) = (syncOf task trace).or (firstSync more) := by
  induction trace with
  | nil => cases inside
  | cons event rest ih =>
    cases event with
    | written writer place =>
      by_cases own : writer = task
      · simp [syncOf, own, firstSync_append]
      · have later : .written task segment ∈ rest := by
          simpa [Ne.symm own] using inside
        simp [syncOf, own, ih later]
    | fsync place done => exact ih (by simpa using inside)
    | returned other result => exact ih (by simpa using inside)

theorem syncOf_append_of_unwritten (unwritten : ∀ segment, .written task segment ∉ trace) (more : List Event) :
    syncOf task (trace ++ more) = syncOf task more := by
  induction trace with
  | nil => rfl
  | cons event rest ih =>
    have later := ih fun segment inside => unwritten segment (List.mem_cons_of_mem _ inside)
    cases event with
    | written writer place =>
      have other : writer ≠ task := by
        rintro rfl
        exact unwritten place List.mem_cons_self
      simp [syncOf, other, later]
    | fsync place done => exact later
    | returned other result => exact later

/-- The task has written, and no sync was tried since. -/
structure Unsynced (trace : List Event) (task segment : Nat) : Prop where
  written : .written task segment ∈ trace
  untried : syncOf task trace = none

/-- The task has written, and the first sync that was tried since has succeeded. -/
structure Synced (trace : List Event) (task segment : Nat) : Prop where
  after : [.written task segment, .fsync segment true].Sublist trace
  first : syncOf task trace = some (segment, true)

theorem Synced.append (synced : Synced trace task segment) (more : List Event) :
    Synced (trace ++ more) task segment := by
  have written := synced.after.mem List.mem_cons_self
  refine ⟨synced.after.trans (List.sublist_append_left _ _), ?_⟩
  rw [syncOf_append written, synced.first, Option.some_or]

theorem Unsynced.append (unsynced : Unsynced trace task segment) {more : List Event} (quiet : firstSync more = none) :
    Unsynced (trace ++ more) task segment := by
  refine ⟨List.mem_append_left _ unsynced.written, ?_⟩
  rw [syncOf_append unsynced.written, unsynced.untried, quiet, Option.or_none]

theorem Unsynced.fsync (unsynced : Unsynced trace task segment) :
    Synced (trace ++ [.fsync segment true]) task segment := by
  refine ⟨(List.singleton_sublist.mpr unsynced.written).append (List.Sublist.refl _), ?_⟩
  rw [syncOf_append unsynced.written, unsynced.untried]
  rfl

theorem Unsynced.write (unwritten : ∀ segment, .written task segment ∉ trace) (segment : Nat) :
    Unsynced (trace ++ [.written task segment]) task segment := by
  refine ⟨List.mem_append_right _ List.mem_cons_self, ?_⟩
  simp [syncOf_append_of_unwritten unwritten, syncOf, firstSync]

/-- Every append that returned as durable was synced by then. -/
def Acked (trace : List Event) : Prop :=
  ∀ before after task result, trace = before ++ .returned task (.ok result) :: after → result.durable = true →
    Synced before task result.segmentId

theorem Acked.snoc {event : Event} (acked : Acked trace)
    (last : ∀ task result, event = .returned task (.ok result) → result.durable = true → Synced trace task
      result.segmentId) : Acked (trace ++ [event]) := by
  intro before after task result split durable
  obtain rfl | ⟨front, final, rfl⟩ := after.eq_nil_or_concat
  · obtain ⟨rfl, same⟩ := List.append_inj_left' split rfl, List.append_inj_right' split rfl
    exact last task result (List.cons.inj same).1 durable
  · rw [List.concat_eq_append, ← List.cons_append, ← List.append_assoc] at split
    exact acked before front task result (List.append_inj_left' split rfl) durable

def Phase.Ready (trace : List Event) (active task : Nat) : Phase → Prop
  | .begun _ | .encoding _ | .writing .. => ∀ segment, .written task segment ∉ trace
  | .settling .. => Unsynced trace task active

namespace Group

/-- The batch waits for a sync of the active segment. -/
structure Core (group : Group) : Prop where
  fresh : ∀ task segment, .written task segment ∈ group.trace → task < group.tasks
  pending : group.senders ≠ [] → group.wal.batch.hasPending = true
  senders : ∀ sender ∈ group.senders, sender.2.segmentId = group.wal.activeSegmentId ∧
    Unsynced group.trace sender.1 group.wal.activeSegmentId
  arrived : ∀ served ∈ group.arrived, Synced group.trace served.1 served.2.segmentId
  acked : Acked group.trace

structure Kept (group : Group) : Prop where
  core : Core group
  holder : ∀ task phase, group.holder = some (task, phase) →
    task < group.tasks ∧ phase.Ready group.trace group.wal.activeSegmentId task

variable {group : Group} {task : Nat}
  {result : Except String AppendResult} {fault : Option Fault}

section
variable (core : Core group)
include core

theorem Core.hold {phase : Phase} (known : task < group.tasks)
    (ready : phase.Ready group.trace group.wal.activeSegmentId task) : Kept (group.hold task phase) := by
  refine ⟨⟨core.fresh, core.pending, core.senders, core.arrived, core.acked⟩, ?_⟩
  rintro _ _ ⟨⟩
  exact ⟨known, ready⟩

theorem Core.returned {arrived : List (Nat × AppendResult)} {closed : List Nat} {holder : Option (Nat × Phase)}
    (fewer : ∀ served ∈ arrived, served ∈ group.arrived)
    (ok : ∀ value, result = .ok value → value.durable = true → Synced group.trace task value.segmentId) :
    Core { group with arrived, closed, holder, trace := group.trace ++ [.returned task result] } where
  fresh other segment inside := core.fresh other segment (by simpa using inside)
  pending := core.pending
  senders sender inside := ⟨(core.senders sender inside).1, (core.senders sender inside).2.append rfl⟩
  arrived served inside := (core.arrived served (fewer served inside)).append _
  acked := core.acked.snoc (by
    rintro _ value ⟨⟩
    exact ok value rfl)

theorem Core.finish
    (ok : ∀ value, result = .ok value → value.durable = true → Synced group.trace task value.segmentId) :
    Kept (group.finish task result) := by
  refine ⟨core.returned (fun _ inside => inside) ok, ?_⟩
  rintro _ _ ⟨⟩

theorem Core.finish_error (reason : String) : Kept (group.finish task (.error reason)) := by
  apply core.finish
  rintro _ ⟨⟩

theorem Core.changeWal (wal : WalWriter) (same : wal.activeSegmentId = group.wal.activeSegmentId)
    (pending : group.wal.batch.hasPending = true → wal.batch.hasPending = true) : Core { group with wal } where
  fresh := core.fresh
  pending some := pending (core.pending some)
  senders sender inside := same.symm ▸ core.senders sender inside
  arrived := core.arrived
  acked := core.acked

theorem Core.rotate (none : group.senders = []) : Core { group with wal := group.wal.rotate } where
  fresh := core.fresh
  pending some := absurd none some
  senders sender inside := by
    have := none ▸ inside
    cases this
  arrived := core.arrived
  acked := core.acked

theorem Core.flushStrictBatch (fault : Option Fault) : Core (group.flushStrictBatch fault) where
  fresh other segment inside := core.fresh other segment (by simpa [Group.flushStrictBatch] using inside)
  pending some := absurd rfl some
  senders sender inside := by cases inside
  arrived served inside := by
    cases fault with
    | none =>
      obtain earlier | now := List.mem_append.mp inside
      · exact (core.arrived served earlier).append _
      · obtain ⟨same, unsynced⟩ := core.senders served now
        rw [same]
        exact unsynced.fsync
    | some fault => exact (core.arrived served inside).append _
  acked := core.acked.snoc (by
    rintro _ _ ⟨⟩)

theorem Core.flushThen {later : Group → Group}
    (kept : fault.isNone = true → Core (group.flushStrictBatch fault) → Kept (later (group.flushStrictBatch fault))) :
    Kept (group.flushThen task fault later) := by
  unfold Group.flushThen
  split
  next done => exact kept done (core.flushStrictBatch fault)
  next => exact (core.flushStrictBatch fault).finish_error _

end

theorem unwritten_flushStrictBatch (unwritten : ∀ segment, .written task segment ∉ group.trace) (fault : Option Fault) :
    ∀ segment, .written task segment ∉ (group.flushStrictBatch fault).trace := by
  simpa [Group.flushStrictBatch] using unwritten

variable {config : WalConfig} {call : AppendCall}

section
variable (core : Core group) (known : task < group.tasks) (unwritten : ∀ segment, .written task segment ∉ group.trace)
include core known unwritten

theorem Core.begin : Kept (group.begin config task call) := by
  unfold Group.begin
  split
  · apply core.flushThen
    intro _ flushed
    exact flushed.hold known (unwritten_flushStrictBatch unwritten _)
  · exact core.hold known unwritten

theorem Core.encode : Kept (group.encode config task call) := by
  unfold Group.encode
  dsimp only
  split
  · exact core.finish_error _
  · split
    · split
      · apply core.flushThen
        intro _ flushed
        exact (flushed.rotate rfl).hold known (unwritten_flushStrictBatch unwritten _)
      next idle =>
        have none : group.senders = [] := by
          by_contra some
          exact idle (core.pending some)
        exact (core.rotate none).hold known unwritten
    · exact core.hold known unwritten

theorem Core.write (record : WalRecord) (encoded : Bytes) : Kept (group.write task call record encoded) := by
  have written : Core { group with trace := group.trace ++ [.written task group.wal.activeSegmentId] } := {
    fresh := by
      intro other segment inside
      obtain earlier | now := List.mem_append.mp inside
      · exact core.fresh other segment earlier
      · cases List.mem_singleton.mp now
        exact known
    pending := core.pending
    senders := fun sender inside => ⟨(core.senders sender inside).1, (core.senders sender inside).2.append rfl⟩
    arrived := fun served inside => (core.arrived served inside).append _
    acked := core.acked.snoc (by rintro _ _ ⟨⟩) }
  unfold Group.write
  rcases call.faults.append with _ | _ | bytes
  · dsimp only
    split
    · apply Core.finish_error
      exact written.changeWal _ rfl id
    · refine Core.hold ?_ known (Unsynced.write unwritten _)
      exact written.changeWal _ rfl id
  · exact core.finish_error _
  · apply Core.finish_error
    exact core.changeWal _ rfl id

end

theorem afterRecordAppended_pending (config : WalBatchConfig) (batch : WalBatchWriter) (record : WalRecord)
    (result : AppendResult) (elapsed : Bool) :
    (batch.afterRecordAppended config record result elapsed).1.hasPending = true := by
  unfold WalBatchWriter.afterRecordAppended
  dsimp only
  split
  · simp [WalBatchWriter.hasPending]
  · simp [WalBatchWriter.hasPending]

theorem synced_flushStrictBatch (unsynced : Unsynced group.trace task group.wal.activeSegmentId)
    (done : fault.isNone = true) : Synced (group.flushStrictBatch fault).trace task group.wal.activeSegmentId := by
  unfold Group.flushStrictBatch
  rw [done]
  exact unsynced.fsync

theorem Core.settle (core : Core group) (unsynced : Unsynced group.trace task group.wal.activeSegmentId)
    (record : WalRecord) (offset encodedLen : Nat) : Kept (group.settle config task call record offset encodedLen) := by
  unfold Group.settle
  dsimp only
  split
  · apply (core.changeWal (group.wal.advance offset encodedLen) rfl id).finish
    rintro _ ⟨⟩ ⟨⟩
  · split
    · apply core.flushThen
      intro done flushed
      apply (flushed.changeWal (WalWriter.advance _ offset encodedLen) rfl id).finish
      rintro _ ⟨⟩ -
      exact synced_flushStrictBatch unsynced done
    · have pending := afterRecordAppended_pending config.batch group.wal.batch record
        ⟨record.lsn, record.sequence, group.wal.activeSegmentId, offset, encodedLen, true⟩ call.expiredAfter
      generalize group.wal.batch.afterRecordAppended config.batch record _ call.expiredAfter = outcome at pending ⊢
      obtain ⟨batch, _ | _⟩ := outcome
      · refine ⟨⟨core.fresh, fun _ => pending, ?_, core.arrived, core.acked⟩, ?_⟩
        · intro sender inside
          obtain earlier | now := List.mem_append.mp inside
          · exact core.senders sender earlier
          · cases List.mem_singleton.mp now
            exact ⟨rfl, unsynced⟩
        · rintro _ _ ⟨⟩
      · apply (core.changeWal { group.wal.advance offset encodedLen with batch } rfl fun _ => pending).flushThen
        intro done flushed
        apply flushed.finish
        rintro _ ⟨⟩ -
        exact synced_flushStrictBatch unsynced done

theorem Kept.wake (kept : Kept group) (task : Nat) : Kept (group.wake task) := by
  have ready (result : Except String AppendResult) : ∀ other phase, group.holder = some (other, phase) →
      other < group.tasks ∧ phase.Ready (group.trace ++ [.returned task result]) group.wal.activeSegmentId other := by
    intro other phase holds
    obtain ⟨known, ready⟩ := kept.holder other phase holds
    refine ⟨known, ?_⟩
    cases phase with
    | settling => exact Unsynced.append ready rfl
    | begun => simpa [Phase.Ready] using ready
    | encoding => simpa [Phase.Ready] using ready
    | writing => simpa [Phase.Ready] using ready
  unfold Group.wake
  split
  next other result found =>
    refine ⟨kept.core.returned (fun served inside => (List.mem_filter.mp inside).1) ?_, ready _⟩
    rintro _ ⟨⟩ -
    have served := kept.core.arrived _ (List.mem_of_find?_eq_some found)
    have same : other = task := by simpa using List.find?_some found
    exact same ▸ served
  next =>
    split
    · refine ⟨kept.core.returned (fun _ inside => inside) ?_, ready _⟩
      rintro _ ⟨⟩
    · exact kept

theorem Kept.step (kept : Kept group) (config : WalConfig) (action : Action) : Kept (group.step config action) := by
  cases action with
  | wake task => exact kept.wake task
  | call call =>
    unfold Group.step
    cases free : group.holder with
    | some holder => exact kept
    | none =>
      refine ⟨⟨fun other segment inside => (kept.core.fresh other segment inside).trans (Nat.lt_succ_self _),
        kept.core.pending, kept.core.senders, kept.core.arrived, kept.core.acked⟩, ?_⟩
      rintro _ _ ⟨⟩
      exact ⟨Nat.lt_succ_self _, fun segment inside => (kept.core.fresh _ segment inside).false⟩
  | resume =>
    unfold Group.step
    cases holds : group.holder with
    | none => exact kept
    | some holder =>
      obtain ⟨task, phase⟩ := holder
      obtain ⟨known, ready⟩ := kept.holder task phase holds
      cases phase with
      | begun call => exact kept.core.begin known ready
      | encoding call => exact kept.core.encode known ready
      | writing call record encoded => exact kept.core.write known ready record encoded
      | settling call record offset encodedLen => exact kept.core.settle ready record offset encodedLen

theorem Kept.run (kept : Kept group) (config : WalConfig) (actions : List Action) : Kept (group.run config actions) :=
  List.foldlRecOn actions (Group.step config) kept fun _ held action _ => held.step config action

/-- The first append waits, and the sync of the second serves it. -/
example : ((openAt .empty 1 1).run ⟨1000, 1000, ⟨2, 0, 0⟩⟩
    ([⟨.put [1] [10], .strict, false, false, .none⟩, ⟨.put [2] [20], .strict, false, false, .none⟩].flatMap
      fun call => [.call call, .resume, .resume, .resume, .resume])).arrived.map Prod.fst = [0] := by
  decide +kernel

end Group

end KayaDB.Wal
