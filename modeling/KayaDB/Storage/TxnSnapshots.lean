import KayaDB.Storage.TxnIntents

/-! Transactions and the versions written. The number an open transaction reads
at parts the versions that were there when it began from those that came since. -/

namespace KayaDB.Storage
open Raft (Bytes)
open Versions

namespace Engine
variable {engine : Engine} {mutation : TxnMutation} {clock : Option UInt64}

/-- The requests a list of mutations comes to; none follows one that is refused. -/
def writes (engine : Engine) : List TxnMutation → List (Option UInt64) → List Event
  | [], _ => []
  | mutation :: mutations, clocks =>
    let event := mutationEvent mutation (clocks.headD none)
    event :: if (engine.accepted event).isSome then (engine.step event).writes mutations clocks.tail else []

theorem applyMutation_cases (engine : Engine) (mutation : TxnMutation) (clock : Option UInt64) :
    (∃ message, engine.applyMutation mutation clock = (engine.step (mutationEvent mutation clock), .error message) ∧
      engine.accepted (mutationEvent mutation clock) = none) ∨
    ∃ result, engine.applyMutation mutation clock = (engine.step (mutationEvent mutation clock), .ok result) ∧
      engine.accepted (mutationEvent mutation clock) = some ⟨mutation.1, result.sequence, mutation.2⟩ := by
  obtain ⟨key, value⟩ := mutation
  cases value with
  | some value =>
    simp only [applyMutation, mutationEvent, step, accepted]
    cases outcome : engine.put key value none clock with
    | mk after result => cases result <;> simp [Except.toOption]
  | none =>
    simp only [applyMutation, mutationEvent, step, accepted]
    cases outcome : engine.delete key none clock with
    | mk after result => cases result <;> simp [Except.toOption]

theorem step_numbers (engine : Engine) (event : Event) :
    engine.wal.nextSequence ≤ (engine.step event).wal.nextSequence ∧
      ∀ entry, engine.accepted event = some entry →
        engine.wal.nextSequence ≤ entry.sequence ∧ entry.sequence < (engine.step event).wal.nextSequence := by
  have moved := moves_step engine event
  generalize engine.step event = after at moved ⊢
  generalize engine.accepted event = added at moved ⊢
  cases moved with
  | refused clock => exact ⟨le_prepareHlcWriteSequence engine clock, nofun⟩
  | logged clock payload mode wal result appended =>
    obtain ⟨number, next⟩ := WalWriter.append_numbers appended
    have later := le_prepareHlcWriteSequence engine clock
    have same : (engine.logged wal payload result.sequence).maybeAutoFlush.wal = wal := (maintained_maybeAutoFlush _).wal
    rw [same]
    refine ⟨by omega, fun entry made => ?_⟩
    rw [entry_sequence made]
    omega
  | flush => exact ⟨(maintained_flush engine).wal ▸ le_rfl, nofun⟩
  | compact asked => exact ⟨(maintained_compact engine).wal ▸ le_rfl, nofun⟩
  | pins => exact ⟨le_rfl, nofun⟩
  | watermark ts asked =>
    refine ⟨?_, nofun⟩
    unfold setGcWatermark
    split <;> exact le_rfl

end Engine

namespace TxnEngine

theorem applyMutations_eq (mutations : List TxnMutation) : ∀ (db : TxnEngine) (clocks : List (Option UInt64)),
    (db.applyMutations mutations clocks).1 = (db.engine.writes mutations clocks).foldl request db := by
  induction mutations with
  | nil => exact fun db clocks => rfl
  | cons mutation mutations ih =>
    intro db clocks
    rcases db.engine.applyMutation_cases mutation (clocks.headD none) with ⟨message, made, refused⟩ | ⟨result, made, taken⟩
    · simp only [applyMutations, Engine.writes, made, refused, List.foldl_cons, request, Option.elim_none,
        Option.isSome_none, Bool.false_eq_true, if_false, List.foldl_nil]
    · simp only [applyMutations, Engine.writes, made, taken, List.foldl_cons, request, Option.elim_some,
        Option.isSome_some, if_true, ih]

end TxnEngine

def TxnCall.quiet : TxnCall → Bool
  | .commit .. | .request _ => false
  | _ => true

namespace TxnSession
variable {session : TxnSession} {call : TxnCall}

def requests (session : TxnSession) (events : List Event) : TxnSession := session.run (events.map .request)

def commitEvents (session : TxnSession) (txnId : UInt64) (clocks : List (Option UInt64)) : List Event :=
  session.db.engine.writes ((session.db.txnTakeCommit txnId).2.toOption.getD []) clocks

theorem requests_writes (mutations : List TxnMutation) : ∀ (session : TxnSession) (clocks : List (Option UInt64)),
    session.requests (session.db.engine.writes mutations clocks) =
      { session with
        db := (session.db.engine.writes mutations clocks).foldl TxnEngine.request session.db
        written := session.written ++ session.db.engine.versions mutations clocks } := by
  induction mutations with
  | nil =>
    intro session clocks
    simp [Engine.writes, Engine.versions, requests, run]
  | cons mutation mutations ih =>
    intro session clocks
    have later := ih (session.step (.request (Engine.mutationEvent mutation (clocks.headD none)))) clocks.tail
    simp only [requests, run, step, TxnEngine.request] at later ⊢
    cases taken : session.db.engine.accepted (Engine.mutationEvent mutation (clocks.headD none)) with
    | none =>
      simp only [Engine.writes, Engine.versions, taken, Option.isSome_none, Bool.false_eq_true, if_false, List.map_cons,
        List.map_nil, List.foldl_cons, List.foldl_nil, step, TxnEngine.request, Option.toList_none]
    | some entry =>
      rw [taken] at later
      simp only [Engine.writes, Engine.versions, taken, Option.isSome_some, if_true, List.map_cons, List.foldl_cons,
        step, TxnEngine.request]
      rw [later]
      simp

theorem takeCommit_engine (db : TxnEngine) (txnId : UInt64) :
    (db.txnTakeCommit txnId).1.engine = db.engine ∧ (db.txnTakeCommit txnId).1.lastSequence = db.lastSequence := by
  unfold TxnEngine.txnTakeCommit
  split
  · exact ⟨rfl, rfl⟩
  · split <;> exact ⟨rfl, rfl⟩

theorem step_commit (session : TxnSession) (txnId : UInt64) (clocks : List (Option UInt64)) :
    session.step (.commit txnId clocks) =
      (session.step (.takeCommit txnId)).requests (session.commitEvents txnId clocks) := by
  have engine := (takeCommit_engine session.db txnId).1
  have made := requests_writes ((session.db.txnTakeCommit txnId).2.toOption.getD []) (session.step (.takeCommit txnId)) clocks
  simp only [step] at made ⊢
  unfold commitEvents
  rw [engine] at made
  rw [made]
  unfold TxnEngine.txnCommit
  cases taken : session.db.txnTakeCommit txnId with
  | mk db result =>
    rw [taken] at engine
    cases result with
    | error reason => simp [Except.toOption, Engine.writes, Engine.versions]
    | ok mutations =>
      dsimp only [Except.toOption, Option.getD] at engine ⊢
      rw [TxnEngine.applyMutations_eq, engine]

theorem mem_writes {event : Event} (mutations : List TxnMutation) : ∀ {engine : Engine} {clocks : List (Option UInt64)},
    event ∈ engine.writes mutations clocks → ∃ mutation clock, event = Engine.mutationEvent mutation clock := by
  induction mutations with
  | nil => exact fun inside => absurd inside List.not_mem_nil
  | cons mutation mutations ih =>
    intro engine clocks inside
    simp only [Engine.writes, List.mem_cons] at inside
    rcases inside with rfl | inside
    · exact ⟨mutation, _, rfl⟩
    · split at inside
      · exact ih inside
      · exact absurd inside List.not_mem_nil

section
variable {Keeps : TxnSession → Prop} {clocks : List (Option UInt64)}
  (write : ∀ {session} mutation clock, Keeps session → Keeps (session.step (.request (Engine.mutationEvent mutation clock))))
include write

theorem keeps_writes (engine : Engine) (mutations : List TxnMutation) (kept : Keeps session) :
    Keeps (session.requests (engine.writes mutations clocks)) := by
  have made : ∀ event ∈ engine.writes mutations clocks, ∃ mutation clock, event = Engine.mutationEvent mutation clock :=
    fun event => mem_writes _
  generalize engine.writes mutations clocks = events at made ⊢
  induction events generalizing session with
  | nil => exact kept
  | cons event events ih =>
    obtain ⟨mutation, clock, rfl⟩ := made event List.mem_cons_self
    exact ih (write mutation clock kept) fun event inside => made event (List.mem_cons_of_mem _ inside)

theorem keeps_commit {txnId : UInt64} (taken : Keeps (session.step (.takeCommit txnId))) :
    Keeps (session.step (.commit txnId clocks)) := by
  rw [step_commit]
  exact keeps_writes write session.db.engine _ taken

end

/-- The versions up to the number are those written before the transaction began. -/
structure Parts (session : TxnSession) (snapshotTs begun : Nat) : Prop where
  written : begun ≤ session.written.length
  current : snapshotTs ≤ session.db.lastSequence
  before : ∀ entry ∈ session.written.take begun, entry.sequence ≤ snapshotTs
  since : ∀ entry ∈ session.written.drop begun, snapshotTs < entry.sequence

structure Dated (session : TxnSession) : Prop where
  next : session.db.lastSequence < session.db.engine.wal.nextSequence
  last : ∀ entry ∈ session.written, entry.sequence ≤ session.db.lastSequence
  parts : ∀ id info txn, session.db.txn.txns id = some info → session.ledger id = some txn →
    session.Parts info.snapshotTs txn.begun

theorem dated_start {engine : Engine} {lastSequence : Nat} {written : List SstEntry}
    (next : lastSequence < engine.wal.nextSequence) (last : ∀ entry ∈ written, entry.sequence ≤ lastSequence) :
    (start engine lastSequence written).Dated :=
  ⟨next, last, nofun⟩

theorem Parts.request {snapshotTs begun : Nat} (parts : session.Parts snapshotTs begun) (dated : session.Dated) (event : Event) :
    (session.step (.request event)).Parts snapshotTs begun := by
  obtain ⟨-, numbers⟩ := session.db.engine.step_numbers event
  have next := dated.next
  have current := parts.current
  refine ⟨?_, ?_, ?_, ?_⟩
  · simp only [step, List.length_append]
    exact Nat.le_add_right_of_le parts.written
  · simp only [step, TxnEngine.request]
    cases added : session.db.engine.accepted event with
    | none => exact current
    | some entry => exact (current.trans next.le).trans (numbers entry added).1
  · simp only [step, List.take_append_of_le_length parts.written]
    exact parts.before
  · simp only [step, List.drop_append_of_le_length parts.written, List.mem_append, Option.mem_toList]
    rintro entry (old | added)
    · exact parts.since entry old
    · exact (current.trans_lt next).trans_le (numbers entry added).1

theorem Dated.request (dated : session.Dated) (event : Event) : (session.step (.request event)).Dated := by
  obtain ⟨later, numbers⟩ := session.db.engine.step_numbers event
  have next := dated.next
  refine ⟨?_, ?_, fun id info txn found known => ?_⟩
  · simp only [step, TxnEngine.request]
    cases added : session.db.engine.accepted event with
    | none => exact next.trans_le later
    | some entry => exact (numbers entry added).2
  · simp only [step, TxnEngine.request, List.mem_append, Option.mem_toList]
    rintro entry (old | added)
    · have last := dated.last entry old
      cases taken : session.db.engine.accepted event with
      | none => exact last
      | some new => exact (last.trans next.le).trans (numbers new taken).1
    · rw [Option.mem_def.mp added]
      exact le_rfl
  · exact (dated.parts id info txn found known).request dated event

theorem step_quiet (session : TxnSession) (quiet : call.quiet) :
    (session.step call).db.engine = session.db.engine ∧ (session.step call).db.lastSequence = session.db.lastSequence ∧
      (session.step call).written = session.written := by
  have stage : ∀ txnId key value, (session.db.stageIntent txnId key value).1.engine = session.db.engine ∧
      (session.db.stageIntent txnId key value).1.lastSequence = session.db.lastSequence := by
    intro txnId key value
    unfold TxnEngine.stageIntent
    split
    · exact ⟨rfl, rfl⟩
    · split <;> exact ⟨rfl, rfl⟩
  cases call with
  | begin => exact ⟨rfl, rfl, rfl⟩
  | put txnId key value =>
    simp only [step, TxnEngine.txnPut]
    split
    · exact ⟨rfl, rfl, trivial⟩
    · exact ⟨rfl, rfl, trivial⟩
    · exact ⟨rfl, rfl, trivial⟩
    · exact ⟨(stage _ _ _).1, (stage _ _ _).2, trivial⟩
  | delete txnId key =>
    simp only [step, TxnEngine.txnDelete]
    split
    · exact ⟨rfl, rfl, trivial⟩
    · exact ⟨rfl, rfl, trivial⟩
    · exact ⟨(stage _ _ _).1, (stage _ _ _).2, trivial⟩
  | prepareCommit => exact ⟨rfl, rfl, rfl⟩
  | takeCommit txnId => exact ⟨(takeCommit_engine _ _).1, (takeCommit_engine _ _).2, rfl⟩
  | commit | request => cases quiet
  | rollback txnId =>
    simp only [step, TxnEngine.txnRollback]
    split <;> exact ⟨rfl, rfl, trivial⟩

theorem Turns.origin {tables : TxnTables} {ledger : Ledger} (turned : Turns session call tables ledger) {id : UInt64}
    {info : TxnMeta} {txn : OpenTxn} (found : tables.txns id = some info) (known : ledger id = some txn) :
    (call = .begin ∧ info.snapshotTs = session.db.lastSequence ∧ txn.begun = session.written.length) ∨
      ∃ before old, session.db.txn.txns id = some before ∧ session.ledger id = some old ∧
        before.snapshotTs = info.snapshotTs ∧ old.begun = txn.begun := by
  cases turned with
  | began asked =>
    by_cases here : id = session.db.txn.nextTxnId
    · subst here
      cases (Function.update_self _ _ _).symm.trans found
      cases (Function.update_self _ _ _).symm.trans known
      exact Or.inl ⟨asked, rfl, rfl⟩
    · exact Or.inr ⟨info, txn, (Function.update_of_ne here _ _).symm.trans found,
        (Function.update_of_ne here _ _).symm.trans known, rfl, rfl⟩
  | staged txnId before mutation open_ free =>
    by_cases here : id = txnId
    · subst here
      cases (Function.update_self _ _ _).symm.trans found
      rw [Ledger.stage, Function.update_self] at known
      obtain ⟨old, listed, rfl⟩ := Option.map_eq_some_iff.mp known
      exact Or.inr ⟨before, old, open_, listed, rfl, rfl⟩
    · exact Or.inr ⟨info, txn, (Function.update_of_ne here _ _).symm.trans found,
        (Function.update_of_ne here _ _).symm.trans known, rfl, rfl⟩
  | ended txnId before open_ =>
    by_cases here : id = txnId
    · subst here
      cases (Function.update_self _ _ _).symm.trans known
    · exact Or.inr ⟨info, txn, (Function.update_of_ne here _ _).symm.trans found,
        (Function.update_of_ne here _ _).symm.trans known, rfl, rfl⟩
  | same => exact Or.inr ⟨info, txn, found, known, rfl, rfl⟩

theorem Dated.quiet (dated : session.Dated) (quiet : call.quiet) : (session.step call).Dated := by
  obtain ⟨engine, lastSequence, written⟩ := step_quiet session quiet
  have same : ∀ {snapshotTs begun}, session.Parts snapshotTs begun → (session.step call).Parts snapshotTs begun :=
    fun parts => ⟨written ▸ parts.written, lastSequence ▸ parts.current, written ▸ parts.before, written ▸ parts.since⟩
  refine ⟨by rw [engine, lastSequence]; exact dated.next, by rw [written, lastSequence]; exact dated.last,
    fun id info txn found known => same ?_⟩
  rcases (turns_step session call).origin found known with ⟨-, current, all⟩ | ⟨before, old, open_, listed, snapshot, begun⟩
  · rw [current, all]
    refine ⟨le_rfl, le_rfl, ?_, ?_⟩
    · rw [List.take_length]
      exact dated.last
    · rw [List.drop_length]
      exact nofun
  · rw [← snapshot, ← begun]
    exact dated.parts id before old open_ listed

end TxnSession
end KayaDB.Storage
