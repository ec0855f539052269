import KayaDB.Storage.FirstCommitter
import KayaDB.Storage.Gc

/-! Stable snapshots. An open transaction reads its own writes and otherwise the
versions that were there when it began, as long as no compaction drops one of
them or puts it behind an older one. -/

namespace KayaDB.Storage
open Raft (Bytes)
open Versions Runs

namespace Engine
variable {engine after : Engine} {event : Event} {added : Option SstEntry} {entry : SstEntry} {key : Bytes} {ts : Nat}

theorem mem_sources_moves (sound : engine.Sound) (moved : engine.Moves event after (some entry)) (other : SstEntry) :
    other ∈ after.sources.flatten ↔ other = entry ∨ other ∈ engine.sources.flatten := by
  generalize made : some entry = added at moved
  cases moved with
  | logged clock payload mode wal result appended =>
    have later := le_prepareHlcWriteSequence engine clock
    rw [← (WalWriter.append_numbers appended).1] at later
    rw [mem_sources_maybeAutoFlush, mem_sources_logged sound later, ← made, Option.some.injEq, eq_comm]
  | refused | flush | compact | pins | watermark => cases made

theorem subset_moves (moved : engine.Moves event after none) : after.sources.flatten ⊆ engine.sources.flatten := by
  intro other inside
  generalize nothing : (none : Option SstEntry) = added at moved
  cases moved with
  | refused | pins => exact inside
  | logged clock payload mode wal result appended =>
    rcases (mem_sources other).mp ((mem_sources_maybeAutoFlush other).mp inside) with here | there
    · rcases mem_of_mem_applyPayload here with new | old
      · cases nothing.trans new
      · exact (mem_sources other).mpr (Or.inl old)
    · exact (mem_sources other).mpr (Or.inr there)
  | flush => exact (mem_sources_flush other).mp inside
  | compact asked =>
    revert inside
    exact compact_elim id fun _ _ inside => compactInputs_subset inside
  | watermark ts asked =>
    unfold setGcWatermark at inside
    split at inside <;> exact inside

theorem get_moves (sound : engine.Sound) (moved : engine.Moves event after none)
    (safe : event = .compact → ∀ chosen ∈ engine.candidate, engine.KeepsReads chosen ts) :
    History.get after.sources.flatten key ts = History.get engine.sources.flatten key ts := by
  generalize nothing : (none : Option SstEntry) = added at moved
  cases moved with
  | refused | pins => rfl
  | logged clock payload mode wal result appended =>
    have later := le_prepareHlcWriteSequence engine clock
    rw [← (WalWriter.append_numbers appended).1] at later
    unfold History.get
    rw [newest_congr sound.unique fun other => ?_]
    rw [mem_sources_maybeAutoFlush, mem_sources_logged sound later, ← nothing]
    exact or_iff_right nofun
  | flush =>
    unfold History.get
    rw [newest_congr sound.unique mem_sources_flush]
  | compact asked =>
    exact compact_elim rfl fun chosen picked => (safe asked chosen picked).get sound.toTidy
  | watermark ts asked =>
    unfold setGcWatermark
    split <;> rfl

end Engine

namespace TxnSession
variable {session : TxnSession} {call : TxnCall}
  {event : Event}

/-- A transaction that is open, or that would begin now, reads at the timestamp. -/
def ReadsAt (session : TxnSession) (ts : Nat) : Prop :=
  ts = session.db.lastSequence ∨ ∃ id info, session.db.txn.txns id = some info ∧ info.snapshotTs = ts

/-- A compaction takes only versions newer than those of the same key it leaves,
and drops none that a transaction reads, open or beginning now, unless the value
found in its place is the same. -/
def Considerate (session : TxnSession) : TxnCall → Prop
  | .request .compact => ∀ chosen ∈ session.db.engine.candidate,
    session.db.engine.OrderKept chosen ∧ ∀ ts, session.ReadsAt ts → session.db.engine.KeepsReads chosen ts
  | _ => True

/-- The sources read like the versions written, now and at every snapshot. -/
structure Remembers (session : TxnSession) : Prop where
  dated : session.Dated
  sound : session.db.engine.Sound
  unique : Unique session.written
  held : session.db.engine.sources.flatten ⊆ session.written
  now : ∀ key, History.get session.db.engine.sources.flatten key session.db.lastSequence =
    History.get session.written key session.db.lastSequence
  snapshots : ∀ id info txn, session.db.txn.txns id = some info → session.ledger id = some txn → ∀ key,
    History.get session.db.engine.sources.flatten key info.snapshotTs =
      History.get (session.written.take txn.begun) key info.snapshotTs

section
variable (remembers : session.Remembers) (considerate : session.Considerate (.request event))
include remembers considerate

theorem Remembers.sound_step : (session.db.engine.step event).Sound := by
  refine remembers.sound.moves (session.db.engine.moves_step event) fun asked chosen picked => ?_
  subst asked
  exact (considerate chosen picked).1

theorem Remembers.unwritten (quiet : session.db.engine.accepted event = none) :
    (session.step (.request event)).Remembers := by
  have moved := session.db.engine.moves_step event
  rw [quiet] at moved
  have same : ∀ ts key, session.ReadsAt ts → History.get (session.db.engine.step event).sources.flatten key ts =
      History.get session.db.engine.sources.flatten key ts := by
    intro ts key reads
    refine Engine.get_moves remembers.sound moved fun asked chosen picked => ?_
    subst asked
    exact (considerate chosen picked).2 ts reads
  have written : (session.step (.request event)).written = session.written := by
    simp only [step, quiet, Option.toList_none, List.append_nil]
  have lastSequence : (session.step (.request event)).db.lastSequence = session.db.lastSequence := by
    simp only [step, TxnEngine.request, quiet, Option.elim_none]
  refine ⟨remembers.dated.request event, remembers.sound_step considerate, ?_, ?_, fun key => ?_,
    fun id info txn found known key => ?_⟩
  · rw [written]
    exact remembers.unique
  · rw [written]
    exact fun entry inside => remembers.held (Engine.subset_moves moved inside)
  · rw [written, lastSequence]
    exact (same _ key (Or.inl rfl)).trans (remembers.now key)
  · rw [written]
    exact (same _ key (Or.inr ⟨id, info, found, rfl⟩)).trans (remembers.snapshots id info txn found known key)

theorem Remembers.wrote {entry : SstEntry} (added : session.db.engine.accepted event = some entry) :
    (session.step (.request event)).Remembers := by
  have dated := remembers.dated
  have sound := remembers.sound_step considerate
  have moved := session.db.engine.moves_step event
  rw [added] at moved
  have members := Engine.mem_sources_moves remembers.sound moved
  have number : session.db.lastSequence < entry.sequence :=
    dated.next.trans_le ((session.db.engine.step_numbers event).2 entry added).1
  have newer : ∀ old ∈ session.written, old.sequence < entry.sequence := fun old inside =>
    (dated.last old inside).trans_lt number
  have written : (session.step (.request event)).written = session.written ++ [entry] := by
    simp only [step, added, Option.toList_some]
  have lastSequence : (session.step (.request event)).db.lastSequence = entry.sequence := by
    simp only [step, TxnEngine.request, added, Option.elim_some]
  have appended : ∀ other, other ∈ session.written ++ [entry] ↔ other = entry ∨ other ∈ session.written := by
    simp [or_comm]
  have unique : Unique (session.written ++ [entry]) := by
    intro first one second two keys numbers
    rcases (appended first).mp one with rfl | early <;> rcases (appended second).mp two with rfl | late
    · rfl
    · exact absurd numbers (newer second late).ne'
    · exact absurd numbers (newer first early).ne
    · exact remembers.unique first early second late keys numbers
  have found : ∀ key ts, newest (session.db.engine.step event).sources.flatten key ts =
      if Visible key ts entry then some entry else newest session.db.engine.sources.flatten key ts := fun key ts =>
    newest_added sound.unique members fun old inside => newer old (remembers.held inside)
  refine ⟨dated.request event, sound, ?_, ?_, fun key => ?_, fun id info txn opened known key => ?_⟩
  · rwa [written]
  · rw [written]
    intro other inside
    exact (appended other).mpr (((members other).mp inside).imp_right fun old => remembers.held old)
  · have quiet : ∀ {entries : List SstEntry}, entries ⊆ session.written →
        newest entries key entry.sequence = newest entries key session.db.lastSequence := fun inside =>
      newest_later number.le fun old held _ _ => dated.last old (inside held)
    rw [written, lastSequence, History.get, History.get]
    rw [show (session.step (.request event)).db.engine = session.db.engine.step event from rfl, found,
      newest_added unique appended newer]
    split
    · rfl
    · rw [quiet remembers.held, quiet (List.Subset.refl _)]
      exact remembers.now key
  · have parts := dated.parts id info txn opened known
    have unseen : ¬ Visible key info.snapshotTs entry := fun seen =>
      absurd (seen.2.trans parts.current) (Nat.not_le.mpr number)
    rw [written, List.take_append_of_le_length parts.written, History.get]
    rw [show (session.step (.request event)).db.engine = session.db.engine.step event from rfl, found, if_neg unseen]
    exact remembers.snapshots id info txn opened known key

theorem Remembers.request : (session.step (.request event)).Remembers := by
  cases added : session.db.engine.accepted event with
  | none => exact remembers.unwritten considerate added
  | some entry => exact remembers.wrote considerate added

end

theorem Remembers.quiet (remembers : session.Remembers) (quiet : call.quiet) : (session.step call).Remembers := by
  obtain ⟨engine, lastSequence, written⟩ := step_quiet session quiet
  refine ⟨remembers.dated.quiet quiet, by rw [engine]; exact remembers.sound,
    by rw [written]; exact remembers.unique, by rw [engine, written]; exact remembers.held,
    by rw [engine, lastSequence, written]; exact remembers.now, fun id info txn found known key => ?_⟩
  rw [engine, written]
  rcases (turns_step session call).origin found known with ⟨-, current, all⟩ | ⟨before, old, open_, listed, snapshot, begun⟩
  · rw [current, all, List.take_length]
    exact remembers.now key
  · rw [← snapshot, ← begun]
    exact remembers.snapshots id before old open_ listed key

theorem Remembers.step (remembers : session.Remembers) (considerate : session.Considerate call) :
    (session.step call).Remembers := by
  cases call with
  | request event => exact remembers.request considerate
  | commit txnId clocks =>
    refine keeps_commit (fun mutation clock remembers => remembers.request ?_) (remembers.quiet rfl)
    unfold Engine.mutationEvent
    split <;> exact trivial
  | begin | put | delete | prepareCommit | takeCommit | rollback => exact remembers.quiet rfl

theorem remembers_start {engine : Engine} {lastSequence : Nat} (sound : engine.Sound)
    (next : engine.wal.nextSequence = lastSequence + 1) :
    (start engine lastSequence engine.sources.flatten).Remembers := by
  refine ⟨dated_start (next ▸ Nat.lt_succ_self _) fun entry inside => ?_, sound, sound.unique, List.Subset.refl _,
    fun _ => rfl, nofun⟩
  have below := sound.below entry inside
  omega

/-- Every open transaction reads its own last write of a key, and otherwise the
newest version there was when it began. -/
def StableSnapshots (session : TxnSession) : Prop :=
  ∀ txnId txn, session.ledger txnId = some txn → ∀ key, session.db.txnGet txnId key =
    .ok ((txn.last key).getD (History.get (session.written.take txn.begun) key ReadTimestamp.latest.asNat))

theorem Remembers.stable {count : Nat} (remembers : session.Remembers) (exact_ : Exact count session)
    (room : session.db.engine.wal.nextSequence ≤ 2 ^ 64) : session.StableSnapshots := by
  intro txnId txn known key
  have shown := exact_.kept txnId
  rw [known] at shown
  obtain ⟨⟨info, found, keys⟩, intents⟩ := shown
  have parts := remembers.dated.parts txnId info txn found known
  have low : info.snapshotTs < 2 ^ 64 := (parts.current.trans_lt remembers.dated.next).trans_le room
  unfold TxnEngine.txnGet
  rw [found]
  dsimp only
  cases staged : txn.last key with
  | some value =>
    have own : (session.db.txn.intents key).filter (fun intent => intent.txnId = txnId) = some ⟨txnId, value⟩ := by
      simp [intents key value staged, Option.filter]
    rw [own]
    rfl
  | none =>
    have nothing : (session.db.txn.intents key).filter (fun intent => intent.txnId = txnId) = none := by
      rw [Option.filter_eq_none_iff]
      intro intent held own
      obtain ⟨other, also, inside⟩ := exact_.only key intent held
      rw [of_decide_eq_true own] at also
      cases also.symm.trans found
      exact (keys key).mp inside staged
    have number : (ReadTimestamp.at (.ofNat info.snapshotTs)).asNat = info.snapshotTs := UInt64.toNat_ofNat_of_lt' low
    have later : History.get (session.written.take txn.begun) key ReadTimestamp.latest.asNat =
        History.get (session.written.take txn.begun) key info.snapshotTs := by
      have most : info.snapshotTs ≤ ReadTimestamp.latest.asNat := Nat.le_sub_one_of_lt low
      rw [History.get, History.get, newest_later most fun entry inside _ _ => parts.before entry inside]
    have read := Engine.get_of_ordered remembers.sound.unique (fun _ => Iff.rfl) remembers.sound.ordered key
      (.at (.ofNat info.snapshotTs))
    rw [nothing, Option.getD_none, later, ← remembers.snapshots txnId info txn found known key]
    dsimp only
    rw [read, number]

/-- In every run whose compactions keep the order of versions and drop none that a
transaction reads, open transactions have stable snapshots. -/
theorem snapshots_stable {engine : Engine} {lastSequence : Nat} {calls : List TxnCall} (sound : engine.Sound)
    (next : engine.wal.nextSequence = lastSequence + 1)
    (permitted : Permits step Considerate (start engine lastSequence engine.sources.flatten) calls)
    (few : calls.count .begin < 2 ^ 64 - 1) :
    let session := (start engine lastSequence engine.sources.flatten).run calls
    session.db.engine.wal.nextSequence ≤ 2 ^ 64 → session.StableSnapshots := by
  intro session room
  have remembers : session.Remembers :=
    permitted.reaches.invariant Remembers (remembers_start sound next) fun kept allowed => kept.step allowed
  have exact_ : Exact (0 + calls.count .begin) session := (exact_start engine lastSequence _).run calls (by omega)
  exact remembers.stable exact_ room

/-- Old versions are dropped while a transaction is open, but none it reads. -/
def trimmedMeanwhile : List TxnCall :=
  [.request (putByte 1 6), .request (putByte 1 7), .begin, .put 1 [2] [5], .request (.setGcWatermark 2),
    .request (putByte 1 8), .request .flush, .request (putByte 2 8), .request .flush]

def trimmed : TxnSession := (start (.fresh mergeConfig) 0 []).run trimmedMeanwhile

theorem considerate_trimmed : trimmed.Considerate (.request .compact) := by
  have exact_ : Exact (0 + trimmedMeanwhile.count .begin) trimmed := (exact_start _ _ _).run _ (by decide)
  have next : trimmed.db.txn.nextTxnId = 2 := by decide +kernel
  have reader : trimmed.db.txn.txns 1 = some ⟨2, .ofList [[2]]⟩ := by decide +kernel
  have nobody : trimmed.db.txn.txns 0 = none := by decide +kernel
  have last : trimmed.db.lastSequence = 4 := by decide +kernel
  have picked : trimmed.db.engine.candidate = some ⟨[1, 2], 0⟩ := by decide +kernel
  have order : trimmed.db.engine.OrderKept ⟨[1, 2], 0⟩ := by decide +kernel
  have hidden : ∀ entry ∈ trimmed.db.engine.inputEntries [1, 2],
      Obsolete (trimmed.db.engine.inputEntries [1, 2]) trimmed.db.engine.gcWatermark.toNat entry →
      ∃ other ∈ trimmed.db.engine.sources.flatten,
        other.key = entry.key ∧ entry.sequence < other.sequence ∧ other.sequence ≤ 2 := by
    decide +kernel
  generalize trimmed = session at *
  intro chosen taken
  cases picked.symm.trans taken
  refine ⟨order, fun ts reads entry inside obsolete _ => ?_⟩
  have late : 2 ≤ ts := by
    rcases reads with rfl | ⟨id, info, found, rfl⟩
    · rw [last]
      decide
    · have low := exact_.below id (by rw [found]; nofun)
      rw [next] at low
      have few : id = 0 ∨ id = 1 := by
        rcases Nat.lt_succ_iff_lt_or_eq.mp low with zero | one
        · exact Or.inl (UInt64.toNat_inj.mp (Nat.lt_one_iff.mp zero))
        · exact Or.inr (UInt64.toNat_inj.mp one)
      rcases few with rfl | rfl
      · cases nobody.symm.trans found
      · cases reader.symm.trans found
        exact le_rfl
  obtain ⟨other, held, same, newer, low⟩ := hidden entry inside obsolete
  exact Or.inl ⟨other, held, same, newer, low.trans late⟩

theorem snapshots_stable_in_trimmedMeanwhile :
    let session := (start (.fresh mergeConfig) 0 []).run (trimmedMeanwhile ++ [.request .compact])
    session.ledger 1 = some ⟨2, [([2], some [5])]⟩ ∧ session.StableSnapshots := by
  have permitted : Permits step Considerate (start (.fresh mergeConfig) 0 (Engine.fresh mergeConfig).sources.flatten)
      (trimmedMeanwhile ++ [.request .compact]) := by
    refine ⟨trivial, trivial, trivial, trivial, trivial, trivial, trivial, trivial, trivial, ?_, trivial⟩
    exact considerate_trimmed
  refine ⟨by decide +kernel, ?_⟩
  exact snapshots_stable (Engine.Sound.fresh mergeConfig) rfl permitted (by decide) (by decide +kernel)

/-- A key is overwritten and its old version dropped while a transaction is open. -/
def droppedMeanwhile : List TxnCall :=
  [.request (putByte 1 7), .begin, .request (putByte 1 8), .request .flush, .request (putByte 2 8), .request .flush,
    .request (.setGcWatermark 3), .request .compact]

/-- The transaction had begun after the first write and no longer finds it. -/
theorem snapshot_lost_in_droppedMeanwhile :
    let session := (start (.fresh mergeConfig) 0 []).run droppedMeanwhile
    session.db.txnGet 1 [1] = .ok none ∧ session.ledger 1 = some ⟨1, []⟩ ∧
      History.get (session.written.take 1) [1] ReadTimestamp.latest.asNat = some [7] ∧ ¬ session.StableSnapshots := by
  intro session
  have read : session.db.txnGet 1 [1] = .ok none := by decide +kernel
  have known : session.ledger 1 = some ⟨1, []⟩ := by decide +kernel
  have there : History.get (session.written.take 1) [1] ReadTimestamp.latest.asNat = some [7] := by decide +kernel
  refine ⟨read, known, there, fun stable => ?_⟩
  have expected := stable 1 _ known [1]
  rw [read, OpenTxn.last_new, Option.getD_none, there] at expected
  cases expected

end TxnSession
end KayaDB.Storage
