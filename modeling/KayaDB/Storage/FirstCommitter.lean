import KayaDB.Storage.Recovery
import KayaDB.Storage.TxnSnapshots

/-! First committer wins. As long as every compaction takes all tables, a read
finds no version older than one written since the engine was opened, so that a
commit sees every write to its keys since the transaction began. -/

namespace KayaDB.Storage
open Raft (Bytes)
open Versions Runs

def Event.pins : Event → Bool
  | .createSnapshot => true
  | _ => false

def Event.ordinary (event : Event) : Bool := !event.pins && !event.setsWatermark

def TxnCall.ordinary : TxnCall → Bool
  | .request event => event.ordinary
  | _ => true

namespace Engine
variable {engine : Engine} {event : Event} {key : Bytes} {ts : Nat} {entry found : SstEntry}
  {chosen : CompactionCandidate}

theorem latestCommittedSeq_eq (engine : Engine) (key : Bytes) :
    engine.latestCommittedSeq key = (lookup engine.sources key ReadTimestamp.latest.asNat).map Entry.sequence := by
  unfold latestCommittedSeq sources
  rw [Memtable.getAt_eq_newest, lookup_tables]
  simp only [lookup, List.findSome?_cons]
  cases newest engine.memtable.entries key ReadTimestamp.latest.asNat <;> rfl

/-- The memtable holds only numbers that have been given out. -/
def Fresh (engine : Engine) : Prop := ∀ old ∈ engine.memtable.entries, old.sequence < engine.wal.nextSequence

theorem lookup_accepted (fresh : engine.Fresh) (accepted : engine.accepted event = some entry) (key : Bytes) (ts : Nat) :
    lookup (engine.step event).sources key ts =
      if Visible key ts entry then some entry else lookup engine.sources key ts := by
  obtain ⟨clock, payload, mode, wal, result, appended, stepped, made⟩ := logged_of_accepted accepted
  have newer : ∀ old ∈ engine.memtable.entries, old.sequence < result.sequence := fun old inside => by
    rw [(WalWriter.append_numbers appended).1]
    exact (fresh old inside).trans_le (le_prepareHlcWriteSequence engine clock)
  have top : newest (applyPayload engine.memtable payload result.sequence).entries key ts =
      if Visible key ts entry then some entry else newest engine.memtable.entries key ts := by
    apply newest_added (unique_of_sorted (Memtable.sorted _))
    · intro other
      rw [mem_applyPayload newer, made, Option.some.injEq, eq_comm]
    · intro old inside
      exact (newer old inside).trans_eq (entry_sequence made).symm
  rw [stepped, lookup_maybeAutoFlush]
  unfold sources lookup logged
  rw [List.findSome?_cons, List.findSome?_cons, top]
  by_cases seen : Visible key ts entry
  · rw [if_pos seen, if_pos seen]
  · rw [if_neg seen, if_neg seen]

/-- The engine merges all its tables when it compacts and keeps all versions. -/
structure Merging (engine : Engine) : Prop where
  policy : engine.config.compaction = .l0Merge
  unpinned : ∀ id, engine.refcounts id = 0
  low : engine.gcWatermark = 0
  listed : ∀ table ∈ engine.liveSstables, table.metadata ∈ engine.liveTables

section
variable (merging : engine.Merging) (picked : engine.candidate = some chosen)
include merging picked

theorem Merging.inputs : chosen.inputTableIds = engine.liveTables.map TableMetadata.tableId := by
  have free : ∀ table : TableMetadata, (!engine.pinned table.tableId) = true := by
    simp [pinned, merging.unpinned]
  simp only [candidate, merging.policy, CompactionPolicy.pickCompaction, L0MergePolicy.pickCompaction, free,
    List.filter_true] at picked
  split at picked
  · cases picked
  · cases picked
    rfl

theorem Merging.left : engine.leftTables chosen.inputTableIds = [] := by
  rw [leftTables, List.filter_eq_nil_iff]
  intro table inside
  rw [merging.inputs picked]
  simpa using ⟨table.metadata, merging.listed table inside, rfl⟩

theorem Merging.compact_live : (engine.compactInputs chosen).liveSstables = (engine.outputTable chosen).toList := by
  unfold compactInputs
  rw [merging.left picked]
  cases engine.outputTable chosen <;> rfl

end

theorem Merging.lookup_compact (merging : engine.Merging) (before : lookup engine.sources key ts = some found) :
    ∃ also, lookup engine.compact.sources key ts = some also ∧ found.sequence ≤ also.sequence := by
  refine compact_elim ⟨found, before, le_rfl⟩ fun chosen picked => ?_
  unfold sources lookup at before ⊢
  rw [compactInputs_memtable, merging.compact_live picked]
  rw [List.findSome?_cons] at before ⊢
  cases top : newest engine.memtable.entries key ts with
  | some entry =>
    rw [top] at before
    exact ⟨found, before, le_rfl⟩
  | none =>
    rw [top] at before
    dsimp only at before ⊢
    obtain ⟨source, inside, answered⟩ := List.exists_of_findSome?_eq_some before
    obtain ⟨table, live, rfl⟩ := List.mem_map.mp inside
    have top := isNewest_of_newest answered
    have input : found ∈ engine.inputEntries chosen.inputTableIds := by
      rw [mem_inputEntries, merging.inputs picked]
      exact ⟨table, live, List.mem_map_of_mem (merging.listed table live), top.mem⟩
    obtain ⟨kept, written, keys, numbers⟩ := outEntries_covers input
    have low : engine.gcWatermark.toNat = 0 := by rw [merging.low]; rfl
    rw [← low] at written
    obtain ⟨output, made, held⟩ := (mem_outputTable kept).mpr written
    rw [Option.mem_def.mp made]
    have seen : Visible key ts kept := ⟨keys.trans top.visible.1, numbers.trans_le top.visible.2⟩
    cases again : newest output.entries key ts with
    | none => exact absurd seen (newest_eq_none.mp again kept held)
    | some also =>
      refine ⟨also, by simp [again], ?_⟩
      exact numbers ▸ (isNewest_of_newest again).greatest kept held seen

theorem lookup_unaccepted (quiet : engine.accepted event = none) (other : event ≠ .compact) (key : Bytes) (ts : Nat) :
    lookup (engine.step event).sources key ts = lookup engine.sources key ts := by
  have moved := moves_step engine event
  rw [quiet] at moved
  generalize nothing : (none : Option SstEntry) = added at moved
  generalize engine.step event = after at moved ⊢
  cases moved with
  | refused | pins => rfl
  | logged clock payload mode wal result appended =>
    rw [lookup_maybeAutoFlush]
    unfold logged sources
    rw [applyPayload_eq, ← nothing]
    rfl
  | flush => exact lookup_flush engine key ts
  | compact asked => exact absurd asked other
  | watermark ts asked =>
    unfold setGcWatermark
    split <;> rfl

theorem Merging.lookup_other (merging : engine.Merging) (quiet : engine.accepted event = none)
    (before : lookup engine.sources key ts = some found) :
    ∃ also, lookup (engine.step event).sources key ts = some also ∧ found.sequence ≤ also.sequence := by
  by_cases asked : event = .compact
  · subst asked
    exact merging.lookup_compact before
  · exact ⟨found, (lookup_unaccepted quiet asked key ts).trans before, le_rfl⟩

theorem write_refcounts (engine : Engine) (payload : WalPayload) (durability : Option DurabilityMode)
    (clock : Option UInt64) : (engine.write payload durability clock).1.refcounts = engine.refcounts := by
  unfold write
  dsimp only
  split
  · rfl
  · exact (maintained_maybeAutoFlush _).refcounts

theorem put_refcounts (engine : Engine) (key value : Bytes) (durability : Option DurabilityMode) (clock : Option UInt64) :
    (engine.put key value durability clock).1.refcounts = engine.refcounts := by
  rcases put_cases engine key value durability clock with ⟨message, same⟩ | same
  · rw [same]
  · rw [same, write_refcounts]

theorem delete_refcounts (engine : Engine) (key : Bytes) (durability : Option DurabilityMode) (clock : Option UInt64) :
    (engine.delete key durability clock).1.refcounts = engine.refcounts := by
  rcases delete_cases engine key durability clock with ⟨message, same⟩ | same
  · rw [same]
  · rw [same, write_refcounts]

theorem unpinned_step (unpinned : ∀ id, engine.refcounts id = 0) (ordinary : event.ordinary) (id : Nat) :
    (engine.step event).refcounts id = 0 := by
  cases event with
  | put key value durability clock => exact (congrFun (put_refcounts engine key value durability clock) id).trans (unpinned id)
  | delete key durability clock => exact (congrFun (delete_refcounts engine key durability clock) id).trans (unpinned id)
  | flush => exact (congrFun (maintained_flush engine).refcounts id).trans (unpinned id)
  | compact => exact (congrFun (maintained_compact engine).refcounts id).trans (unpinned id)
  | createSnapshot => cases ordinary
  | releaseSnapshot tables =>
    simp only [step, releaseTables, unpinned, Nat.zero_sub]
  | setGcWatermark => cases ordinary

theorem flush_listed (listed : ∀ table ∈ engine.liveSstables, table.metadata ∈ engine.liveTables) :
    ∀ table ∈ engine.flush.liveSstables, table.metadata ∈ engine.flush.liveTables := by
  unfold flush
  split
  · exact listed
  · intro table inside
    apply List.mem_append.mpr
    rcases List.mem_cons.mp inside with rfl | old
    · exact Or.inr List.mem_cons_self
    · exact Or.inl (listed table old)

theorem Merging.step (merging : engine.Merging) (ordinary : event.ordinary) : (engine.step event).Merging := by
  have unpinned := unpinned_step merging.unpinned ordinary
  have moved := moves_step engine event
  generalize engine.step event = after at moved unpinned ⊢
  generalize engine.accepted event = added at moved
  cases moved with
  | refused clock => exact ⟨merging.policy, unpinned, merging.low, merging.listed⟩
  | pins => exact ⟨merging.policy, unpinned, merging.low, merging.listed⟩
  | logged clock payload mode wal result appended =>
    have same := maintained_maybeAutoFlush (engine.logged wal payload result.sequence)
    refine ⟨(congrArg _ same.config).trans merging.policy, unpinned, same.gcWatermark.trans merging.low, ?_⟩
    exact maybeAutoFlush_elim (flush_listed merging.listed) merging.listed
  | flush =>
    have same := maintained_flush engine
    exact ⟨(congrArg _ same.config).trans merging.policy, unpinned, same.gcWatermark.trans merging.low,
      flush_listed merging.listed⟩
  | compact asked =>
    have same := maintained_compact engine
    refine ⟨(congrArg _ same.config).trans merging.policy, unpinned, same.gcWatermark.trans merging.low, ?_⟩
    refine compact_elim merging.listed fun chosen picked table inside => ?_
    rw [merging.compact_live picked] at inside
    unfold compactInputs
    rw [Option.mem_toList.mp inside]
    exact List.mem_append_right _ List.mem_cons_self
  | watermark ts asked => simp [asked, Event.ordinary, Event.setsWatermark] at ordinary

theorem Fresh.flush (fresh : engine.Fresh) : engine.flush.Fresh := by
  unfold Engine.flush
  split
  · exact fresh
  · exact fun old inside => absurd inside List.not_mem_nil

theorem Fresh.step (fresh : engine.Fresh) (event : Event) : (engine.step event).Fresh := by
  have moved := moves_step engine event
  generalize engine.step event = after at moved ⊢
  generalize engine.accepted event = added at moved
  cases moved with
  | refused clock => exact fun old inside => (fresh old inside).trans_le (le_prepareHlcWriteSequence engine clock)
  | logged clock payload mode wal result appended =>
    obtain ⟨number, next⟩ := WalWriter.append_numbers appended
    have taken : (engine.logged wal payload result.sequence).Fresh := by
      intro old inside
      have later := le_prepareHlcWriteSequence engine clock
      show old.sequence < wal.nextSequence
      rcases mem_of_mem_applyPayload inside with new | early
      · rw [entry_sequence new]
        omega
      · have := fresh old early
        omega
    exact maybeAutoFlush_elim taken.flush taken
  | flush => exact fresh.flush
  | compact asked =>
    refine compact_elim fresh fun chosen _ old inside => ?_
    rw [compactInputs_memtable] at inside
    rw [(maintained_compactInputs engine chosen).wal]
    exact fresh old inside
  | pins => exact fresh
  | watermark ts asked =>
    unfold setGcWatermark
    split <;> exact fresh

theorem fresh_openFrom (config : EngineConfig) {segments : List Segment} (disk : Disk)
    (increasing : (recoverWal segments).1.Pairwise fun first second => first.sequence < second.sequence) :
    (openFrom config segments disk).Fresh := by
  intro old inside
  rcases mem_replayed inside with new | ⟨record, held, made⟩
  · exact absurd new List.not_mem_nil
  · have held : record ∈ (recoverWal segments).1 := held
    rw [entry_sequence made]
    show record.sequence < (recoverWal segments).1.getLast?.elim 1 fun record => record.sequence + 1
    generalize (recoverWal segments).1 = records at held increasing
    rcases List.eq_nil_or_concat records with rfl | ⟨front, last, rfl⟩
    · exact absurd held List.not_mem_nil
    · rw [List.concat_eq_append] at held increasing ⊢
      rw [List.getLast?_concat, Option.elim_some]
      rcases List.mem_append.mp held with early | here
      · exact Nat.lt_succ_of_lt ((List.pairwise_append.mp increasing).2.2 record early last List.mem_cons_self)
      · rw [List.mem_singleton.mp here]
        exact Nat.lt_succ_self _

theorem merging_openFrom {config : EngineConfig} (segments : List Segment) (disk : Disk)
    (policy : config.compaction = .l0Merge) : (openFrom config segments disk).Merging := by
  refine ⟨policy, fun _ => rfl, rfl, fun table inside => ?_⟩
  have loaded : table ∈ newestFirst (disk.loadManifest.filterMap disk.readTable) := inside
  obtain ⟨known, listed, read⟩ := List.mem_filterMap.mp ((mem_newestFirst _ _).mp loaded)
  obtain ⟨file, -, rfl⟩ := Option.map_eq_some_iff.mp read
  exact listed

theorem nextSequence_openFrom (config : EngineConfig) (segments : List Segment) (disk : Disk) :
    0 < (openFrom config segments disk).wal.nextSequence := by
  show 0 < (recoverWal segments).1.getLast?.elim 1 fun record => record.sequence + 1
  cases (recoverWal segments).1.getLast? with
  | none => exact Nat.one_pos
  | some record => exact Nat.succ_pos _

end Engine

namespace TxnSession
variable {session : TxnSession} {call : TxnCall}
  {event : Event}

/-- Every version written is still found, or a newer one of its key. -/
structure Watching (session : TxnSession) : Prop where
  dated : session.Dated
  kept : session.Kept
  merging : session.db.engine.Merging
  fresh : session.db.engine.Fresh
  seen : ∀ entry ∈ session.written, entry.sequence ≤ ReadTimestamp.latest.asNat →
    ∃ found, lookup session.db.engine.sources entry.key ReadTimestamp.latest.asNat = some found ∧
      entry.sequence ≤ found.sequence

def Seen (session : TxnSession) : Prop := ∀ entry ∈ session.written, entry.sequence ≤ ReadTimestamp.latest.asNat →
  ∃ found, lookup session.db.engine.sources entry.key ReadTimestamp.latest.asNat = some found ∧
    entry.sequence ≤ found.sequence

theorem Dated.seen_added (dated : session.Dated) (fresh : session.db.engine.Fresh) {new : SstEntry}
    (added : session.db.engine.accepted event = some new) (seen : session.Seen) {entry : SstEntry} (inside : entry ∈ session.written ∨ some new = some entry)
    (low : entry.sequence ≤ ReadTimestamp.latest.asNat) :
    ∃ found, lookup (session.db.engine.step event).sources entry.key ReadTimestamp.latest.asNat = some found ∧
      entry.sequence ≤ found.sequence := by
  rw [Engine.lookup_accepted fresh added]
  have older : entry.sequence ≤ new.sequence := by
    rcases inside with old | here
    · have next := ((session.db.engine.step_numbers event).2 new added).1
      exact ((dated.last entry old).trans dated.next.le).trans next
    · rw [Option.some.inj here]
  by_cases same : Visible entry.key ReadTimestamp.latest.asNat new
  · exact ⟨new, if_pos same, older⟩
  · rcases inside with old | here
    · rw [if_neg same]
      exact seen entry old low
    · cases here
      exact absurd ⟨rfl, low⟩ same

section
variable (watching : session.Watching)
include watching

theorem Watching.request (ordinary : event.ordinary) : (session.step (.request event)).Watching := by
  refine ⟨watching.dated.request event, watching.kept.step _, watching.merging.step ordinary, watching.fresh.step event, ?_⟩
  simp only [step, TxnEngine.request, List.mem_append, Option.mem_toList]
  cases added : session.db.engine.accepted event with
  | none =>
    intro entry inside low
    rcases inside with old | new
    · obtain ⟨found, before, newer⟩ := watching.seen entry old low
      obtain ⟨also, after, later⟩ := watching.merging.lookup_other added before
      exact ⟨also, after, newer.trans later⟩
    · cases new
  | some new => exact fun entry inside low => watching.dated.seen_added watching.fresh added watching.seen inside low

theorem Watching.quiet (quiet : call.quiet) : (session.step call).Watching := by
  obtain ⟨engine, -, written⟩ := step_quiet session quiet
  refine ⟨watching.dated.quiet quiet, watching.kept.step call, ?_, ?_, ?_⟩
  · rw [engine]
    exact watching.merging
  · rw [engine]
    exact watching.fresh
  · rw [engine, written]
    exact watching.seen

theorem Watching.step (ordinary : call.ordinary) : (session.step call).Watching := by
  cases call with
  | request event => exact watching.request ordinary
  | commit txnId clocks =>
    refine keeps_commit (fun mutation clock watching => watching.request ?_) (watching.quiet rfl)
    cases value : mutation.2 <;> simp [Engine.mutationEvent, value, Event.ordinary, Event.pins, Event.setsWatermark]
  | begin | put | delete | prepareCommit | takeCommit | rollback => exact watching.quiet rfl

theorem Watching.run {calls : List TxnCall} (ordinary : ∀ call ∈ calls, call.ordinary) :
    (session.run calls).Watching := by
  induction calls generalizing session with
  | nil => exact watching
  | cons call calls ih =>
    refine ih (watching.step (ordinary call List.mem_cons_self)) fun call inside => ?_
    exact ordinary call (List.mem_cons_of_mem _ inside)

end

theorem watching_start {config : EngineConfig} {segments : List Segment} (disk : Disk)
    (policy : config.compaction = .l0Merge)
    (increasing : (recoverWal segments).1.Pairwise fun first second => first.sequence < second.sequence) :
    (start (.openFrom config segments disk) ((Engine.openFrom config segments disk).wal.nextSequence - 1) []).Watching := by
  refine ⟨dated_start ?_ nofun, kept_start _ _ _, Engine.merging_openFrom segments disk policy,
    Engine.fresh_openFrom config disk increasing, nofun⟩
  exact Nat.sub_lt (Engine.nextSequence_openFrom config segments disk) Nat.one_pos

theorem all_checked {α β : Type} {check : α → Except TxnError Unit} {result answer : β} {keys : List α}
    (passed : (do for key in keys do check key
                  return result : Except TxnError β) = .ok answer) :
    (∀ key ∈ keys, check key = .ok ()) ∧ answer = result := by
  induction keys with
  | nil => exact ⟨fun _ inside => absurd inside List.not_mem_nil, by cases passed; rfl⟩
  | cons key keys ih =>
    cases checked : check key with
    | error reason => simp [checked, bind, Except.bind] at passed
    | ok done =>
      have rest := ih (by simpa [checked, bind, Except.bind, pure, Except.pure] using passed)
      exact ⟨List.forall_mem_cons.mpr ⟨checked, rest.1⟩, rest.2⟩

/-- What a transaction that passes the check is about to write: for each of its
keys the value staged last, and no version has come to them. -/
structure Prepared (session : TxnSession) (txnId : UInt64) (mutations : List TxnMutation) (txn : OpenTxn) : Prop where
  known : session.ledger txnId = some txn
  distinct : (mutations.map Prod.fst).Nodup
  last : ∀ key value, (key, value) ∈ mutations ↔ txn.last key = some value
  free : ∀ key, txn.last key ≠ none → ∃ info, session.db.txn.txns txnId = some info ∧
    session.db.Free txnId key info.snapshotTs

theorem key_of_intent {intents : Bytes → Option Intent} {txnId : UInt64} {key : Bytes} {mutation : TxnMutation}
    (made : (match intents key with
      | some intent => if intent.txnId = txnId then some (key, intent.value) else none
      | none => none) = some mutation) : mutation.1 = key := by
  split at made
  · split at made
    · cases made
      rfl
    · cases made
  · cases made

theorem Kept.prepared (kept : session.Kept) {txnId : UInt64} {mutations : List TxnMutation}
    (passed : session.db.txnPrepareCommit txnId = .ok mutations) : ∃ txn, session.Prepared txnId mutations txn := by
  unfold TxnEngine.txnPrepareCommit at passed
  split at passed
  · cases passed
  next info found =>
    obtain ⟨checked, rfl⟩ := all_checked passed
    obtain ⟨txn, known, keys⟩ := kept.open found
    have shown := kept txnId
    rw [known] at shown
    refine ⟨txn, known, ?_, fun key value => ?_, fun key staged => ?_⟩
    · rw [List.map_filterMap]
      refine info.keys.nodup.filterMap fun first second key one two => ?_
      obtain ⟨mutation, made, rfl⟩ := Option.map_eq_some_iff.mp one
      obtain ⟨other, also, same⟩ := Option.map_eq_some_iff.mp two
      exact ((key_of_intent made).symm.trans same.symm).trans (key_of_intent also)
    · rw [List.mem_filterMap]
      constructor
      · rintro ⟨held, inside, made⟩
        cases key_of_intent made
        obtain ⟨staged, last⟩ := Option.ne_none_iff_exists'.mp ((keys key).mp inside)
        have here := shown.2 key staged last
        simp only [here, if_true, Option.some.injEq, Prod.mk.injEq, true_and] at made
        rw [last, made]
      · intro last
        refine ⟨key, (keys key).mpr (by rw [last]; nofun), ?_⟩
        simp only [shown.2 key value last, if_true]
    · exact ⟨info, found, TxnEngine.free_of_check (checked key ((keys key).mpr staged))⟩

end TxnSession

namespace TxnEngine
variable (mutations : List TxnMutation)

theorem nextSequence_applyMutations : ∀ (db : TxnEngine) (clocks : List (Option UInt64)),
    db.engine.wal.nextSequence ≤ (db.applyMutations mutations clocks).1.engine.wal.nextSequence := by
  induction mutations with
  | nil => exact fun _ _ => le_rfl
  | cons mutation mutations ih =>
    intro db clocks
    have one := (db.engine.step_numbers (Engine.mutationEvent mutation (clocks.headD none))).1
    rcases db.engine.applyMutation_cases mutation (clocks.headD none) with ⟨message, made, refused⟩ | ⟨result, made, taken⟩
    · simp only [applyMutations, made]
      exact one
    · have rest := ih ⟨db.engine.step (Engine.mutationEvent mutation (clocks.headD none)), result.sequence, db.txn⟩ clocks.tail
      simp only [applyMutations, made]
      exact one.trans rest

theorem get_applyMutations : ∀ {db : TxnEngine} {clocks : List (Option UInt64)} {last : Nat},
    db.engine.Fresh → (mutations.map Prod.fst).Nodup → (db.applyMutations mutations clocks).2 = .ok last →
    (db.applyMutations mutations clocks).1.engine.wal.nextSequence ≤ 2 ^ 64 → ∀ key,
    (∀ value, (key, value) ∈ mutations →
      (db.applyMutations mutations clocks).1.engine.getInner key .latest = value) ∧
    (key ∉ mutations.map Prod.fst →
      (db.applyMutations mutations clocks).1.engine.getInner key .latest = db.engine.getInner key .latest) := by
  induction mutations with
  | nil => exact fun _ _ _ _ key => ⟨nofun, fun _ => rfl⟩
  | cons mutation mutations ih =>
    intro db clocks last fresh distinct done room key
    obtain ⟨alone, distinct⟩ := List.nodup_cons.mp distinct
    rcases db.engine.applyMutation_cases mutation (clocks.headD none) with ⟨message, made, refused⟩ | ⟨result, made, taken⟩
    · simp only [applyMutations, made] at done
      cases done
    · have later := nextSequence_applyMutations mutations
        ⟨db.engine.step (Engine.mutationEvent mutation (clocks.headD none)), result.sequence, db.txn⟩ clocks.tail
      simp only [applyMutations, made] at done room later ⊢
      have number := ((db.engine.step_numbers _).2 _ taken).2
      have seen : result.sequence ≤ ReadTimestamp.latest.asNat := by
        have := number.trans_le (later.trans room)
        exact Nat.le_sub_one_of_lt this
      have top := Engine.lookup_accepted fresh taken key ReadTimestamp.latest.asNat
      obtain ⟨written, others⟩ := @ih
        ⟨db.engine.step (Engine.mutationEvent mutation (clocks.headD none)), result.sequence, db.txn⟩ _ _
        (fresh.step _) distinct done room key
      have first : (db.engine.step (Engine.mutationEvent mutation (clocks.headD none))).getInner key .latest =
          if mutation.1 = key then mutation.2 else db.engine.getInner key .latest := by
        rw [Engine.getInner_eq, top, Engine.getInner_eq]
        by_cases same : mutation.1 = key
        · rw [if_pos same, if_pos ⟨same, seen⟩, Option.bind_some]
        · rw [if_neg same, if_neg fun visible => same visible.1]
      constructor
      · intro value inside
        rcases List.mem_cons.mp inside with here | there
        · subst here
          rw [others alone, first, if_pos rfl]
        · exact written value there
      · intro outside
        rw [List.map_cons, List.mem_cons, not_or] at outside
        rw [others outside.2, first, if_neg (Ne.symm outside.1)]

theorem applyMutations_ne_conflict : ∀ (db : TxnEngine) (clocks : List (Option UInt64)),
    (db.applyMutations mutations clocks).2 ≠ .error .txnConflict := by
  induction mutations with
  | nil => exact fun _ _ => nofun
  | cons mutation mutations ih =>
    intro db clocks
    unfold applyMutations
    split
    · nofun
    · exact ih _ _

variable {clocks : List (Option UInt64)} {txnId : UInt64} {db : TxnEngine}

theorem txnCommit_cases (db : TxnEngine) (txnId : UInt64) (clocks : List (Option UInt64)) :
    (∃ reason, db.txnCommit txnId clocks = (db, .error reason)) ∨
      ∃ mutations tables, db.txnPrepareCommit txnId = .ok mutations ∧
        db.txnCommit txnId clocks = { db with txn := tables }.applyMutations mutations clocks := by
  unfold txnCommit txnTakeCommit
  cases prepared : db.txnPrepareCommit txnId with
  | error reason => exact Or.inl ⟨reason, rfl⟩
  | ok mutations =>
    dsimp only
    cases db.txn.txns txnId with
    | none => exact Or.inl ⟨_, rfl⟩
    | some info => exact Or.inr ⟨mutations, _, rfl, rfl⟩

theorem txnCommit_conflict (rejected : (db.txnCommit txnId clocks).2 = .error .txnConflict) :
    (db.txnCommit txnId clocks).1 = db := by
  rcases db.txnCommit_cases txnId clocks with ⟨reason, same⟩ | ⟨mutations, tables, -, same⟩
  · rw [same]
  · rw [same] at rejected
    exact absurd rejected (applyMutations_ne_conflict mutations _ clocks)

end TxnEngine

namespace TxnSession
variable {session : TxnSession}
  {txnId : UInt64}

theorem Prepared.unwritten {mutations : List TxnMutation} {txn : OpenTxn}
    (prepared : session.Prepared txnId mutations txn) (dated : session.Dated) (seen : session.Seen)
    (room : session.db.engine.wal.nextSequence ≤ 2 ^ 64) {entry : SstEntry}
    (since : entry ∈ session.written.drop txn.begun) : txn.last entry.key = none := by
  by_contra staged
  obtain ⟨info, found, free⟩ := prepared.free entry.key staged
  have newer := (dated.parts txnId info txn found prepared.known).since entry since
  have inside := List.mem_of_mem_drop since
  have low : entry.sequence ≤ ReadTimestamp.latest.asNat :=
    Nat.le_sub_one_of_lt (((dated.last entry inside).trans_lt dated.next).trans_le room)
  obtain ⟨top, read, older⟩ := seen entry inside low
  have committed : session.db.engine.latestCommittedSeq entry.key = some top.sequence := by
    rw [Engine.latestCommittedSeq_eq, read, Option.map_some]
  have := free.unchanged top.sequence committed
  omega

/-- The commit of a transaction that succeeds: since it began no version came to
its keys, each of them then reads as staged last, and no other key has changed. -/
def CommitsFirst (session : TxnSession) (txnId : UInt64) (after : TxnEngine) : Prop :=
  ∃ txn, session.ledger txnId = some txn ∧
    (∀ entry ∈ session.written.drop txn.begun, txn.last entry.key = none) ∧
    ∀ key, after.engine.getInner key .latest = (txn.last key).getD (session.db.engine.getInner key .latest)

theorem Watching.commitsFirst (watching : session.Watching) {clocks : List (Option UInt64)} {last : Nat}
    (done : (session.db.txnCommit txnId clocks).2 = .ok last)
    (room : (session.db.txnCommit txnId clocks).1.engine.wal.nextSequence ≤ 2 ^ 64) :
    session.CommitsFirst txnId (session.db.txnCommit txnId clocks).1 := by
  rcases session.db.txnCommit_cases txnId clocks with ⟨reason, same⟩ | ⟨mutations, tables, passed, applied⟩
  · rw [same] at done
    cases done
  obtain ⟨txn, prepared⟩ := watching.kept.prepared passed
  rw [applied] at done room ⊢
  have now : session.db.engine.wal.nextSequence ≤ 2 ^ 64 :=
    (TxnEngine.nextSequence_applyMutations mutations { session.db with txn := tables } clocks).trans room
  refine ⟨txn, prepared.known, fun entry => prepared.unwritten watching.dated watching.seen now, fun key => ?_⟩
  · have reads := @TxnEngine.get_applyMutations mutations { session.db with txn := tables } _ _ watching.fresh
      prepared.distinct done room key
    cases staged : txn.last key with
    | some value => exact reads.1 value ((prepared.last key value).mpr staged)
    | none =>
      refine reads.2 fun inside => ?_
      obtain ⟨⟨held, value⟩, listed, rfl⟩ := List.mem_map.mp inside
      exact nomatch staged.symm.trans ((prepared.last held value).mp listed)

/-- In every run of an engine that merges all its tables and keeps all versions,
the first to commit a key wins: a commit that succeeds found no version written
to its keys since it began, and changes its own keys only. One rejected for a
conflict changes nothing. -/
theorem first_committer_wins {config : EngineConfig} {segments : List Segment} {disk : Disk} {calls : List TxnCall}
    (policy : config.compaction = .l0Merge)
    (increasing : (recoverWal segments).1.Pairwise fun first second => first.sequence < second.sequence)
    (ordinary : ∀ call ∈ calls, call.ordinary) (txnId : UInt64) (clocks : List (Option UInt64)) :
    let engine := Engine.openFrom config segments disk
    let session := (start engine (engine.wal.nextSequence - 1) []).run calls
    let commit := session.db.txnCommit txnId clocks
    commit.1.engine.wal.nextSequence ≤ 2 ^ 64 →
      (∀ last, commit.2 = .ok last → session.CommitsFirst txnId commit.1) ∧
      (commit.2 = .error .txnConflict →
        ∀ key readAt, commit.1.engine.getInner key readAt = session.db.engine.getInner key readAt) := by
  intro engine session commit room
  have watching : session.Watching := (watching_start disk policy increasing).run ordinary
  refine ⟨fun last done => watching.commitsFirst done room, fun rejected key readAt => ?_⟩
  rw [show commit.1 = session.db from TxnEngine.txnCommit_conflict rejected]

/-- The tables are merged while a transaction is open that has staged two keys. -/
def mergedMeanwhile : List TxnCall :=
  [.request (putByte 1 7), .request .flush, .begin, .put 1 [1] [5], .delete 1 [2], .request (putByte 3 8), .request .flush,
    .request .compact]

theorem commit_wins_in_mergedMeanwhile :
    let session := (start (.openFrom mergeConfig [] ⟨[], false, []⟩) 0 []).run mergedMeanwhile
    (session.db.txnCommit 1 []).2 = .ok 4 ∧ session.CommitsFirst 1 (session.db.txnCommit 1 []).1 := by
  have all : ∀ call ∈ mergedMeanwhile, call.ordinary := by decide
  have wins := @first_committer_wins mergeConfig [] ⟨[], false, []⟩ _ rfl List.Pairwise.nil all 1 []
  exact ⟨by decide +kernel, (wins (by decide +kernel)).1 4 (by decide +kernel)⟩

end TxnSession
end KayaDB.Storage
