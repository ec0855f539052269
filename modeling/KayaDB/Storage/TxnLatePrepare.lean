import KayaDB.Storage.TxnOutcomes

/-! Prepares and decisions in any order. A decision resolves what waits when it is
applied; a prepare never looks at the decision, so the transaction is resolved in the
end only if a decision comes last. -/

namespace KayaDB.Storage
open Raft
open Programs EngineProgram

def TxnCommand.applied (kv : Kv) (command : TxnCommand) : Option Kv :=
  match command.program.run Kv.store kv with
  | (after, .ok ()) => some after
  | (_, .error _) => none

variable {command : TxnCommand} {key : Bytes}

theorem TxnCommand.applied_eq_some (ran : command.applied kv = some after) :
    command.program.run Kv.store kv = (after, .ok ()) := by
  unfold applied at ran
  split at ran
  next later made =>
    cases ran
    exact made
  next => cases ran

/-- The mutations that one scan of the staged intents finds. -/
def shown (txnId : UInt64) (mutations : List Mutation) (before : Kv) : List Mutation :=
  match (before.extend (intentWrites txnId mutations)).scanPrefix (encodeIntentScanPrefix txnId) with
  | .ok rows => (decodeIntents txnId rows).toOption.getD []
  | .error _ => []

inductive Phase where
  | unprepared
  | waiting
  | settled
deriving DecidableEq

namespace Phase

def record (commit : Bool) : Phase → Option Bytes
  | unprepared => none
  | waiting => some [Txn2pcState.prepared.asByte]
  | settled => some [if commit then Txn2pcState.committed.asByte else Txn2pcState.aborted.asByte]

def decide : Phase → Phase
  | unprepared => unprepared
  | waiting | settled => settled

end Phase

theorem valueAfter_of_mem {journal : List (Bytes × Option Bytes)} (written : ∃ write ∈ journal, write.1 = key)
    (first second : Option Bytes) : valueAfter journal key first = valueAfter journal key second := by
  induction journal generalizing first second with
  | nil =>
    obtain ⟨write, inside, -⟩ := written
    cases inside
  | cons write rest ih =>
    by_cases here : write.1 = key
    · exact congrArg (valueAfter rest key) ((if_pos here).trans (if_pos here).symm)
    · apply ih
      obtain ⟨other, inside, same⟩ := written
      cases inside with
      | head => exact absurd same here
      | tail _ later => exact ⟨other, later, same⟩

theorem valueAfter_twice (journal : List (Bytes × Option Bytes)) (key : Bytes) (before : Option Bytes) :
    valueAfter journal key (valueAfter journal key before) = valueAfter journal key before := by
  by_cases written : ∃ write ∈ journal, write.1 = key
  · exact valueAfter_of_mem written _ _
  · push Not at written
    exact valueAfter_of_not_mem written _

variable {txnId : UInt64} {mutations : List Mutation} {commit : Bool} {before kv after : Kv}
  {value : Option Bytes} {phase : Phase} {commands : List TxnCommand}

def Unused (txnId : UInt64) (kv : Kv) : Prop := ∀ write ∈ kv.journal, txnKey txnId write.1 = false

section
variable (unused : Unused txnId before)
include unused

theorem Unused.get (own : txnKey txnId key = true) : before.get key = none := by
  cases found : before.get key with
  | none => rfl
  | some value =>
    have other := unused _ (Kv.mem_of_get found)
    rw [own] at other
    cases other

theorem Unused.get_intent (userKey : Bytes) : before.get (encodeIntentKey txnId userKey) = none :=
  unused.get (txnKey_of_intent (intentPrefix_iff.mpr ⟨userKey, rfl⟩))

theorem Unused.get_staged (userKey : Bytes) :
    (before.extend (intentWrites txnId mutations)).get (encodeIntentKey txnId userKey) =
      valueAfter (intentWrites txnId mutations) (encodeIntentKey txnId userKey) none := by
  rw [Kv.get_extend, unused.get_intent]

end

theorem allStaged_of_values (staged : ∀ mutation ∈ mutations, kv.stages txnId mutation = true)
    (values : ∀ userKey, kv.get (encodeIntentKey txnId userKey) =
      valueAfter (intentWrites txnId mutations) (encodeIntentKey txnId userKey) none) : AllStaged txnId kv := by
  intro userKey value found
  rw [values] at found
  obtain ⟨mutation, inside, same⟩ := List.mem_map.mp ((mem_of_valueAfter found).resolve_right nofun)
  obtain ⟨keys, stagedValue⟩ := Prod.mk.inj same
  obtain ⟨-, rfl⟩ := encodeIntentKey_injective keys
  exact ⟨mutation.2, (Option.some.inj stagedValue).symm, staged mutation inside⟩

section
variable (unused : Unused txnId before) (staged : ∀ mutation ∈ mutations, before.stages txnId mutation = true)
include unused staged

theorem shown_of_scan {rows : List (Bytes × Bytes)}
    (scanned : (before.extend (intentWrites txnId mutations)).scanPrefix (encodeIntentScanPrefix txnId) = .ok rows) :
    decodeIntents txnId rows = .ok (shown txnId mutations before) ∧
      (∀ mutation ∈ shown txnId mutations before, before.stages txnId mutation = true) ∧
      rows = (shown txnId mutations before).map fun mutation =>
        (encodeIntentKey txnId mutation.1, encodeIntentValue mutation.2) := by
  have all : AllStaged txnId (before.extend (intentWrites txnId mutations)) :=
    allStaged_of_values staged unused.get_staged
  obtain ⟨found, decoded, fine, same⟩ := scanned_mutations all scanned
  have here : shown txnId mutations before = found := by
    simp only [shown, scanned, decoded, Except.toOption, Option.getD_some]
  rw [here]
  exact ⟨decoded, fine, same⟩

end

/-- All intents are there as they were staged. -/
structure Waits (txnId : UInt64) (mutations : List Mutation) (kv : Kv) : Prop where
  roomy : kv.Roomy
  written : ∀ mutation ∈ mutations, ∃ value, (encodeIntentKey txnId mutation.1, value) ∈ kv.journal
  values : ∀ userKey, kv.get (encodeIntentKey txnId userKey) =
    valueAfter (intentWrites txnId mutations) (encodeIntentKey txnId userKey) none

/-- A store after some prepares and decisions of one transaction. -/
structure Delivered (txnId : UInt64) (mutations : List Mutation) (commit : Bool) (before : Kv) (phase : Phase)
    (kv : Kv) : Prop where
  grown : Kv.Grows before kv
  scope : ∀ userKey value, (encodeIntentKey txnId userKey, value) ∈ kv.journal → userKey ∈ mutations.map Prod.fst
  undecided : kv.get (encodeDecKey txnId) = none ∨
    kv.get (encodeDecKey txnId) = some [if commit then 1 else 0] ∧ kv.Roomy
  record : kv.get (encodeRecKey txnId) = phase.record commit
  staged : phase ≠ .unprepared → ∀ mutation ∈ mutations, before.stages txnId mutation = true
  waits : phase = .waiting → Waits txnId mutations kv
  user : SameUser before kv ∧ (phase = .settled → commit = false) ∨ commit = true ∧
    ∀ key, ¬ txnSysPrefix <+: key → kv.get key = valueAfter (shown txnId mutations before) key (before.get key)

theorem Delivered.start (unused : Unused txnId before) :
    Delivered txnId mutations commit before .unprepared before := by
  refine ⟨.refl before, fun userKey value inside => ?_, .inl (unused.get (txnKey_encodeDecKey txnId)),
    unused.get (txnKey_encodeRecKey txnId), fun apart => absurd rfl apart, nofun, .inl ⟨fun _ _ => rfl, nofun⟩⟩
  have other := unused _ inside
  rw [txnKey_of_intent (intentPrefix_iff.mpr ⟨userKey, rfl⟩)] at other
  cases other

theorem Kv.Grows.stages {first second : Kv} (grows : Kv.Grows first second) (mutation : Mutation) :
    second.stages txnId mutation = first.stages txnId mutation := by
  unfold Kv.stages
  rw [grows.accept]

theorem Kv.Grows.extend (kv : Kv) (writes : List (Bytes × Option Bytes)) : Kv.Grows kv (kv.extend writes) :=
  ⟨rfl, rfl, List.prefix_append _ _⟩

theorem Delivered.scan (unused : Unused txnId before) (delivered : Delivered txnId mutations commit before .waiting kv) :
    kv.scanPrefix (encodeIntentScanPrefix txnId) =
      (before.extend (intentWrites txnId mutations)).scanPrefix (encodeIntentScanPrefix txnId) := by
  have waits := delivered.waits rfl
  apply Kv.scanPrefix_ext
  · exact delivered.grown.limits
  · intro key starts
    obtain ⟨userKey, rfl⟩ := intentPrefix_iff.mp starts
    constructor
    · rintro ⟨value, inside⟩
      obtain ⟨mutation, held, rfl⟩ := List.mem_map.mp (delivered.scope userKey value inside)
      exact ⟨some (encodeIntentValue mutation.2), List.mem_append_right _ (List.mem_map.mpr ⟨mutation, held, rfl⟩)⟩
    · rintro ⟨value, inside⟩
      rcases List.mem_append.mp inside with old | new
      · have other := unused _ old
        rw [txnKey_of_intent starts] at other
        cases other
      · obtain ⟨mutation, held, same⟩ := List.mem_map.mp new
        obtain ⟨-, rfl⟩ := encodeIntentKey_injective (Prod.mk.inj same).1
        exact waits.written mutation held
  · intro key starts
    obtain ⟨userKey, rfl⟩ := intentPrefix_iff.mp starts
    rw [waits.values, unused.get_staged]

theorem roomy_of_prepare (ok : ((applyTxnPrepare txnId mutations).run Kv.store kv).2 = .ok ()) : kv.Roomy := by
  rcases kv.perform_cases ⟨true, encodeRecKey txnId, some [Txn2pcState.preparing.asByte]⟩ with
    ⟨-, admitted⟩ | ⟨reason, failed, -⟩
  · exact roomy_of_accept admitted
  · have refused : ((applyTxnPrepare txnId mutations).run Kv.store kv).2 = .error reason :=
      congrArg Prod.snd (Kv.run_write_failed failed)
    rw [refused] at ok
    cases ok

theorem Delivered.extend {next : Phase} (delivered : Delivered txnId mutations commit before phase kv)
    {writes : List (Bytes × Option Bytes)}
    (kinds : ∀ write ∈ writes, (∃ state, write = recorded txnId state) ∨ (¬ txnSysPrefix <+: write.1) ∨
      ∃ userKey ∈ mutations.map Prod.fst, write.1 = encodeIntentKey txnId userKey)
    (record : (kv.extend writes).get (encodeRecKey txnId) = next.record commit)
    (staged : next ≠ .unprepared → ∀ mutation ∈ mutations, before.stages txnId mutation = true)
    (waits : next = .waiting → Waits txnId mutations (kv.extend writes))
    (user : SameUser before (kv.extend writes) ∧ (next = .settled → commit = false) ∨ commit = true ∧ ∀ key, ¬
      txnSysPrefix <+: key → (kv.extend writes).get key = valueAfter (shown txnId mutations before) key (before.get
      key)) : Delivered txnId mutations commit before next (kv.extend writes) := by
  refine ⟨delivered.grown.trans (.extend kv writes), fun userKey value inside => ?_, ?_, record, staged, waits, user⟩
  · rcases List.mem_append.mp inside with old | new
    · exact delivered.scope userKey value old
    · rcases kinds _ new with ⟨state, same⟩ | user | ⟨other, listed, same⟩
      · exact absurd (congrArg Prod.fst same) (encodeIntentKey_ne_encodeRecKey txnId txnId userKey)
      · exact absurd (txnSysPrefix_encodeIntentKey txnId userKey) user
      · exact (encodeIntentKey_injective same).2 ▸ listed
  · rw [Kv.get_extend_of_not_mem]
    · exact delivered.undecided
    · intro write inside same
      rcases kinds write inside with ⟨state, rfl⟩ | user | ⟨userKey, -, made⟩
      · exact encodeRecKey_ne_encodeDecKey txnId txnId same
      · exact user (same ▸ txnSysPrefix_encodeDecKey txnId)
      · exact encodeIntentKey_ne_encodeDecKey txnId txnId userKey (made.symm.trans same)

theorem get_record_last (writes : List (Bytes × Option Bytes)) (state : Txn2pcState) :
    (kv.extend (writes ++ [recorded txnId state])).get (encodeRecKey txnId) = some [state.asByte] := by
  rw [Kv.get_extend, valueAfter_append]
  exact if_pos rfl

/-- A prepare stages everything again, whatever was decided. -/
theorem Delivered.prepare (delivered : Delivered txnId mutations commit before phase kv)
    (ran : (applyTxnPrepare txnId mutations).run Kv.store kv = (after, .ok ())) :
    Delivered txnId mutations commit before .waiting after := by
  have roomy : kv.Roomy := roomy_of_prepare (congrArg Prod.snd ran)
  obtain ⟨all, ended⟩ := run_prepare_ok roomy (congrArg Prod.snd ran)
  have staged : ∀ mutation ∈ mutations, before.stages txnId mutation = true := by
    intro mutation inside
    rw [← delivered.grown.stages]
    rw [← all] at inside
    exact List.all_eq_true.mp List.all_takeWhile mutation inside
  have sameUser : SameUser kv (((kv.extend [recorded txnId .preparing]).extend (intentWrites txnId mutations)).extend
      [recorded txnId .prepared]) := fun key outside =>
    (sameUser_record .prepared key outside).trans
      (((extend_intents _ txnId mutations fun mutation => some (encodeIntentValue mutation.2)).2 key outside).trans
        (sameUser_record .preparing key outside))
  have intent (userKey : Bytes) : (((kv.extend [recorded txnId .preparing]).extend (intentWrites txnId mutations)).extend
      [recorded txnId .prepared]).get (encodeIntentKey txnId userKey) =
        valueAfter (intentWrites txnId mutations) (encodeIntentKey txnId userKey)
          (kv.get (encodeIntentKey txnId userKey)) := by
    rw [get_intent_extend (outside_record _), Kv.get_extend, get_intent_extend (outside_record _)]
  obtain rfl := ended.symm.trans (congrArg Prod.fst ran)
  rw [Kv.extend_extend, Kv.extend_extend] at sameUser intent ⊢
  refine delivered.extend (fun write inside => ?_) ?_ (fun _ => staged) (fun _ => ⟨roomy, ?_, ?_⟩) ?_
  · simp only [List.mem_append, List.mem_singleton] at inside
    rcases inside with same | inside | same
    · exact .inl ⟨_, same⟩
    · obtain ⟨mutation, held, rfl⟩ := List.mem_map.mp inside
      exact .inr (.inr ⟨mutation.1, List.mem_map_of_mem held, rfl⟩)
    · exact .inl ⟨_, same⟩
  · rw [← List.append_assoc]
    exact get_record_last _ _
  · intro mutation inside
    refine ⟨some (encodeIntentValue mutation.2), List.mem_append_right _ ?_⟩
    exact List.mem_append_right _ (List.mem_append_left _ (List.mem_map.mpr ⟨mutation, inside, rfl⟩))
  · intro userKey
    rw [intent]
    by_cases listed : ∃ write ∈ intentWrites txnId mutations, write.1 = encodeIntentKey txnId userKey
    · exact valueAfter_of_mem listed _ _
    · -- Nothing was ever staged under such a key.
      have never : kv.get (encodeIntentKey txnId userKey) = none := by
        cases found : kv.get (encodeIntentKey txnId userKey) with
        | none => rfl
        | some value =>
          obtain ⟨mutation, held, rfl⟩ := List.mem_map.mp (delivered.scope userKey _ (Kv.mem_of_get found))
          exact absurd ⟨_, List.mem_map.mpr ⟨mutation, held, rfl⟩, rfl⟩ listed
      rw [never]
  · rcases delivered.user with ⟨same, -⟩ | ⟨committed, took⟩
    · exact .inl ⟨fun key outside => (sameUser key outside).trans (same key outside), nofun⟩
    · exact .inr ⟨committed, fun key outside => (sameUser key outside).trans (took key outside)⟩

theorem roomy_of_decision (undecided : kv.get (encodeDecKey txnId) = none)
    (ok : ((applyTxnDecision txnId commit).run Kv.store kv).2 = .ok ()) : kv.Roomy := by
  have ran : (applyTxnDecision txnId commit).run Kv.store kv =
      (Program.write ⟨true, encodeDecKey txnId, some [if commit then 1 else 0]⟩
        (resolveLocal2pcRecord txnId commit) : EngineProgram Unit).run Kv.store kv := by
    unfold applyTxnDecision
    rw [Program.bind_eq, run_readDecision, undecided]
    rfl
  rcases kv.perform_cases ⟨true, encodeDecKey txnId, some [if commit then 1 else 0]⟩ with
    ⟨-, admitted⟩ | ⟨reason, failed, -⟩
  · -- The record is as long as the decision.
    exact fun _ _ => Kv.accept_byte (List.cons_ne_nil _ _) ((length_encodeRecKey _).trans (length_encodeDecKey _).symm) admitted
  · rw [ran, Kv.run_write_failed failed] at ok
    cases ok

theorem Delivered.note (delivered : Delivered txnId mutations commit before phase kv)
    (ok : ((applyTxnDecision txnId commit).run Kv.store kv).2 = .ok ()) :
    ∃ noted, Delivered txnId mutations commit before phase noted ∧ noted.Roomy ∧
      (applyTxnDecision txnId commit).run Kv.store kv = (resolveLocal2pcRecord txnId commit).run Kv.store noted := by
  have roomy : kv.Roomy := by
    rcases delivered.undecided with undecided | known
    · exact roomy_of_decision undecided ok
    · exact known.2
  obtain ⟨writes, only, known, ran⟩ := run_applyTxnDecision roomy commit (delivered.undecided.imp_right And.left)
  have others {key : Bytes} (apart : encodeDecKey txnId ≠ key) : (kv.extend writes).get key = kv.get key := by
    apply Kv.get_extend_of_not_mem
    intro write inside same
    rw [only write inside] at same
    exact apart same
  have same : SameUser kv (kv.extend writes) := fun key outside =>
    others fun decision => outside (decision ▸ txnSysPrefix_encodeDecKey txnId)
  refine ⟨kv.extend writes, ⟨delivered.grown.trans (.extend kv writes), fun userKey value inside => ?_, .inr ⟨known, roomy⟩,
    ?_, delivered.staged, fun here => ⟨roomy, fun mutation inside => ?_, fun userKey => ?_⟩, ?_⟩, roomy, ran⟩
  · rcases List.mem_append.mp inside with old | new
    · exact delivered.scope userKey value old
    · exact absurd (congrArg Prod.fst (only _ new)) (encodeIntentKey_ne_encodeDecKey txnId txnId userKey)
  · rw [others (encodeRecKey_ne_encodeDecKey txnId txnId).symm]
    exact delivered.record
  · obtain ⟨value, written⟩ := (delivered.waits here).written mutation inside
    exact ⟨value, List.mem_append_left _ written⟩
  · rw [others (encodeIntentKey_ne_encodeDecKey txnId txnId userKey).symm]
    exact (delivered.waits here).values userKey
  · rcases delivered.user with ⟨unchanged, settled⟩ | ⟨committed, took⟩
    · exact .inl ⟨fun key outside => (same key outside).trans (unchanged key outside), settled⟩
    · exact .inr ⟨committed, fun key outside => (same key outside).trans (took key outside)⟩

section Resolve
variable (unused : Unused txnId before) (delivered : Delivered txnId mutations commit before .waiting kv)
  {rows : List (Bytes × Bytes)} (scanned : kv.scanPrefix (encodeIntentScanPrefix txnId) = .ok rows)
include unused delivered scanned

theorem Delivered.shown_rows : decodeIntents txnId rows = .ok (shown txnId mutations before) ∧
    (∀ mutation ∈ shown txnId mutations before, kv.stages txnId mutation = true) ∧
    rows = (shown txnId mutations before).map fun mutation =>
      (encodeIntentKey txnId mutation.1, encodeIntentValue mutation.2) := by
  rw [delivered.scan unused] at scanned
  obtain ⟨decoded, fine, same⟩ := shown_of_scan unused (delivered.staged nofun) scanned
  refine ⟨decoded, fun mutation inside => ?_, same⟩
  rw [delivered.grown.stages]
  exact fine mutation inside

theorem Delivered.shown_scope {mutation : Mutation} (inside : mutation ∈ shown txnId mutations before) :
    mutation.1 ∈ mutations.map Prod.fst := by
  obtain ⟨-, -, same⟩ := delivered.shown_rows unused scanned
  have row : (encodeIntentKey txnId mutation.1, encodeIntentValue mutation.2) ∈ rows := by
    rw [same]
    exact List.mem_map_of_mem inside
  exact delivered.scope _ _ (Kv.mem_of_get (Kv.mem_scan scanned row).2)

theorem Delivered.commits (chosen : commit = true) :
    Delivered txnId mutations commit before .settled (kv.extend ([recorded txnId .committing] ++
      (shown txnId mutations before ++ (drops txnId (shown txnId mutations before) ++ [recorded txnId .committed])))) := by
  obtain ⟨-, fine, -⟩ := delivered.shown_rows unused scanned
  refine delivered.extend (fun write inside => ?_) ?_ (fun _ => delivered.staged nofun) nofun
    (.inr ⟨chosen, fun key outside => ?_⟩)
  · simp only [List.mem_append, List.mem_singleton] at inside
    rcases inside with same | held | inside | same
    · exact .inl ⟨_, same⟩
    · exact .inr (.inl (user_of_staged (fine _ held)))
    · obtain ⟨mutation, held, rfl⟩ := List.mem_map.mp inside
      exact .inr (.inr ⟨mutation.1, delivered.shown_scope unused scanned held, rfl⟩)
    · exact .inl ⟨_, same⟩
  · rw [← List.append_assoc, ← List.append_assoc, chosen]
    exact get_record_last _ _
  · have hidden (state : Txn2pcState) : ∀ write ∈ [recorded txnId state], write.1 ≠ key := by
      intro write inside same
      rw [List.mem_singleton.mp inside] at same
      exact outside (same ▸ txnSysPrefix_encodeRecKey txnId)
    have dropped : ∀ write ∈ drops txnId (shown txnId mutations before), write.1 ≠ key := by
      rintro write inside rfl
      obtain ⟨mutation, -, rfl⟩ := List.mem_map.mp inside
      exact outside (txnSysPrefix_encodeIntentKey txnId mutation.1)
    rw [Kv.get_extend, valueAfter_append, valueAfter_append, valueAfter_append, valueAfter_of_not_mem (hidden _),
      valueAfter_of_not_mem dropped, valueAfter_of_not_mem (hidden _)]
    rcases delivered.user with ⟨same, -⟩ | ⟨-, took⟩
    · rw [same key outside]
    · rw [took key outside, valueAfter_twice]

theorem Delivered.aborts (chosen : commit = false) : Delivered txnId mutations commit before .settled
    (kv.extend ((rows.map fun row => (row.1, none)) ++ [recorded txnId .aborted])) := by
  have same := (after_clear .aborted scanned).1
  obtain ⟨-, -, rfl⟩ := delivered.shown_rows unused scanned
  refine delivered.extend (fun write inside => ?_) ?_ (fun _ => delivered.staged nofun) nofun
    (.inl ⟨fun key outside => ?_, fun _ => chosen⟩)
  · rcases List.mem_append.mp inside with dropped | last
    · obtain ⟨row, listed, rfl⟩ := List.mem_map.mp dropped
      obtain ⟨mutation, held, rfl⟩ := List.mem_map.mp listed
      exact .inr (.inr ⟨mutation.1, delivered.shown_scope unused scanned held, rfl⟩)
    · exact .inl ⟨_, List.mem_singleton.mp last⟩
  · rw [chosen]
    exact get_record_last _ _
  · rcases delivered.user with ⟨unchanged, -⟩ | ⟨commits, -⟩
    · exact (same key outside).trans (unchanged key outside)
    · rw [chosen] at commits
      cases commits

end Resolve

theorem run_finishCommit_unscanned {reason : String}
    (failed : kv.scanPrefix (encodeIntentScanPrefix txnId) = .error reason) :
    (finishCommit txnId).run Kv.store kv = (kv, .error reason) := by
  simp only [finishCommit, loadDurableIntents, scanPrefix, Program.bind_eq, Program.bind, Program.run, Kv.store, failed]

theorem Delivered.resolve (unused : Unused txnId before)
    (delivered : Delivered txnId mutations commit before phase kv) (roomy : kv.Roomy)
    (ran : (resolveLocal2pcRecord txnId commit).run Kv.store kv = (after, .ok ())) :
    Delivered txnId mutations commit before phase.decide after := by
  unfold resolveLocal2pcRecord at ran
  rw [Program.bind_eq, run_readState, delivered.record] at ran
  cases phase with
  | unprepared =>
    cases ran
    exact delivered
  | settled => cases commit <;> (cases ran; exact delivered)
  | waiting =>
    have parsed : parseState (kv.get (encodeRecKey txnId)) = .ok (some .prepared) := by
      rw [delivered.record]
      rfl
    cases chosen : commit with
    | true =>
      rw [chosen] at ran
      have marked : (applyTxnCommit2pc txnId).run Kv.store kv =
          (finishCommit txnId).run Kv.store (kv.extend [recorded txnId .committing]) := by
        unfold applyTxnCommit2pc
        rw [Program.bind_eq, run_readState, parsed]
        exact Kv.run_write (roomy txnId _)
      replace ran := marked.symm.trans ran
      have sameScan : (kv.extend [recorded txnId .committing]).scanPrefix (encodeIntentScanPrefix txnId) =
          kv.scanPrefix (encodeIntentScanPrefix txnId) := Kv.scanPrefix_extend (outside_record _)
      cases scanned : kv.scanPrefix (encodeIntentScanPrefix txnId) with
      | error reason =>
        rw [run_finishCommit_unscanned (sameScan.trans scanned)] at ran
        cases ran
      | ok rows =>
        have ended := delivered.commits unused scanned chosen
        obtain ⟨decoded, fine, rfl⟩ := delivered.shown_rows unused scanned
        have room : (kv.extend [recorded txnId .committing]).Roomy := roomy
        rw [run_finishCommit (sameScan.trans scanned) fine room decoded, Kv.extend_extend] at ran
        cases ran
        rw [chosen] at ended
        exact ended
    | false =>
      rw [chosen] at ran
      have marked : (applyTxnAbort2pc txnId).run Kv.store kv =
          ((clearDurableIntents txnId).bind fun _ => setState txnId .aborted).run Kv.store kv := by
        unfold applyTxnAbort2pc
        rw [Program.bind_eq, run_readState, parsed]
        rfl
      replace ran := marked.symm.trans ran
      cases scanned : kv.scanPrefix (encodeIntentScanPrefix txnId) with
      | error reason =>
        simp only [clearDurableIntents, scanPrefix, Program.bind_eq, Program.bind, Program.run, Kv.store, scanned] at ran
        cases ran
      | ok rows =>
        have ended := delivered.aborts unused scanned chosen
        have staged : AllStaged txnId kv := by
          refine allStaged_of_values (fun mutation inside => ?_) (delivered.waits rfl).values
          rw [delivered.grown.stages]
          refine delivered.staged (fun same => ?_) mutation inside
          cases same
        rw [run_clearAndAbort roomy staged scanned] at ran
        cases ran
        rw [chosen] at ended
        exact ended

def phaseAfter (phase : Phase) : TxnCommand → Phase
  | .prepare _ _ => .waiting
  | .decision _ _ => phase.decide
  | .commit2pc _ | .abort2pc _ => phase

theorem Delivered.step (unused : Unused txnId before) (delivered : Delivered txnId mutations commit before phase kv)
    (own : command = .prepare txnId mutations ∨ command = .decision txnId commit)
    (ran : command.applied kv = some after) :
    Delivered txnId mutations commit before (phaseAfter phase command) after := by
  replace ran := TxnCommand.applied_eq_some ran
  rcases own with rfl | rfl
  · exact delivered.prepare ran
  · obtain ⟨noted, known, roomy, same⟩ := delivered.note (congrArg Prod.snd ran)
    exact known.resolve unused roomy (same.symm.trans ran)

theorem Delivered.run (unused : Unused txnId before)
    (own : ∀ command ∈ commands, command = .prepare txnId mutations ∨ command = .decision txnId commit) :
    ∀ {phase : Phase} {kv : Kv}, Delivered txnId mutations commit before phase kv →
      commands.foldlM TxnCommand.applied kv = some after →
      Delivered txnId mutations commit before (commands.foldl phaseAfter phase) after := by
  induction commands with
  | nil =>
    intro phase kv delivered ran
    cases ran
    exact delivered
  | cons command rest ih =>
    intro phase kv delivered ran
    rw [List.foldlM_cons] at ran
    obtain ⟨next, first, later⟩ := Option.bind_eq_some_iff.mp ran
    exact ih (fun other inside => own other (List.mem_cons_of_mem _ inside))
      (delivered.step unused (own command List.mem_cons_self) first) later

end KayaDB.Storage
