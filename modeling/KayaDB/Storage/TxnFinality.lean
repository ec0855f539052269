import KayaDB.Storage.TxnEffects

/-! Outcomes of transactions across groups, over whole sequences of commands. Intents
are always ones that were staged; a commit then goes through to its end, and its record
keeps a second one from writing anything. -/

namespace KayaDB.Storage
open Raft
open Programs EngineProgram

/-- The writes 2PC programs ask for. -/
inductive TxnRequest : WriteRequest → Prop where
  | user (key : Bytes) (value : Option Bytes) : TxnRequest ⟨false, key, value⟩
  | state (txnId : UInt64) (byte : UInt8) : TxnRequest ⟨true, encodeRecKey txnId, some [byte]⟩
  | decision (txnId : UInt64) (byte : UInt8) : TxnRequest ⟨true, encodeDecKey txnId, some [byte]⟩
  | intent (txnId : UInt64) (userKey : Bytes) (value : Option Bytes) (filled : userKey ≠ [])
      (user : ¬ (txnSysPrefix <+: userKey ∨ indexSysPrefix <+: userKey)) :
      TxnRequest ⟨true, encodeIntentKey txnId userKey, some (encodeIntentValue value)⟩
  | drop (txnId : UInt64) (userKey : Bytes) : TxnRequest ⟨true, encodeIntentKey txnId userKey, none⟩

abbrev Proper {α : Type} (program : EngineProgram α) : Prop := program.Only Kv.Under TxnRequest

theorem Writes.proper {α : Type} {program : EngineProgram α} {txnId : UInt64} {seen : Prop} {states : List Txn2pcState}
    (writes : Writes txnId seen states program) : Proper program := by
  refine Program.Only.mono program (fun _ write => ?_) writes
  cases write with
  | user key value => exact .user key value
  | state => exact .state txnId _
  | intent userKey value filled user => exact .intent txnId userKey value filled user
  | drop userKey => exact .drop txnId userKey

theorem proper_applyTxnDecision {txnId : UInt64} (commit : Bool) : Proper (applyTxnDecision txnId commit) := by
  refine Program.Only.bind _ (@writes_readTxnDecision _ True []).proper fun found => ?_
  have resolve : Proper (resolveLocal2pcRecord txnId commit) := (writes_resolveLocal2pcRecord commit).proper
  cases found with
  | some prev =>
    dsimp only
    split
    · trivial
    · exact resolve
  | none => exact ⟨.decision txnId _, resolve⟩

/-- Every intent was staged, and a record was written only where there is room for
records. -/
structure Sound (kv : Kv) : Prop where
  staged : ∀ txnId, AllStaged txnId kv
  room : ∀ txnId value, kv.get (encodeRecKey txnId) = some value → kv.Roomy

section Sound
variable {kv : Kv} {txnId : UInt64}

theorem roomy_of_accept {byte : UInt8} (admitted : kv.accept ⟨true, encodeRecKey txnId, some [byte]⟩ = .ok ()) :
    kv.Roomy := fun _ _ =>
  Kv.accept_byte (List.cons_ne_nil _ _) ((length_encodeRecKey _).trans (length_encodeRecKey _).symm) admitted

theorem stages_of_accept {userKey : Bytes} {value : Option Bytes} (filled : userKey ≠ [])
    (user : ¬ (txnSysPrefix <+: userKey ∨ indexSysPrefix <+: userKey))
    (admitted : kv.accept ⟨true, encodeIntentKey txnId userKey, some (encodeIntentValue value)⟩ = .ok ()) :
    kv.stages txnId (userKey, value) = true := by
  unfold Kv.stages
  rw [admitted]
  simp [filled, user, Except.toBool]

theorem Sound.perform (sound : Sound kv) {request : WriteRequest} (proper : TxnRequest request) :
    Sound (kv.perform request).1 := by
  rcases kv.perform_cases request with ⟨done, admitted⟩ | ⟨reason, failed, -⟩
  · rw [done]
    refine ⟨fun txnId userKey value found => ?_, fun txnId value found => ?_⟩
    · rw [Kv.get_record] at found
      split at found
      next here =>
        cases proper with
        | user key written => exact absurd (here ▸ txnSysPrefix_encodeIntentKey txnId userKey) (not_system_of_accept admitted rfl)
        | state other byte => exact absurd here.symm (encodeIntentKey_ne_encodeRecKey txnId other userKey)
        | decision other byte => exact absurd here.symm (encodeIntentKey_ne_encodeDecKey txnId other userKey)
        | intent other otherKey staged filled user =>
          obtain ⟨rfl, rfl⟩ := encodeIntentKey_injective here
          exact ⟨staged, (Option.some.inj found).symm, stages_of_accept filled user admitted⟩
        | drop other otherKey => cases found
      next => exact sound.staged txnId userKey value found
    · rw [Kv.get_record] at found
      split at found
      next here =>
        cases proper with
        | user key written => exact absurd (here ▸ txnSysPrefix_encodeRecKey txnId) (not_system_of_accept admitted rfl)
        | state other byte => exact roomy_of_accept admitted
        | decision other byte => exact absurd here.symm (encodeRecKey_ne_encodeDecKey txnId other)
        | intent other otherKey staged filled user => exact absurd here (encodeIntentKey_ne_encodeRecKey other txnId otherKey)
        | drop other otherKey => exact absurd here (encodeIntentKey_ne_encodeRecKey other txnId otherKey)
      next => exact sound.room txnId value found
  · rw [failed]
    exact sound

theorem Sound.throughout {α : Type} {program : EngineProgram α} (proper : Proper program) (sound : Sound kv) :
    program.Throughout Kv.store Sound kv :=
  Program.Only.throughout program (fun _ _ _ => Kv.under_of_scan) (fun _ _ sound request => sound.perform request) proper
    sound

end Sound

theorem nodup_scan {kv : Kv} {front : Bytes} {rows : List (Bytes × Bytes)} (scanned : kv.scanPrefix front = .ok rows) :
    (rows.map Prod.fst).Nodup := by
  unfold Kv.scanPrefix at scanned
  cases valid : kv.limits.validateScanPrefix front with
  | error reason =>
    rw [valid] at scanned
    cases scanned
  | ok =>
    rw [valid] at scanned
    cases scanned
    change (List.map (Prod.fst ∘ fun row : Bytes × Bytes => (row.1, some row.2)) _).Nodup
    rw [← List.map_map]
    refine ((History.sublist_collectRows _).map Prod.fst).nodup ?_
    rw [List.map_map]
    change (List.map id _).Nodup
    rw [List.map_id]
    exact (SortedSet.nodup _).sublist (List.take_sublist _ _)

section Commands
variable {kv : Kv} {txnId : UInt64}

theorem scanned_mutations (staged : AllStaged txnId kv) {rows : List (Bytes × Bytes)}
    (scanned : kv.scanPrefix (encodeIntentScanPrefix txnId) = .ok rows) :
    ∃ mutations : List Mutation, decodeIntents txnId rows = .ok mutations ∧
      (∀ mutation ∈ mutations, kv.stages txnId mutation = true) ∧
      rows = mutations.map fun mutation => (encodeIntentKey txnId mutation.1, encodeIntentValue mutation.2) :=
  decodeIntents_of_staged kv fun row inside => by
    obtain ⟨key, value⟩ := row
    obtain ⟨starts, found⟩ := Kv.mem_scan scanned inside
    obtain ⟨userKey, rfl⟩ := intentPrefix_iff.mp starts
    obtain ⟨mutation, rfl, fine⟩ := staged userKey value found
    exact ⟨(userKey, mutation), fine, rfl⟩

def Settled (txnId : UInt64) (kv : Kv) : Prop :=
  parseState (kv.get (encodeRecKey txnId)) = .ok (some .committed) ∨
    parseState (kv.get (encodeRecKey txnId)) = .ok (some .aborted)

def userKeys (writes : List (Bytes × Option Bytes)) : List Bytes :=
  (writes.map Prod.fst).filter fun key => ¬ txnSysPrefix <+: key

/-- A command of the transaction writes nothing a user can see and leaves a final
record alone, or it makes the record final. -/
inductive Effect (txnId : UInt64) (kv : Kv) : Kv → Prop where
  | hidden (writes : List (Bytes × Option Bytes)) : (∀ write ∈ writes, txnSysPrefix <+: write.1) →
      (Settled txnId kv → (kv.extend writes).get (encodeRecKey txnId) = kv.get (encodeRecKey txnId)) →
      Effect txnId kv (kv.extend writes)
  | commits (writes : List (Bytes × Option Bytes)) : ¬ Settled txnId kv → (userKeys writes).Nodup →
      parseState ((kv.extend writes).get (encodeRecKey txnId)) = .ok (some .committed) →
      Effect txnId kv (kv.extend writes)

theorem Effect.nothing (txnId : UInt64) (kv : Kv) : Effect txnId kv kv := by
  have none : Effect txnId kv (kv.extend []) := .hidden [] (fun _ inside => absurd inside List.not_mem_nil) fun _ => by
    rw [Kv.extend_nil]
  rwa [Kv.extend_nil] at none

theorem Hidden.writes {α : Type} {program : EngineProgram α} (hidden : Hidden program) (kv : Kv) :
    ∃ writes, (program.run Kv.store kv).1 = kv.extend writes ∧ ∀ write ∈ writes, txnSysPrefix <+: write.1 := by
  have throughout : program.Throughout Kv.store
      (fun later => ∃ writes, later = kv.extend writes ∧ ∀ write ∈ writes, txnSysPrefix <+: write.1) kv := by
    refine Program.Only.throughout program (fun _ _ _ => Kv.under_of_scan) (fun state request => ?_) hidden
      ⟨[], (Kv.extend_nil kv).symm, fun _ inside => absurd inside List.not_mem_nil⟩
    rintro ⟨writes, rfl, all⟩ system
    rcases (kv.extend writes).perform_cases request with ⟨done, -⟩ | ⟨reason, failed, -⟩
    · refine ⟨writes ++ [(request.key, request.value)], ?_, fun write inside => ?_⟩
      · change ((kv.extend writes).perform request).1 = _
        rw [done, Kv.record_eq_extend, Kv.extend_extend]
      · rcases List.mem_append.mp inside with early | last
        · exact all write early
        · rw [List.mem_singleton.mp last]
          exact system
    · refine ⟨writes, ?_, all⟩
      change ((kv.extend writes).perform request).1 = _
      rw [failed]
  exact Program.Throughout.run program throughout

/-- While the record is not final, it may become anything. -/
theorem Hidden.effect {α : Type} {program : EngineProgram α} (hidden : Hidden program) (open_ : ¬ Settled txnId kv) :
    Effect txnId kv (program.run Kv.store kv).1 := by
  obtain ⟨writes, same, system⟩ := hidden.writes kv
  rw [same]
  exact .hidden writes system fun settled => absurd settled open_

theorem userKeys_of_hidden {writes : List (Bytes × Option Bytes)} (hidden : ∀ write ∈ writes, txnSysPrefix <+: write.1) :
    userKeys writes = [] := by
  apply List.filter_eq_nil_iff.mpr
  intro key inside
  obtain ⟨write, held, rfl⟩ := List.mem_map.mp inside
  simpa using hidden write held

theorem userKeys_append (first second : List (Bytes × Option Bytes)) :
    userKeys (first ++ second) = userKeys first ++ userKeys second := by
  unfold userKeys
  rw [List.map_append, List.filter_append]

theorem Effect.after (writes : List (Bytes × Option Bytes)) {after : Kv}
    (hidden : ∀ write ∈ writes, txnSysPrefix <+: write.1)
    (kept : Settled txnId kv → (kv.extend writes).get (encodeRecKey txnId) = kv.get (encodeRecKey txnId))
    (effect : Effect txnId (kv.extend writes) after) : Effect txnId kv after := by
  have still (settled : Settled txnId kv) : Settled txnId (kv.extend writes) := by
    unfold Settled
    rw [kept settled]
    exact settled
  cases effect with
  | hidden more system also =>
    rw [Kv.extend_extend]
    refine .hidden (writes ++ more) (fun write inside => ?_) fun settled => ?_
    · exact (List.mem_append.mp inside).elim (hidden write) (system write)
    · rw [← Kv.extend_extend, also (still settled), kept settled]
  | commits more open_ distinct committed =>
    rw [Kv.extend_extend]
    refine .commits (writes ++ more) (fun settled => open_ (still settled)) ?_ ?_
    · rw [userKeys_append, userKeys_of_hidden hidden]
      exact distinct
    · rw [← Kv.extend_extend]
      exact committed

theorem parseState_asByte (state : Txn2pcState) : parseState (some [state.asByte]) = .ok (some state) := by
  cases state <;> rfl

/-- A commit whose intents are staged goes through, or does nothing at all. -/
theorem finishCommit_cases (roomy : kv.Roomy) (staged : AllStaged txnId kv) :
    ((finishCommit txnId).run Kv.store kv).1 = kv ∨
      ∃ mutations : List Mutation, (mutations.map Prod.fst).Nodup ∧
        (∀ mutation ∈ mutations, ¬ txnSysPrefix <+: mutation.1) ∧
        ((finishCommit txnId).run Kv.store kv).1 =
          kv.extend (mutations ++ (drops txnId mutations ++ [recorded txnId .committed])) := by
  cases scanned : kv.scanPrefix (encodeIntentScanPrefix txnId) with
  | error reason =>
    left
    simp only [finishCommit, loadDurableIntents, scanPrefix, Program.bind_eq, Program.bind, Program.run, Kv.store, scanned]
  | ok rows =>
    right
    obtain ⟨mutations, decoded, fine, rfl⟩ := scanned_mutations staged scanned
    refine ⟨mutations, ?_, fun mutation inside => user_of_staged (fine mutation inside), ?_⟩
    · have distinct := nodup_scan scanned
      rw [List.map_map] at distinct
      refine List.Nodup.of_map (encodeIntentKey txnId) ?_
      rw [List.map_map]
      exact distinct
    · rw [run_finishCommit scanned fine roomy decoded]

theorem finishCommit_effect (roomy : kv.Roomy) (staged : AllStaged txnId kv) (open_ : ¬ Settled txnId kv) :
    Effect txnId kv ((finishCommit txnId).run Kv.store kv).1 := by
  rcases finishCommit_cases roomy staged with nothing | ⟨mutations, distinct, user, after⟩
  · rw [nothing]
    exact .nothing txnId kv
  · rw [after]
    refine .commits _ open_ ?_ ?_
    · have rest : userKeys (drops txnId mutations ++ [recorded txnId .committed]) = [] := by
        apply userKeys_of_hidden
        intro write inside
        rcases List.mem_append.mp inside with dropped | last
        · obtain ⟨mutation, -, rfl⟩ := List.mem_map.mp dropped
          exact txnSysPrefix_encodeIntentKey txnId mutation.1
        · rw [List.mem_singleton.mp last]
          exact txnSysPrefix_encodeRecKey txnId
      rw [userKeys_append, rest, List.append_nil]
      exact distinct.filter _
    · rw [Kv.get_extend, ← List.append_assoc, valueAfter_append]
      exact (congrArg parseState (if_pos rfl)).trans (parseState_asByte .committed)

theorem commit_effect (sound : Sound kv) : Effect txnId kv ((applyTxnCommit2pc txnId).run Kv.store kv).1 := by
  have mark (open_ : ¬ Settled txnId kv) :
      Effect txnId kv (((setState txnId .committing).bind fun _ => finishCommit txnId).run Kv.store kv).1 := by
    rcases kv.perform_cases ⟨true, encodeRecKey txnId, some [Txn2pcState.committing.asByte]⟩ with
      ⟨-, admitted⟩ | ⟨reason, failed, -⟩
    · have marked : ((setState txnId .committing).bind fun _ => finishCommit txnId).run Kv.store kv =
          (finishCommit txnId).run Kv.store (kv.extend [recorded txnId .committing]) := Kv.run_write admitted
      have room : (kv.extend [recorded txnId .committing]).Roomy := roomy_of_accept admitted
      rw [marked]
      refine Effect.after [recorded txnId .committing] ?_ (fun settled => absurd settled open_)
        (finishCommit_effect room ((sound.staged txnId).extend (outside_record _)) ?_)
      · intro write inside
        rw [List.mem_singleton.mp inside]
        exact txnSysPrefix_encodeRecKey txnId
      · unfold Settled
        have now : (kv.extend [recorded txnId .committing]).get (encodeRecKey txnId) =
            some [Txn2pcState.committing.asByte] := (Kv.get_extend _ _ _).trans (if_pos rfl)
        rw [now, parseState_asByte]
        exact nofun
    · have refused : ((setState txnId .committing).bind fun _ => finishCommit txnId).run Kv.store kv =
          (kv, .error reason) := Kv.run_write_failed failed
      rw [refused]
      exact .nothing txnId kv
  unfold applyTxnCommit2pc
  rw [Program.bind_eq, run_readState]
  cases parsed : parseState (kv.get (encodeRecKey txnId)) with
  | error reason => exact .nothing txnId kv
  | ok found =>
    have undone (state : found ≠ some .committed ∧ found ≠ some .aborted) : ¬ Settled txnId kv := by
      unfold Settled
      rw [parsed]
      rintro (same | same)
      · exact state.1 (Except.ok.inj same)
      · exact state.2 (Except.ok.inj same)
    cases found with
    | none => exact mark (undone ⟨nofun, nofun⟩)
    | some state =>
      cases state with
      | preparing => exact mark (undone ⟨nofun, nofun⟩)
      | prepared => exact mark (undone ⟨nofun, nofun⟩)
      | committing =>
        have present : ∃ value, kv.get (encodeRecKey txnId) = some value := by
          cases held : kv.get (encodeRecKey txnId) with
          | none =>
            rw [held] at parsed
            cases parsed
          | some value => exact ⟨value, rfl⟩
        obtain ⟨value, held⟩ := present
        exact finishCommit_effect (sound.room txnId value held) (sound.staged txnId) (undone ⟨nofun, nofun⟩)
      | committed => exact .nothing txnId kv
      | aborted => exact .nothing txnId kv

theorem abort_effect (txnId : UInt64) (kv : Kv) : Effect txnId kv ((applyTxnAbort2pc txnId).run Kv.store kv).1 := by
  by_cases settled : Settled txnId kv
  · unfold applyTxnAbort2pc
    rw [Program.bind_eq, run_readState]
    cases settled with
    | inl committed =>
      rw [committed]
      exact .nothing txnId kv
    | inr aborted =>
      rw [aborted]
      exact .nothing txnId kv
  · exact (writes_applyTxnAbort2pc (List.mem_singleton_self _)).marks.hidden.effect settled

theorem resolve_effect (sound : Sound kv) (commit : Bool) :
    Effect txnId kv ((resolveLocal2pcRecord txnId commit).run Kv.store kv).1 := by
  have either : Effect txnId kv
      ((if commit then applyTxnCommit2pc txnId else applyTxnAbort2pc txnId).run Kv.store kv).1 := by
    cases commit with
    | true => exact commit_effect sound
    | false => exact abort_effect txnId kv
  unfold resolveLocal2pcRecord
  rw [Program.bind_eq, run_readState]
  cases parseState (kv.get (encodeRecKey txnId)) with
  | error reason => exact .nothing txnId kv
  | ok found =>
    cases found with
    | none => exact .nothing txnId kv
    | some state =>
      cases state with
      | preparing => exact either
      | prepared => exact either
      | committing => exact .nothing txnId kv
      | committed => exact .nothing txnId kv
      | aborted => exact .nothing txnId kv

theorem decision_effect (sound : Sound kv) (commit : Bool) :
    Effect txnId kv ((applyTxnDecision txnId commit).run Kv.store kv).1 := by
  unfold applyTxnDecision
  rw [Program.bind_eq, run_readDecision]
  cases parseDecision (kv.get (encodeDecKey txnId)) with
  | error reason => exact .nothing txnId kv
  | ok found =>
    cases found with
    | some prev =>
      dsimp only
      split
      · exact .nothing txnId kv
      · exact resolve_effect sound commit
    | none =>
      have request : TxnRequest ⟨true, encodeDecKey txnId, some [if commit then 1 else 0]⟩ := .decision txnId _
      have later := sound.perform request
      change Effect txnId kv ((Program.write ⟨true, encodeDecKey txnId, some [if commit then 1 else 0]⟩
        (resolveLocal2pcRecord txnId commit) : EngineProgram Unit).run Kv.store kv).1
      rcases kv.perform_cases ⟨true, encodeDecKey txnId, some [if commit then 1 else 0]⟩ with ⟨done, admitted⟩ | ⟨reason, failed, -⟩
      · rw [done] at later
        rw [Kv.run_write admitted]
        refine Effect.after [(encodeDecKey txnId, some [if commit then 1 else 0])] ?_ (fun _ => ?_) ?_
        · intro write inside
          rw [List.mem_singleton.mp inside]
          exact txnSysPrefix_encodeDecKey txnId
        · apply Kv.get_extend_of_not_mem
          intro write inside
          rw [List.mem_singleton.mp inside]
          exact (encodeRecKey_ne_encodeDecKey txnId txnId).symm
        · exact resolve_effect later commit
      · rw [Kv.run_write_failed failed]
        exact .nothing txnId kv

end Commands

inductive TxnCommand where
  | prepare (txnId : UInt64) (mutations : List Mutation)
  | commit2pc (txnId : UInt64)
  | abort2pc (txnId : UInt64)
  | decision (txnId : UInt64) (commit : Bool)

namespace TxnCommand

def txnId : TxnCommand → UInt64
  | prepare txnId _ | commit2pc txnId | abort2pc txnId | decision txnId _ => txnId

def program : TxnCommand → EngineProgram Unit
  | prepare txnId mutations => applyTxnPrepare txnId mutations
  | commit2pc txnId => applyTxnCommit2pc txnId
  | abort2pc txnId => applyTxnAbort2pc txnId
  | decision txnId commit => applyTxnDecision txnId commit

theorem proper (command : TxnCommand) : Proper command.program := by
  cases command with
  | prepare txnId mutations => exact (writes_applyTxnPrepare mutations).proper
  | commit2pc txnId => exact (@writes_applyTxnCommit2pc txnId [.committing, .committed] (by decide) (by decide)).proper
  | abort2pc txnId => exact (@writes_applyTxnAbort2pc txnId False [.aborted] (by decide)).proper
  | decision txnId commit => exact proper_applyTxnDecision commit

theorem apart (command : TxnCommand) {other : UInt64} (differ : command.txnId ≠ other) : Apart other command.program := by
  cases command with
  | prepare txnId mutations => exact (writes_applyTxnPrepare mutations).records.apart differ
  | commit2pc txnId =>
    exact (@writes_applyTxnCommit2pc txnId [.committing, .committed] (by decide) (by decide)).records.apart differ
  | abort2pc txnId => exact (@writes_applyTxnAbort2pc txnId False [.aborted] (by decide)).records.apart differ
  | decision txnId commit => exact apart_applyTxnDecision differ commit

end TxnCommand

/-- A store, and which user keys the commands of each transaction have written. -/
structure TxnRun where
  kv : Kv
  written : List (UInt64 × Bytes)

namespace TxnRun

/-- A command that fails keeps what it wrote before. -/
def step (run : TxnRun) (command : TxnCommand) : TxnRun :=
  let after := (command.program.run Kv.store run.kv).1
  ⟨after, run.written ++
    (userKeys (after.journal.drop run.kv.journal.length)).map fun key => (command.txnId, key)⟩

/-- No prepare is applied to a transaction whose outcome is recorded. -/
def Timely (run : TxnRun) : TxnCommand → Prop
  | .prepare txnId _ => ¬ Settled txnId run.kv
  | _ => True

instance (run : TxnRun) (command : TxnCommand) : Decidable (run.Timely command) :=
  match command with
  | .prepare _ _ => inferInstanceAs (Decidable (¬ (_ ∨ _)))
  | .commit2pc _ | .abort2pc _ | .decision _ _ => isTrue trivial

variable {run : TxnRun} {command : TxnCommand}
  {txnId : UInt64}

theorem command_effect (sound : Sound run.kv) (timely : run.Timely command) :
    Effect command.txnId run.kv (command.program.run Kv.store run.kv).1 := by
  cases command with
  | prepare txnId mutations => exact (writes_applyTxnPrepare mutations).marks.hidden.effect timely
  | commit2pc txnId => exact commit_effect sound
  | abort2pc txnId => exact abort_effect txnId run.kv
  | decision txnId commit => exact decision_effect sound commit

/-- Every transaction has written each user key at most once, and none before its
record says that it is committed. -/
structure Once (run : TxnRun) : Prop where
  sound : Sound run.kv
  distinct : run.written.Nodup
  committed : ∀ txnId key, (txnId, key) ∈ run.written →
    parseState (run.kv.get (encodeRecKey txnId)) = .ok (some .committed)

theorem get_record_other (differ : command.txnId ≠ txnId) :
    (run.step command).kv.get (encodeRecKey txnId) = run.kv.get (encodeRecKey txnId) := by
  have same := Program.Throughout.run _ ((command.apart differ).throughout run.kv)
  rw [Kv.get_of_records (txnKey_encodeRecKey txnId), Kv.get_of_records (txnKey_encodeRecKey txnId)]
  exact congrArg (fun records => valueAfter records (encodeRecKey txnId) none) same

theorem get_record_settled (sound : Sound run.kv) (timely : run.Timely command) (settled : Settled txnId run.kv) :
    (run.step command).kv.get (encodeRecKey txnId) = run.kv.get (encodeRecKey txnId) := by
  by_cases own : command.txnId = txnId
  · subst own
    have effect := command_effect sound timely
    change (command.program.run Kv.store run.kv).1.get _ = _
    generalize (command.program.run Kv.store run.kv).1 = after at effect ⊢
    cases effect with
    | hidden writes _ kept => exact kept settled
    | commits writes open_ _ _ => exact absurd settled open_
  · exact get_record_other own

theorem Once.step (once : run.Once) (timely : run.Timely command) : (run.step command).Once := by
  have sound : Sound (run.step command).kv := Program.Throughout.run _ (once.sound.throughout command.proper)
  -- What was written before was written by transactions that are committed, and stay so.
  have earlier : ∀ txnId key, (txnId, key) ∈ run.written →
      parseState ((run.step command).kv.get (encodeRecKey txnId)) = .ok (some .committed) := by
    intro txnId key inside
    have committed := once.committed txnId key inside
    rw [get_record_settled once.sound timely (.inl committed)]
    exact committed
  have effect := command_effect once.sound timely
  rcases ended : (command.program.run Kv.store run.kv).1 with after
  have written : (run.step command).written = run.written ++
      (userKeys (after.journal.drop run.kv.journal.length)).map fun key => (command.txnId, key) := by
    rw [← ended]
    rfl
  have now : (run.step command).kv = after := ended
  rw [ended] at effect
  cases effect with
  | hidden writes system _ =>
    have nothing : (run.step command).written = run.written := by
      rw [written, Kv.extend, List.drop_left, userKeys_of_hidden system]
      exact List.append_nil _
    refine ⟨sound, ?_, ?_⟩
    · rw [nothing]
      exact once.distinct
    · rw [nothing]
      exact earlier
  | commits writes open_ distinct committed =>
    rw [Kv.extend, List.drop_left] at written
    refine ⟨sound, ?_, fun txnId key inside => ?_⟩
    · rw [written, List.nodup_append']
      refine ⟨once.distinct, distinct.map fun _ _ same => (Prod.mk.inj same).2, fun pair old new => ?_⟩
      obtain ⟨key, -, rfl⟩ := List.mem_map.mp new
      exact open_ (.inl (once.committed _ _ old))
    · rw [written] at inside
      rcases List.mem_append.mp inside with old | new
      · exact earlier txnId key old
      · obtain ⟨other, -, same⟩ := List.mem_map.mp new
        obtain ⟨rfl, -⟩ := Prod.mk.inj same
        rw [now]
        exact committed

theorem Once.start {kv : Kv} (unused : ∀ write ∈ kv.journal, ¬ txnSysPrefix <+: write.1) : (TxnRun.mk kv []).Once := by
  have absent {key : Bytes} (system : txnSysPrefix <+: key) : kv.get key = none :=
    valueAfter_of_not_mem (fun write inside same => unused write inside (same ▸ system)) none
  refine ⟨⟨fun txnId userKey value found => ?_, fun txnId value found => ?_⟩, List.nodup_nil, ?_⟩
  · rw [absent (txnSysPrefix_encodeIntentKey txnId userKey)] at found
    cases found
  · rw [absent (txnSysPrefix_encodeRecKey txnId)] at found
    cases found
  · exact fun _ _ inside => absurd inside List.not_mem_nil

end TxnRun

end KayaDB.Storage
