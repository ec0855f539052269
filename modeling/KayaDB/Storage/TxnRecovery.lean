import KayaDB.Storage.TxnOutcomes

/-! Recovery of transactions across groups. A decision is written once, and every
recovery follows it: it finishes commits that were begun, aborts prepares that were
not finished, and leaves a prepared transaction without a decision in doubt. -/

namespace KayaDB.Storage
open Raft
open Programs EngineProgram

def parseRecTxnId (key : Bytes) : Option UInt64 :=
  if key.length ≠ txnRecPrefix.length + 8 then none
  else if ¬ txnRecPrefix <+: key then none
  else some (.ofNat (fromLeBytes (key.drop txnRecPrefix.length).reverse))

structure Txn2pcRecoveryStats where
  aborted : Nat
  finishedCommits : Nat
  undecidedPrepared : List UInt64
deriving DecidableEq, Repr

def recoverAbort (txnId : UInt64) (stats : Txn2pcRecoveryStats) : EngineProgram Txn2pcRecoveryStats := do
  applyTxnAbort2pc txnId
  return { stats with aborted := stats.aborted + 1 }

def recoverCommit (txnId : UInt64) (stats : Txn2pcRecoveryStats) : EngineProgram Txn2pcRecoveryStats := do
  applyTxnCommit2pc txnId
  return { stats with finishedCommits := stats.finishedCommits + 1 }

/-- Without a decision, only a prepare that was not finished may be aborted. -/
def recoverPrepare (txnId : UInt64) (state : Txn2pcState) (stats : Txn2pcRecoveryStats) :
    EngineProgram Txn2pcRecoveryStats := do
  match ← readTxnDecision txnId with
  | some true => recoverCommit txnId stats
  | some false => recoverAbort txnId stats
  | none =>
    if state = .preparing then recoverAbort txnId stats
    else return { stats with undecidedPrepared := stats.undecidedPrepared ++ [txnId] }

def recoverRecord (txnId : UInt64) (state : Txn2pcState) (stats : Txn2pcRecoveryStats) :
    EngineProgram Txn2pcRecoveryStats :=
  match state with
  | .preparing | .prepared => recoverPrepare txnId state stats
  | .committing => recoverCommit txnId stats
  | .committed | .aborted => return stats

def recoverRows (stats : Txn2pcRecoveryStats) : List (Bytes × Bytes) → EngineProgram Txn2pcRecoveryStats
  | [] => return stats
  | (key, value) :: rest =>
    match parseRecTxnId key, value with
    | some txnId, byte :: _ =>
      match Txn2pcState.fromByte byte with
      | .error reason => .fail reason
      | .ok state => do
        let stats ← recoverRecord txnId state stats
        recoverRows stats rest
    | _, _ => recoverRows stats rest

def recoverIncomplete2pc : EngineProgram Txn2pcRecoveryStats := do
  let rows ← scanPrefix txnRecPrefix
  recoverRows ⟨0, 0, []⟩ rows

/-- What a group's engine goes through: commands of its log, and restarts. -/
inductive TxnStep where
  | apply (command : TxnCommand)
  | recover

/-- What fails keeps what it wrote before. -/
def TxnStep.run (kv : Kv) : TxnStep → Kv
  | apply command => (command.program.run Kv.store kv).1
  | recover => (recoverIncomplete2pc.run Kv.store kv).1

def Decided (txnId : UInt64) (commit : Bool) (kv : Kv) : Prop :=
  parseDecision (kv.get (encodeDecKey txnId)) = .ok (some commit)

/-- The record stays or comes to tell one of the states. -/
def Within (txnId : UInt64) (states : List Txn2pcState) (before after : Kv) : Prop :=
  after.get (encodeRecKey txnId) = before.get (encodeRecKey txnId) ∨ ∃ state ∈ states, Recorded txnId after state

def outcomes (commit : Bool) : List Txn2pcState := if commit then [.committing, .committed] else [.aborted]

variable {kv : Kv} {txnId : UInt64} {states : List Txn2pcState} {seen : Prop} {α : Type} {program : EngineProgram α}

theorem parseRecTxnId_eq_some {key : Bytes} (parsed : parseRecTxnId key = some txnId) : key = encodeRecKey txnId := by
  unfold parseRecTxnId at parsed
  split at parsed
  next => cases parsed
  next long =>
  split at parsed
  next => cases parsed
  next starts =>
    obtain ⟨rest, rfl⟩ := not_not.mp starts
    rw [not_not, List.length_append, Nat.add_left_cancel_iff] at long
    rw [List.drop_left] at parsed
    cases parsed
    have small := fromLeBytes_lt rest.reverse
    have back := toLeBytes_fromLeBytes rest.reverse
    rw [List.length_reverse, long] at small back
    rw [encodeRecKey, txnIdBytes, u64Bytes, UInt64.toNat_ofNat_of_lt' small, back, List.reverse_reverse]

theorem holds_after (Holds : Kv → Prop) {Allowed : WriteRequest → Prop} (only : program.Only Kv.Under Allowed)
    (kept : ∀ {state request}, Holds state → Allowed request → state.accept request = .ok () → Holds (state.record request))
    (held : Holds kv) : Holds (program.run Kv.store kv).1 := by
  refine Program.Throughout.run program (Program.Only.throughout program (fun _ _ _ => Kv.under_of_scan) ?_ only held)
  intro state request before allowed
  change Holds (state.perform request).1
  rcases state.perform_cases request with ⟨done, admitted⟩ | ⟨reason, failed, -⟩
  · rw [done]
    exact kept before allowed admitted
  · rw [failed]
    exact before

theorem Records.decision (records : Records txnId program) (kv : Kv) :
    (program.run Kv.store kv).1.get (encodeDecKey txnId) = kv.get (encodeDecKey txnId) := by
  refine holds_after (fun later => later.get (encodeDecKey txnId) = kv.get (encodeDecKey txnId)) records ?_ rfl
  intro state request same recording admitted
  rw [Kv.get_record, if_neg]
  · exact same
  · intro here
    rcases recording with checked | marked | starts
    · exact not_system_of_accept admitted checked (here ▸ txnSysPrefix_encodeDecKey txnId)
    · exact encodeRecKey_ne_encodeDecKey txnId txnId (marked.symm.trans here)
    · obtain ⟨userKey, marked⟩ := intentPrefix_iff.mp starts
      exact encodeIntentKey_ne_encodeDecKey txnId txnId userKey (marked.symm.trans here)

theorem Writes.within (writes : Writes txnId seen states program) {before : Kv} (within : Within txnId states before kv) :
    Within txnId states before (program.run Kv.store kv).1 := by
  refine holds_after (Within txnId states before) writes ?_ within
  intro state request same write admitted
  unfold Within Recorded
  rw [Kv.get_record]
  split
  next here =>
    cases write with
    | user key value => exact absurd (here ▸ txnSysPrefix_encodeRecKey txnId) (not_system_of_accept admitted rfl)
    | state listed => exact Or.inr ⟨_, listed, parseState_asByte _⟩
    | intent userKey | drop userKey => exact absurd here (encodeIntentKey_ne_encodeRecKey txnId txnId userKey)
  next => exact same

theorem writes_recoverCommit (stats : Txn2pcRecoveryStats) : Writes txnId True (outcomes true) (recoverCommit txnId stats) :=
  Program.Only.bind _ (writes_applyTxnCommit2pc (by decide) (by decide)) fun _ => trivial

theorem writes_recoverAbort (stats : Txn2pcRecoveryStats) : Writes txnId True (outcomes false) (recoverAbort txnId stats) :=
  Program.Only.bind _ (writes_applyTxnAbort2pc (by decide)) fun _ => trivial

theorem records_recoverRecord (state : Txn2pcState) (stats : Txn2pcRecoveryStats) :
    Records txnId (recoverRecord txnId state stats) := by
  have commit := (@writes_recoverCommit txnId stats).records
  have abort := (@writes_recoverAbort txnId stats).records
  have prepare (state : Txn2pcState) : Records txnId (recoverPrepare txnId state stats) := by
    refine Program.Only.bind _ (@writes_readTxnDecision txnId True []).records fun found => ?_
    split
    · exact commit
    · exact abort
    · split
      · exact abort
      · trivial
  cases state with
  | preparing | prepared => exact prepare _
  | committing => exact commit
  | committed | aborted => trivial

/-- What holds of a transaction's records after recovery: it is enough to look at
the transaction's own record as it was before. -/
theorem recover_keeps (Inv : Kv → Prop)
    (local_ : ∀ {first second : Kv}, second.records txnId = first.records txnId → Inv first → Inv second)
    (own : ∀ state, Recorded txnId kv state → ∀ stats other, Inv other →
      Inv ((recoverRecord txnId state stats).run Kv.store other).1)
    (held : Inv kv) : Inv (recoverIncomplete2pc.run Kv.store kv).1 := by
  have eachRow : ∀ rows : List (Bytes × Bytes), (∀ row ∈ rows, kv.get row.1 = some row.2) →
      ∀ stats other, Inv other → Inv ((recoverRows stats rows).run Kv.store other).1 := by
    intro rows
    induction rows with
    | nil => exact fun _ _ _ held => held
    | cons row rest ih =>
      obtain ⟨key, value⟩ := row
      intro stored stats other held
      have later := ih fun row inside => stored row (List.mem_cons_of_mem _ inside)
      unfold recoverRows
      split
      next id byte tail parsed =>
        split
        next => exact held
        next state known =>
          have first : Inv ((recoverRecord id state stats).run Kv.store other).1 := by
            by_cases same : id = txnId
            · subst same
              refine own state ?_ stats other held
              rw [Recorded, ← parseRecTxnId_eq_some parsed, stored _ List.mem_cons_self]
              exact congrArg (Except.map some) known
            · have apart := (records_recoverRecord state stats).apart same
              exact local_ (Program.Throughout.run _ (apart.throughout other)) held
          rw [Program.bind_eq, Program.run_bind]
          rcases ended : (recoverRecord id state stats).run Kv.store other with ⟨after, _ | stats⟩ <;> rw [ended] at first
          · exact first
          · exact later stats after first
      next => exact later stats other held
  cases scanned : kv.scanPrefix txnRecPrefix with
  | error reason =>
    have refused : recoverIncomplete2pc.run Kv.store kv = (kv, .error reason) := by
      simp only [recoverIncomplete2pc, scanPrefix, Program.bind_eq, Program.bind, Program.run, Kv.store, scanned]
    rw [refused]
    exact held
  | ok rows =>
    have started : recoverIncomplete2pc.run Kv.store kv = (recoverRows ⟨0, 0, []⟩ rows).run Kv.store kv := run_scan scanned
    rw [started]
    exact eachRow rows (fun row inside => (Kv.mem_scan scanned inside).2) _ kv held

theorem Within.congr {before first second : Kv} (same : second.records txnId = first.records txnId)
    (within : Within txnId states before first) : Within txnId states before second := by
  have record : second.get (encodeRecKey txnId) = first.get (encodeRecKey txnId) := by
    rw [Kv.get_of_records (txnKey_encodeRecKey txnId), Kv.get_of_records (txnKey_encodeRecKey txnId), same]
  unfold Within Recorded
  rw [record]
  exact within

theorem decision_of_records {first second : Kv} (same : second.records txnId = first.records txnId) :
    second.get (encodeDecKey txnId) = first.get (encodeDecKey txnId) := by
  rw [Kv.get_of_records (txnKey_encodeDecKey txnId), Kv.get_of_records (txnKey_encodeDecKey txnId), same]

theorem Decided.step {commit : Bool} (decided : Decided txnId commit kv) (step : TxnStep) :
    Decided txnId commit (step.run kv) := by
  have kept : (step.run kv).get (encodeDecKey txnId) = kv.get (encodeDecKey txnId) := by
    cases step with
    | recover =>
      exact recover_keeps (fun later => later.get (encodeDecKey txnId) = kv.get (encodeDecKey txnId))
        (fun same held => (decision_of_records same).trans held)
        (fun state _ stats other held => ((records_recoverRecord state stats).decision other).trans held) rfl
    | apply command =>
      by_cases own : command.txnId = txnId
      · subst own
        cases command with
        | prepare txnId mutations => exact (writes_applyTxnPrepare mutations).records.decision kv
        | commit2pc txnId =>
          exact (@writes_applyTxnCommit2pc txnId (outcomes true) (by decide) (by decide)).records.decision kv
        | abort2pc txnId => exact (@writes_applyTxnAbort2pc txnId True (outcomes false) (by decide)).records.decision kv
        | decision txnId other =>
          have known : parseDecision (kv.get (encodeDecKey txnId)) = .ok (some commit) := decided
          change ((applyTxnDecision txnId other).run Kv.store kv).1.get _ = _
          unfold applyTxnDecision
          rw [Program.bind_eq, run_readDecision, known]
          dsimp only
          split
          · rfl
          · exact (writes_resolveLocal2pcRecord other).records.decision kv
      · exact decision_of_records (Program.Throughout.run _ ((command.apart own).throughout kv))
  rw [Decided, kept]
  exact decided

example : Recorded 7 (([.apply (.decision 7 true), .apply (.prepare 7 [([107], some [49])]), .recover] :
    List TxnStep).foldl TxnStep.run Kv.new) .committed := by
  unfold Recorded
  decide +kernel

end KayaDB.Storage
