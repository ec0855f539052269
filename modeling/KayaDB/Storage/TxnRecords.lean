import KayaDB.Storage.TxnKeys

/-! What the journal of a store says about one transaction. A dropped intent was
materialised if the record said then that the transaction is being committed, and was
given up otherwise. -/

namespace KayaDB.Storage
open Raft
open Programs EngineProgram

def txnKey (txnId : UInt64) (key : Bytes) : Bool :=
  key = encodeRecKey txnId ∨ key = encodeDecKey txnId ∨ encodeIntentScanPrefix txnId <+: key

def Kv.records (txnId : UInt64) (kv : Kv) : List (Bytes × Option Bytes) := kv.journal.filter fun write => txnKey txnId write.1

theorem txnKey_encodeRecKey (txnId : UInt64) : txnKey txnId (encodeRecKey txnId) = true :=
  decide_eq_true (Or.inl rfl)

theorem txnKey_encodeDecKey (txnId : UInt64) : txnKey txnId (encodeDecKey txnId) = true :=
  decide_eq_true (Or.inr (Or.inl rfl))

variable {key : Bytes} {txnId : UInt64} {request : WriteRequest}

theorem txnKey_of_intent (starts : encodeIntentScanPrefix txnId <+: key) : txnKey txnId key = true :=
  decide_eq_true (Or.inr (Or.inr starts))

theorem txnSysPrefix_of_txnKey (own : txnKey txnId key = true) : txnSysPrefix <+: key := by
  rcases of_decide_eq_true own with rfl | rfl | starts
  · exact txnSysPrefix_encodeRecKey txnId
  · exact txnSysPrefix_encodeDecKey txnId
  · obtain ⟨userKey, rfl⟩ := intentPrefix_iff.mp starts
    exact txnSysPrefix_encodeIntentKey txnId userKey

theorem txnKey_ne {other : UInt64} (apart : other ≠ txnId) (own : txnKey other key = true) :
    txnKey txnId key = false := by
  apply decide_eq_false
  rcases of_decide_eq_true own with rfl | rfl | starts
  · rintro (same | same | starts)
    · exact apart (encodeRecKey_injective same)
    · exact encodeRecKey_ne_encodeDecKey other txnId same
    · obtain ⟨userKey, same⟩ := intentPrefix_iff.mp starts
      exact encodeIntentKey_ne_encodeRecKey txnId other userKey same.symm
  · rintro (same | same | starts)
    · exact encodeRecKey_ne_encodeDecKey txnId other same.symm
    · exact apart (encodeDecKey_injective same)
    · obtain ⟨userKey, same⟩ := intentPrefix_iff.mp starts
      exact encodeIntentKey_ne_encodeDecKey txnId other userKey same.symm
  · obtain ⟨userKey, rfl⟩ := intentPrefix_iff.mp starts
    rintro (same | same | starts)
    · exact encodeIntentKey_ne_encodeRecKey other txnId userKey same
    · exact encodeIntentKey_ne_encodeDecKey other txnId userKey same
    · obtain ⟨otherKey, same⟩ := intentPrefix_iff.mp starts
      exact apart (encodeIntentKey_injective same).1

theorem valueAfter_filter (test : Bytes → Bool) (own : test key = true) (journal : List (Bytes × Option Bytes)) :
    ∀ before,
      valueAfter (journal.filter fun write => test write.1) key before = valueAfter journal key before := by
  induction journal with
  | nil => exact fun _ => rfl
  | cons write rest ih =>
    intro before
    cases inside : test write.1 with
    | true =>
      simp only [List.filter_cons, inside, if_true]
      exact ih _
    | false =>
      have other : write.1 ≠ key := by
        rintro rfl
        rw [own] at inside
        cases inside
      simp only [List.filter_cons, inside, Bool.false_eq_true, if_false]
      rw [ih]
      exact (congrArg (valueAfter rest key) (if_neg other)).symm

namespace Kv
variable {kv : Kv} {request : WriteRequest} {txnId : UInt64}

theorem get_of_records {key : Bytes} (own : txnKey txnId key = true) :
    kv.get key = valueAfter (kv.records txnId) key none :=
  (valueAfter_filter (txnKey txnId) own kv.journal none).symm

theorem records_record_other (other : txnKey txnId request.key = false) :
    (kv.record request).records txnId = kv.records txnId := by
  unfold records record
  rw [List.filter_append, List.filter_singleton, other]
  exact List.append_nil _

end Kv

/-- A write that is not for this transaction: through the public interface, or
under another key. -/
def Elsewhere (txnId : UInt64) (request : WriteRequest) : Prop :=
  request.raw = false ∨ txnKey txnId request.key = false

theorem Elsewhere.records (elsewhere : Elsewhere txnId request) (kv : Kv) :
    (kv.perform request).1.records txnId = kv.records txnId := by
  rcases kv.perform_cases request with ⟨done, admitted⟩ | ⟨reason, failed, -⟩
  · rw [done]
    apply Kv.records_record_other
    rcases elsewhere with checked | other
    · cases own : txnKey txnId request.key with
      | false => rfl
      | true => exact absurd (txnSysPrefix_of_txnKey own) (not_system_of_accept admitted checked)
    · exact other
  · rw [failed]

/-- A program that has nothing to do with the transaction. -/
abbrev Apart (txnId : UInt64) {α : Type} (program : EngineProgram α) : Prop :=
  program.Only Kv.Under (Elsewhere txnId)

theorem Apart.throughout {α : Type} {program : EngineProgram α} (apart : Apart txnId program) (kv : Kv) :
    program.Throughout Kv.store (fun later => later.records txnId = kv.records txnId) kv :=
  Program.Only.throughout program (fun _ _ _ => Kv.under_of_scan)
    (fun state _ same elsewhere => (elsewhere.records state).trans same) apart rfl

def Marking (txnId : UInt64) (request : WriteRequest) : Prop :=
  request.key = encodeRecKey txnId ∨ encodeIntentScanPrefix txnId <+: request.key

def Recording (txnId : UInt64) (request : WriteRequest) : Prop := request.raw = false ∨ Marking txnId request

abbrev Marks (txnId : UInt64) {α : Type} (program : EngineProgram α) : Prop := program.Only Kv.Under (Marking txnId)

abbrev Records (txnId : UInt64) {α : Type} (program : EngineProgram α) : Prop := program.Only Kv.Under (Recording txnId)

theorem Marking.txnKey (marking : Marking txnId request) : txnKey txnId request.key = true :=
  marking.elim (fun same => same ▸ txnKey_encodeRecKey txnId) txnKey_of_intent

/-- The writes of one transaction other than its decision: those a user sees, if
there are such, states of its record, and its intents. -/
inductive TxnWrite (txnId : UInt64) (seen : Prop) (states : List Txn2pcState) : WriteRequest → Prop where
  | user (key : Bytes) (value : Option Bytes) (shown : seen) : TxnWrite txnId seen states ⟨false, key, value⟩
  | state {state : Txn2pcState} (listed : state ∈ states) :
      TxnWrite txnId seen states ⟨true, encodeRecKey txnId, some [state.asByte]⟩
  | intent (userKey : Bytes) (value : Option Bytes) (filled : userKey ≠ [])
      (user : ¬ (txnSysPrefix <+: userKey ∨ indexSysPrefix <+: userKey)) :
      TxnWrite txnId seen states ⟨true, encodeIntentKey txnId userKey, some (encodeIntentValue value)⟩
  | drop (userKey : Bytes) : TxnWrite txnId seen states ⟨true, encodeIntentKey txnId userKey, none⟩

abbrev Writes (txnId : UInt64) (seen : Prop) (states : List Txn2pcState) {α : Type} (program : EngineProgram α) : Prop :=
  program.Only Kv.Under (TxnWrite txnId seen states)

section Programs
variable {txnId other : UInt64} {α : Type} {program : EngineProgram α} {seen : Prop} {states : List Txn2pcState}

theorem Writes.records (writes : Writes txnId seen states program) : Records txnId program := by
  refine Program.Only.mono program (fun _ write => ?_) writes
  cases write with
  | user => exact Or.inl rfl
  | state => exact Or.inr (Or.inl rfl)
  | intent userKey | drop userKey => exact Or.inr (Or.inr (intentPrefix_iff.mpr ⟨userKey, rfl⟩))

theorem Writes.marks (writes : Writes txnId False states program) : Marks txnId program := by
  refine Program.Only.mono program (fun _ write => ?_) writes
  cases write with
  | user _ _ shown => cases shown
  | state => exact Or.inl rfl
  | intent userKey | drop userKey => exact Or.inr (intentPrefix_iff.mpr ⟨userKey, rfl⟩)

theorem Records.apart (records : Records other program) (differ : other ≠ txnId) : Apart txnId program :=
  Program.Only.mono program (fun _ => Or.imp_right fun marking => txnKey_ne differ marking.txnKey) records

theorem writes_setState {state : Txn2pcState} (listed : state ∈ states) :
    Writes txnId seen states (setState txnId state) := ⟨.state listed, trivial⟩

theorem writes_stageIntents (mutations : List Mutation) : Writes txnId seen states (stageIntents txnId mutations) := by
  induction mutations with
  | nil => trivial
  | cons mutation rest ih =>
    obtain ⟨key, value⟩ := mutation
    simp only [stageIntents]
    split
    · trivial
    next filled =>
      split
      · trivial
      next user => exact ⟨.intent key value (by simpa using filled) user, ih⟩

theorem writes_applyTxnPrepare (mutations : List Mutation) :
    Writes txnId False [.preparing, .prepared] (applyTxnPrepare txnId mutations) :=
  Program.Only.bind _ (writes_setState (by decide)) fun _ =>
    Program.Only.bind _ (writes_stageIntents mutations) fun _ => writes_setState (by decide)

theorem writes_deleteRows {rows : List (Bytes × Bytes)} (under : Kv.Under (encodeIntentScanPrefix txnId) rows) :
    Writes txnId seen states (deleteRows rows) := by
  induction rows with
  | nil => trivial
  | cons row rest ih =>
    obtain ⟨userKey, same⟩ := intentPrefix_iff.mp (under row List.mem_cons_self)
    refine ⟨?_, ih fun later inside => under later (List.mem_cons_of_mem _ inside)⟩
    rw [same]
    exact .drop userKey

theorem writes_clearDurableIntents : Writes txnId seen states (clearDurableIntents txnId) :=
  fun _ under => writes_deleteRows under

theorem writes_readTxn2pcState : Writes txnId seen states (readTxn2pcState txnId) := fun _ => Program.Only.ofExcept _

theorem writes_readTxnDecision : Writes txnId seen states (readTxnDecision txnId) := fun _ => Program.Only.ofExcept _

theorem writes_applyTxnAbort2pc (listed : .aborted ∈ states) : Writes txnId seen states (applyTxnAbort2pc txnId) := by
  refine Program.Only.bind _ writes_readTxn2pcState fun found => ?_
  split
  · trivial
  · trivial
  · trivial
  all_goals exact Program.Only.bind _ writes_clearDurableIntents fun _ => writes_setState listed

theorem writes_applyMutations (mutations : List Mutation) : Writes txnId True states (applyMutations mutations) := by
  induction mutations with
  | nil => trivial
  | cons mutation rest ih =>
    obtain ⟨key, value⟩ := mutation
    cases value with
    | none | some => exact ⟨.user key _ trivial, ih⟩

theorem writes_finishCommit (listed : .committed ∈ states) : Writes txnId True states (finishCommit txnId) :=
  Program.Only.bind _ (fun _ _ => Program.Only.ofExcept _) fun mutations =>
    Program.Only.bind _ (writes_applyMutations mutations) fun _ =>
      Program.Only.bind _ writes_clearDurableIntents fun _ => writes_setState listed

theorem writes_applyTxnCommit2pc (marked : .committing ∈ states) (listed : .committed ∈ states) :
    Writes txnId True states (applyTxnCommit2pc txnId) := by
  refine Program.Only.bind _ writes_readTxn2pcState fun found => ?_
  split
  · trivial
  · trivial
  · exact writes_finishCommit listed
  all_goals exact Program.Only.bind _ (writes_setState marked) fun _ => writes_finishCommit listed

theorem writes_resolveLocal2pcRecord (commit : Bool) :
    Writes txnId True [.committing, .committed, .aborted] (resolveLocal2pcRecord txnId commit) := by
  refine Program.Only.bind _ writes_readTxn2pcState fun found => ?_
  have either : Writes txnId True [.committing, .committed, .aborted]
      (if commit then applyTxnCommit2pc txnId else applyTxnAbort2pc txnId) := by
    cases commit with
    | true => exact writes_applyTxnCommit2pc (by decide) (by decide)
    | false => exact writes_applyTxnAbort2pc (by decide)
  split
  · exact either
  · exact either
  · trivial

theorem apart_applyTxnDecision (differ : other ≠ txnId) (commit : Bool) : Apart txnId (applyTxnDecision other commit) := by
  refine Program.Only.bind _ ((@writes_readTxnDecision _ True []).records.apart differ) fun found => ?_
  have resolve := (writes_resolveLocal2pcRecord commit).records.apart differ
  cases found with
  | some prev =>
    dsimp only
    split
    · trivial
    · exact resolve
  | none => exact ⟨Or.inr (txnKey_ne differ (txnKey_encodeDecKey other)), resolve⟩

end Programs

end KayaDB.Storage
