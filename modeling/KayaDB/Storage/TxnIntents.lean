import KayaDB.Storage.Transactions

/-! Runs of transactions, with a ledger kept from the outcomes of the calls alone:
which transactions are open and what each has staged. The tables of the engine
agree with it. -/

namespace KayaDB.Storage
open Raft (Bytes)
open Versions

inductive TxnCall where
  | begin
  | put (txnId : UInt64) (key value : Bytes)
  | delete (txnId : UInt64) (key : Bytes)
  | prepareCommit (txnId : UInt64)
  | takeCommit (txnId : UInt64)
  | commit (txnId : UInt64) (clocks : List (Option UInt64))
  | rollback (txnId : UInt64)
  | request (event : Event)
deriving DecidableEq, Repr

/-- An open transaction: how many versions there were when it began, and what it
has staged since, the last write first. -/
structure OpenTxn where
  begun : Nat
  staged : List TxnMutation
deriving DecidableEq, Repr

def OpenTxn.last (txn : OpenTxn) (key : Bytes) : Option (Option Bytes) :=
  (txn.staged.find? fun mutation => mutation.1 = key).map Prod.snd

abbrev Ledger := UInt64 → Option OpenTxn

namespace Ledger

/-- A write counts when it was accepted. -/
def stage (ledger : Ledger) (txnId : UInt64) (mutation : TxnMutation) (result : Except TxnError Unit) : Ledger :=
  match result with
  | .ok () => Function.update ledger txnId ((ledger txnId).map fun txn => { txn with staged := mutation :: txn.staged })
  | .error _ => ledger

/-- The transaction is over, unless the call was turned down. -/
def finish {α : Type} (ledger : Ledger) (txnId : UInt64) (result : Except TxnError α) : Ledger :=
  match result with
  | .ok _ => Function.update ledger txnId none
  | .error _ => ledger

end Ledger

def Engine.versions (engine : Engine) : List TxnMutation → List (Option UInt64) → List SstEntry
  | [], _ => []
  | mutation :: mutations, clocks =>
    match engine.accepted (mutationEvent mutation (clocks.headD none)) with
    | none => []
    | some entry =>
      entry :: (engine.step (mutationEvent mutation (clocks.headD none))).versions mutations clocks.tail

structure TxnSession where
  db : TxnEngine
  written : List SstEntry
  ledger : Ledger

namespace TxnSession

def start (engine : Engine) (lastSequence : Nat) (written : List SstEntry) : TxnSession :=
  ⟨.start engine lastSequence, written, fun _ => none⟩

def step (session : TxnSession) : TxnCall → TxnSession
  | .begin =>
    let (db, id, _) := session.db.beginTxn
    { session with db, ledger := Function.update session.ledger id (some ⟨session.written.length, []⟩) }
  | .put txnId key value =>
    let (db, result) := session.db.txnPut txnId key value
    { session with db, ledger := session.ledger.stage txnId (key, some value) result }
  | .delete txnId key =>
    let (db, result) := session.db.txnDelete txnId key
    { session with db, ledger := session.ledger.stage txnId (key, none) result }
  | .prepareCommit _ => session
  | .takeCommit txnId =>
    let (db, result) := session.db.txnTakeCommit txnId
    { session with db, ledger := session.ledger.finish txnId result }
  | .commit txnId clocks =>
    -- a commit takes the transaction first; a write that fails then does not bring it back
    let (db, taken) := session.db.txnTakeCommit txnId
    let mutations := taken.toOption.getD []
    ⟨(session.db.txnCommit txnId clocks).1, session.written ++ db.engine.versions mutations clocks,
      session.ledger.finish txnId taken⟩
  | .rollback txnId =>
    let (db, result) := session.db.txnRollback txnId
    { session with db, ledger := session.ledger.finish txnId result }
  | .request event =>
    { session with db := session.db.request event, written := session.written ++ (session.db.engine.accepted event).toList }

def run (session : TxnSession) (calls : List TxnCall) : TxnSession := calls.foldl step session

end TxnSession

def TxnTables.Locked (tables : TxnTables) (key : Bytes) (txnId : UInt64) : Prop :=
  (tables.intents key).map Intent.txnId = some txnId

theorem TxnTables.dropIntent_eq (txnId : UInt64) (intents : Bytes → Option Intent) (key : Bytes) :
    dropIntent txnId intents key = Function.update intents key ((intents key).filter fun intent => intent.txnId ≠ txnId) := by
  unfold dropIntent
  cases held : intents key with
  | none =>
    have same : Function.update intents key none = intents := by rw [← held, Function.update_eq_self]
    exact same.symm
  | some intent =>
    dsimp only
    split
    next own => simp [Option.filter, own]
    next other =>
      have stays : (some intent).filter (fun intent => intent.txnId ≠ txnId) = intents key := by
        simp [Option.filter, other, held]
      rw [stays, Function.update_eq_self]

theorem TxnTables.dropIntents_eq (txnId : UInt64) (keys : List Bytes) : ∀ (intents : Bytes → Option Intent) (key : Bytes),
    dropIntents intents txnId keys key =
      if key ∈ keys then (intents key).filter fun intent => intent.txnId ≠ txnId else intents key := by
  induction keys with
  | nil => exact fun intents key => rfl
  | cons first keys ih =>
    intro intents key
    have rest := ih (dropIntent txnId intents first) key
    rw [dropIntent_eq] at rest
    unfold dropIntents at rest ⊢
    rw [List.foldl_cons, dropIntent_eq, rest]
    by_cases same : key = first
    · subst same
      simp [Option.filter_filter]
    · simp [same]

theorem TxnEngine.applyMutations_txn (mutations : List TxnMutation) : ∀ (db : TxnEngine) (clocks : List (Option UInt64)),
    (db.applyMutations mutations clocks).1.txn = db.txn := by
  induction mutations with
  | nil => exact fun db clocks => rfl
  | cons mutation mutations ih =>
    intro db clocks
    simp only [applyMutations]
    split
    · rfl
    · exact ih _ _

namespace TxnSession
variable {session : TxnSession}
  {call : TxnCall}

/-- What one call can do to the tables and to the ledger. -/
inductive Turns (session : TxnSession) (call : TxnCall) : TxnTables → Ledger → Prop
  | began (asked : call = .begin) : Turns session call session.db.beginTxn.1.txn
      (Function.update session.ledger session.db.txn.nextTxnId (some ⟨session.written.length, []⟩))
  | staged (txnId : UInt64) (info : TxnMeta) (mutation : TxnMutation) (found : session.db.txn.txns txnId = some info)
      (free : session.db.checkWriteConflict txnId mutation.1 info.snapshotTs = .ok ()) : Turns session call
      { session.db.txn with
        intents := Function.update session.db.txn.intents mutation.1 (some ⟨txnId, mutation.2⟩)
        txns := Function.update session.db.txn.txns txnId (some { info with keys := info.keys.insert mutation.1 }) }
      (session.ledger.stage txnId mutation (.ok ()))
  | ended (txnId : UInt64) (info : TxnMeta) (found : session.db.txn.txns txnId = some info) : Turns session call
      (session.db.txn.remove txnId info.keys) (Function.update session.ledger txnId none)
  | same : Turns session call session.db.txn session.ledger

theorem turns_stageIntent (txnId : UInt64) (mutation : TxnMutation) : Turns session call
    (session.db.stageIntent txnId mutation.1 mutation.2).1.txn
    (session.ledger.stage txnId mutation (session.db.stageIntent txnId mutation.1 mutation.2).2) := by
  unfold TxnEngine.stageIntent
  split
  next => exact .same
  next info found =>
    split
    next => exact .same
    next free => exact .staged txnId info mutation found free

theorem turns_takeCommit (txnId : UInt64) : Turns session call (session.db.txnTakeCommit txnId).1.txn
    (session.ledger.finish txnId (session.db.txnTakeCommit txnId).2) := by
  unfold TxnEngine.txnTakeCommit
  split
  next => exact .same
  next =>
    split
    next => exact .same
    next info found => exact .ended txnId info found

theorem txnCommit_txn (db : TxnEngine) (txnId : UInt64) (clocks : List (Option UInt64)) :
    (db.txnCommit txnId clocks).1.txn = (db.txnTakeCommit txnId).1.txn := by
  unfold TxnEngine.txnCommit
  split
  next taken => rw [taken]
  next taken => rw [TxnEngine.applyMutations_txn, taken]

theorem turns_step (session : TxnSession) (call : TxnCall) :
    Turns session call (session.step call).db.txn (session.step call).ledger := by
  cases call with
  | begin => exact .began rfl
  | put txnId key value =>
    simp only [step, TxnEngine.txnPut]
    split
    · exact .same
    · exact .same
    · exact .same
    · exact turns_stageIntent txnId (key, some value)
  | delete txnId key =>
    simp only [step, TxnEngine.txnDelete]
    split
    · exact .same
    · exact .same
    · exact turns_stageIntent txnId (key, none)
  | prepareCommit => exact .same
  | takeCommit txnId => exact turns_takeCommit txnId
  | commit txnId clocks =>
    simp only [step]
    rw [txnCommit_txn]
    exact turns_takeCommit txnId
  | rollback txnId =>
    simp only [step, TxnEngine.txnRollback]
    split
    next => exact .same
    next info found => exact .ended txnId info found
  | request event => exact .same

end TxnSession

/-- A transaction that is not open is not in the tables. Of an open one they show
what it has staged, and nobody else holds its keys. -/
def TxnTables.Shows (tables : TxnTables) (id : UInt64) : Option OpenTxn → Prop
  | none => tables.txns id = none
  | some txn => (∃ info, tables.txns id = some info ∧ ∀ key, key ∈ info.keys ↔ txn.last key ≠ none) ∧
    ∀ key value, txn.last key = some value → tables.intents key = some ⟨id, value⟩

theorem TxnTables.Shows.congr {before after : TxnTables} {id : UInt64} {entry : Option OpenTxn} (shows_ : before.Shows id entry)
    (txns : after.txns id = before.txns id)
    (intents : ∀ key value, before.intents key = some ⟨id, value⟩ → after.intents key = some ⟨id, value⟩) :
    after.Shows id entry := by
  cases entry with
  | none => exact txns.trans shows_
  | some txn =>
    obtain ⟨⟨info, found, keys⟩, held⟩ := shows_
    exact ⟨⟨info, txns.trans found, keys⟩, fun key value staged => intents key value (held key value staged)⟩

def TxnSession.Kept (session : TxnSession) : Prop := ∀ id, session.db.txn.Shows id (session.ledger id)

/-- What a passed check says. -/
structure TxnEngine.Free (db : TxnEngine) (txnId : UInt64) (key : Bytes) (snapshotTs : Nat) : Prop where
  own : ∀ intent, db.txn.intents key = some intent → intent.txnId = txnId
  unchanged : ∀ seq, db.engine.latestCommittedSeq key = some seq → seq ≤ snapshotTs

theorem TxnEngine.free_of_check {db : TxnEngine} {txnId : UInt64} {key : Bytes} {snapshotTs : Nat}
    (passed : db.checkWriteConflict txnId key snapshotTs = .ok ()) : db.Free txnId key snapshotTs := by
  unfold checkWriteConflict at passed
  split at passed
  next => cases passed
  next own =>
    split at passed
    next => cases passed
    next unchanged =>
      rw [Option.filter_eq_none_iff] at own unchanged
      exact ⟨fun intent held => by simpa using own intent held, fun seq found => by simpa using unchanged seq found⟩

namespace OpenTxn

@[simp] theorem last_new (begun : Nat) (key : Bytes) : (OpenTxn.mk begun []).last key = none := rfl

theorem last_stage (txn : OpenTxn) (mutation : TxnMutation) (key : Bytes) :
    { txn with staged := mutation :: txn.staged }.last key = if mutation.1 = key then some mutation.2 else txn.last key := by
  unfold last
  rw [List.find?_cons]
  by_cases same : mutation.1 = key
  · simp [same]
  · simp [same]

theorem last_ne_none (txn : OpenTxn) (key : Bytes) : txn.last key ≠ none ↔ key ∈ txn.staged.map Prod.fst := by
  unfold last
  rw [Ne, Option.map_eq_none_iff, List.find?_eq_none, List.mem_map]
  simp

end OpenTxn

namespace TxnSession
variable {session : TxnSession} {call : TxnCall}
  {count : Nat}

theorem kept_start (engine : Engine) (lastSequence : Nat) (written : List SstEntry) :
    (start engine lastSequence written).Kept := fun _ => rfl

theorem Kept.open (kept : session.Kept) {txnId : UInt64} {info : TxnMeta} (found : session.db.txn.txns txnId = some info) :
    ∃ txn, session.ledger txnId = some txn ∧ ∀ key, key ∈ info.keys ↔ txn.last key ≠ none := by
  have shown := kept txnId
  cases known : session.ledger txnId with
  | none =>
    rw [known] at shown
    exact nomatch (show session.db.txn.txns txnId = none from shown).symm.trans found
  | some txn =>
    rw [known] at shown
    obtain ⟨⟨same, also, keys⟩, -⟩ := shown
    cases also.symm.trans found
    exact ⟨txn, rfl, keys⟩

theorem Kept.turns (kept : session.Kept) {tables : TxnTables} {ledger : Ledger} (turned : Turns session call tables ledger)
    (id : UInt64) : tables.Shows id (ledger id) := by
  cases turned with
  | began asked =>
    by_cases same : id = session.db.txn.nextTxnId
    · subst same
      rw [Function.update_self]
      refine ⟨⟨_, Function.update_self _ _ _, fun key => ?_⟩, nofun⟩
      simp
    · rw [Function.update_of_ne same]
      exact (kept id).congr (Function.update_of_ne same _ _) fun _ _ held => held
  | staged txnId info mutation found free =>
    obtain ⟨txn, known, keys⟩ := kept.open found
    have free := TxnEngine.free_of_check free
    simp only [Ledger.stage, known, Option.map_some]
    by_cases same : id = txnId
    · subst same
      rw [Function.update_self]
      refine ⟨⟨_, Function.update_self _ _ _, fun key => ?_⟩, fun key value staged => ?_⟩
      · rw [OpenTxn.last_stage, SortedSet.mem_insert, keys]
        by_cases here : mutation.1 = key
        · simp [here]
        · simp [here, Ne.symm here]
      · rw [OpenTxn.last_stage] at staged
        by_cases here : mutation.1 = key
        · rw [if_pos here] at staged
          cases staged
          subst here
          exact Function.update_self _ _ _
        · rw [if_neg here] at staged
          have shown := kept id
          rw [known] at shown
          exact (Function.update_of_ne (Ne.symm here) _ _).trans (shown.2 key value staged)
    · rw [Function.update_of_ne same]
      refine (kept id).congr (Function.update_of_ne same _ _) fun key value held => ?_
      -- the check has passed, so that the key is not another transaction's
      by_cases here : key = mutation.1
      · exact absurd (free.own _ (here ▸ held)) same
      · exact (Function.update_of_ne here _ _).trans held
  | ended txnId info found =>
    by_cases same : id = txnId
    · subst same
      rw [Function.update_self]
      exact Function.update_self _ _ _
    · rw [Function.update_of_ne same]
      refine (kept id).congr (Function.update_of_ne same _ _) fun key value held => ?_
      simp only [TxnTables.remove, TxnTables.dropIntents_eq, held]
      split
      · simp [Option.filter, same]
      · rfl
  | same => exact kept id

theorem Kept.step (kept : session.Kept) (call : TxnCall) : (session.step call).Kept :=
  kept.turns (turns_step session call)

/-- Numbers are given out once, and only open transactions hold keys, those they
have staged a write to. -/
structure Exact (begins : Nat) (session : TxnSession) : Prop where
  kept : session.Kept
  number : session.db.txn.nextTxnId.toNat ≤ begins + 1
  below : ∀ id, session.db.txn.txns id ≠ none → id.toNat < session.db.txn.nextTxnId.toNat
  only : ∀ key intent, session.db.txn.intents key = some intent →
    ∃ info, session.db.txn.txns intent.txnId = some info ∧ key ∈ info.keys

theorem exact_start (engine : Engine) (lastSequence : Nat) (written : List SstEntry) :
    Exact 0 (start engine lastSequence written) :=
  ⟨kept_start engine lastSequence written, Nat.le_refl _, fun _ opened => absurd rfl opened, nofun⟩

theorem saturatingNext_toNat {id : UInt64} (low : id.toNat < 2 ^ 64 - 1) : (saturatingNext id).toNat = id.toNat + 1 := by
  unfold saturatingNext
  split
  next last =>
    rw [last] at low
    exact absurd low (by decide)
  next =>
    have one : (1 : UInt64).toNat = 1 := rfl
    rw [UInt64.toNat_add, one, Nat.mod_eq_of_lt (by omega)]

def begins (call : TxnCall) : Nat := if call = .begin then 1 else 0

theorem Exact.step (exact_ : Exact count session) (few : count + begins call < 2 ^ 64 - 1) :
    Exact (count + begins call) (session.step call) := by
  have kept := exact_.kept.step call
  have number := exact_.number
  have turned := turns_step session call
  generalize session.step call = after at kept turned
  generalize made : after.db.txn = tables at turned
  generalize after.ledger = ledger at turned
  cases turned with
  | began asked =>
    have one : begins call = 1 := if_pos asked
    rw [one] at few ⊢
    have next : after.db.txn.nextTxnId.toNat = session.db.txn.nextTxnId.toNat + 1 := by
      rw [made]
      exact saturatingNext_toNat (by omega)
    refine ⟨kept, by omega, fun id opened => ?_, fun key intent held => ?_⟩
    · rw [next]
      rw [made] at opened
      by_cases same : id = session.db.txn.nextTxnId
      · rw [same]
        exact Nat.lt_succ_self _
      · exact Nat.lt_succ_of_lt (exact_.below id ((Function.update_of_ne same _ _).symm.trans_ne opened))
    · rw [made] at held ⊢
      obtain ⟨info, found, inside⟩ := exact_.only key intent held
      have low := exact_.below intent.txnId (by rw [found]; nofun)
      have other : intent.txnId ≠ session.db.txn.nextTxnId := fun same => absurd (same ▸ low) (Nat.lt_irrefl _)
      exact ⟨info, (Function.update_of_ne other _ _).trans found, inside⟩
  | staged txnId info mutation found free =>
    refine ⟨kept, by rw [made]; exact Nat.le_trans number (by omega), fun id opened => ?_, fun key intent held => ?_⟩
    · rw [made] at opened ⊢
      by_cases same : id = txnId
      · exact exact_.below id (by rw [same, found]; nofun)
      · exact exact_.below id ((Function.update_of_ne same _ _).symm.trans_ne opened)
    · rw [made] at held ⊢
      by_cases here : key = mutation.1
      · subst here
        cases (Function.update_self _ _ _).symm.trans held
        exact ⟨_, Function.update_self _ _ _, (SortedSet.mem_insert _ _ _).mpr (Or.inl rfl)⟩
      · obtain ⟨other, known, inside⟩ := exact_.only key intent ((Function.update_of_ne here _ _).symm.trans held)
        by_cases same : intent.txnId = txnId
        · rw [same] at known ⊢
          cases known.symm.trans found
          exact ⟨_, Function.update_self _ _ _, (SortedSet.mem_insert _ _ _).mpr (Or.inr inside)⟩
        · exact ⟨other, (Function.update_of_ne same _ _).trans known, inside⟩
  | ended txnId info found =>
    refine ⟨kept, by rw [made]; exact Nat.le_trans number (by omega), fun id opened => ?_, fun key intent held => ?_⟩
    · rw [made] at opened ⊢
      by_cases same : id = txnId
      · exact exact_.below id (by rw [same, found]; nofun)
      · exact exact_.below id ((Function.update_of_ne same _ _).symm.trans_ne opened)
    · rw [made] at held ⊢
      simp only [TxnTables.remove, TxnTables.dropIntents_eq] at held ⊢
      -- an intent that is left is another transaction's, or one on none of these keys
      have stays : session.db.txn.intents key = some intent ∧ (key ∈ info.keys → intent.txnId ≠ txnId) := by
        split at held
        next inside =>
          obtain ⟨there, other⟩ := Option.filter_eq_some_iff.mp held
          exact ⟨there, fun _ => by simpa using other⟩
        next outside => exact ⟨held, fun inside => absurd inside outside⟩
      obtain ⟨other, known, inside⟩ := exact_.only key intent stays.1
      have different : intent.txnId ≠ txnId := by
        intro same
        rw [same] at known
        cases known.symm.trans found
        exact stays.2 inside same
      exact ⟨other, (Function.update_of_ne different _ _).trans known, inside⟩
  | same =>
    refine ⟨kept, by rw [made]; exact Nat.le_trans number (by omega), fun id opened => ?_, fun key intent held => ?_⟩
    · rw [made] at opened ⊢
      exact exact_.below id opened
    · rw [made] at held ⊢
      exact exact_.only key intent held

theorem Exact.run (exact_ : Exact count session) (calls : List TxnCall)
    (few : count + calls.count .begin < 2 ^ 64 - 1) : Exact (count + calls.count .begin) (session.run calls) := by
  induction calls generalizing session count with
  | nil => exact exact_
  | cons call calls ih =>
    have sum : count + (call :: calls).count .begin = count + begins call + calls.count .begin := by
      rw [List.count_cons]
      simp only [begins, beq_iff_eq]
      omega
    rw [sum] at few ⊢
    exact ih (exact_.step (by omega)) few

theorem Exact.locked_iff (exact_ : Exact count session) (key : Bytes) (txnId : UInt64) :
    session.db.txn.Locked key txnId ↔ ∃ txn, session.ledger txnId = some txn ∧ key ∈ txn.staged.map Prod.fst := by
  constructor
  · intro locked
    obtain ⟨intent, held, rfl⟩ := Option.map_eq_some_iff.mp locked
    obtain ⟨info, found, inside⟩ := exact_.only key intent held
    obtain ⟨txn, known, keys⟩ := exact_.kept.open found
    exact ⟨txn, known, (txn.last_ne_none key).mp ((keys key).mp inside)⟩
  · rintro ⟨txn, known, inside⟩
    obtain ⟨value, staged⟩ := Option.ne_none_iff_exists'.mp ((txn.last_ne_none key).mpr inside)
    have shown := exact_.kept txnId
    rw [known] at shown
    unfold TxnTables.Locked
    rw [shown.2 key value staged]
    rfl

/-- A key is locked by a transaction just if the transaction is open and has
staged a write to it. So no key is locked by two transactions, or by one that
has ended. -/
theorem locked_iff_staged (engine : Engine) (lastSequence : Nat) (calls : List TxnCall)
    (few : calls.count .begin < 2 ^ 64 - 1) (key : Bytes) (txnId : UInt64) :
    let session := (start engine lastSequence []).run calls
    (session.db.txn.Locked key txnId ↔ ∃ txn, session.ledger txnId = some txn ∧ key ∈ txn.staged.map Prod.fst) ∧
      (session.db.txn.Locked key txnId → ∀ other, session.db.txn.Locked key other → other = txnId) ∧
      (session.ledger txnId = none → ¬ session.db.txn.Locked key txnId) := by
  intro session
  have exact_ : Exact (0 + calls.count .begin) session := (exact_start engine lastSequence []).run calls (by omega)
  refine ⟨exact_.locked_iff key txnId, fun locked other also => ?_, fun ended locked => ?_⟩
  · exact Option.some.inj (also.symm.trans locked)
  · obtain ⟨txn, known, -⟩ := (exact_.locked_iff key txnId).mp locked
    exact nomatch ended.symm.trans known

/-- Two transactions want one key: the second gets it when the first has given up. -/
def contendedCalls : List TxnCall :=
  [.begin, .begin, .put 1 [1] [5], .put 2 [1] [6], .put 7 [2] [6], .rollback 1, .put 2 [1] [7]]

theorem second_gets_lock_in_contendedCalls : contendedCalls.count .begin < 2 ^ 64 - 1 ∧
    ((start (.fresh mergeConfig) 0 []).run contendedCalls).db.txn.Locked [1] 2 ∧
    ¬ ((start (.fresh mergeConfig) 0 []).run contendedCalls).db.txn.Locked [1] 1 := by
  have few : contendedCalls.count .begin < 2 ^ 64 - 1 := by decide
  refine ⟨few, ?_, ?_⟩
  · exact (locked_iff_staged (.fresh mergeConfig) 0 contendedCalls few [1] 2).1.mpr ⟨⟨0, [([1], some [7])]⟩, by decide +kernel⟩
  · exact (locked_iff_staged (.fresh mergeConfig) 0 contendedCalls few [1] 1).2.2 (by decide +kernel)

end TxnSession
end KayaDB.Storage
