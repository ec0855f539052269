import KayaDB.Storage.FirstCommitter

/-! Transactions committed through the log. The leader checks a transaction and proposes
its mutations, which no check sees until they are applied. -/

namespace KayaDB.Storage
open Raft (Bytes)
open Versions Runs

inductive LeaderCall where
  | begin
  | get (txnId : UInt64) (key : Bytes)
  | put (txnId : UInt64) (key value : Bytes)
  | delete (txnId : UInt64) (key : Bytes)
  | prepareCommit (txnId : UInt64)
  | takeCommit (txnId : UInt64)
  | rollback (txnId : UInt64)
  | write (mutation : TxnMutation) (clock : Option UInt64)
  | apply (index : Nat) (clocks : List (Option UInt64))
deriving DecidableEq, Repr

/-- Mutations on their way through the log; `txn` is the time the transaction began. -/
structure Proposal where
  txn : Nat
  mutations : List TxnMutation
deriving DecidableEq, Repr

def Proposal.keys (proposal : Proposal) : List Bytes := proposal.mutations.map Prod.fst

/-- When a transaction's mutations were applied, and the keys that were written. -/
structure AppliedTxn where
  txn : Nat
  time : Nat
  keys : List Bytes
deriving DecidableEq, Repr

/-- A leader's engine, the time of each transaction's begin, and the mutations
that are proposed or applied. -/
structure TxnLeader where
  session : TxnSession
  now : Nat
  began : UInt64 → Nat
  proposed : List Proposal
  applied : List AppliedTxn

def TxnSession.applyMutations (session : TxnSession) (mutations : List TxnMutation) (clocks : List (Option UInt64)) :
    TxnSession :=
  { session with
    db := (session.db.applyMutations mutations clocks).1
    written := session.written ++ session.db.engine.versions mutations clocks }

namespace TxnLeader

def start (engine : Engine) (lastSequence : Nat) : TxnLeader := ⟨.start engine lastSequence [], 0, fun _ => 0, [], []⟩

/-- A transaction that passes the check is proposed. -/
def propose (leader : TxnLeader) (txnId : UInt64) (checked : Except TxnError (List TxnMutation)) : List Proposal :=
  leader.proposed ++ (checked.toOption.toList.map fun mutations => ⟨leader.began txnId, mutations⟩)

def act (leader : TxnLeader) : LeaderCall → TxnLeader
  | .begin =>
    { leader with
      session := leader.session.step .begin
      began := Function.update leader.began leader.session.db.txn.nextTxnId leader.now }
  | .get _ _ => leader
  | .put txnId key value => { leader with session := leader.session.step (.put txnId key value) }
  | .delete txnId key => { leader with session := leader.session.step (.delete txnId key) }
  | .prepareCommit txnId =>
    { leader with proposed := leader.propose txnId (leader.session.db.txnPrepareCommit txnId) }
  | .takeCommit txnId =>
    { leader with
      session := leader.session.step (.takeCommit txnId)
      proposed := leader.propose txnId (leader.session.db.txnTakeCommit txnId).2 }
  | .rollback txnId => { leader with session := leader.session.step (.rollback txnId) }
  | .write mutation clock =>
    { leader with session := leader.session.step (.request (Engine.mutationEvent mutation clock)) }
  | .apply index clocks =>
    match leader.proposed[index]? with
    | none => leader
    | some proposal =>
      { leader with
        session := leader.session.applyMutations proposal.mutations clocks
        proposed := leader.proposed.eraseIdx index
        applied := leader.applied ++ [⟨proposal.txn, leader.now,
          (leader.session.db.engine.versions proposal.mutations clocks).map Entry.key⟩] }

def step (leader : TxnLeader) (call : LeaderCall) : TxnLeader := { leader.act call with now := leader.now + 1 }

/-- Of two transactions that overlap, each having begun before the other was
applied, none has written a key that the other has written. -/
def FirstWins (leader : TxnLeader) : Prop :=
  ∀ first ∈ leader.applied, ∀ second ∈ leader.applied, first.txn ≠ second.txn → first.txn < second.time →
    second.txn < first.time → ∀ key ∈ first.keys, key ∉ second.keys

/-- No mutation of another transaction to one of its keys is on its way. -/
def Unawaited (leader : TxnLeader) (txnId : UInt64) : Prop :=
  ∀ proposal ∈ leader.proposed, proposal.txn ≠ leader.began txnId →
    ∀ key ∈ proposal.keys, (leader.session.ledger txnId).bind (·.last key) = none

/-- A transaction is proposed only if no mutation to one of its keys is on its way. -/
def Patient (leader : TxnLeader) : LeaderCall → Prop
  | .prepareCommit txnId | .takeCommit txnId => leader.Unawaited txnId
  | _ => True

instance (leader : TxnLeader) (call : LeaderCall) : Decidable (leader.Patient call) :=
  match call with
  | .prepareCommit _ => inferInstanceAs (Decidable (∀ proposal ∈ leader.proposed, _))
  | .takeCommit _ => inferInstanceAs (Decidable (∀ proposal ∈ leader.proposed, _))
  | .begin | .get .. | .put .. | .delete .. | .rollback .. | .write .. | .apply .. => isTrue trivial

end TxnLeader

theorem Engine.mutationEvent_ne_compact (mutation : TxnMutation) (clock : Option UInt64) :
    mutationEvent mutation clock ≠ .compact := by
  cases value : mutation.2 <;> simp [mutationEvent, value]

namespace TxnSession
variable {session : TxnSession} {call : TxnCall}

/-- Every version written is still found, or a newer one of its key. -/
structure Tracking (session : TxnSession) : Prop where
  dated : session.Dated
  kept : session.Kept
  fresh : session.db.engine.Fresh
  seen : ∀ entry ∈ session.written, entry.sequence ≤ ReadTimestamp.latest.asNat →
    ∃ found, lookup session.db.engine.sources entry.key ReadTimestamp.latest.asNat = some found ∧
      entry.sequence ≤ found.sequence

theorem Tracking.write (tracking : session.Tracking) (mutation : TxnMutation) (clock : Option UInt64) :
    (session.step (.request (Engine.mutationEvent mutation clock))).Tracking := by
  refine ⟨tracking.dated.request _, tracking.kept.step _, tracking.fresh.step _, ?_⟩
  simp only [step, TxnEngine.request, List.mem_append, Option.mem_toList]
  cases added : session.db.engine.accepted (Engine.mutationEvent mutation clock) with
  | none =>
    intro entry inside low
    rw [Engine.lookup_unaccepted added (Engine.mutationEvent_ne_compact mutation clock)]
    refine tracking.seen entry (inside.resolve_right fun found => ?_) low
    cases found
  | some new => exact fun entry inside low => tracking.dated.seen_added tracking.fresh added tracking.seen inside low

theorem Tracking.quiet (tracking : session.Tracking) (quiet : call.quiet) : (session.step call).Tracking := by
  obtain ⟨engine, -, written⟩ := step_quiet session quiet
  refine ⟨tracking.dated.quiet quiet, tracking.kept.step call, ?_, ?_⟩
  · rw [engine]
    exact tracking.fresh
  · rw [engine, written]
    exact tracking.seen

theorem applyMutations_eq_requests (session : TxnSession) (mutations : List TxnMutation) (clocks : List (Option UInt64)) :
    session.applyMutations mutations clocks = session.requests (session.db.engine.writes mutations clocks) := by
  rw [requests_writes, applyMutations, TxnEngine.applyMutations_eq]

theorem Tracking.applyMutations (tracking : session.Tracking) (mutations : List TxnMutation) (clocks : List (Option UInt64)) :
    (session.applyMutations mutations clocks).Tracking := by
  rw [applyMutations_eq_requests]
  exact keeps_writes (fun mutation clock tracking => tracking.write mutation clock) session.db.engine mutations tracking

theorem Kept.listed (kept : session.Kept) {id : UInt64} {txn : OpenTxn} (known : session.ledger id = some txn) :
    ∃ info, session.db.txn.txns id = some info := by
  have shown := kept id
  rw [known] at shown
  obtain ⟨⟨info, found, -⟩, -⟩ := shown
  exact ⟨info, found⟩

theorem Kept.begun (kept : session.Kept) (old : call ≠ .begin) {id : UInt64} {txn : OpenTxn}
    (known : (session.step call).ledger id = some txn) : ∃ old, session.ledger id = some old ∧ old.begun = txn.begun := by
  obtain ⟨info, found⟩ := (kept.step call).listed known
  rcases (turns_step session call).origin found known with ⟨asked, -⟩ | ⟨-, before, -, listed, -, same⟩
  · exact absurd asked old
  · exact ⟨before, listed, same⟩

theorem mem_versions_keys (mutations : List TxnMutation) : ∀ {engine : Engine} {clocks : List (Option UInt64)} {key : Bytes},
    key ∈ (engine.versions mutations clocks).map Entry.key → key ∈ mutations.map Prod.fst := by
  induction mutations with
  | nil => exact fun inside => inside
  | cons mutation mutations ih =>
    intro engine clocks key inside
    rcases engine.applyMutation_cases mutation (clocks.headD none) with ⟨message, made, refused⟩ | ⟨result, made, taken⟩
    · simp only [Engine.versions, refused] at inside
      cases inside
    · simp only [Engine.versions, taken, List.map_cons, List.mem_cons] at inside
      rcases inside with rfl | later
      · exact List.mem_cons_self
      · exact List.mem_cons_of_mem _ (ih later)

theorem begun_le_written (tracking : session.Tracking) {id : UInt64} {txn : OpenTxn}
    (known : session.ledger id = some txn) : txn.begun ≤ session.written.length := by
  obtain ⟨info, found⟩ := tracking.kept.listed known
  exact (tracking.dated.parts id info txn found known).written

end TxnSession

namespace TxnLeader
variable {leader : TxnLeader} {call : LeaderCall}

theorem step_apply_none {index : Nat} {clocks : List (Option UInt64)} (found : leader.proposed[index]? = none) :
    leader.step (.apply index clocks) = { leader with now := leader.now + 1 } := by
  simp only [step, act, found]

theorem step_apply_some {index : Nat} {clocks : List (Option UInt64)} {proposal : Proposal}
    (found : leader.proposed[index]? = some proposal) : leader.step (.apply index clocks) =
      ⟨leader.session.applyMutations proposal.mutations clocks, leader.now + 1, leader.began, leader.proposed.eraseIdx index,
        leader.applied ++ [⟨proposal.txn, leader.now,
          (leader.session.db.engine.versions proposal.mutations clocks).map Entry.key⟩]⟩ := by
  simp only [step, act, found]

/-- What was written since a transaction began is among the versions since then. -/
structure Tracked (leader : TxnLeader) : Prop where
  tracking : leader.session.Tracking
  times : ∀ done ∈ leader.applied, done.time < leader.now
  since : ∀ id txn, leader.session.ledger id = some txn → ∀ done ∈ leader.applied, leader.began id < done.time →
    ∀ key ∈ done.keys, ∃ entry ∈ leader.session.written.drop txn.begun, entry.key = key

theorem tracked_start {engine : Engine} {lastSequence : Nat} (fresh : engine.Fresh)
    (next : lastSequence < engine.wal.nextSequence) : (start engine lastSequence).Tracked := by
  refine ⟨⟨TxnSession.dated_start next nofun, TxnSession.kept_start _ _ _, fresh, nofun⟩, nofun, nofun⟩

theorem Tracked.grow (tracked : leader.Tracked) {session : TxnSession} {proposed : List Proposal}
    (tracking : session.Tracking)
    (begun : ∀ {id txn}, session.ledger id = some txn → ∃ old, leader.session.ledger id = some old ∧ old.begun = txn.begun)
    (written : ∃ more, session.written = leader.session.written ++ more) :
    Tracked { leader with session, proposed, now := leader.now + 1 } := by
  refine ⟨tracking, fun done inside => Nat.lt_succ_of_lt (tracked.times done inside), ?_⟩
  intro id txn known done inside later key held
  obtain ⟨old, before, same⟩ := begun known
  obtain ⟨entry, listed, named⟩ := tracked.since id old before done inside later key held
  obtain ⟨more, grown⟩ := written
  refine ⟨entry, ?_, named⟩
  change entry ∈ session.written.drop txn.begun
  rw [grown, ← same, List.drop_append_of_le_length (TxnSession.begun_le_written tracked.tracking before)]
  exact List.mem_append_left _ listed

theorem Tracked.step (tracked : leader.Tracked) (call : LeaderCall) : (leader.step call).Tracked := by
  have same {proposed : List Proposal} : Tracked { leader with proposed, now := leader.now + 1 } :=
    tracked.grow tracked.tracking (fun known => ⟨_, known, rfl⟩) ⟨[], (List.append_nil _).symm⟩
  have quiet {proposed : List Proposal} (call : TxnCall) (quiet : call.quiet) (old : call ≠ .begin) :
      Tracked { leader with session := leader.session.step call, proposed, now := leader.now + 1 } := by
    refine tracked.grow (tracked.tracking.quiet quiet) (tracked.tracking.kept.begun old) ⟨[], ?_⟩
    rw [(TxnSession.step_quiet leader.session quiet).2.2, List.append_nil]
  cases call with
  | begin =>
    refine ⟨@TxnSession.Tracking.quiet _ .begin tracked.tracking rfl, fun done inside => Nat.lt_succ_of_lt (tracked.times done inside), ?_⟩
    intro id txn known done inside later key held
    by_cases here : id = leader.session.db.txn.nextTxnId
    · subst here
      simp only [TxnLeader.step, act, Function.update_self] at later
      exact absurd (tracked.times done inside) (Nat.lt_asymm later)
    · refine tracked.since id txn ((Function.update_of_ne here _ _).symm.trans known) done inside ?_ key held
      simpa only [TxnLeader.step, act, Function.update_of_ne here] using later
  | get => exact same
  | put txnId key value => exact quiet (.put txnId key value) rfl nofun
  | delete txnId key => exact quiet (.delete txnId key) rfl nofun
  | prepareCommit => exact same
  | takeCommit txnId => exact quiet (.takeCommit txnId) rfl nofun
  | rollback txnId => exact quiet (.rollback txnId) rfl nofun
  | write mutation clock =>
    refine tracked.grow (tracked.tracking.write mutation clock) (fun known => ?_) ⟨_, rfl⟩
    exact @TxnSession.Kept.begun _ (.request (Engine.mutationEvent mutation clock)) tracked.tracking.kept nofun _ _ known
  | apply index clocks =>
    cases found : leader.proposed[index]? with
    | none =>
      rw [step_apply_none found]
      exact same
    | some proposal =>
      rw [step_apply_some found]
      have old := @grow leader tracked (leader.session.applyMutations proposal.mutations clocks) (leader.proposed.eraseIdx index)
        (tracked.tracking.applyMutations proposal.mutations clocks) (fun known => ⟨_, known, rfl⟩) ⟨_, rfl⟩
      refine ⟨old.tracking, fun done inside => ?_, fun id txn known done inside later key held => ?_⟩
      · rcases List.mem_append.mp inside with early | new
        · exact old.times done early
        · rw [List.mem_singleton.mp new]
          exact Nat.lt_succ_self _
      · rcases List.mem_append.mp inside with early | new
        · exact old.since id txn known done early later key held
        · rw [List.mem_singleton.mp new] at held
          obtain ⟨entry, listed, named⟩ := List.mem_map.mp held
          refine ⟨entry, ?_, named⟩
          change entry ∈ (leader.session.written ++ _).drop txn.begun
          rw [List.drop_append_of_le_length (TxnSession.begun_le_written tracked.tracking known)]
          exact List.mem_append_right _ listed

/-- What is on its way and what is applied do not meet. -/
structure Apart (leader : TxnLeader) : Prop where
  proposed : ∀ first ∈ leader.proposed, ∀ second ∈ leader.proposed, first.txn ≠ second.txn →
    ∀ key ∈ first.keys, key ∉ second.keys
  awaited : ∀ first ∈ leader.proposed, ∀ second ∈ leader.applied, first.txn ≠ second.txn → first.txn < second.time →
    ∀ key ∈ first.keys, key ∉ second.keys
  applied : leader.FirstWins

theorem apart_start (engine : Engine) (lastSequence : Nat) : (start engine lastSequence).Apart :=
  ⟨nofun, nofun, nofun⟩

theorem Apart.propose {txnId : UInt64} {checked : Except TxnError (List TxnMutation)} (apart : leader.Apart)
    (tracked : leader.Tracked) (patient : leader.Unawaited txnId)
    (room : leader.session.db.engine.wal.nextSequence ≤ 2 ^ 64)
    (passed : ∀ mutations, checked = .ok mutations → leader.session.db.txnPrepareCommit txnId = .ok mutations) :
    Apart { leader with proposed := leader.propose txnId checked } := by
  cases checked with
  | error reason =>
    have same : leader.propose txnId (.error reason) = leader.proposed := List.append_nil _
    rw [same]
    exact apart
  | ok mutations =>
    obtain ⟨txn, prepared⟩ := tracked.tracking.kept.prepared (passed mutations rfl)
    have staged : ∀ key ∈ mutations.map Prod.fst, txn.last key ≠ none := by
      intro key inside
      obtain ⟨⟨held, value⟩, listed, rfl⟩ := List.mem_map.mp inside
      rw [(prepared.last held value).mp listed]
      nofun
    have alone : ∀ other ∈ leader.proposed, other.txn ≠ leader.began txnId → ∀ key ∈ other.keys,
        key ∉ mutations.map Prod.fst := by
      intro other inside differ key held here
      have free := patient other inside differ key held
      rw [prepared.known, Option.bind_some] at free
      exact staged key here free
    have joined : leader.propose txnId (.ok mutations) = leader.proposed ++ [⟨leader.began txnId, mutations⟩] := rfl
    rw [joined]
    refine ⟨fun first inside second also differ key held => ?_, fun first inside second done differ early key held => ?_,
      apart.applied⟩
    · rcases List.mem_append.mp inside with old | new <;> rcases List.mem_append.mp also with old' | new'
      · exact apart.proposed first old second old' differ key held
      · rw [List.mem_singleton.mp new'] at differ ⊢
        exact alone first old differ key held
      · rw [List.mem_singleton.mp new] at differ held
        exact fun here => alone second old' differ.symm key here held
      · rw [List.mem_singleton.mp new, List.mem_singleton.mp new'] at differ
        exact absurd rfl differ
    · rcases List.mem_append.mp inside with old | new
      · exact apart.awaited first old second done differ early key held
      · -- what was applied since the transaction began has left versions the check sees
        rw [List.mem_singleton.mp new] at early held
        intro written
        obtain ⟨entry, since, rfl⟩ := tracked.since txnId txn prepared.known second done early key written
        exact staged entry.key held (prepared.unwritten tracked.tracking.dated tracked.tracking.seen room since)

theorem prepare_of_take {db : TxnEngine} {txnId : UInt64} {mutations : List TxnMutation}
    (taken : (db.txnTakeCommit txnId).2 = .ok mutations) : db.txnPrepareCommit txnId = .ok mutations := by
  unfold TxnEngine.txnTakeCommit at taken
  split at taken
  · cases taken
  next found checked =>
    split at taken
    · cases taken
    · cases taken
      exact checked

theorem Apart.apply {index : Nat} {clocks : List (Option UInt64)} (apart : leader.Apart) :
    (leader.step (.apply index clocks)).Apart := by
  cases found : leader.proposed[index]? with
  | none =>
    rw [step_apply_none found]
    exact ⟨apart.proposed, apart.awaited, apart.applied⟩
  | some proposal =>
    rw [step_apply_some found]
    have here : proposal ∈ leader.proposed := List.mem_of_getElem? found
    have rest {other : Proposal} (inside : other ∈ leader.proposed.eraseIdx index) : other ∈ leader.proposed :=
      List.mem_of_mem_eraseIdx inside
    have written {key : Bytes}
        (held : key ∈ (leader.session.db.engine.versions proposal.mutations clocks).map Entry.key) : key ∈ proposal.keys :=
      TxnSession.mem_versions_keys _ held
    refine ⟨fun first inside second also => apart.proposed first (rest inside) second (rest also), ?_, ?_⟩
    · intro first inside second done differ early key held
      rcases List.mem_append.mp done with old | new
      · exact apart.awaited first (rest inside) second old differ early key held
      · rw [List.mem_singleton.mp new] at differ ⊢
        exact fun also => apart.proposed first (rest inside) proposal here differ key held (written also)
    · intro first inside second done differ early late key held
      rcases List.mem_append.mp inside with old | new <;> rcases List.mem_append.mp done with old' | new'
      · exact apart.applied first old second old' differ early late key held
      · rw [List.mem_singleton.mp new'] at differ late ⊢
        exact fun also => apart.awaited proposal here first old differ.symm late key (written also) held
      · rw [List.mem_singleton.mp new] at differ early held
        exact apart.awaited proposal here second old' differ early key (written held)
      · rw [List.mem_singleton.mp new, List.mem_singleton.mp new'] at differ
        exact absurd rfl differ

theorem Apart.step (apart : leader.Apart) (tracked : leader.Tracked) (patient : leader.Patient call)
    (room : leader.session.db.engine.wal.nextSequence ≤ 2 ^ 64) : (leader.step call).Apart := by
  have same {session : TxnSession} {now : Nat} {began : UInt64 → Nat} :
      Apart { leader with session, now, began } := ⟨apart.proposed, apart.awaited, apart.applied⟩
  cases call with
  | begin | get | put | delete | rollback | write => exact same
  | prepareCommit txnId =>
    have joined := apart.propose tracked patient room fun _ checked => checked
    exact ⟨joined.proposed, joined.awaited, joined.applied⟩
  | takeCommit txnId =>
    have joined := apart.propose tracked patient room fun _ taken => prepare_of_take taken
    exact ⟨joined.proposed, joined.awaited, joined.applied⟩
  | apply index clocks => exact apart.apply

theorem nextSequence_step (leader : TxnLeader) (call : LeaderCall) :
    leader.session.db.engine.wal.nextSequence ≤ (leader.step call).session.db.engine.wal.nextSequence := by
  have quiet (call : TxnCall) (quiet : call.quiet) :
      leader.session.db.engine.wal.nextSequence ≤ (leader.session.step call).db.engine.wal.nextSequence := by
    rw [(TxnSession.step_quiet leader.session quiet).1]
  cases call with
  | begin => exact quiet .begin rfl
  | get | prepareCommit => exact le_rfl
  | put txnId key value => exact quiet (.put txnId key value) rfl
  | delete txnId key => exact quiet (.delete txnId key) rfl
  | takeCommit txnId => exact quiet (.takeCommit txnId) rfl
  | rollback txnId => exact quiet (.rollback txnId) rfl
  | write mutation clock => exact (leader.session.db.engine.step_numbers _).1
  | apply index clocks =>
    cases found : leader.proposed[index]? with
    | none => rw [step_apply_none found]
    | some proposal =>
      rw [step_apply_some found]
      exact TxnEngine.nextSequence_applyMutations _ _ _

/-- In every run in which no transaction is proposed while mutations of another to
one of its keys are on their way, of two that overlap and write a common key at
most one is applied. -/
theorem first_committer_wins_in_log {engine : Engine} {lastSequence : Nat} {leader : TxnLeader} (fresh : engine.Fresh)
    (next : lastSequence < engine.wal.nextSequence) (reached : Reaches step Patient (start engine lastSequence) leader)
    (room : leader.session.db.engine.wal.nextSequence ≤ 2 ^ 64) : leader.FirstWins := by
  have kept : leader.Tracked ∧ (leader.session.db.engine.wal.nextSequence ≤ 2 ^ 64 → leader.Apart) := by
    refine reached.invariant (fun leader => leader.Tracked ∧
      (leader.session.db.engine.wal.nextSequence ≤ 2 ^ 64 → leader.Apart)) ⟨tracked_start fresh next, fun _ => ?_⟩ ?_
    · exact apart_start engine lastSequence
    · rintro leader call ⟨tracked, apart⟩ patient
      refine ⟨tracked.step call, fun room => ?_⟩
      have before := (leader.nextSequence_step call).trans room
      exact (apart before).step tracked patient before
  exact (kept.2 room).applied

def sideBySide : List LeaderCall :=
  [.begin, .begin, .begin, .put 1 [1] [5], .put 2 [2] [6], .takeCommit 1, .prepareCommit 2, .put 3 [1] [7], .apply 1 [],
    .rollback 2, .apply 0 [], .takeCommit 3]

theorem first_wins_in_sideBySide :
    let leader := sideBySide.foldl step (start (.fresh mergeConfig) 0)
    leader.applied = [⟨1, 8, [[2]]⟩, ⟨0, 10, [[1]]⟩] ∧ leader.proposed = [] ∧ leader.FirstWins := by
  have permitted : Permits step Patient (start (.fresh mergeConfig) 0) sideBySide := by decide +kernel
  exact ⟨by decide +kernel, by decide +kernel, first_committer_wins_in_log (fun _ inside => absurd inside List.not_mem_nil)
    (by decide +kernel) permitted.reaches (by decide +kernel)⟩

/-- The second transaction is checked while the mutation of the first is on its
way, and nothing stands in its way. -/
def checkedMeanwhile : List LeaderCall :=
  [.begin, .begin, .put 1 [1] [5], .takeCommit 1, .put 2 [1] [6], .takeCommit 2, .apply 0 [], .apply 0 []]

theorem both_applied_in_checkedMeanwhile :
    let leader := checkedMeanwhile.foldl step (start (.fresh mergeConfig) 0)
    leader.applied = [⟨0, 6, [[1]]⟩, ⟨1, 7, [[1]]⟩] ∧ ¬ leader.FirstWins := by
  intro leader
  have both : leader.applied = [⟨0, 6, [[1]]⟩, ⟨1, 7, [[1]]⟩] := by decide +kernel
  refine ⟨both, fun wins => ?_⟩
  unfold FirstWins at wins
  rw [both] at wins
  exact wins ⟨0, 6, [[1]]⟩ List.mem_cons_self ⟨1, 7, [[1]]⟩ (List.mem_cons_of_mem _ List.mem_cons_self) (by decide)
    (by decide) (by decide) [1] List.mem_cons_self List.mem_cons_self

end TxnLeader
end KayaDB.Storage
