import KayaDB.Storage.TxnFinality

namespace KayaDB.Storage
open Raft
open Programs EngineProgram

variable {kv before : Kv} {txnId : UInt64} {mutations : List Mutation}
  {rows : List (Bytes × Bytes)} {first second : Txn2pcState}

theorem run_clearDurableIntents (staged : AllStaged txnId kv)
    (scanned : kv.scanPrefix (encodeIntentScanPrefix txnId) = .ok rows) :
    (clearDurableIntents txnId).run Kv.store kv = (kv.extend (rows.map fun row => (row.1, none)), .ok ()) := by
  refine (run_scan scanned).trans (run_deleteRows fun row inside => ?_)
  obtain ⟨mutations, -, fine, rfl⟩ := scanned_mutations staged scanned
  obtain ⟨mutation, held, rfl⟩ := List.mem_map.mp inside
  exact Kv.accept_drop_of_stages (fine mutation held)

theorem run_clearAndAbort (roomy : kv.Roomy) (staged : AllStaged txnId kv)
    (scanned : kv.scanPrefix (encodeIntentScanPrefix txnId) = .ok rows) :
    ((clearDurableIntents txnId).bind fun _ => setState txnId .aborted).run Kv.store kv =
      (kv.extend ((rows.map fun row => (row.1, none)) ++ [recorded txnId .aborted]), .ok ()) := by
  rw [Program.run_bind, run_clearDurableIntents staged scanned]
  have room : (kv.extend (rows.map fun row => (row.1, none))).accept
      ⟨true, encodeRecKey txnId, some [Txn2pcState.aborted.asByte]⟩ = .ok () := roomy txnId _
  refine (Kv.run_write room).trans ?_
  rw [Kv.extend_extend]
  rfl

def Recorded (txnId : UInt64) (kv : Kv) (state : Txn2pcState) : Prop :=
  parseState (kv.get (encodeRecKey txnId)) = .ok (some state)

theorem Recorded.unique (one : Recorded txnId kv first) (two : Recorded txnId kv second) : first = second := by
  unfold Recorded at one two
  exact Option.some.inj (Except.ok.inj (one.symm.trans two))

theorem after_clear (state : Txn2pcState) (scanned : kv.scanPrefix (encodeIntentScanPrefix txnId) = .ok rows) :
    SameUser kv (kv.extend ((rows.map fun row => (row.1, none)) ++ [recorded txnId state])) ∧
      (NoIntents txnId (kv.extend ((rows.map fun row => (row.1, none)) ++ [recorded txnId state])) ↔
        ∀ userKey value, kv.get (encodeIntentKey txnId userKey) = some value →
          (encodeIntentKey txnId userKey, value) ∈ rows) := by
  have last {key : Bytes} (apart : encodeRecKey txnId ≠ key) : ∀ write ∈ [recorded txnId state], write.1 ≠ key := by
    intro write inside same
    rw [List.mem_singleton.mp inside] at same
    exact apart same
  constructor
  · intro key outside
    have apart : encodeRecKey txnId ≠ key := fun same => outside (same ▸ txnSysPrefix_encodeRecKey txnId)
    rw [Kv.get_extend, valueAfter_append, valueAfter_of_not_mem (last apart), valueAfter_of_not_mem]
    intro write inside same
    obtain ⟨row, held, rfl⟩ := List.mem_map.mp inside
    obtain ⟨userKey, marked⟩ := intentPrefix_iff.mp (Kv.mem_scan scanned held).1
    refine outside ?_
    rw [← same, marked]
    exact txnSysPrefix_encodeIntentKey txnId userKey
  · have now (userKey : Bytes) : (kv.extend ((rows.map fun row => (row.1, none)) ++ [recorded txnId state])).get
        (encodeIntentKey txnId userKey) =
          valueAfter (rows.map fun row => (row.1, none)) (encodeIntentKey txnId userKey)
            (kv.get (encodeIntentKey txnId userKey)) := by
      rw [Kv.get_extend, valueAfter_append,
        valueAfter_of_not_mem (last (encodeIntentKey_ne_encodeRecKey txnId txnId userKey).symm)]
    constructor
    · intro none userKey value found
      by_cases listed : ∃ row ∈ rows, row.1 = encodeIntentKey txnId userKey
      · obtain ⟨⟨key, other⟩, inside, rfl⟩ := listed
        cases (Kv.mem_scan scanned inside).2.symm.trans found
        exact inside
      · have kept := none userKey
        rw [now, valueAfter_of_not_mem, found] at kept
        · cases kept
        · intro write inside same
          obtain ⟨row, held, rfl⟩ := List.mem_map.mp inside
          exact listed ⟨row, held, same⟩
    · intro all userKey
      rw [now]
      refine valueAfter_of_constant (fun write inside _ => ?_) ?_
      · obtain ⟨row, -, rfl⟩ := List.mem_map.mp inside
        rfl
      · cases found : kv.get (encodeIntentKey txnId userKey) with
        | none => exact .inl rfl
        | some value => exact .inr ⟨_, List.mem_map_of_mem (all userKey value found), rfl⟩

/-- The value a key is to have once the mutations are committed. -/
def target (mutations : List Mutation) (before : Kv) (key : Bytes) : Option Bytes :=
  valueAfter mutations key (before.get key)

theorem extend_intents (kv : Kv) (txnId : UInt64) (mutations : List Mutation) (values : Mutation → Option Bytes) :
    (kv.extend (mutations.map fun mutation => (encodeIntentKey txnId mutation.1, values mutation))).get
        (encodeRecKey txnId) = kv.get (encodeRecKey txnId) ∧
      SameUser kv (kv.extend (mutations.map fun mutation => (encodeIntentKey txnId mutation.1, values mutation))) := by
  constructor
  · apply Kv.get_extend_of_not_mem
    intro write inside
    obtain ⟨mutation, -, rfl⟩ := List.mem_map.mp inside
    exact encodeIntentKey_ne_encodeRecKey txnId txnId mutation.1
  · intro key outside
    apply Kv.get_extend_of_not_mem
    rintro write inside rfl
    obtain ⟨mutation, -, rfl⟩ := List.mem_map.mp inside
    exact outside (txnSysPrefix_encodeIntentKey txnId mutation.1)

theorem sameUser_record (state : Txn2pcState) : SameUser kv (kv.extend [recorded txnId state]) := by
  intro key outside
  apply Kv.get_extend_of_not_mem
  rintro write inside rfl
  rw [List.mem_singleton.mp inside] at outside
  exact outside (txnSysPrefix_encodeRecKey txnId)

theorem staged_of_ok : ∀ kv : Kv, ((stageIntents txnId mutations).run Kv.store kv).2 = .ok () →
    mutations.takeWhile (kv.stages txnId) = mutations := by
  induction mutations with
  | nil => exact fun _ _ => rfl
  | cons mutation rest ih =>
    intro kv ok
    obtain ⟨key, value⟩ := mutation
    simp only [stageIntents] at ok
    split at ok
    · cases ok
    next filled =>
      split at ok
      · cases ok
      next user =>
        rcases kv.perform_cases ⟨true, encodeIntentKey txnId key, some (encodeIntentValue value)⟩ with
          ⟨done, admitted⟩ | ⟨reason, failed, -⟩
        · have staged := stages_of_accept (by simpa using filled) user admitted
          have later : rest.takeWhile (kv.stages txnId) = rest :=
            ih (kv.record _) ((congrArg Prod.snd (Kv.run_write_done done)).symm.trans ok)
          rw [List.takeWhile_cons_of_pos staged, later]
        · have refused := (congrArg Prod.snd (Kv.run_write_failed failed)).symm.trans ok
          cases refused

theorem run_prepare_ok (roomy : before.Roomy) (ok : ((applyTxnPrepare txnId mutations).run Kv.store before).2 = .ok ()) :
    mutations.takeWhile (before.stages txnId) = mutations ∧ ((applyTxnPrepare txnId mutations).run Kv.store before).1 =
      ((before.extend [recorded txnId .preparing]).extend (intentWrites txnId mutations)).extend
        [recorded txnId .prepared] := by
  have first : (applyTxnPrepare txnId mutations).run Kv.store before =
      ((stageIntents txnId mutations).bind fun _ => setState txnId .prepared).run Kv.store
        (before.extend [recorded txnId .preparing]) := Kv.run_write (roomy txnId _)
  have staged := run_stageIntents txnId mutations (before.extend [recorded txnId .preparing])
  rw [first, Program.run_bind] at ok ⊢
  rcases outcome : (stageIntents txnId mutations).run Kv.store (before.extend [recorded txnId .preparing]) with
    ⟨later, reason | value⟩ <;> rw [outcome] at staged ok
  · cases ok
  · have all : mutations.takeWhile (before.stages txnId) = mutations :=
      staged_of_ok (before.extend [recorded txnId .preparing]) (congrArg Prod.snd outcome)
    refine ⟨all, ?_⟩
    dsimp only at staged ⊢
    have same : mutations.takeWhile ((before.extend [recorded txnId .preparing]).stages txnId) = mutations := all
    rw [same] at staged
    have room : later.accept ⟨true, encodeRecKey txnId, some [Txn2pcState.prepared.asByte]⟩ = .ok () := by
      rw [staged]
      exact roomy txnId _
    have last : (setState txnId .prepared).run Kv.store later =
        (later.extend [recorded txnId .prepared], .ok ()) := Kv.run_write room
    rw [last, staged]

end KayaDB.Storage
