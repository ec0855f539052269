import KayaDB.Storage.TxnIntents
import KayaDB.Storage.TxnKeys

/-! Transaction ids over the nodes of a cluster. Each node counts in memory from one,
the leader of the first group hands out its own count, and what a transaction over
several groups writes is kept under keys made of its id. -/

namespace KayaDB.Storage.TxnIds
open Raft Runs

/-- Client transactions are numbered as they begin; `used` has the durable keys with
the number of the transaction that wrote them. -/
structure Fleet where
  dbs : NodeId → TxnEngine
  leader : NodeId
  begun : List UInt64
  used : List (Nat × Bytes)

/-- `work` is anything else that a node does: it leaves the count alone. -/
inductive Event where
  | begin
  | commit (number : Nat) (lookupGroup : Bytes → Nat)
  | work (node : NodeId) (engine : Engine) (lastSequence : Nat) (intents : Bytes → Option Intent)
    (txns : UInt64 → Option TxnMeta)
  | restart (node : NodeId) (engine : Engine) (lastSequence : Nat)
  | elect (node : NodeId)

/-- Participant record, decision and intents. -/
def durableKeys (txnId : UInt64) (mutations : List TxnMutation) : List Bytes :=
  encodeRecKey txnId :: encodeDecKey txnId :: mutations.map fun mutation => encodeIntentKey txnId mutation.1

/-- Writes to more than one group are committed in two phases. -/
def txnCommitViaRaft (fleet : Fleet) (number : Nat) (lookupGroup : Bytes → Nat) : Fleet :=
  match fleet.begun[number]? with
  | none => fleet
  | some txnId =>
    let (db, staged) := (fleet.dbs fleet.leader).txnTakeCommit txnId
    let fleet := { fleet with dbs := Function.update fleet.dbs fleet.leader db }
    match staged with
    | .error _ => fleet
    | .ok mutations =>
      if 1 < (mutations.map fun mutation => lookupGroup mutation.1).dedup.length then
        { fleet with used := fleet.used ++ (durableKeys txnId mutations).map fun key => (number, key) }
      else fleet

def step (fleet : Fleet) : Event → Fleet
  | .begin =>
    let (db, txnId, _) := (fleet.dbs fleet.leader).beginTxn
    { fleet with dbs := Function.update fleet.dbs fleet.leader db, begun := fleet.begun ++ [txnId] }
  | .commit number lookupGroup => txnCommitViaRaft fleet number lookupGroup
  | .work node engine lastSequence intents txns =>
    let txn := { (fleet.dbs node).txn with intents, txns }
    { fleet with dbs := Function.update fleet.dbs node ⟨engine, lastSequence, txn⟩ }
  | .restart node engine lastSequence =>
    { fleet with dbs := Function.update fleet.dbs node (.start engine lastSequence) }
  | .elect node => { fleet with leader := node }

def start (engines : NodeId → Engine) (lastSequence : NodeId → Nat) (leader : NodeId) : Fleet :=
  ⟨fun node => .start (engines node) (lastSequence node), leader, [], []⟩

/-- A leader that has handed out ids is not restarted, a new leader has counted past
all ids there are, and no count is at its end. -/
def Counting (fleet : Fleet) : Event → Prop
  | .begin => (fleet.dbs fleet.leader).txn.nextTxnId.toNat < 2 ^ 64 - 1
  | .restart node _ _ => node = fleet.leader → fleet.begun = []
  | .elect node => ∀ txnId ∈ fleet.begun, txnId.toNat < (fleet.dbs node).txn.nextTxnId.toNat
  | _ => True

def OwnKey (txnId : UInt64) (key : Bytes) : Prop :=
  key = encodeRecKey txnId ∨ key = encodeDecKey txnId ∨ ∃ userKey, key = encodeIntentKey txnId userKey

theorem OwnKey.unique {first second : UInt64} {key : Bytes} (one : OwnKey first key) (two : OwnKey second key) :
    first = second := by
  rcases one with rfl | rfl | ⟨userKey, rfl⟩
  · rcases two with same | same | ⟨other, same⟩
    · exact encodeRecKey_injective same
    · exact absurd same (encodeRecKey_ne_encodeDecKey _ _)
    · exact absurd same.symm (encodeIntentKey_ne_encodeRecKey _ _ _)
  · rcases two with same | same | ⟨other, same⟩
    · exact absurd same.symm (encodeRecKey_ne_encodeDecKey _ _)
    · exact encodeDecKey_injective same
    · exact absurd same.symm (encodeIntentKey_ne_encodeDecKey _ _ _)
  · rcases two with same | same | ⟨other, same⟩
    · exact absurd same (encodeIntentKey_ne_encodeRecKey _ _ _)
    · exact absurd same (encodeIntentKey_ne_encodeDecKey _ _ _)
    · exact (encodeIntentKey_injective same).1

theorem ownKey_of_mem {txnId : UInt64} {mutations : List TxnMutation} {key : Bytes}
    (inside : key ∈ durableKeys txnId mutations) : OwnKey txnId key := by
  rcases List.mem_cons.mp inside with same | inside
  · exact Or.inl same
  rcases List.mem_cons.mp inside with same | inside
  · exact Or.inr (Or.inl same)
  obtain ⟨mutation, -, rfl⟩ := List.mem_map.mp inside
  exact Or.inr (Or.inr ⟨_, rfl⟩)

structure Unshared (fleet : Fleet) : Prop where
  below : ∀ txnId ∈ fleet.begun, txnId.toNat < (fleet.dbs fleet.leader).txn.nextTxnId.toNat
  once : fleet.begun.Nodup
  owned : ∀ use ∈ fleet.used, ∃ txnId, fleet.begun[use.1]? = some txnId ∧ OwnKey txnId use.2

section
variable {fleet : Fleet}

theorem txnTakeCommit_nextTxnId (db : TxnEngine) (txnId : UInt64) :
    (db.txnTakeCommit txnId).1.txn.nextTxnId = db.txn.nextTxnId := by
  unfold TxnEngine.txnTakeCommit
  split
  · rfl
  · split <;> rfl

section
variable (unshared : Unshared fleet)
include unshared

theorem Unshared.update {node : NodeId} {db : TxnEngine}
    (counts : node = fleet.leader → fleet.begun = [] ∨ db.txn.nextTxnId = (fleet.dbs node).txn.nextTxnId) :
    Unshared { fleet with dbs := Function.update fleet.dbs node db } := by
  refine { unshared with below := fun txnId inside => ?_ }
  have low := unshared.below txnId inside
  by_cases leads : node = fleet.leader
  · subst leads
    rcases counts rfl with empty | same
    · rw [empty] at inside
      cases inside
    · simpa [same] using low
  · simpa [Function.update_of_ne (Ne.symm leads)] using low

theorem Unshared.begin
    (room : (fleet.dbs fleet.leader).txn.nextTxnId.toNat < 2 ^ 64 - 1) : Unshared (step fleet .begin) := by
  have next := TxnSession.saturatingNext_toNat room
  refine ⟨fun txnId inside => ?_, ?_, fun use inside => ?_⟩
  · simp only [step, TxnEngine.beginTxn, Function.update_self, next]
    rcases List.mem_append.mp inside with old | new
    · exact (unshared.below txnId old).trans (Nat.lt_succ_self _)
    · rw [List.mem_singleton.mp new]
      exact Nat.lt_succ_self _
  · refine List.nodup_append.mpr ⟨unshared.once, List.nodup_singleton _, fun old inside new single same => ?_⟩
    have low := unshared.below old inside
    rw [same, List.mem_singleton.mp single] at low
    exact Nat.lt_irrefl _ low
  · obtain ⟨txnId, found, owns⟩ := unshared.owned use inside
    exact ⟨txnId, (List.getElem?_append_left (List.getElem?_eq_some_iff.mp found).1).trans found, owns⟩

theorem Unshared.commit (number : Nat) (lookupGroup : Bytes → Nat) :
    Unshared (txnCommitViaRaft fleet number lookupGroup) := by
  unfold txnCommitViaRaft
  split
  next => exact unshared
  next txnId found =>
    have taken := unshared.update fun _ =>
      Or.inr (txnTakeCommit_nextTxnId (fleet.dbs fleet.leader) txnId)
    dsimp only
    split
    next => exact taken
    next mutations _ =>
      split
      next =>
        refine { taken with owned := fun use inside => ?_ }
        rcases List.mem_append.mp inside with old | new
        · exact unshared.owned use old
        · obtain ⟨key, own, rfl⟩ := List.mem_map.mp new
          exact ⟨txnId, found, ownKey_of_mem own⟩
      next => exact taken

theorem Unshared.step {event : Event} (counting : Counting fleet event) : Unshared (step fleet event) := by
  cases event with
  | begin => exact unshared.begin counting
  | commit number lookupGroup => exact unshared.commit number lookupGroup
  | work node engine lastSequence intents txns => exact unshared.update fun _ => Or.inr rfl
  | restart node engine lastSequence => exact unshared.update fun leads => Or.inl (counting leads)
  | elect node => exact { unshared with below := counting }

end

end

/-- While the counts go on over restarts and changes of the leader, no two
transactions use a common durable key. -/
theorem durable_keys_apart (engines : NodeId → Engine) (lastSequence : NodeId → Nat) (leader : NodeId) {fleet : Fleet}
    (reached : Reaches step Counting (start engines lastSequence leader) fleet) :
    ∀ one ∈ fleet.used, ∀ two ∈ fleet.used, one.2 = two.2 → one.1 = two.1 := by
  have unshared : Unshared fleet := by
    refine reached.invariant Unshared ⟨?_, List.nodup_nil, ?_⟩ (Unshared.step · ·)
    · exact fun _ inside => absurd inside List.not_mem_nil
    · exact fun _ inside => absurd inside List.not_mem_nil
  intro one inOne two inTwo same
  obtain ⟨first, found, owns⟩ := unshared.owned one inOne
  obtain ⟨second, also, owns'⟩ := unshared.owned two inTwo
  obtain rfl := owns.unique (same ▸ owns')
  obtain ⟨bound, -⟩ := List.getElem?_eq_some_iff.mp found
  exact (List.getElem?_inj bound unshared.once).mp (found.trans also.symm)

/-- The first transaction of a count, with a write to each of two keys, is committed. -/
def firstCommit (number : Nat) : List Event :=
  [.begin, .work ⟨1⟩ (.fresh leveledConfig) 0 (fun key => if key.length = 1 then some ⟨1, some []⟩ else none)
    (fun txnId => if txnId = 1 then some ⟨0, .ofList [[1], [2]]⟩ else none), .commit number fun key => (key.headD 0).toNat]

def single : Fleet := start (fun _ => .fresh leveledConfig) (fun _ => 0) ⟨1⟩

theorem durable_keys_apart_in_firstCommit :
    ((firstCommit 0).foldl step single).used ≠ [] ∧
      ∀ one ∈ ((firstCommit 0).foldl step single).used, ∀ two ∈ ((firstCommit 0).foldl step single).used,
        one.2 = two.2 → one.1 = two.1 := by
  have first : Counting single .begin := by
    change (1 : UInt64).toNat < 2 ^ 64 - 1
    decide
  have permitted : Permits step Counting single (firstCommit 0) := by
    unfold firstCommit
    exact ⟨first, trivial, trivial, trivial⟩
  exact ⟨by decide +kernel, durable_keys_apart _ _ _ permitted.reaches⟩

/-- After a restart the leader begins its count again. -/
theorem restart_shares_keys :
    let fleet := (firstCommit 0 ++ .restart ⟨1⟩ (.fresh leveledConfig) 0 :: firstCommit 1).foldl step single
    (0, encodeRecKey 1) ∈ fleet.used ∧ (1, encodeRecKey 1) ∈ fleet.used ∧
      ¬ ∀ one ∈ fleet.used, ∀ two ∈ fleet.used, one.2 = two.2 → one.1 = two.1 := by
  decide +kernel

end KayaDB.Storage.TxnIds
