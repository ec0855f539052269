import KayaDB.Storage.Txn2pc

/-! The keys of transaction records. Those of different transactions are never shared,
the intents of one are exactly what lies under its prefix, and no key the public
interface accepts is among them. -/

namespace KayaDB.Storage
open Raft

theorem length_txnIdBytes (txnId : UInt64) : (txnIdBytes txnId).length = 8 := by
  rw [txnIdBytes, List.length_reverse, u64Bytes, length_toLeBytes]

theorem fromLeBytes_txnIdBytes (txnId : UInt64) : fromLeBytes (txnIdBytes txnId).reverse = txnId.toNat := by
  rw [txnIdBytes, List.reverse_reverse, u64Bytes, fromLeBytes_toLeBytes]
  exact Nat.mod_eq_of_lt txnId.toNat_lt

theorem txnIdBytes_injective : Function.Injective txnIdBytes := by
  intro first second same
  apply UInt64.toNat_inj.mp
  rw [← fromLeBytes_txnIdBytes first, same, fromLeBytes_txnIdBytes]

theorem encodeRecKey_injective : Function.Injective encodeRecKey := fun _ _ same =>
  txnIdBytes_injective (List.append_cancel_left same)

theorem encodeDecKey_injective : Function.Injective encodeDecKey := fun _ _ same =>
  txnIdBytes_injective (List.append_cancel_left same)

/-- The sixth byte tells the kinds of keys apart. -/
theorem encodeRecKey_sixth (txnId : UInt64) : (encodeRecKey txnId)[5]? = some 114 := rfl

theorem encodeDecKey_sixth (txnId : UInt64) : (encodeDecKey txnId)[5]? = some 100 := rfl

theorem encodeIntentKey_sixth (txnId : UInt64) (userKey : Bytes) : (encodeIntentKey txnId userKey)[5]? = some 105 := rfl

theorem encodeRecKey_ne_encodeDecKey (first second : UInt64) : encodeRecKey first ≠ encodeDecKey second := by
  intro same
  have sixth := congrArg (fun key : Bytes => key[5]?) same
  rw [encodeRecKey_sixth, encodeDecKey_sixth] at sixth
  exact absurd sixth (by decide)

theorem encodeIntentKey_ne_encodeRecKey (first second : UInt64) (userKey : Bytes) :
    encodeIntentKey first userKey ≠ encodeRecKey second := by
  intro same
  have sixth := congrArg (fun key : Bytes => key[5]?) same
  rw [encodeIntentKey_sixth, encodeRecKey_sixth] at sixth
  exact absurd sixth (by decide)

theorem encodeIntentKey_ne_encodeDecKey (first second : UInt64) (userKey : Bytes) :
    encodeIntentKey first userKey ≠ encodeDecKey second := by
  intro same
  have sixth := congrArg (fun key : Bytes => key[5]?) same
  rw [encodeIntentKey_sixth, encodeDecKey_sixth] at sixth
  exact absurd sixth (by decide)

variable {key userKey : Bytes} {txnId : UInt64}

theorem intentPrefix_iff : encodeIntentScanPrefix txnId <+: key ↔ ∃ userKey, key = encodeIntentKey txnId userKey :=
  ⟨fun ⟨userKey, same⟩ => ⟨userKey, same.symm⟩, fun ⟨userKey, same⟩ => ⟨userKey, same.symm⟩⟩

theorem userKeyFromIntentKey_eq_some :
    userKeyFromIntentKey txnId key = some userKey ↔ key = encodeIntentKey txnId userKey := by
  unfold userKeyFromIntentKey
  constructor
  · intro found
    split at found
    next starts =>
      obtain ⟨rest, rfl⟩ := starts
      rw [List.drop_left] at found
      cases found
      rfl
    next => cases found
  · rintro rfl
    unfold encodeIntentKey
    rw [if_pos (List.prefix_append _ _), List.drop_left]

theorem encodeIntentKey_injective {first second : UInt64} {other : Bytes}
    (same : encodeIntentKey first userKey = encodeIntentKey second other) : first = second ∧ userKey = other := by
  have lengths : (encodeIntentScanPrefix first).length = (encodeIntentScanPrefix second).length := by
    unfold encodeIntentScanPrefix
    rw [List.length_append, List.length_append, List.length_append, List.length_append, length_txnIdBytes,
      length_txnIdBytes]
  obtain ⟨starts, rests⟩ := List.append_inj same lengths
  refine ⟨?_, rests⟩
  unfold encodeIntentScanPrefix at starts
  rw [List.append_assoc, List.append_assoc] at starts
  exact txnIdBytes_injective (List.append_cancel_right (List.append_cancel_left starts))

theorem not_system_of_accept {kv : Kv} {request : WriteRequest} (admitted : kv.accept request = .ok ())
    (checked : request.raw = false) : ¬ txnSysPrefix <+: request.key := by
  intro system
  unfold Kv.accept WriteRequest.validate at admitted
  rw [checked] at admitted
  cases valid : kv.limits.validateKey request.key with
  | error reason =>
    rw [valid] at admitted
    cases admitted
  | ok =>
    have rejected : ∃ reason, rejectIfSystemKey request.key = .error reason := by
      unfold rejectIfSystemKey
      split <;> exact ⟨_, rfl⟩
    obtain ⟨reason, rejected⟩ := rejected
    rw [valid, rejected] at admitted
    cases admitted

theorem txnSysPrefix_encodeRecKey (txnId : UInt64) : txnSysPrefix <+: encodeRecKey txnId := by
  unfold encodeRecKey txnRecPrefix
  rw [List.append_assoc]
  exact List.prefix_append _ _

theorem txnSysPrefix_encodeDecKey (txnId : UInt64) : txnSysPrefix <+: encodeDecKey txnId := by
  unfold encodeDecKey txnDecPrefix
  rw [List.append_assoc]
  exact List.prefix_append _ _

theorem txnSysPrefix_encodeIntentKey (txnId : UInt64) (userKey : Bytes) :
    txnSysPrefix <+: encodeIntentKey txnId userKey := by
  unfold encodeIntentKey encodeIntentScanPrefix txnIntentPrefix
  rw [List.append_assoc, List.append_assoc, List.append_assoc]
  exact List.prefix_append _ _

end KayaDB.Storage
