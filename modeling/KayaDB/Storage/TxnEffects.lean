import KayaDB.Storage.TxnRecords

/-! What whole programs leave behind. Mutations are written up to the first that is not
accepted, and a commit whose intents fit into one scan gives every user key its staged
value and leaves no intent. -/

namespace KayaDB.Storage
open Raft
open Programs EngineProgram

section Decisions
variable {txnId : UInt64} {kv : Kv}

theorem valueAfter_of_constant {journal : List (Bytes × Option Bytes)} {key : Bytes} {value : Option Bytes}
    (constant : ∀ write ∈ journal, write.1 = key → write.2 = value) : ∀ {before : Option Bytes},
      before = value ∨ (∃ write ∈ journal, write.1 = key) → valueAfter journal key before = value := by
  induction journal with
  | nil =>
    rintro before (same | ⟨write, inside, -⟩)
    · exact same
    · cases inside
  | cons write rest ih =>
    intro before reason
    refine ih (fun later inside => constant later (List.mem_cons_of_mem _ inside)) ?_
    dsimp only
    by_cases here : write.1 = key
    · rw [if_pos here]
      exact Or.inl (constant write List.mem_cons_self here)
    · rw [if_neg here]
      rcases reason with same | ⟨later, inside, same⟩
      · exact Or.inl same
      · rcases List.mem_cons.mp inside with rfl | inside
        · exact absurd same here
        · exact Or.inr ⟨later, inside, same⟩

theorem parseDecision_byte (commit : Bool) : parseDecision (some [if commit then 1 else 0]) = .ok (some commit) := by
  cases commit <;> rfl

theorem run_readDecision {α : Type} (rest : Option Bool → EngineProgram α) :
    ((readTxnDecision txnId).bind rest).run Kv.store kv =
      match parseDecision (kv.get (encodeDecKey txnId)) with
      | .ok found => (rest found).run Kv.store kv
      | .error reason => (kv, .error reason) := by
  change ((Program.ofExcept (parseDecision (kv.get (encodeDecKey txnId)))).bind rest).run Kv.store kv = _
  cases parseDecision (kv.get (encodeDecKey txnId)) <;> rfl

end Decisions

namespace Kv

def extend (kv : Kv) (writes : List (Bytes × Option Bytes)) : Kv := { kv with journal := kv.journal ++ writes }

def admits (kv : Kv) (mutation : Mutation) : Bool := (kv.accept ⟨false, mutation.1, mutation.2⟩).toBool

def stages (kv : Kv) (txnId : UInt64) (mutation : Mutation) : Bool :=
  !mutation.1.isEmpty && !decide (txnSysPrefix <+: mutation.1 ∨ indexSysPrefix <+: mutation.1) &&
    (kv.accept ⟨true, encodeIntentKey txnId mutation.1, some (encodeIntentValue mutation.2)⟩).toBool

def Roomy (kv : Kv) : Prop := ∀ txnId byte, kv.accept ⟨true, encodeRecKey txnId, some [byte]⟩ = .ok ()

variable {kv : Kv} {txnId : UInt64}
  {writes : List (Bytes × Option Bytes)} {request : WriteRequest} {front : Bytes} {other : Kv}

theorem extend_nil (kv : Kv) : kv.extend [] = kv := by
  unfold extend
  rw [List.append_nil]

theorem extend_extend (kv : Kv) (first second : List (Bytes × Option Bytes)) :
    (kv.extend first).extend second = kv.extend (first ++ second) := by
  unfold extend
  rw [List.append_assoc]

theorem record_eq_extend (kv : Kv) (request : WriteRequest) :
    kv.record request = kv.extend [(request.key, request.value)] := rfl

theorem get_extend (kv : Kv) (writes : List (Bytes × Option Bytes)) (key : Bytes) :
    (kv.extend writes).get key = valueAfter writes key (kv.get key) :=
  valueAfter_append kv.journal writes key none

theorem get_extend_of_not_mem {key : Bytes} (absent : ∀ write ∈ writes, write.1 ≠ key) :
    (kv.extend writes).get key = kv.get key := by
  rw [get_extend, valueAfter_of_not_mem absent]

theorem run_write {α : Type} {next : EngineProgram α} (admitted : kv.accept request = .ok ()) :
    (Program.write request next : EngineProgram α).run Kv.store kv =
      next.run Kv.store (kv.extend [(request.key, request.value)]) := by
  rcases kv.perform_cases request with ⟨done, -⟩ | ⟨reason, -, refused⟩
  · exact run_write_done done
  · rw [admitted] at refused
    cases refused

theorem run_write_refused {α : Type} (next : EngineProgram α) (refused : (kv.accept request).toBool = false) :
    ∃ reason, (Program.write request next : EngineProgram α).run Kv.store kv = (kv, .error reason) := by
  rcases kv.perform_cases request with ⟨-, admitted⟩ | ⟨reason, failed, -⟩
  · rw [admitted] at refused
    cases refused
  · exact ⟨reason, run_write_failed failed⟩

theorem accept_of_toBool (admitted : (kv.accept request).toBool = true) : kv.accept request = .ok () := by
  cases outcome : kv.accept request with
  | ok => rfl
  | error reason =>
    rw [outcome] at admitted
    cases admitted

theorem scanPrefix_ext (limits : other.limits = kv.limits)
    (written : ∀ key, front <+: key → ((∃ value, (key, value) ∈ other.journal) ↔ ∃ value, (key, value) ∈ kv.journal))
    (values : ∀ key, front <+: key → other.get key = kv.get key) : other.scanPrefix front = kv.scanPrefix front := by
  have sameKeys : other.keys front = kv.keys front := by
    have same : SortedSet.ofList ((other.journal.map Prod.fst).filter (front <+: ·)) =
        SortedSet.ofList ((kv.journal.map Prod.fst).filter (front <+: ·)) := by
      ext key
      change key ∈ other.keys front ↔ key ∈ kv.keys front
      rw [mem_keys, mem_keys]
      exact and_congr_right fun starts => written key starts
    exact congrArg SortedSet.elems same
  unfold scanPrefix
  rw [sameKeys, limits]
  refine congrArg (Except.map · (kv.limits.validateScanPrefix front)) ?_
  funext _
  refine congrArg _ (List.map_congr_left fun key listed => ?_)
  rw [values key (mem_keys.mp (List.mem_of_mem_take listed)).1]

theorem scanPrefix_congr (limits : other.limits = kv.limits)
    (same : other.journal.filter (fun write => front <+: write.1) = kv.journal.filter fun write => front <+: write.1)
      : other.scanPrefix front = kv.scanPrefix front := by
  have getOf (kv : Kv) {key : Bytes} (starts : front <+: key) :
      kv.get key = valueAfter (kv.journal.filter fun write => front <+: write.1) key none :=
    (valueAfter_filter (fun key => decide (front <+: key)) (decide_eq_true starts) kv.journal none).symm
  have memOf (kv : Kv) {key : Bytes} (starts : front <+: key) (value : Option Bytes) :
      (key, value) ∈ kv.journal.filter (fun write => front <+: write.1) ↔ (key, value) ∈ kv.journal := by
    rw [List.mem_filter]
    exact and_iff_left (decide_eq_true starts)
  apply scanPrefix_ext limits
  · intro key starts
    refine exists_congr fun value => ?_
    rw [← memOf other starts, ← memOf kv starts, same]
  · intro key starts
    rw [getOf other starts, getOf kv starts, same]

theorem scanPrefix_extend (outside : ∀ write ∈ writes, ¬ front <+: write.1) :
    (kv.extend writes).scanPrefix front = kv.scanPrefix front := by
  apply scanPrefix_congr
  · rfl
  · have none : writes.filter (fun write => decide (front <+: write.1)) = [] := by
      apply List.filter_eq_nil_iff.mpr
      exact fun write inside starts => outside write inside (of_decide_eq_true starts)
    unfold extend
    rw [List.filter_append, none, List.append_nil]

end Kv

variable {kv : Kv} {txnId : UInt64}
  {rows : List (Bytes × Bytes)} {limits : LimitsConfig} {request : WriteRequest} {mutation : Mutation}

theorem run_applyMutations_ok {mutations : List Mutation} : ∀ {kv : Kv}, (∀ mutation ∈ mutations, kv.admits mutation = true) →
    (applyMutations mutations).run Kv.store kv = (kv.extend mutations, .ok ()) := by
  induction mutations with
  | nil => exact fun _ => Prod.ext (Kv.extend_nil _).symm rfl
  | cons mutation rest ih =>
    intro kv admitted
    have step : applyMutations (mutation :: rest) =
        Program.write ⟨false, mutation.1, mutation.2⟩ (applyMutations rest) := by
      obtain ⟨key, _ | value⟩ := mutation <;> rfl
    have others : ∀ later ∈ rest, (kv.extend [(mutation.1, mutation.2)]).admits later = true :=
      fun later inside => admitted later (List.mem_cons_of_mem _ inside)
    rw [step, Kv.run_write (Kv.accept_of_toBool (admitted mutation List.mem_cons_self)), ih others, Kv.extend_extend]
    rfl

theorem run_deleteRows : ∀ {kv : Kv},
    (∀ row ∈ rows, kv.accept ⟨true, row.1, none⟩ = .ok ()) →
      (deleteRows rows).run Kv.store kv = (kv.extend (rows.map fun row => (row.1, none)), .ok ()) := by
  induction rows with
  | nil => exact fun _ => Prod.ext (Kv.extend_nil _).symm rfl
  | cons row rest ih =>
    intro kv admitted
    have step : deleteRows (row :: rest) = Program.write ⟨true, row.1, none⟩ (deleteRows rest) := rfl
    have others : ∀ later ∈ rest, (kv.extend [(row.1, none)]).accept ⟨true, later.1, none⟩ = .ok () :=
      fun later inside => admitted later (List.mem_cons_of_mem _ inside)
    rw [step, Kv.run_write (admitted row List.mem_cons_self), ih others, Kv.extend_extend]
    rfl

def intentWrites (txnId : UInt64) (mutations : List Mutation) : List (Bytes × Option Bytes) :=
  mutations.map fun mutation => (encodeIntentKey txnId mutation.1, some (encodeIntentValue mutation.2))

theorem run_stageIntents (txnId : UInt64) (mutations : List Mutation) : ∀ kv : Kv,
    ((stageIntents txnId mutations).run Kv.store kv).1 =
      kv.extend (intentWrites txnId (mutations.takeWhile (kv.stages txnId))) := by
  induction mutations with
  | nil => exact fun kv => (kv.extend_nil).symm
  | cons mutation rest ih =>
    intro kv
    obtain ⟨key, value⟩ := mutation
    by_cases empty : key.isEmpty = true
    · have stopped : kv.stages txnId (key, value) = false := by simp [Kv.stages, empty]
      rw [List.takeWhile_cons_of_neg (by rw [stopped]; decide)]
      simp only [stageIntents, if_pos empty]
      exact (kv.extend_nil).symm
    · by_cases system : txnSysPrefix <+: key ∨ indexSysPrefix <+: key
      · have stopped : kv.stages txnId (key, value) = false := by simp [Kv.stages, system]
        rw [List.takeWhile_cons_of_neg (by rw [stopped]; decide)]
        simp only [stageIntents, if_neg empty, if_pos system]
        exact (kv.extend_nil).symm
      · have step : stageIntents txnId ((key, value) :: rest) =
            Program.write ⟨true, encodeIntentKey txnId key, some (encodeIntentValue value)⟩ (stageIntents txnId rest) := by
          simp only [stageIntents, if_neg empty, if_neg system]
          rfl
        have reduces : kv.stages txnId (key, value) =
            (kv.accept ⟨true, encodeIntentKey txnId key, some (encodeIntentValue value)⟩).toBool := by
          simp [Kv.stages, empty, system]
        rw [step]
        cases admitted : kv.stages txnId (key, value) with
        | true =>
          rw [Kv.run_write (Kv.accept_of_toBool (reduces ▸ admitted)), ih, List.takeWhile_cons_of_pos admitted,
            Kv.extend_extend]
          rfl
        | false =>
          obtain ⟨reason, refused⟩ := Kv.run_write_refused (stageIntents txnId rest) (reduces ▸ admitted)
          rw [refused, List.takeWhile_cons_of_neg (by rw [admitted]; decide)]
          exact (kv.extend_nil).symm

theorem validateKey_eq_ok {key : Bytes} :
    limits.validateKey key = .ok () ↔ key ≠ [] ∧ key.length ≤ limits.maxKeyLen := by
  unfold LimitsConfig.validateKey
  cases key with
  | nil => simp
  | cons byte rest =>
    by_cases long : limits.maxKeyLen < (byte :: rest).length
    · rw [if_neg (by simp), if_pos long]
      exact ⟨nofun, fun ⟨_, short⟩ => absurd short (by omega)⟩
    · rw [if_neg (by simp), if_neg long]
      exact ⟨fun _ => ⟨by simp, by omega⟩, fun _ => rfl⟩

theorem validateValue_eq_ok {value : Bytes} :
    limits.validateValue value = .ok () ↔ value.length ≤ limits.maxValueLen := by
  unfold LimitsConfig.validateValue
  by_cases long : limits.maxValueLen < value.length
  · rw [if_pos long]
    exact ⟨nofun, fun short => absurd short (by omega)⟩
  · rw [if_neg long]
    exact ⟨fun _ => by omega, fun _ => rfl⟩

theorem valueValid_eq_ok {value : Option Bytes} :
    (match value with
      | some value => limits.validateValue value
      | none => pure ()) = .ok () ↔ ∀ given, value = some given → limits.validateValue given = .ok () := by
  cases value with
  | none =>
    refine ⟨fun _ given same => ?_, fun _ => rfl⟩
    cases same
  | some value => exact ⟨fun valid _ same => Option.some.inj same ▸ valid, fun all => all value rfl⟩

theorem validate_eq_ok :
    request.validate limits = .ok () ↔ limits.validateKey request.key = .ok () ∧
      (request.raw = false → rejectIfSystemKey request.key = .ok ()) ∧
      ∀ value, request.value = some value → limits.validateValue value = .ok () := by
  unfold WriteRequest.validate
  cases limits.validateKey request.key with
  | error reason =>
    constructor
    · intro valid
      cases valid
    · rintro ⟨valid, -⟩
      cases valid
  | ok =>
    cases request.raw with
    | true =>
      refine valueValid_eq_ok.trans ⟨fun all => ⟨rfl, fun other => ?_, all⟩, fun all => all.2.2⟩
      cases other
    | false =>
      cases rejectIfSystemKey request.key with
      | error reason =>
        constructor
        · intro valid
          cases valid
        · intro all
          cases all.2.1 rfl
      | ok => exact valueValid_eq_ok.trans ⟨fun all => ⟨rfl, fun _ => rfl, all⟩, fun all => all.2.2⟩

theorem Kv.accept_eq_ok :
    kv.accept request = .ok () ↔
      request.validate kv.limits = .ok () ∧ walHeaderLen + request.payload.encodedLen ≤ kv.maxRecordBytes := by
  unfold Kv.accept
  cases request.validate kv.limits with
  | error reason => exact ⟨nofun, fun all => nomatch all.1⟩
  | ok =>
    dsimp only
    split
    next long => exact ⟨nofun, fun all => absurd all.2 (by omega)⟩
    next short => exact ⟨fun _ => ⟨rfl, by omega⟩, fun _ => rfl⟩

theorem Kv.staged_parts (staged : kv.stages txnId mutation = true) :
    mutation.1 ≠ [] ∧ rejectIfSystemKey mutation.1 = .ok () ∧
      kv.accept ⟨true, encodeIntentKey txnId mutation.1, some (encodeIntentValue mutation.2)⟩ = .ok () := by
  unfold Kv.stages at staged
  simp only [Bool.and_eq_true, Bool.not_eq_true', decide_eq_false_iff_not] at staged
  obtain ⟨⟨filled, user⟩, admitted⟩ := staged
  obtain ⟨outside, unindexed⟩ := not_or.mp user
  refine ⟨by simpa using filled, ?_, Kv.accept_of_toBool admitted⟩
  unfold rejectIfSystemKey
  rw [if_neg unindexed, if_neg outside]

theorem length_encodeIntentKey (txnId : UInt64) (userKey : Bytes) :
    (encodeIntentKey txnId userKey).length = 21 + userKey.length := by
  unfold encodeIntentKey encodeIntentScanPrefix
  rw [List.length_append, List.length_append, List.length_append, length_txnIdBytes]
  rfl

theorem length_encodeRecKey (txnId : UInt64) : (encodeRecKey txnId).length = 17 := by
  rw [encodeRecKey, List.length_append, length_txnIdBytes]
  rfl

theorem length_encodeDecKey (txnId : UInt64) : (encodeDecKey txnId).length = 17 := by
  rw [encodeDecKey, List.length_append, length_txnIdBytes]
  rfl

/-- Whether one byte may be written under a raw key depends on the key's length. -/
theorem Kv.accept_byte {first second : Bytes} {one other : UInt8} (filled : second ≠ [])
    (lengths : second.length = first.length) (admitted : kv.accept ⟨true, first, some [one]⟩ = .ok ()) :
    kv.accept ⟨true, second, some [other]⟩ = .ok () := by
  obtain ⟨valid, short⟩ := Kv.accept_eq_ok.mp admitted
  obtain ⟨validKey, -, validValue⟩ := validate_eq_ok.mp valid
  have valueLength := validateValue_eq_ok.mp (validValue [one] rfl)
  refine Kv.accept_eq_ok.mpr ⟨validate_eq_ok.mpr ⟨validateKey_eq_ok.mpr ⟨filled, ?_⟩, nofun, ?_⟩, ?_⟩
  · rw [lengths]
    exact (validateKey_eq_ok.mp validKey).2
  · intro written same
    cases (same : some [other] = some written)
    exact validateValue_eq_ok.mpr valueLength
  · simpa only [WriteRequest.payload, WalPayload.encodedLen, lengths, List.length_singleton] using short

theorem Kv.admits_of_stages (staged : kv.stages txnId mutation = true) : kv.admits mutation = true := by
  obtain ⟨filled, user, admitted⟩ := Kv.staged_parts staged
  obtain ⟨key, value⟩ := mutation
  obtain ⟨valid, short⟩ := Kv.accept_eq_ok.mp admitted
  obtain ⟨validKey, -, validValue⟩ := validate_eq_ok.mp valid
  have keyLength := (validateKey_eq_ok.mp validKey).2
  have valueLength := validateValue_eq_ok.mp (validValue _ rfl)
  dsimp only at keyLength valueLength short
  rw [length_encodeIntentKey] at keyLength
  simp only [WriteRequest.payload, WalPayload.encodedLen, length_encodeIntentKey] at short
  have accepted : kv.accept ⟨false, key, value⟩ = .ok () := by
    refine Kv.accept_eq_ok.mpr ⟨validate_eq_ok.mpr ⟨validateKey_eq_ok.mpr ⟨filled, ?_⟩, fun _ => user, ?_⟩, ?_⟩
    · dsimp only
      omega
    · rintro written rfl
      simp only [encodeIntentValue, List.length_cons] at valueLength
      exact validateValue_eq_ok.mpr (by omega)
    · cases value with
      | none =>
        simp only [WriteRequest.payload, WalPayload.encodedLen]
        omega
      | some written =>
        simp only [encodeIntentValue, List.length_cons] at short
        simp only [WriteRequest.payload, WalPayload.encodedLen]
        omega
  unfold Kv.admits
  rw [accepted]
  rfl

theorem Kv.accept_drop_of_stages (staged : kv.stages txnId mutation = true) :
    kv.accept ⟨true, encodeIntentKey txnId mutation.1, none⟩ = .ok () := by
  obtain ⟨-, -, admitted⟩ := Kv.staged_parts staged
  obtain ⟨valid, short⟩ := Kv.accept_eq_ok.mp admitted
  refine Kv.accept_eq_ok.mpr ⟨validate_eq_ok.mpr ⟨(validate_eq_ok.mp valid).1, nofun, nofun⟩, ?_⟩
  simp only [WriteRequest.payload, WalPayload.encodedLen] at short ⊢
  omega

theorem decodeIntentValue_encodeIntentValue (value : Option Bytes) :
    decodeIntentValue (encodeIntentValue value) = .ok value := by
  cases value <;> rfl

theorem decodeIntents_of_staged (kv : Kv)
    (staged : ∀ row ∈ rows, ∃ mutation : Mutation, kv.stages txnId mutation = true ∧ row = (encodeIntentKey txnId
      mutation.1, encodeIntentValue mutation.2)) :
    ∃ mutations : List Mutation, decodeIntents txnId rows = .ok mutations ∧
      (∀ mutation ∈ mutations, kv.stages txnId mutation = true) ∧
      rows = mutations.map fun mutation => (encodeIntentKey txnId mutation.1, encodeIntentValue mutation.2) := by
  induction rows with
  | nil => exact ⟨[], rfl, fun _ inside => absurd inside List.not_mem_nil, rfl⟩
  | cons row rest ih =>
    obtain ⟨mutation, fits, rfl⟩ := staged row List.mem_cons_self
    obtain ⟨mutations, decoded, all, rfl⟩ := ih fun later inside => staged later (List.mem_cons_of_mem _ inside)
    refine ⟨mutation :: mutations, ?_, ?_, rfl⟩
    · simp only [decodeIntents, userKeyFromIntentKey_eq_some.mpr rfl, decodeIntentValue_encodeIntentValue, decoded]
      rfl
    · intro other inside
      rcases List.mem_cons.mp inside with rfl | inside
      · exact fits
      · exact all other inside

def AllStaged (txnId : UInt64) (kv : Kv) : Prop :=
  ∀ userKey value, kv.get (encodeIntentKey txnId userKey) = some value →
    ∃ staged, value = encodeIntentValue staged ∧ kv.stages txnId (userKey, staged) = true

def drops (txnId : UInt64) (mutations : List Mutation) : List (Bytes × Option Bytes) :=
  mutations.map fun mutation => (encodeIntentKey txnId mutation.1, none)

def recorded (txnId : UInt64) (state : Txn2pcState) : Bytes × Option Bytes :=
  (encodeRecKey txnId, some [state.asByte])

theorem user_of_staged (staged : kv.stages txnId mutation = true) : ¬ txnSysPrefix <+: mutation.1 := by
  intro system
  have user := (Kv.staged_parts staged).2.1
  unfold rejectIfSystemKey at user
  rw [if_pos system] at user
  split at user <;> cases user

theorem run_scan {α : Type} {front : Bytes} {next : List (Bytes × Bytes) → EngineProgram α}
    (scanned : kv.scanPrefix front = .ok rows) :
    (Program.scan front next : EngineProgram α).run Kv.store kv = (next rows).run Kv.store kv := by
  simp only [Program.run, Kv.store, scanned]

section Finish
variable {mutations : List Mutation}
  (scanned : kv.scanPrefix (encodeIntentScanPrefix txnId) =
    .ok (mutations.map fun mutation => (encodeIntentKey txnId mutation.1, encodeIntentValue mutation.2)))
  (fine : ∀ mutation ∈ mutations, kv.stages txnId mutation = true)
include scanned

theorem run_loadDurableIntents
    (decoded : decodeIntents txnId (mutations.map fun mutation => (encodeIntentKey txnId mutation.1,
      encodeIntentValue mutation.2)) = .ok mutations) :
    (loadDurableIntents txnId).run Kv.store kv = (kv, .ok mutations) := by
  refine (run_scan scanned).trans ?_
  change (Program.ofExcept _ : EngineProgram _).run Kv.store kv = _
  rw [Program.run_ofExcept, decoded]

include fine

theorem scan_materialised : (kv.extend mutations).scanPrefix (encodeIntentScanPrefix txnId) =
    .ok (mutations.map fun mutation => (encodeIntentKey txnId mutation.1, encodeIntentValue mutation.2)) := by
  refine (Kv.scanPrefix_extend fun mutation inside starts => ?_).trans scanned
  obtain ⟨userKey, same⟩ := intentPrefix_iff.mp starts
  exact user_of_staged (fine mutation inside) (same ▸ txnSysPrefix_encodeIntentKey txnId userKey)

theorem run_clearMaterialised : (clearDurableIntents txnId).run Kv.store (kv.extend mutations) =
    ((kv.extend mutations).extend (drops txnId mutations), .ok ()) := by
  refine (run_scan (scan_materialised scanned fine)).trans ?_
  refine (run_deleteRows fun row inside => ?_).trans ?_
  · obtain ⟨mutation, held, rfl⟩ := List.mem_map.mp inside
    exact Kv.accept_drop_of_stages (fine mutation held)
  · rw [List.map_map]
    rfl

theorem run_finishCommit (roomy : kv.Roomy)
    (decoded : decodeIntents txnId (mutations.map fun mutation => (encodeIntentKey txnId mutation.1,
      encodeIntentValue mutation.2)) = .ok mutations) :
    (finishCommit txnId).run Kv.store kv =
      (kv.extend (mutations ++ (drops txnId mutations ++ [recorded txnId .committed])), .ok ()) := by
  have applied := run_applyMutations_ok fun mutation inside => Kv.admits_of_stages (fine mutation inside)
  have settled : (setState txnId .committed).run Kv.store ((kv.extend mutations).extend (drops txnId mutations)) =
      (kv.extend (mutations ++ (drops txnId mutations ++ [recorded txnId .committed])), .ok ()) := by
    have room : ((kv.extend mutations).extend (drops txnId mutations)).accept
        ⟨true, encodeRecKey txnId, some [Txn2pcState.committed.asByte]⟩ = .ok () := roomy txnId _
    refine (Kv.run_write room).trans ?_
    rw [Kv.extend_extend, Kv.extend_extend]
    rfl
  unfold finishCommit
  rw [Program.bind_eq, Program.run_bind, run_loadDurableIntents scanned decoded]
  dsimp only
  rw [Program.bind_eq, Program.run_bind, applied]
  dsimp only
  rw [Program.bind_eq, Program.run_bind, run_clearMaterialised scanned fine]
  exact settled

end Finish

theorem run_readState {α : Type} (rest : Option Txn2pcState → EngineProgram α) :
    ((readTxn2pcState txnId).bind rest).run Kv.store kv =
      match parseState (kv.get (encodeRecKey txnId)) with
      | .ok found => (rest found).run Kv.store kv
      | .error reason => (kv, .error reason) := by
  change ((Program.ofExcept (parseState (kv.get (encodeRecKey txnId)))).bind rest).run Kv.store kv = _
  cases parseState (kv.get (encodeRecKey txnId)) <;> rfl

def NoIntents (txnId : UInt64) (kv : Kv) : Prop := ∀ userKey, kv.get (encodeIntentKey txnId userKey) = none

section Extend
variable {writes : List (Bytes × Option Bytes)}

theorem get_intent_extend (outside : ∀ write ∈ writes, ¬ encodeIntentScanPrefix txnId <+: write.1) (userKey : Bytes) :
    (kv.extend writes).get (encodeIntentKey txnId userKey) = kv.get (encodeIntentKey txnId userKey) := by
  apply Kv.get_extend_of_not_mem
  intro write inside same
  exact outside write inside (same ▸ intentPrefix_iff.mpr ⟨userKey, rfl⟩)

theorem AllStaged.extend (staged : AllStaged txnId kv)
    (outside : ∀ write ∈ writes, ¬ encodeIntentScanPrefix txnId <+: write.1) : AllStaged txnId (kv.extend writes) := by
  intro userKey value found
  rw [get_intent_extend outside] at found
  exact staged userKey value found

end Extend

theorem outside_record (state : Txn2pcState) :
    ∀ write ∈ [recorded txnId state], ¬ encodeIntentScanPrefix txnId <+: write.1 := by
  intro write inside starts
  obtain ⟨userKey, same⟩ := intentPrefix_iff.mp starts
  rw [List.mem_singleton.mp inside] at same
  exact encodeIntentKey_ne_encodeRecKey txnId txnId userKey same.symm

theorem Kv.Roomy.decision (roomy : kv.Roomy) (txnId : UInt64) (byte : UInt8) :
    kv.accept ⟨true, encodeDecKey txnId, some [byte]⟩ = .ok () :=
  Kv.accept_byte (List.cons_ne_nil _ _) ((length_encodeDecKey _).trans (length_encodeRecKey _).symm) (roomy txnId byte)

def SameUser (before after : Kv) : Prop := ∀ key, ¬ txnSysPrefix <+: key → after.get key = before.get key

abbrev Hidden {α : Type} (program : EngineProgram α) : Prop :=
  program.Only Kv.Under fun request => txnSysPrefix <+: request.key

theorem Marks.hidden {α : Type} {program : EngineProgram α} (marks : Marks txnId program) : Hidden program :=
  Program.Only.mono program (fun _ marking => txnSysPrefix_of_txnKey marking.txnKey) marks

theorem run_applyTxnDecision (roomy : kv.Roomy) (commit : Bool)
    (undecided : kv.get (encodeDecKey txnId) = none ∨ kv.get (encodeDecKey txnId) = some [if commit then 1 else 0]) :
    ∃ writes : List (Bytes × Option Bytes), (∀ write ∈ writes, write = (encodeDecKey txnId, some [if commit then 1 else 0])) ∧
      (kv.extend writes).get (encodeDecKey txnId) = some [if commit then 1 else 0] ∧
      (applyTxnDecision txnId commit).run Kv.store kv =
        (resolveLocal2pcRecord txnId commit).run Kv.store (kv.extend writes) := by
  rcases undecided with none | known
  · refine ⟨[(encodeDecKey txnId, some [if commit then 1 else 0])], fun write inside => List.mem_singleton.mp inside, ?_, ?_⟩
    · rw [Kv.get_extend]
      exact if_pos rfl
    · unfold applyTxnDecision
      rw [Program.bind_eq, run_readDecision, none]
      exact Kv.run_write (roomy.decision txnId _)
  · refine ⟨[], fun _ inside => absurd inside List.not_mem_nil, ?_, ?_⟩
    · rw [Kv.extend_nil, known]
    · unfold applyTxnDecision
      rw [Program.bind_eq, run_readDecision, known, parseDecision_byte, Kv.extend_nil]
      dsimp only
      rw [if_neg (not_not.mpr rfl)]

end KayaDB.Storage
