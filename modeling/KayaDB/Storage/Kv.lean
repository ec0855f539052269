import KayaDB.Library.Programs
import KayaDB.Storage.Reads

/-! What an engine is for: a map from keys to values, given by the writes it has
accepted, in their order. Reads return the last value written; a scan lists the
keys ever written under a prefix, within the engine's limits. -/

namespace KayaDB.Storage
open Raft (Bytes)
open Programs

/-- A write through the public interface, which refuses system keys, or past it. -/
structure WriteRequest where
  raw : Bool
  key : Bytes
  value : Option Bytes
deriving DecidableEq

def WriteRequest.payload (request : WriteRequest) : WalPayload :=
  match request.value with
  | some value => .put request.key value
  | none => .delete request.key

/-- Keys and values are bounded, and the public interface refuses system keys. -/
def WriteRequest.validate (limits : LimitsConfig) (request : WriteRequest) : Except String Unit := do
  limits.validateKey request.key
  if !request.raw then rejectIfSystemKey request.key
  match request.value with
  | some value => limits.validateValue value
  | none => pure ()

structure Kv where
  limits : LimitsConfig
  maxRecordBytes : Nat
  journal : List (Bytes × Option Bytes)

def valueAfter (journal : List (Bytes × Option Bytes)) (key : Bytes) (before : Option Bytes) : Option Bytes :=
  journal.foldl (fun found write => if write.1 = key then write.2 else found) before

namespace Kv

def new : Kv := ⟨⟨4 * 1024, 16 * 1024 * 1024, 100000, 64 * 1024 * 1024⟩, 32 * 1024 * 1024, []⟩

def get (kv : Kv) (key : Bytes) : Option Bytes := valueAfter kv.journal key none

/-- The keys under `front` that were ever written, deleted ones included. -/
def keys (kv : Kv) (front : Bytes) : List Bytes :=
  (SortedSet.ofList ((kv.journal.map Prod.fst).filter (front <+: ·))).elems

def scanPrefix (kv : Kv) (front : Bytes) : Except String (List (Bytes × Bytes)) :=
  (kv.limits.validateScanPrefix front).map fun _ =>
    collectRows kv.limits.maxScanBytes kv.limits.maxScanResults 0 0
      (((kv.keys front).take kv.limits.maxScanResults).map fun key => (key, kv.get key))

def accept (kv : Kv) (request : WriteRequest) : Except String Unit :=
  match request.validate kv.limits with
  | .error reason => .error reason
  | .ok () =>
    let size := walHeaderLen + request.payload.encodedLen
    if kv.maxRecordBytes < size then
      .error s!"encoded WAL record exceeds configured max: {size} > {kv.maxRecordBytes}"
    else .ok ()

def record (kv : Kv) (request : WriteRequest) : Kv :=
  { kv with journal := kv.journal ++ [(request.key, request.value)] }

def perform (kv : Kv) (request : WriteRequest) : Kv × Except String Unit :=
  match kv.accept request with
  | .ok () => (kv.record request, .ok ())
  | .error reason => (kv, .error reason)

def store : Store Bytes Bytes WriteRequest Kv := ⟨get, scanPrefix, perform⟩

end Kv

abbrev EngineProgram := Program Bytes Bytes WriteRequest

namespace EngineProgram

def get (key : Bytes) : EngineProgram (Option Bytes) := Program.get key .done

def scanPrefix (front : Bytes) : EngineProgram (List (Bytes × Bytes)) := Program.scan front .done

def writePut (key value : Bytes) : EngineProgram Unit := Program.write ⟨true, key, some value⟩ (.done ())

def writeDelete (key : Bytes) : EngineProgram Unit := Program.write ⟨true, key, none⟩ (.done ())

def put (key value : Bytes) : EngineProgram Unit := Program.write ⟨false, key, some value⟩ (.done ())

def delete (key : Bytes) : EngineProgram Unit := Program.write ⟨false, key, none⟩ (.done ())

end EngineProgram

@[simp] theorem valueAfter_append (first second : List (Bytes × Option Bytes)) (key : Bytes) (before : Option Bytes) :
    valueAfter (first ++ second) key before = valueAfter second key (valueAfter first key before) :=
  List.foldl_append

variable {key : Bytes} {journal : List (Bytes × Option Bytes)}

theorem valueAfter_of_not_mem (absent : ∀ write ∈ journal, write.1 ≠ key) (before : Option Bytes) :
    valueAfter journal key before = before := by
  induction journal generalizing before with
  | nil => rfl
  | cons write rest ih =>
    rw [valueAfter, List.foldl_cons, if_neg (absent write List.mem_cons_self)]
    exact ih (fun other inside => absent other (List.mem_cons_of_mem _ inside)) before

theorem mem_of_valueAfter {value : Bytes} :
    ∀ {before : Option Bytes}, valueAfter journal key before = some value →
      (key, some value) ∈ journal ∨ before = some value := by
  induction journal with
  | nil => exact Or.inr
  | cons write rest ih =>
    intro before found
    rcases ih found with later | now
    · exact Or.inl (List.mem_cons_of_mem _ later)
    · dsimp only at now
      split at now
      next here =>
        refine Or.inl (List.mem_cons.mpr (Or.inl ?_))
        rw [← here, ← now]
      next => exact Or.inr now

namespace Kv
variable {kv : Kv} {request : WriteRequest} {key : Bytes}
  {value front : Bytes} {rows : List (Bytes × Bytes)}

theorem mem_of_get (found : kv.get key = some value) : (key, some value) ∈ kv.journal :=
  (mem_of_valueAfter found).resolve_right nofun

theorem get_record : (kv.record request).get key = if request.key = key then request.value else kv.get key := by
  unfold get record
  rw [valueAfter_append]
  rfl

theorem perform_cases (kv : Kv) (request : WriteRequest) :
    kv.perform request = (kv.record request, .ok ()) ∧ kv.accept request = .ok () ∨
      ∃ reason, kv.perform request = (kv, .error reason) ∧ kv.accept request = .error reason := by
  unfold perform
  cases kv.accept request with
  | ok => exact Or.inl ⟨rfl, rfl⟩
  | error reason => exact Or.inr ⟨reason, rfl, rfl⟩

theorem mem_keys : key ∈ kv.keys front ↔ front <+: key ∧ ∃ value, (key, value) ∈ kv.journal := by
  unfold keys
  rw [← SortedSet.mem_def, SortedSet.mem_ofList, List.mem_filter, List.mem_map]
  constructor
  · rintro ⟨⟨write, inside, rfl⟩, starts⟩
    exact ⟨of_decide_eq_true starts, write.2, inside⟩
  · rintro ⟨starts, value, inside⟩
    exact ⟨⟨(key, value), inside, rfl⟩, decide_eq_true starts⟩

theorem mem_scan (scanned : kv.scanPrefix front = .ok rows) (inside : (key, value) ∈ rows) :
    front <+: key ∧ kv.get key = some value := by
  unfold scanPrefix at scanned
  cases valid : kv.limits.validateScanPrefix front with
  | error reason =>
    rw [valid] at scanned
    cases scanned
  | ok =>
    rw [valid] at scanned
    cases scanned
    obtain ⟨other, listed, same⟩ := List.mem_map.mp (History.mem_of_mem_collectRows inside)
    obtain ⟨rfl, found⟩ := Prod.mk.inj same
    exact ⟨(mem_keys.mp (List.mem_of_mem_take listed)).1, found⟩

def Under (front : Bytes) (rows : List (Bytes × Bytes)) : Prop := ∀ row ∈ rows, front <+: row.1

theorem under_of_scan (scanned : kv.scanPrefix front = .ok rows) :
    Under front rows := fun _ inside => (mem_scan scanned inside).1

/-- The limits are fixed and what was written stays written. -/
structure Grows (first second : Kv) : Prop where
  limits : second.limits = first.limits
  maxRecordBytes : second.maxRecordBytes = first.maxRecordBytes
  journal : first.journal <+: second.journal

namespace Grows

theorem refl (kv : Kv) : Grows kv kv := ⟨rfl, rfl, List.prefix_rfl⟩

variable {first second : Kv}

theorem trans {third : Kv} (one : Grows first second) (two : Grows second third) : Grows first third :=
  ⟨two.limits.trans one.limits, two.maxRecordBytes.trans one.maxRecordBytes, one.journal.trans two.journal⟩

theorem accept (grows : Grows first second) (request : WriteRequest) :
    second.accept request = first.accept request := by
  unfold Kv.accept
  rw [grows.limits, grows.maxRecordBytes]

end Grows

section Programs
variable {α : Type} {Holds : Kv → Prop}
  {next : EngineProgram α}

theorem run_write_done (done : kv.perform request = (kv.record request, .ok ())) :
    (Program.write request next : EngineProgram α).run Kv.store kv = next.run Kv.store (kv.record request) := by
  simp only [Program.run, store, done]

theorem run_write_failed {reason : String} (failed : kv.perform request = (kv, .error reason)) :
    (Program.write request next : EngineProgram α).run Kv.store kv = (kv, .error reason) := by
  simp only [Program.run, store, failed]

end Programs

end Kv
end KayaDB.Storage
