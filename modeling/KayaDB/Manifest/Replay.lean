import KayaDB.Manifest.Codec

/-! Replay of the manifest and the edits that flushes and compactions append to
it. Replay stops at the first bytes that are no edit and leaves the file as it
is, so that what is appended later stands behind them. -/

namespace KayaDB.Manifest
open Raft (Bytes)
open Framing

structure ManifestState where
  liveTables : List TableMetadata
  lastSequence : UInt64
  lastEditSeq : UInt64
deriving DecidableEq

namespace ManifestState

def default : ManifestState := ⟨[], 1, 0⟩

def apply (state : ManifestState) (edit : ManifestEdit) (editSeq : UInt64) : ManifestState :=
  match edit with
  | .createTable table => { state with lastEditSeq := editSeq, liveTables := state.liveTables ++ [table] }
  | .deleteTable tableId =>
    { state with lastEditSeq := editSeq, liveTables := state.liveTables.filter fun table => table.tableId ≠ tableId }
  | .setLastSequence sequence => { state with lastEditSeq := editSeq, lastSequence := sequence }

def applyAll (state : ManifestState) (edits : List Numbered) : ManifestState :=
  edits.foldl (fun state numbered => state.apply numbered.1 numbered.2) state

end ManifestState

inductive ManifestWarning where
  | truncated (offset trailingBytes : Nat)
  | invalid (offset : Nat) (message : String)
deriving DecidableEq, Repr

/-- The fuel is the number of bytes left; every edit takes some. -/
def replayFrom : Nat → ManifestState → Nat → Nat → Bytes → ManifestState × Nat × List ManifestWarning
  | 0, state, _, count, _ => (state, count, [])
  | fuel + 1, state, offset, count, bytes =>
    if bytes.isEmpty then (state, count, [])
    else
      match decodeManifestEdit bytes with
      | .complete edit editSeq size => replayFrom fuel (state.apply edit editSeq) (offset + size) (count + 1) (bytes.drop size)
      | .incomplete => (state, count, [.truncated offset bytes.length])
      | .invalid message => (state, count, [.invalid offset message])

def replayManifest (bytes : Bytes) : ManifestState × Nat × List ManifestWarning :=
  replayFrom bytes.length .default 0 0 bytes

def replayed (bytes : Bytes) : List (Nat × Numbered) := (scan decode 0 bytes).1

/-- The bytes behind the last edit that replay finds. -/
def damagedTail (bytes : Bytes) : Bytes := (scan decode 0 bytes).2

theorem decode_of_complete {bytes : Bytes} {edit : ManifestEdit} {editSeq : UInt64} {size : Nat}
    (complete : decodeManifestEdit bytes = .complete edit editSeq size) : decode bytes = some ((edit, editSeq), size) :=
  decode_eq_some.mpr (decodeManifestEdit_complete_iff.mp complete)

theorem replayFrom_eq (offset : Nat) (bytes : Bytes) : ∀ {fuel : Nat} (state : ManifestState) (count : Nat),
    bytes.length ≤ fuel →
      (replayFrom fuel state offset count bytes).1 = state.applyAll ((scan decode offset bytes).1.map Prod.snd) ∧
      (replayFrom fuel state offset count bytes).2.1 = count + (scan decode offset bytes).1.length ∧
      ((replayFrom fuel state offset count bytes).2.2 = [] ↔ (scan decode offset bytes).2 = []) := by
  induction offset, bytes using decode_local.scan_induction with
  | stuck offset bytes failed =>
    intro fuel state count enough
    rw [decode_local.scan_none failed]
    cases fuel with
    | zero => exact ⟨rfl, rfl, by simp [replayFrom, List.eq_nil_of_length_eq_zero (Nat.le_zero.mp enough)]⟩
    | succ fuel =>
      cases bytes with
      | nil => exact ⟨rfl, rfl, by simp [replayFrom]⟩
      | cons byte rest =>
        cases result : decodeManifestEdit (byte :: rest) with
        | complete edit editSeq size => exact nomatch failed.symm.trans (decode_of_complete result)
        | incomplete => simp [replayFrom, result, ManifestState.applyAll]
        | invalid message => simp [replayFrom, result, ManifestState.applyAll]
  | took offset bytes numbered size decoded ih =>
    intro fuel state count enough
    obtain ⟨positive, short⟩ := decode_local.size decoded
    have complete := decodeManifestEdit_complete_iff.mpr (decode_eq_some.mp decoded)
    cases fuel with
    | zero => omega
    | succ fuel =>
      cases bytes with
      | nil => exact absurd (positive.trans_le short) (Nat.lt_irrefl 0)
      | cons byte rest =>
        obtain ⟨states, counts, warnings⟩ := ih (state.apply numbered.1 numbered.2) (count + 1)
          (by rw [List.length_drop]; omega : ((byte :: rest).drop size).length ≤ fuel)
        rw [decode_local.scan_some decoded]
        simp only [replayFrom, List.isEmpty_cons, Bool.false_eq_true, if_false, complete]
        refine ⟨states, ?_, warnings⟩
        rw [counts, List.length_cons]
        omega

theorem replayManifest_state (bytes : Bytes) :
    (replayManifest bytes).1 = ManifestState.default.applyAll ((replayed bytes).map Prod.snd) :=
  (replayFrom_eq 0 bytes .default 0 (Nat.le_refl _)).1

/-- What the engine knows of a new table when its file is written. -/
structure TableContents where
  smallestKey : Bytes
  largestKey : Bytes
  minSequence : UInt64
  maxSequence : UInt64
  entryCount : UInt64
  fileSize : UInt64
  footerChecksum : UInt32
deriving DecidableEq

/-- A flush of a memtable that is not empty or a compaction. Garbage collection
may leave a compaction without a new table. -/
inductive Publication where
  | flush (table : TableContents) (lastSequence : UInt64)
  | compact (inputs : List UInt64) (output : Option (UInt32 × TableContents)) (lastSequence : UInt64)
deriving DecidableEq

/-- The part of the engine that keeps the manifest; `manifest` is the file. -/
structure Publisher where
  state : ManifestState
  nextTableId : UInt64
  nextManifestEditSeq : UInt64
  manifest : Bytes
deriving DecidableEq

def sstPath (tableId : UInt64) : String := s!"sst/{hex 16 tableId.toNat}.sst"

namespace Publisher
variable (publisher : Publisher)

/-- Opening reads the manifest and does not change it. -/
def openOn (manifest : Bytes) : Publisher :=
  let (state, _, _) := replayManifest manifest
  { state
    nextTableId := ((state.liveTables.map fun table => table.tableId + 1).max?).getD 1
    nextManifestEditSeq := state.lastEditSeq + 1
    manifest }

def metadata (level : UInt32) (table : TableContents) : TableMetadata :=
  { tableId := publisher.nextTableId
    level
    path := sstPath publisher.nextTableId
    smallestKey := table.smallestKey
    largestKey := table.largestKey
    minSequence := table.minSequence
    maxSequence := table.maxSequence
    entryCount := table.entryCount
    fileSize := table.fileSize
    footerChecksum := table.footerChecksum }

def appendEdit (edit : ManifestEdit) : Publisher :=
  { publisher with
    manifest := publisher.manifest ++ encodeManifestEdit edit publisher.nextManifestEditSeq
    nextManifestEditSeq := publisher.nextManifestEditSeq + 1 }

def flushNonempty (table : TableContents) (lastSequence : UInt64) : Publisher :=
  let created := publisher.metadata 0 table
  let filed := (publisher.appendEdit (.createTable created)).appendEdit (.setLastSequence lastSequence)
  { filed with
    nextTableId := publisher.nextTableId + 1
    state := { publisher.state with liveTables := publisher.state.liveTables ++ [created], lastSequence } }

def compact (inputs : List UInt64) (output : Option (UInt32 × TableContents)) (lastSequence : UInt64) :
    Publisher :=
  let left := publisher.state.liveTables.filter fun table => table.tableId ∉ inputs
  match output with
  | none =>
    let filed := ((inputs.map ManifestEdit.deleteTable).foldl appendEdit publisher).appendEdit (.setLastSequence lastSequence)
    { filed with state := { publisher.state with liveTables := left, lastSequence } }
  | some (level, table) =>
    let created := publisher.metadata level table
    let filed := ((inputs.map ManifestEdit.deleteTable).foldl appendEdit
      (publisher.appendEdit (.createTable created))).appendEdit (.setLastSequence lastSequence)
    { filed with
      nextTableId := publisher.nextTableId + 1
      state := { publisher.state with liveTables := left ++ [created], lastSequence } }

def publish : Publication → Publisher
  | .flush table lastSequence => publisher.flushNonempty table lastSequence
  | .compact inputs output lastSequence => publisher.compact inputs output lastSequence

def publishAll (publications : List Publication) : Publisher := publications.foldl publish publisher

end Publisher
def numbered : UInt64 → List ManifestEdit → List Numbered
  | _, [] => []
  | first, edit :: edits => (edit, first) :: numbered (first + 1) edits

namespace Publisher

def edits (publisher : Publisher) : Publication → List ManifestEdit
  | .flush table lastSequence => [.createTable (publisher.metadata 0 table), .setLastSequence lastSequence]
  | .compact inputs output lastSequence =>
    (output.toList.map fun (level, table) => .createTable (publisher.metadata level table)) ++
      inputs.map .deleteTable ++ [.setLastSequence lastSequence]

def appended (publisher : Publisher) : List Publication → List Numbered
  | [] => []
  | publication :: publications => numbered publisher.nextManifestEditSeq (publisher.edits publication) ++
    (publisher.publish publication).appended publications

theorem manifest_foldl_appendEdit (edits : List ManifestEdit) : ∀ publisher : Publisher,
    (edits.foldl appendEdit publisher).manifest =
      publisher.manifest ++ frames encode (numbered publisher.nextManifestEditSeq edits) := by
  induction edits with
  | nil => exact fun publisher => (List.append_nil _).symm
  | cons edit edits ih =>
    intro publisher
    rw [List.foldl_cons, ih]
    exact List.append_assoc _ _ _

theorem manifest_publish (publisher : Publisher) (publication : Publication) : (publisher.publish publication).manifest =
    publisher.manifest ++ frames encode (numbered publisher.nextManifestEditSeq (publisher.edits publication)) := by
  have filed : (publisher.publish publication).manifest = ((publisher.edits publication).foldl appendEdit publisher).manifest := by
    cases publication with
    | flush => rfl
    | compact inputs output lastSequence =>
      cases output with
      | none => simp only [publish, compact, edits, Option.toList_none, List.map_nil, List.nil_append, List.foldl_append,
          List.foldl_cons, List.foldl_nil]
      | some found => simp only [publish, compact, edits, Option.toList_some, List.map_cons, List.map_nil, List.cons_append,
          List.nil_append, List.foldl_append, List.foldl_cons, List.foldl_nil]
  rw [filed, manifest_foldl_appendEdit]

theorem manifest_publishAll (publications : List Publication) : ∀ publisher : Publisher,
    (publisher.publishAll publications).manifest = publisher.manifest ++ frames encode (publisher.appended publications) := by
  induction publications with
  | nil => exact fun publisher => (List.append_nil _).symm
  | cons publication publications ih =>
    intro publisher
    have rest := ih (publisher.publish publication)
    rw [manifest_publish, List.append_assoc, ← frames_append] at rest
    exact rest

theorem appended_eq_nil {publisher : Publisher} {publications : List Publication} :
    publisher.appended publications = [] ↔ publications = [] := by
  cases publications with
  | nil => exact ⟨fun _ => rfl, fun _ => rfl⟩
  | cons publication publications =>
    refine ⟨fun empty => ?_, nofun⟩
    have filled : publisher.edits publication ≠ [] := by
      cases publication with
      | flush => exact List.cons_ne_nil _ _
      | compact => exact List.append_ne_nil_of_right_ne_nil _ (List.cons_ne_nil _ _)
    obtain ⟨edit, edits, split⟩ := List.exists_cons_of_ne_nil filled
    rw [appended, split] at empty
    exact nomatch empty

/-- The engine opens on a manifest, publishes tables, and is opened again: all
edits are replayed, each from the place where it stands, and none is forgotten. -/
structure Kept (manifest : Bytes) (publications : List Publication) : Prop where
  places : replayed ((openOn manifest).publishAll publications).manifest =
    replayed manifest ++ placed encode manifest.length ((openOn manifest).appended publications)
  state : (openOn ((openOn manifest).publishAll publications).manifest).state =
    (openOn manifest).state.applyAll ((openOn manifest).appended publications)

/-- Edits behind a damaged tail are lost, all others are kept. -/
theorem kept_iff_undamaged (manifest : Bytes) (publications : List Publication) : Kept manifest publications ↔
    publications = [] ∨ (damagedTail manifest = [] ∧
      ∀ numbered ∈ (openOn manifest).appended publications, numbered.1.Fits) := by
  have file : ((openOn manifest).publishAll publications).manifest =
      manifest ++ frames encode ((openOn manifest).appended publications) := manifest_publishAll publications (openOn manifest)
  have behind := decode_local.scan_behind_iff (fun rest fits => decode_encode rest fits)
    (fun decoded => (decode_eq_some.mp decoded).fits) manifest ((openOn manifest).appended publications)
  rw [appended_eq_nil] at behind
  constructor
  · intro kept
    have places := kept.places
    rw [file] at places
    exact behind.mp places
  · intro undamaged
    have places := behind.mpr undamaged
    refine ⟨by rw [file]; exact places, ?_⟩
    change (replayManifest _).1 = (replayManifest _).1.applyAll _
    rw [replayManifest_state, replayManifest_state, file]
    unfold replayed
    rw [places, List.map_append, map_placed]
    exact List.foldl_append

def byteTable : TableContents := ⟨[1], [1], 1, 1, 1, 96, 7⟩

def tornManifest : Bytes := ((openOn []).publish (.flush byteTable 1)).manifest ++ [0x4e]

theorem table_behind_torn_edit_forgotten :
    ((openOn tornManifest).publishAll [.flush byteTable 2]).state.liveTables.map TableMetadata.tableId = [1, 2] ∧
      (openOn ((openOn tornManifest).publishAll [.flush byteTable 2]).manifest).state.liveTables.map TableMetadata.tableId = [1] ∧
      ¬ Kept tornManifest [.flush byteTable 2] := by
  have forgotten : (openOn ((openOn tornManifest).publishAll [.flush byteTable 2]).manifest).state.liveTables.map
      TableMetadata.tableId = [1] := by decide +kernel
  have all : ((openOn tornManifest).state.applyAll ((openOn tornManifest).appended [.flush byteTable 2])).liveTables.map
      TableMetadata.tableId = [1, 2] := by decide +kernel
  refine ⟨by decide +kernel, forgotten, fun kept => ?_⟩
  rw [kept.state, all] at forgotten
  exact absurd forgotten (by decide)

end Publisher
end KayaDB.Manifest
