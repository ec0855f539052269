import KayaDB.Wal.Codec

/-! The wire form of manifest edits: a header of 32 bytes with a checksum over its
first 24, then the payload, which the header holds a checksum of. A reader looks
at no more than the frame it takes. -/

namespace KayaDB.Manifest
open Raft (Bytes toLeBytes fromLeBytes)
open Wal (crc32c slice)

def manifestMagic : Nat := 0x4b4d414e
def manifestVersion : Nat := 1
def manifestHeaderLen : Nat := 32

inductive ManifestEditType where
  | createTable
  | deleteTable
  | setLastSequence
deriving DecidableEq, Repr

namespace ManifestEditType

def fromWire (value : Nat) : Option ManifestEditType :=
  match value with
  | 1 => some .createTable
  | 2 => some .deleteTable
  | 3 => some .setLastSequence
  | _ => none

def asWire : ManifestEditType → Nat
  | .createTable => 1
  | .deleteTable => 2
  | .setLastSequence => 3

@[simp] theorem fromWire_asWire (type : ManifestEditType) : fromWire type.asWire = some type := by
  cases type <;> rfl

theorem asWire_lt (type : ManifestEditType) : type.asWire < 256 ^ 2 := by
  cases type <;> decide

end ManifestEditType

structure TableMetadata where
  tableId : UInt64
  level : UInt32
  path : String
  smallestKey : Bytes
  largestKey : Bytes
  minSequence : UInt64
  maxSequence : UInt64
  entryCount : UInt64
  fileSize : UInt64
  footerChecksum : UInt32
deriving DecidableEq

inductive ManifestEdit where
  | createTable (table : TableMetadata)
  | deleteTable (tableId : UInt64)
  | setLastSequence (sequence : UInt64)
deriving DecidableEq

inductive DecodeEditResult where
  | complete (edit : ManifestEdit) (editSeq : UInt64) (bytesRead : Nat)
  | incomplete
  | invalid (message : String)
deriving DecidableEq

def asBytes (text : String) : Bytes := text.toByteArray.data.toList

def fromUtf8 (bytes : Bytes) : Option String := String.fromUTF8? ⟨bytes.toArray⟩

theorem fromUtf8_asBytes (text : String) : fromUtf8 (asBytes text) = some text :=
  dif_pos text.isValidUTF8

def hex (width value : Nat) : String := String.ofList ((Nat.toDigits 16 value).leftpad width '0')

def encodeTableMetadata (table : TableMetadata) : Bytes :=
  toLeBytes 8 table.tableId.toNat ++ toLeBytes 4 table.level.toNat ++ toLeBytes 4 (asBytes table.path).length ++
    toLeBytes 4 table.smallestKey.length ++ toLeBytes 4 table.largestKey.length ++ toLeBytes 8 table.minSequence.toNat ++
    toLeBytes 8 table.maxSequence.toNat ++ toLeBytes 8 table.entryCount.toNat ++ toLeBytes 8 table.fileSize.toNat ++
    toLeBytes 4 table.footerChecksum.toNat ++ asBytes table.path ++ table.smallestKey ++ table.largestKey

def decodeTableMetadata (bytes : Bytes) : Except String TableMetadata :=
  if bytes.length < 60 then .error "corruption: table metadata too short"
  else
    let pathLen := fromLeBytes (slice bytes 12 16)
    let smallestLen := fromLeBytes (slice bytes 16 20)
    let largestLen := fromLeBytes (slice bytes 20 24)
    if bytes.length < 60 + pathLen + smallestLen + largestLen then
      .error "corruption: table metadata variable fields truncated"
    else
      match fromUtf8 (slice bytes 60 (60 + pathLen)) with
      | none => .error "corruption: table path is not valid UTF-8"
      | some path => .ok
        { tableId := .ofNat (fromLeBytes (slice bytes 0 8))
          level := .ofNat (fromLeBytes (slice bytes 8 12))
          path
          smallestKey := slice bytes (60 + pathLen) (60 + pathLen + smallestLen)
          largestKey := slice bytes (60 + pathLen + smallestLen) (60 + pathLen + smallestLen + largestLen)
          minSequence := .ofNat (fromLeBytes (slice bytes 24 32))
          maxSequence := .ofNat (fromLeBytes (slice bytes 32 40))
          entryCount := .ofNat (fromLeBytes (slice bytes 40 48))
          fileSize := .ofNat (fromLeBytes (slice bytes 48 56))
          footerChecksum := .ofNat (fromLeBytes (slice bytes 56 60)) }

def encodeEditPayload : ManifestEdit → ManifestEditType × Bytes
  | .createTable table => (.createTable, encodeTableMetadata table)
  | .deleteTable tableId => (.deleteTable, toLeBytes 8 tableId.toNat)
  | .setLastSequence sequence => (.setLastSequence, toLeBytes 8 sequence.toNat)

/-- Lengths are cut to the width of their fields. -/
def encodeManifestEdit (edit : ManifestEdit) (editSeq : UInt64) : Bytes :=
  let (type, payload) := encodeEditPayload edit
  let header := toLeBytes 4 manifestMagic ++ toLeBytes 2 manifestVersion ++ toLeBytes 2 manifestHeaderLen ++
    toLeBytes 2 type.asWire ++ toLeBytes 2 0 ++ toLeBytes 8 editSeq.toNat ++ toLeBytes 4 payload.length
  header ++ toLeBytes 4 (crc32c (header.take 24)).toNat ++ toLeBytes 4 (crc32c payload).toNat ++ payload

def decodeEditPayload (recordType : Nat) (payload : Bytes) : Except String ManifestEdit :=
  match ManifestEditType.fromWire recordType with
  | none => .error s!"unknown manifest edit type: {recordType}"
  | some .createTable => (decodeTableMetadata payload).map .createTable
  | some .deleteTable =>
    if payload.length < 8 then .error "DELETE_TABLE payload too short"
    else .ok (.deleteTable (.ofNat (fromLeBytes (slice payload 0 8))))
  | some .setLastSequence =>
    if payload.length < 8 then .error "SET_LAST_SEQUENCE payload too short"
    else .ok (.setLastSequence (.ofNat (fromLeBytes (slice payload 0 8))))

/-- The header length and the flags are not looked at. -/
def decodeManifestEdit (bytes : Bytes) : DecodeEditResult :=
  if bytes.length < manifestHeaderLen then .incomplete
  else
    let magic := fromLeBytes (slice bytes 0 4)
    if magic ≠ manifestMagic then .invalid s!"bad manifest magic: 0x{hex 8 magic}"
    else
      let version := fromLeBytes (slice bytes 4 6)
      if version ≠ manifestVersion then .invalid s!"unsupported manifest version: {version}"
      else if UInt32.ofNat (fromLeBytes (slice bytes 24 28)) ≠ crc32c (bytes.take 24) then
        .invalid "manifest header CRC mismatch"
      else
        let size := manifestHeaderLen + fromLeBytes (slice bytes 20 24)
        if bytes.length < size then .incomplete
        else
          let payload := slice bytes manifestHeaderLen size
          if UInt32.ofNat (fromLeBytes (slice bytes 28 32)) ≠ crc32c payload then .invalid "manifest payload CRC mismatch"
          else
            match decodeEditPayload (fromLeBytes (slice bytes 8 10)) payload with
            | .error message => .invalid message
            | .ok edit => .complete edit (.ofNat (fromLeBytes (slice bytes 12 20))) size

/-- The checks an accepted edit has passed. -/
structure Accepted (bytes : Bytes) (edit : ManifestEdit) (editSeq : UInt64) (size : Nat) : Prop where
  magic : fromLeBytes (slice bytes 0 4) = manifestMagic
  version : fromLeBytes (slice bytes 4 6) = manifestVersion
  crc : UInt32.ofNat (fromLeBytes (slice bytes 24 28)) = crc32c (bytes.take 24)
  total : size = manifestHeaderLen + fromLeBytes (slice bytes 20 24)
  whole : size ≤ bytes.length
  payloadCrc : UInt32.ofNat (fromLeBytes (slice bytes 28 32)) = crc32c (slice bytes manifestHeaderLen size)
  payload : decodeEditPayload (fromLeBytes (slice bytes 8 10)) (slice bytes manifestHeaderLen size) = .ok edit
  number : editSeq = .ofNat (fromLeBytes (slice bytes 12 20))

section Accepted
variable {bytes : Bytes} {edit : ManifestEdit} {editSeq : UInt64} {size : Nat}

theorem decodeManifestEdit_complete_iff :
    decodeManifestEdit bytes = .complete edit editSeq size ↔ Accepted bytes edit editSeq size := by
  constructor
  · intro complete
    unfold decodeManifestEdit at complete
    dsimp only at complete
    iterate 7
      split at complete
      · cases complete
    next magic version crc whole payloadCrc _ edit payload =>
      cases complete
      exact ⟨not_not.mp magic, not_not.mp version, not_not.mp crc, rfl, Nat.le_of_not_lt whole, not_not.mp payloadCrc,
        payload, rfl⟩
  · intro accepted
    have long : ¬ bytes.length < manifestHeaderLen :=
      Nat.not_lt.mpr ((accepted.total ▸ Nat.le_add_right _ _).trans accepted.whole)
    obtain ⟨magic, version, crc, rfl, whole, payloadCrc, payload, rfl⟩ := accepted
    simp only [decodeManifestEdit, long, magic, version, crc, payloadCrc, payload, Nat.not_lt.mpr whole, not_true_eq_false,
      ne_eq, if_false]

theorem Accepted.long (accepted : Accepted bytes edit editSeq size) : manifestHeaderLen ≤ size :=
  accepted.total ▸ Nat.le_add_right _ _

theorem Accepted.only (accepted : Accepted bytes edit editSeq size) (more : Bytes) :
    Accepted (bytes.take size ++ more) edit editSeq size := by
  have long : 32 ≤ size := accepted.long
  have same (start stop : Nat) (inside : stop ≤ size) : slice (bytes.take size ++ more) start stop = slice bytes start stop :=
    Wal.slice_take_append inside accepted.whole start
  have front : (bytes.take size ++ more).take 24 = bytes.take 24 := same 0 24 (by omega)
  obtain ⟨magic, version, crc, total, whole, payloadCrc, payload, number⟩ := accepted
  refine ⟨?_, ?_, ?_, ?_, ?_, ?_, ?_, ?_⟩
  · rwa [same 0 4 (by omega)]
  · rwa [same 4 6 (by omega)]
  · rwa [same 24 28 (by omega), front]
  · rwa [same 20 24 (by omega)]
  · rw [List.length_append, List.length_take, Nat.min_eq_left whole]
    exact Nat.le_add_right _ _
  · rwa [same 28 32 (by omega), same _ _ (Nat.le_refl _)]
  · rwa [same 8 10 (by omega), same _ _ (Nat.le_refl _)]
  · rwa [same 12 20 (by omega)]

end Accepted

/-- The length of the payload fits the field it is written to. -/
def ManifestEdit.Fits (edit : ManifestEdit) : Prop := (encodeEditPayload edit).2.length < 2 ^ 32

theorem length_encodeTableMetadata (table : TableMetadata) : (encodeTableMetadata table).length =
    60 + (asBytes table.path).length + table.smallestKey.length + table.largestKey.length := by
  simp only [encodeTableMetadata, List.length_append, Raft.length_toLeBytes]

variable {table : TableMetadata} {bytes : Bytes} {edit : ManifestEdit} {size : Nat}

theorem decodeTableMetadata_encodeTableMetadata (small : (encodeTableMetadata table).length < 2 ^ 32) :
    decodeTableMetadata (encodeTableMetadata table) = .ok table := by
  have size := length_encodeTableMetadata table
  have word (start : Nat) (value : UInt64)
      (field : slice (encodeTableMetadata table) start (start + 8) = toLeBytes 8 value.toNat) :
      UInt64.ofNat (fromLeBytes (slice (encodeTableMetadata table) start (start + 8))) = value := by
    rw [field, Wal.fromLeBytes_of_lt value.toNat_lt, UInt64.ofNat_toNat]
  have half (start : Nat) (value : UInt32)
      (field : slice (encodeTableMetadata table) start (start + 4) = toLeBytes 4 value.toNat) :
      UInt32.ofNat (fromLeBytes (slice (encodeTableMetadata table) start (start + 4))) = value := by
    rw [field, Wal.fromLeBytes_of_lt value.toNat_lt, UInt32.ofNat_toNat]
  have count (start value : Nat) (fits : value < 2 ^ 32)
      (field : slice (encodeTableMetadata table) start (start + 4) = toLeBytes 4 value) :
      fromLeBytes (slice (encodeTableMetadata table) start (start + 4)) = value := by
    rw [field, Wal.fromLeBytes_of_lt fits]
  have pathLen := count 12 (asBytes table.path).length (by omega) (by simp [encodeTableMetadata])
  have smallestLen := count 16 table.smallestKey.length (by omega) (by simp [encodeTableMetadata])
  have largestLen := count 20 table.largestKey.length (by omega) (by simp [encodeTableMetadata])
  have path : slice (encodeTableMetadata table) 60 (60 + (asBytes table.path).length) = asBytes table.path := by
    rw [encodeTableMetadata, List.append_assoc _ table.smallestKey]
    exact Wal.slice_field _ (by simp only [List.length_append, Raft.length_toLeBytes]) rfl
  have smallest : slice (encodeTableMetadata table) (60 + (asBytes table.path).length)
      (60 + (asBytes table.path).length + table.smallestKey.length) = table.smallestKey :=
    Wal.slice_field _ (by simp only [List.length_append, Raft.length_toLeBytes]) rfl
  have largest : slice (encodeTableMetadata table) (60 + (asBytes table.path).length + table.smallestKey.length)
      (60 + (asBytes table.path).length + table.smallestKey.length + table.largestKey.length) = table.largestKey := by
    rw [encodeTableMetadata, ← List.append_nil (_ ++ table.largestKey)]
    exact Wal.slice_field _ (by simp only [List.length_append, Raft.length_toLeBytes]) rfl
  have tableId := word 0 table.tableId (by simp [encodeTableMetadata])
  have level := half 8 table.level (by simp [encodeTableMetadata])
  have minSequence := word 24 table.minSequence (by simp [encodeTableMetadata])
  have maxSequence := word 32 table.maxSequence (by simp [encodeTableMetadata])
  have entryCount := word 40 table.entryCount (by simp [encodeTableMetadata])
  have fileSize := word 48 table.fileSize (by simp [encodeTableMetadata])
  have footerChecksum := half 56 table.footerChecksum (by simp [encodeTableMetadata])
  simp only [Nat.reduceAdd] at pathLen smallestLen largestLen tableId level minSequence maxSequence entryCount fileSize footerChecksum
  unfold decodeTableMetadata
  simp only [pathLen, smallestLen, largestLen, path, smallest, largest, fromUtf8_asBytes, tableId, level, minSequence,
    maxSequence, entryCount, fileSize, footerChecksum]
  rw [if_neg (by omega), if_neg (by omega)]

theorem length_of_decodeTableMetadata (decoded : decodeTableMetadata bytes = .ok table) :
    (encodeTableMetadata table).length ≤ bytes.length := by
  rw [length_encodeTableMetadata]
  unfold decodeTableMetadata at decoded
  dsimp only at decoded
  iterate 3
    split at decoded
    · cases decoded
  next long _ path read =>
    cases decoded
    have same : asBytes path = slice bytes 60 (60 + fromLeBytes (slice bytes 12 16)) := by
      unfold fromUtf8 String.fromUTF8? at read
      split at read
      · cases read
        rfl
      · cases read
    dsimp only
    rw [same, Wal.length_slice (by omega), Wal.length_slice (by omega), Wal.length_slice (by omega)]
    omega

theorem decodeEditPayload_encodeEditPayload (fits : edit.Fits) :
    decodeEditPayload (encodeEditPayload edit).1.asWire (encodeEditPayload edit).2 = .ok edit := by
  have word (value : UInt64) : UInt64.ofNat (fromLeBytes (slice (toLeBytes 8 value.toNat) 0 8)) = value := by
    have field : slice (toLeBytes 8 value.toNat) 0 8 = toLeBytes 8 value.toNat := rfl
    rw [field, Wal.fromLeBytes_of_lt value.toNat_lt, UInt64.ofNat_toNat]
  cases edit with
  | createTable table =>
    simp only [decodeEditPayload, encodeEditPayload, ManifestEditType.fromWire_asWire]
    rw [decodeTableMetadata_encodeTableMetadata fits]
    rfl
  | deleteTable tableId =>
    simp [decodeEditPayload, encodeEditPayload, Raft.length_toLeBytes, word]
  | setLastSequence sequence =>
    simp [decodeEditPayload, encodeEditPayload, Raft.length_toLeBytes, word]

theorem length_encodeManifestEdit (edit : ManifestEdit) (editSeq : UInt64) :
    (encodeManifestEdit edit editSeq).length = manifestHeaderLen + (encodeEditPayload edit).2.length := by
  simp only [encodeManifestEdit, List.length_append, Raft.length_toLeBytes]
  rfl

theorem accepted_encodeManifestEdit (fits : edit.Fits) (editSeq : UInt64) (rest : Bytes) :
    Accepted (encodeManifestEdit edit editSeq ++ rest) edit editSeq (encodeManifestEdit edit editSeq).length := by
  have total := length_encodeManifestEdit edit editSeq
  have payload := decodeEditPayload_encodeEditPayload fits
  have small : (encodeEditPayload edit).2.length < 2 ^ 32 := fits
  generalize made : encodeManifestEdit edit editSeq ++ rest = bytes
  have long : bytes.length = (encodeManifestEdit edit editSeq).length + rest.length := by
    rw [← made, List.length_append]
  rw [total] at long ⊢
  have content : slice bytes manifestHeaderLen (manifestHeaderLen + (encodeEditPayload edit).2.length) =
      (encodeEditPayload edit).2 := by
    subst made
    exact Wal.slice_field _ rfl rfl
  have crcValue (crc : UInt32) : UInt32.ofNat (fromLeBytes (toLeBytes 4 crc.toNat)) = crc := by
    rw [Wal.fromLeBytes_of_lt crc.toNat_lt, UInt32.ofNat_toNat]
  refine ⟨?_, ?_, ?_, ?_, by omega, ?_, ?_, ?_⟩
  · subst made
    exact @Wal.fromLeBytes_of_lt 4 _ (by decide)
  · subst made
    exact @Wal.fromLeBytes_of_lt 2 _ (by decide)
  · have field : slice bytes 24 28 = toLeBytes 4 (crc32c (bytes.take 24)).toNat := by subst made; rfl
    rw [field, crcValue]
  · subst made
    exact congrArg _ (@Wal.fromLeBytes_of_lt 4 _ small).symm
  · have field : slice bytes 28 32 = toLeBytes 4 (crc32c (encodeEditPayload edit).2).toNat := by subst made; rfl
    rw [field, crcValue, content]
  · have field : slice bytes 8 10 = toLeBytes 2 (encodeEditPayload edit).1.asWire := by subst made; rfl
    rw [field, Wal.fromLeBytes_of_lt (ManifestEditType.asWire_lt _), content, payload]
  · have field : slice bytes 12 20 = toLeBytes 8 editSeq.toNat := by subst made; rfl
    rw [field, Wal.fromLeBytes_of_lt editSeq.toNat_lt, UInt64.ofNat_toNat]

/-- No frame that was cut to the width of its fields is read back. -/
theorem Accepted.fits {editSeq : UInt64} (accepted : Accepted bytes edit editSeq size) : edit.Fits := by
  cases edit with
  | createTable table =>
    have long : 32 ≤ size := accepted.long
    have read : decodeTableMetadata (slice bytes manifestHeaderLen size) = .ok table := by
      have payload := accepted.payload
      unfold decodeEditPayload at payload
      split at payload
      · cases payload
      · generalize decodeTableMetadata (slice bytes manifestHeaderLen size) = result at payload ⊢
        cases result with
        | error message => cases payload
        | ok table => cases payload; rfl
      · split at payload <;> cases payload
      · split at payload <;> cases payload
    have short := length_of_decodeTableMetadata read
    have bound := Raft.fromLeBytes_lt (slice bytes 20 24)
    have total := accepted.total
    rw [Wal.length_slice (by have := accepted.whole; omega)] at bound short
    change (encodeTableMetadata table).length < 2 ^ 32
    have power : 256 ^ (24 - 20) = 2 ^ 32 := by decide
    omega
  | deleteTable tableId => exact (by decide : 8 < 2 ^ 32)
  | setLastSequence sequence => exact (by decide : 8 < 2 ^ 32)

abbrev Numbered := ManifestEdit × UInt64

def encode (numbered : Numbered) : Bytes := encodeManifestEdit numbered.1 numbered.2

def decode (bytes : Bytes) : Option (Numbered × Nat) :=
  match decodeManifestEdit bytes with
  | .complete edit editSeq size => some ((edit, editSeq), size)
  | _ => none

variable {numbered : Numbered}

theorem decode_eq_some : decode bytes = some (numbered, size) ↔ Accepted bytes numbered.1 numbered.2 size := by
  rw [← decodeManifestEdit_complete_iff]
  unfold decode
  split
  next complete =>
    rw [complete]
    constructor
    · intro same
      cases same
      rfl
    · intro same
      cases same
      rfl
  next other =>
    exact ⟨nofun, fun complete => absurd complete (other _ _ _)⟩

theorem decode_local : Framing.Local decode where
  size decoded := by
    have accepted := decode_eq_some.mp decoded
    exact ⟨Nat.lt_of_lt_of_le (by decide) accepted.long, accepted.whole⟩
  only more decoded := decode_eq_some.mpr ((decode_eq_some.mp decoded).only more)

theorem decode_encode (rest : Bytes) (fits : numbered.1.Fits) :
    decode (encode numbered ++ rest) = some (numbered, (encode numbered).length) :=
  decode_eq_some.mpr (accepted_encodeManifestEdit fits numbered.2 rest)

end KayaDB.Manifest
