import KayaDB.Library.Framing
import KayaDB.Raft.Command
import KayaDB.Storage.Wal

/-! The wire form of log records: a header of 40 bytes with a checksum of its own,
then the payload, which the header holds a checksum of. What decodes is exactly
what some record is encoded to. -/

namespace KayaDB.Wal
open Raft (Bytes toLeBytes fromLeBytes)
open Storage (WalPayload)

def crcBit (crc : UInt32) : UInt32 :=
  let mask := 0 - (crc &&& 1)
  (crc >>> 1) ^^^ (0x82f63b78 &&& mask)

def crcByte (crc : UInt32) (byte : UInt8) : UInt32 := Nat.repeat crcBit 8 (crc ^^^ byte.toUInt32)

def crc32c (bytes : Bytes) : UInt32 := ~~~(bytes.foldl crcByte (~~~0))

example : crc32c [49, 50, 51, 52, 53, 54, 55, 56, 57] = 0xe3069283 := by decide +kernel

inductive WalRecordType where
  | put
  | delete
  | noop
deriving DecidableEq, Repr

namespace WalRecordType

def fromWire (value : Nat) : Option WalRecordType :=
  match value with
  | 1 => some .put
  | 2 => some .delete
  | 3 => some .noop
  | _ => none

def asWire : WalRecordType → Nat
  | .put => 1
  | .delete => 2
  | .noop => 3

@[simp] theorem fromWire_asWire (type : WalRecordType) : fromWire type.asWire = some type := by
  cases type <;> rfl

theorem eq_asWire {value : Nat} {type : WalRecordType} (found : fromWire value = some type) : value = type.asWire := by
  unfold fromWire at found
  split at found
  · cases found
    rfl
  · cases found
    rfl
  · cases found
    rfl
  · cases found

theorem asWire_lt (type : WalRecordType) : type.asWire < 256 ^ 2 := by
  cases type <;> decide

end WalRecordType

def recordType : WalPayload → WalRecordType
  | .put _ _ => .put
  | .delete _ => .delete
  | .noop => .noop

structure WalRecord where
  flags : Nat
  lsn : UInt64
  sequence : UInt64
  payload : WalPayload
deriving DecidableEq, Repr

def WalRecord.new (lsn sequence : UInt64) (payload : WalPayload) : WalRecord := ⟨0, lsn, sequence, payload⟩

inductive WalWarning where
  | partialHeader (offset : Nat)
  | partialPayload (offset expected actual : Nat)
  | badMagic (offset found : Nat)
  | unsupportedVersion (offset found : Nat)
  | badHeaderLength (offset found : Nat)
  | unknownFlags (offset found : Nat)
  | unknownRecordType (offset found : Nat)
  | oversizedPayload (offset found max : Nat)
  | badHeaderChecksum (offset : Nat) (expected actual : UInt32)
  | badPayloadChecksum (offset : Nat) (expected actual : UInt32)
  | malformedPayload (offset : Nat) (message : String)
  | nonMonotonicLsn (offset : Nat) (expected found : UInt64)
  | tailTruncated (segmentId validLen truncatedBytes : Nat)
  | trailingSegmentsIgnored (count : Nat)
deriving DecidableEq, Repr

inductive DecodeRecordResult where
  | complete (record : WalRecord) (bytesRead : Nat)
  | incomplete (warning : WalWarning)
  | invalid (warning : WalWarning)
deriving DecidableEq, Repr

def walMagic : Nat := 0x4b415941
def walVersion : Nat := 1
def walHeaderLen : Nat := 40

def slice (bytes : Bytes) (start stop : Nat) : Bytes := (bytes.take stop).drop start

def copyFromSlice (bytes : Bytes) (start : Nat) (source : Bytes) : Bytes :=
  bytes.take start ++ source ++ bytes.drop (start + source.length)

def encodePayload : WalPayload → Except String Bytes
  | .put key value =>
    if 2 ^ 32 ≤ key.length then .error "WAL PUT key length does not fit into u32"
    else if 2 ^ 32 ≤ value.length then .error "WAL PUT value length does not fit into u32"
    else .ok (toLeBytes 4 key.length ++ toLeBytes 4 value.length ++ key ++ value)
  | .delete key =>
    if 2 ^ 32 ≤ key.length then .error "WAL DELETE key length does not fit into u32"
    else .ok (toLeBytes 4 key.length ++ key)
  | .noop => .ok []

def encodeRecord (record : WalRecord) : Except String Bytes := do
  let payload ← encodePayload record.payload
  if 2 ^ 32 ≤ payload.length then
    .error "WAL payload length does not fit into u32"
  let header := toLeBytes 4 walMagic ++ toLeBytes 2 walVersion ++ toLeBytes 2 walHeaderLen ++ toLeBytes 2 record.flags ++
    toLeBytes 2 (recordType record.payload).asWire ++ toLeBytes 8 record.lsn.toNat ++ toLeBytes 8 record.sequence.toNat ++
    toLeBytes 4 payload.length ++ toLeBytes 4 0 ++ toLeBytes 4 (crc32c payload).toNat
  return copyFromSlice header 32 (toLeBytes 4 (crc32c (header.take walHeaderLen)).toNat) ++ payload

def decodePayload (type : WalRecordType) (payload : Bytes) : Except String WalPayload :=
  match type with
  | .put =>
    if payload.length < 8 then .error "corruption: PUT payload header is too short"
    else
      let keyLen := fromLeBytes (slice payload 0 4)
      let valueLen := fromLeBytes (slice payload 4 8)
      let expected := 8 + keyLen + valueLen
      if payload.length ≠ expected then
        .error s!"corruption: PUT payload length mismatch: expected {expected}, got {payload.length}"
      else .ok (.put (slice payload 8 (8 + keyLen)) (payload.drop (8 + keyLen)))
  | .delete =>
    if payload.length < 4 then .error "corruption: DELETE payload header is too short"
    else
      let expected := 4 + fromLeBytes (slice payload 0 4)
      if payload.length ≠ expected then
        .error s!"corruption: DELETE payload length mismatch: expected {expected}, got {payload.length}"
      else .ok (.delete (payload.drop 4))
  | .noop => if payload.isEmpty then .ok .noop else .error "corruption: NOOP payload must be empty"

def decodeRecord (input : Bytes) (offset maxPayloadLen : Nat) : DecodeRecordResult :=
  if input.length < walHeaderLen then .incomplete (.partialHeader offset)
  else
    let magic := fromLeBytes (slice input 0 4)
    if magic ≠ walMagic then .invalid (.badMagic offset magic)
    else
      let version := fromLeBytes (slice input 4 6)
      if version ≠ walVersion then .invalid (.unsupportedVersion offset version)
      else
        let headerLen := fromLeBytes (slice input 6 8)
        if headerLen ≠ walHeaderLen then .invalid (.badHeaderLength offset headerLen)
        else
          let flags := fromLeBytes (slice input 8 10)
          if flags ≠ 0 then .invalid (.unknownFlags offset flags)
          else
            let recordTypeRaw := fromLeBytes (slice input 10 12)
            match WalRecordType.fromWire recordTypeRaw with
            | none => .invalid (.unknownRecordType offset recordTypeRaw)
            | some type =>
              let lsn := UInt64.ofNat (fromLeBytes (slice input 12 20))
              let sequence := UInt64.ofNat (fromLeBytes (slice input 20 28))
              let payloadLen := fromLeBytes (slice input 28 32)
              if maxPayloadLen < payloadLen then .invalid (.oversizedPayload offset payloadLen maxPayloadLen)
              else
                let actualHeaderCrc := UInt32.ofNat (fromLeBytes (slice input 32 36))
                let header := copyFromSlice (input.take walHeaderLen) 32 (toLeBytes 4 0)
                let expectedHeaderCrc := crc32c header
                if actualHeaderCrc ≠ expectedHeaderCrc then
                  .invalid (.badHeaderChecksum offset expectedHeaderCrc actualHeaderCrc)
                else
                  let actualPayloadCrc := UInt32.ofNat (fromLeBytes (slice input 36 40))
                  let totalLen := walHeaderLen + payloadLen
                  if input.length < totalLen then .incomplete (.partialPayload offset totalLen input.length)
                  else
                    let payloadBytes := slice input walHeaderLen totalLen
                    let expectedPayloadCrc := crc32c payloadBytes
                    if actualPayloadCrc ≠ expectedPayloadCrc then
                      .invalid (.badPayloadChecksum offset expectedPayloadCrc actualPayloadCrc)
                    else
                      match decodePayload type payloadBytes with
                      | .error message => .invalid (.malformedPayload offset message)
                      | .ok payload => .complete ⟨flags, lsn, sequence, payload⟩ totalLen

section Slices
variable {bytes front rest : Bytes} {start middle stop : Nat}

theorem length_slice (fits : stop ≤ bytes.length) : (slice bytes start stop).length = stop - start := by
  unfold slice
  rw [List.length_drop, List.length_take, Nat.min_eq_left fits]

theorem slice_append_slice (before : start ≤ middle) (after : middle ≤ stop) (fits : stop ≤ bytes.length) :
    slice bytes start middle ++ slice bytes middle stop = slice bytes start stop := by
  have cut : bytes.take middle = (bytes.take stop).take middle := by rw [List.take_take, Nat.min_eq_left after]
  have parts := List.take_append_drop middle (bytes.take stop)
  unfold slice
  rw [← List.drop_append_of_le_length (by rw [List.length_take]; omega), cut, parts]

theorem slice_front (fits : stop ≤ front.length) : slice (front ++ rest) start stop = slice front start stop := by
  unfold slice
  rw [List.take_append_of_le_length fits]

theorem slice_take_append {size : Nat} (inside : stop ≤ size) (whole : size ≤ bytes.length) (start : Nat) :
    slice (bytes.take size ++ rest) start stop = slice bytes start stop := by
  rw [slice_front (by rw [List.length_take, Nat.min_eq_left whole]; exact inside)]
  unfold slice
  rw [List.take_take, Nat.min_eq_left inside]

theorem slice_field (field : Bytes) (before : front.length = start) (size : start + field.length = stop) :
    slice (front ++ field ++ rest) start stop = field := by
  rw [slice_front (by rw [List.length_append]; omega)]
  unfold slice
  rw [List.take_of_length_le (by rw [List.length_append]; omega), ← before, List.drop_left]

theorem slice_toLeBytes (bytes : Bytes) (start stop : Nat) (fits : stop ≤ bytes.length) :
    slice bytes start stop = toLeBytes (stop - start) (fromLeBytes (slice bytes start stop)) := by
  have same := Raft.toLeBytes_fromLeBytes (slice bytes start stop)
  rw [length_slice fits] at same
  exact same.symm

@[simp] theorem slice_skip {width : Nat} (value : Nat) (before : width ≤ start) :
    slice (toLeBytes width value ++ rest) start stop = slice rest (start - width) (stop - width) := by
  have length := Raft.length_toLeBytes width value
  unfold slice
  rw [List.take_append, List.drop_append, List.drop_eq_nil_of_le (by rw [List.length_take]; omega), List.nil_append,
    List.length_take, length]
  by_cases order : width ≤ stop
  · rw [Nat.min_eq_right order]
  · rw [Nat.sub_eq_zero_of_le (Nat.le_of_not_le order), List.take_zero, List.drop_nil, List.drop_nil]

@[simp] theorem slice_here (width value : Nat) : slice (toLeBytes width value ++ rest) 0 width = toLeBytes width value := by
  unfold slice
  rw [List.drop_zero, List.take_left' (Raft.length_toLeBytes width value)]

end Slices

theorem fromLeBytes_of_lt {width value : Nat} (small : value < 256 ^ width) : fromLeBytes (toLeBytes width value) = value := by
  rw [Raft.fromLeBytes_toLeBytes, Nat.mod_eq_of_lt small]

variable {bytes payload input : Bytes} {record : WalRecord} {max offset size : Nat}

theorem decodePayload_encodePayload {payload : WalPayload} (encoded : encodePayload payload = .ok bytes) :
    decodePayload (recordType payload) bytes = .ok payload := by
  cases payload with
  | put key value =>
    simp only [encodePayload] at encoded
    split at encoded
    · cases encoded
    · split at encoded
      · cases encoded
      · next keyFits valueFits =>
        have made := Except.ok.inj encoded
        have keyLen : fromLeBytes (slice bytes 0 4) = key.length := by
          subst made
          exact @fromLeBytes_of_lt 4 _ (by omega)
        have valueLen : fromLeBytes (slice bytes 4 8) = value.length := by
          subst made
          exact @fromLeBytes_of_lt 4 _ (by omega)
        have front : (toLeBytes 4 key.length ++ toLeBytes 4 value.length).length = 8 := rfl
        have size : bytes.length = 8 + key.length + value.length := by
          rw [← made, List.length_append, List.length_append, front]
        have keySlice : slice bytes 8 (8 + key.length) = key := made ▸ slice_field key front rfl
        have valueSlice : bytes.drop (8 + key.length) = value :=
          made ▸ List.drop_left' (by rw [List.length_append, front])
        simp only [recordType, decodePayload, keyLen, valueLen, size, keySlice, valueSlice]
        rw [if_neg (by omega), if_neg (by simp)]
  | delete key =>
    simp only [encodePayload] at encoded
    split at encoded
    · cases encoded
    · next fits =>
      have made := Except.ok.inj encoded
      have keyLen : fromLeBytes (slice bytes 0 4) = key.length := by
        subst made
        exact @fromLeBytes_of_lt 4 _ (by omega)
      have size : bytes.length = 4 + key.length := by rw [← made, List.length_append, Raft.length_toLeBytes]
      have keySlice : bytes.drop 4 = key := made ▸ List.drop_left' (Raft.length_toLeBytes _ _)
      simp only [recordType, decodePayload, keyLen, size, keySlice]
      rw [if_neg (by omega), if_neg (by simp)]
  | noop =>
    cases encoded
    rfl

theorem encodePayload_decodePayload {type : WalRecordType} {payload : WalPayload} (small : bytes.length < 2 ^ 32)
    (decoded : decodePayload type bytes = .ok payload) :
    recordType payload = type ∧ encodePayload payload = .ok bytes := by
  cases type with
  | put =>
    simp only [decodePayload] at decoded
    split at decoded
    · cases decoded
    · split at decoded
      · cases decoded
      · next long size =>
        cases decoded
        refine ⟨rfl, ?_⟩
        have size := not_not.mp size
        have keyLen : (slice bytes 8 (8 + fromLeBytes (slice bytes 0 4))).length = fromLeBytes (slice bytes 0 4) := by
          rw [length_slice (by omega)]
          omega
        have valueLen : (bytes.drop (8 + fromLeBytes (slice bytes 0 4))).length = fromLeBytes (slice bytes 4 8) := by
          rw [List.length_drop]
          omega
        simp only [encodePayload, keyLen, valueLen]
        rw [if_neg (by omega), if_neg (by omega)]
        have first : toLeBytes 4 (fromLeBytes (slice bytes 0 4)) = slice bytes 0 4 :=
          (slice_toLeBytes bytes 0 4 (by omega)).symm
        have second : toLeBytes 4 (fromLeBytes (slice bytes 4 8)) = slice bytes 4 8 :=
          (slice_toLeBytes bytes 4 8 (by omega)).symm
        rw [first, second, slice_append_slice (by omega) (by omega) (by omega),
          slice_append_slice (by omega) (by omega) (by omega)]
        exact congrArg Except.ok (List.take_append_drop _ _)
  | delete =>
    simp only [decodePayload] at decoded
    split at decoded
    · cases decoded
    · split at decoded
      · cases decoded
      · next long size =>
        cases decoded
        refine ⟨rfl, ?_⟩
        have size := not_not.mp size
        have keyLen : (bytes.drop 4).length = fromLeBytes (slice bytes 0 4) := by
          rw [List.length_drop]
          omega
        simp only [encodePayload, keyLen]
        have first : toLeBytes 4 (fromLeBytes (slice bytes 0 4)) = slice bytes 0 4 :=
          (slice_toLeBytes bytes 0 4 (by omega)).symm
        rw [if_neg (by omega), first]
        exact congrArg Except.ok (List.take_append_drop _ _)
  | noop =>
    simp only [decodePayload] at decoded
    split at decoded
    · next empty =>
      cases decoded
      rw [List.isEmpty_iff.mp empty]
      exact ⟨rfl, rfl⟩
    · cases decoded

/-- A record that can be encoded and that a reader with this limit accepts. -/
def Fits (max : Nat) (record : WalRecord) : Prop :=
  record.flags = 0 ∧ ∃ payload, encodePayload record.payload = .ok payload ∧ payload.length < 2 ^ 32 ∧ payload.length ≤ max

def headerBytes (record : WalRecord) (payload : Bytes) (headerCrc : Nat) : Bytes :=
  toLeBytes 4 walMagic ++ toLeBytes 2 walVersion ++ toLeBytes 2 walHeaderLen ++ toLeBytes 2 record.flags ++
    toLeBytes 2 (recordType record.payload).asWire ++ toLeBytes 8 record.lsn.toNat ++ toLeBytes 8 record.sequence.toNat ++
    toLeBytes 4 payload.length ++ toLeBytes 4 headerCrc ++ toLeBytes 4 (crc32c payload).toNat

def headerCrc (record : WalRecord) (payload : Bytes) : UInt32 := crc32c (headerBytes record payload 0)

theorem encodeRecord_eq (encoded : encodePayload record.payload = .ok payload) (small : payload.length < 2 ^ 32) :
    encodeRecord record = .ok (headerBytes record payload (headerCrc record payload).toNat ++ payload) := by
  unfold encodeRecord
  rw [encoded]
  simp only [bind, Except.bind]
  rw [if_neg (by omega)]
  rfl

def encoding (record : WalRecord) : Bytes :=
  match encodeRecord record with
  | .ok bytes => bytes
  | .error _ => []

section
variable (encoded : encodePayload record.payload = .ok payload) (small : payload.length < 2 ^ 32)
include encoded small

theorem encoding_eq : encoding record = headerBytes record payload (headerCrc record payload).toNat ++ payload := by
  unfold encoding
  rw [encodeRecord_eq encoded small]

theorem length_encoding : (encoding record).length = walHeaderLen + payload.length := by
  rw [encoding_eq encoded small, List.length_append]
  rfl

end

theorem encoding_of_ok (encoded : encodeRecord record = .ok bytes) : encoding record = bytes := by
  unfold encoding
  rw [encoded]

theorem fits_of_ok (noFlags : record.flags = 0) (encoded : encodeRecord record = .ok bytes)
    (short : bytes.length ≤ max) : Fits max record := by
  cases made : encodePayload record.payload with
  | error reason =>
    unfold encodeRecord at encoded
    rw [made] at encoded
    cases encoded
  | ok payload =>
    by_cases small : payload.length < 2 ^ 32
    · have size := length_encoding made small
      rw [encoding_of_ok encoded] at size
      exact ⟨noFlags, payload, made, small, by omega⟩
    · unfold encodeRecord at encoded
      rw [made] at encoded
      simp only [bind, Except.bind] at encoded
      rw [if_pos (by omega)] at encoded
      cases encoded

def decoded (max : Nat) (input : Bytes) : Option (WalRecord × Nat) :=
  match decodeRecord input 0 max with
  | .complete record size => some (record, size)
  | _ => none

theorem decodeRecord_header (noFlags : record.flags = 0) (small : payload.length < 2 ^ 32)
    (short : payload.length ≤ max) (rest : Bytes) :
    decodeRecord (headerBytes record payload (headerCrc record payload).toNat ++ rest) offset max =
      if rest.length < payload.length then
        .incomplete (.partialPayload offset (walHeaderLen + payload.length) (walHeaderLen + rest.length))
      else if crc32c payload ≠ crc32c (rest.take payload.length) then
        .invalid (.badPayloadChecksum offset (crc32c (rest.take payload.length)) (crc32c payload))
      else match decodePayload (recordType record.payload) (rest.take payload.length) with
        | .error message => .invalid (.malformedPayload offset message)
        | .ok content => .complete ⟨0, record.lsn, record.sequence, content⟩ (walHeaderLen + payload.length) := by
  generalize made : headerBytes record payload (headerCrc record payload).toNat ++ rest = input
  have magic : fromLeBytes (slice input 0 4) = walMagic := by subst made; exact @fromLeBytes_of_lt 4 _ (by decide)
  have version : fromLeBytes (slice input 4 6) = walVersion := by subst made; exact @fromLeBytes_of_lt 2 _ (by decide)
  have headerLen : fromLeBytes (slice input 6 8) = walHeaderLen := by subst made; exact @fromLeBytes_of_lt 2 _ (by decide)
  have flags : fromLeBytes (slice input 8 10) = 0 := by subst made; rw [← noFlags]; exact @fromLeBytes_of_lt 2 _ (by omega)
  have type : fromLeBytes (slice input 10 12) = (recordType record.payload).asWire := by
    subst made; exact @fromLeBytes_of_lt 2 _ (WalRecordType.asWire_lt _)
  have lsn : fromLeBytes (slice input 12 20) = record.lsn.toNat := by
    subst made; exact @fromLeBytes_of_lt 8 _ record.lsn.toNat_lt
  have sequence : fromLeBytes (slice input 20 28) = record.sequence.toNat := by
    subst made; exact @fromLeBytes_of_lt 8 _ record.sequence.toNat_lt
  have payloadLen : fromLeBytes (slice input 28 32) = payload.length := by
    subst made; exact @fromLeBytes_of_lt 4 _ (by omega)
  have crc : fromLeBytes (slice input 32 36) = (headerCrc record payload).toNat := by
    subst made; exact @fromLeBytes_of_lt 4 _ (UInt32.toNat_lt _)
  have payloadCrc : fromLeBytes (slice input 36 40) = (crc32c payload).toNat := by
    subst made; exact @fromLeBytes_of_lt 4 _ (UInt32.toNat_lt _)
  have zeroed : copyFromSlice (input.take walHeaderLen) 32 (toLeBytes 4 0) = headerBytes record payload 0 := by
    subst made; rfl
  have content : slice input walHeaderLen (walHeaderLen + payload.length) = rest.take payload.length := by
    subst made
    have size : (headerBytes record payload (headerCrc record payload).toNat).length = walHeaderLen := rfl
    rw [slice, List.take_append, List.drop_append, size, List.take_of_length_le (by omega),
      List.drop_eq_nil_of_le (Nat.le_of_eq size), Nat.add_sub_cancel_left]
    rfl
  have long : input.length = 40 + rest.length := by
    subst made
    rw [List.length_append]
    rfl
  unfold decodeRecord
  simp only [magic, version, headerLen, flags, type, lsn, sequence, payloadLen, crc, payloadCrc, zeroed, content,
    UInt64.ofNat_toNat, UInt32.ofNat_toNat, WalRecordType.fromWire_asWire]
  rw [if_neg (by unfold walHeaderLen; omega), if_neg (by simp), if_neg (by simp), if_neg (by simp), if_neg (by simp),
    if_neg (by omega), if_neg (by simp [headerCrc]), long]
  simp only [walHeaderLen, Nat.add_lt_add_iff_left]

theorem decodeRecord_encoding (fits : Fits max record) (rest : Bytes) :
    decodeRecord (encoding record ++ rest) offset max = .complete record (encoding record).length := by
  obtain ⟨noFlags, payload, encoded, small, short⟩ := fits
  have again : (⟨0, record.lsn, record.sequence, record.payload⟩ : WalRecord) = record := by rw [← noFlags]
  rw [length_encoding encoded small, encoding_eq encoded small, List.append_assoc, decodeRecord_header noFlags small short,
    List.take_left, if_neg (by rw [List.length_append]; omega), if_neg (by simp), decodePayload_encodePayload encoded]
  exact congrArg (DecodeRecordResult.complete · _) again

theorem decodeRecord_cut (fits : Fits max record) {cut : Nat} (short : cut < (encoding record).length)
    (offset : Nat) : ∃ warning, decodeRecord ((encoding record).take cut) offset max = .incomplete warning := by
  obtain ⟨noFlags, payload, encoded, small, limit⟩ := fits
  have total := length_encoding encoded small
  by_cases header : cut < walHeaderLen
  · refine ⟨.partialHeader offset, ?_⟩
    unfold decodeRecord
    rw [if_pos (by rw [List.length_take]; omega)]
  · have size : (headerBytes record payload (headerCrc record payload).toNat).length = walHeaderLen := rfl
    rw [encoding_eq encoded small, List.take_append, List.take_of_length_le (by omega),
      decodeRecord_header noFlags small limit, if_pos (by rw [List.length_take]; omega)]
    exact ⟨_, rfl⟩

/-- The checks an accepted record has passed. -/
structure Accepted (input : Bytes) (max : Nat) (record : WalRecord) (size : Nat) : Prop where
  long : walHeaderLen ≤ input.length
  magic : fromLeBytes (slice input 0 4) = walMagic
  version : fromLeBytes (slice input 4 6) = walVersion
  headerLen : fromLeBytes (slice input 6 8) = walHeaderLen
  flags : fromLeBytes (slice input 8 10) = 0
  small : fromLeBytes (slice input 28 32) ≤ max
  crc : UInt32.ofNat (fromLeBytes (slice input 32 36)) =
    crc32c (copyFromSlice (input.take walHeaderLen) 32 (toLeBytes 4 0))
  whole : walHeaderLen + fromLeBytes (slice input 28 32) ≤ input.length
  payloadCrc : UInt32.ofNat (fromLeBytes (slice input 36 40)) =
    crc32c (slice input walHeaderLen (walHeaderLen + fromLeBytes (slice input 28 32)))
  payload : ∃ type, WalRecordType.fromWire (fromLeBytes (slice input 10 12)) = some type ∧
    decodePayload type (slice input walHeaderLen (walHeaderLen + fromLeBytes (slice input 28 32))) = .ok record.payload
  made : record = ⟨0, .ofNat (fromLeBytes (slice input 12 20)), .ofNat (fromLeBytes (slice input 20 28)), record.payload⟩
  total : size = walHeaderLen + fromLeBytes (slice input 28 32)

theorem accepted_of_complete (complete : decodeRecord input offset max = .complete record size) :
    Accepted input max record size := by
  unfold decodeRecord at complete
  dsimp only at complete
  iterate 11
    split at complete
    · cases complete
  next long magic version headerLen flags _ type wire small crc whole payloadCrc _ payload decoded =>
    cases complete
    have noFlags := not_not.mp flags
    exact ⟨by omega, not_not.mp magic, not_not.mp version, not_not.mp headerLen, noFlags, by omega, not_not.mp crc, by omega,
      not_not.mp payloadCrc, ⟨type, wire, decoded⟩, by rw [noFlags], rfl⟩

theorem Accepted.header (accepted : Accepted input max record size)
    (content : slice input walHeaderLen (walHeaderLen + fromLeBytes (slice input 28 32)) = payload)
    (type : fromLeBytes (slice input 10 12) = (recordType record.payload).asWire) :
    input.take walHeaderLen = headerBytes record payload (headerCrc record payload).toNat := by
  have long : 40 ≤ input.length := accepted.long
  have field (start stop : Nat) (fits : stop ≤ 40) :
      toLeBytes (stop - start) (fromLeBytes (slice input start stop)) = slice input start stop :=
    (slice_toLeBytes input start stop (fits.trans long)).symm
  have below (start stop : Nat) (fits : stop ≤ 40) : fromLeBytes (slice input start stop) < 256 ^ (stop - start) := by
    have bound := Raft.fromLeBytes_lt (slice input start stop)
    rwa [length_slice (fits.trans long)] at bound
  have flags : record.flags = fromLeBytes (slice input 8 10) := by rw [accepted.made, accepted.flags]
  have lsn : record.lsn.toNat = fromLeBytes (slice input 12 20) := by
    rw [accepted.made]
    exact UInt64.toNat_ofNat_of_lt' (below 12 20 (by decide))
  have sequence : record.sequence.toNat = fromLeBytes (slice input 20 28) := by
    rw [accepted.made]
    exact UInt64.toNat_ofNat_of_lt' (below 20 28 (by decide))
  have length : payload.length = fromLeBytes (slice input 28 32) := by
    rw [← content, length_slice accepted.whole]
    omega
  have payloadCrc : (crc32c payload).toNat = fromLeBytes (slice input 36 40) := by
    rw [← content, ← accepted.payloadCrc]
    exact UInt32.toNat_ofNat_of_lt' (below 36 40 (by decide))
  have join (middle stop : Nat) (order : middle ≤ stop) (fits : stop ≤ 40) :
      slice input 0 middle ++ slice input middle stop = slice input 0 stop :=
    slice_append_slice (Nat.zero_le _) order (fits.trans long)
  have headerLen : toLeBytes 2 walHeaderLen = slice input 6 8 := by
    rw [← accepted.headerLen]
    exact field 6 8 (by decide)
  -- Written out, the header is the first 40 bytes, whatever its checksum.
  have written : headerBytes record payload (fromLeBytes (slice input 32 36)) = input.take walHeaderLen := by
    unfold headerBytes
    rw [headerLen, ← accepted.magic, ← accepted.version, flags, ← type, lsn, sequence, length, payloadCrc,
      field 0 4 (by decide), field 4 6 (by decide), field 8 10 (by decide), field 10 12 (by decide), field 12 20 (by decide),
      field 20 28 (by decide), field 28 32 (by decide), field 32 36 (by decide), field 36 40 (by decide),
      join 4 6 (by decide) (by decide), join 6 8 (by decide) (by decide), join 8 10 (by decide) (by decide),
      join 10 12 (by decide) (by decide), join 12 20 (by decide) (by decide), join 20 28 (by decide) (by decide),
      join 28 32 (by decide) (by decide), join 32 36 (by decide) (by decide), join 36 40 (by decide) (by decide)]
    rfl
  have crc : fromLeBytes (slice input 32 36) = (headerCrc record payload).toNat := by
    have check := accepted.crc
    rw [← written] at check
    change _ = headerCrc record payload at check
    rw [← check]
    exact (UInt32.toNat_ofNat_of_lt' (below 32 36 (by decide))).symm
  rw [← written, crc]

theorem sound_of_complete (complete : decodeRecord input offset max = .complete record size) :
    Fits max record ∧ ∃ rest, input = encoding record ++ rest ∧ size = (encoding record).length := by
  have accepted := accepted_of_complete complete
  obtain ⟨type, wire, decoded⟩ := accepted.payload
  generalize content : slice input walHeaderLen (walHeaderLen + fromLeBytes (slice input 28 32)) = payload at decoded
  have length : payload.length = fromLeBytes (slice input 28 32) := by
    rw [← content, length_slice accepted.whole]
    omega
  have small : payload.length < 2 ^ 32 := by
    have bound := Raft.fromLeBytes_lt (slice input 28 32)
    rw [length_slice ((by decide : 32 ≤ walHeaderLen).trans accepted.long), ← length] at bound
    exact bound
  obtain ⟨rfl, encoded⟩ := encodePayload_decodePayload small decoded
  have header := accepted.header content (WalRecordType.eq_asWire wire)
  have noFlags : record.flags = 0 := by rw [accepted.made]
  have short : payload.length ≤ max := length ▸ accepted.small
  refine ⟨⟨noFlags, payload, encoded, small, short⟩, input.drop (walHeaderLen + payload.length), ?_, ?_⟩
  · have joined : input.take walHeaderLen ++ payload = input.take (walHeaderLen + payload.length) := by
      rw [length, ← content]
      exact slice_append_slice (Nat.zero_le _) (Nat.le_add_right _ _) accepted.whole
    rw [encoding_eq encoded small, ← header, joined]
    exact (List.take_append_drop _ _).symm
  · rw [accepted.total, length_encoding encoded small, length]

theorem framed (max : Nat) : Framing.Framed encoding (decoded max) (Fits max) where
  complete rest fits := by
    unfold decoded
    rw [decodeRecord_encoding fits rest]
  sound found := by
    unfold decoded at found
    split at found
    next complete =>
      cases found
      exact sound_of_complete complete
    next => cases found
  filled fits := by
    obtain ⟨-, payload, encoded, small, -⟩ := fits
    apply List.ne_nil_of_length_pos
    rw [length_encoding encoded small]
    exact Nat.add_pos_left (by decide) _

end KayaDB.Wal
