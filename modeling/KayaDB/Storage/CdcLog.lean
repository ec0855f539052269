import KayaDB.Library.Ascii
import KayaDB.Raft.Command

/-! The change log as a file of lines. Each change is one JSON object on a line of
its own; reading a file of such lines gives the changes back. -/

namespace KayaDB.Storage
open Raft (Bytes)
open Ascii

inductive CdcOp where
  | put
  | delete
deriving DecidableEq, Repr

structure CdcEvent where
  seq : Nat
  key : Bytes
  value : Option Bytes
  op : CdcOp
deriving DecidableEq, Repr

def CdcOp.parse (text : Text) : Except String CdcOp :=
  if text = ascii "put" then .ok .put
  else if text = ascii "delete" then .ok .delete
  else .error "unknown cdc op"

def logVersion : Nat := 1

def eventText (event : CdcEvent) : Text :=
  let front := ascii "\x7b\"v\":" ++ decimal logVersion ++ ascii ",\"seq\":" ++ decimal event.seq
  match event.op with
  | .put => front ++ ascii ",\"op\":\"put\",\"key\":\"" ++ hexEncode event.key ++ ascii "\",\"value\":\"" ++
      hexEncode (event.value.getD []) ++ ascii "\"\x7d"
  | .delete => front ++ ascii ",\"op\":\"delete\",\"key\":\"" ++ hexEncode event.key ++ ascii "\"\x7d"

def encodeEventLine (event : CdcEvent) : Text := eventText event ++ [10]

/-- The rest of a string behind its opening quote, and what follows it. -/
def scanString (read : Text) : Text → Except String (Text × Text)
  | [] => .error "cdc unterminated string"
  | byte :: rest =>
    if byte = 34 then .ok (read, rest)
    else if byte = 92 then
      match rest with
      | [] => .error "cdc truncated escape"
      | escaped :: rest => scanString (read ++ [escaped]) rest
    else scanString (read ++ [byte]) rest

def parseJsonString (text : Text) : Except String (Text × Text) :=
  if text.head? ≠ some 34 then .error "cdc expected string" else scanString [] text.tail

/-- A value is a string or runs up to a comma or a space. -/
def parseJsonValue (text : Text) : Except String (Text × Text) :=
  if text.head? = some 34 then parseJsonString text
  else
    let within := fun byte => !(decide (byte = 44) || isSpace byte)
    .ok (text.takeWhile within, text.dropWhile within)

/-- The fields of an object without nested ones; every turn takes at least one
byte, so that a bound of one more than the text is never reached. -/
def splitJsonFields : Nat → Text → Except String (List (Text × Text))
  | 0, _ => .error "cdc too many fields"
  | bound + 1, text =>
    if text = [] then .ok []
    else do
      let text := trimStart text
      if text.head? ≠ some 34 then throw "cdc expected field name"
      let (name, rest) ← parseJsonString text
      let rest := trimStart rest
      if rest.head? ≠ some 58 then throw "cdc expected ':' after field name"
      let (value, rest) ← parseJsonValue (trimStart rest.tail)
      let rest := trimStart rest
      if rest.head? = some 44 then
        let later ← splitJsonFields bound (trimStart rest.tail)
        return (name, value) :: later
      else if rest = [] then return [(name, value)]
      else throw "cdc unexpected trailing field data"

/-- What the fields read so far say. -/
structure CdcFields where
  version : Option Nat
  seq : Option Nat
  op : Option CdcOp
  key : Option Bytes
  value : Option Bytes

def orCorruption {α : Type} (message : String) : Option α → Except String α
  | some value => .ok value
  | none => .error message

def decodeHex (text : Text) : Except String Bytes :=
  if text.length % 2 ≠ 0 then .error "cdc hex length not even" else orCorruption "invalid cdc hex digit" (hexDecode text)

/-- Fields that are not known are passed over. -/
def CdcFields.read (fields : CdcFields) (field : Text × Text) : Except String CdcFields :=
  if field.1 = ascii "v" then do
    return { fields with version := some (← orCorruption "cdc bad version" (parseNat (2 ^ 8) field.2)) }
  else if field.1 = ascii "seq" then do
    return { fields with seq := some (← orCorruption "cdc bad seq" (parseNat (2 ^ 64) field.2)) }
  else if field.1 = ascii "op" then do
    return { fields with op := some (← CdcOp.parse field.2) }
  else if field.1 = ascii "key" then do
    return { fields with key := some (← decodeHex field.2) }
  else if field.1 = ascii "value" then do
    return { fields with value := some (← decodeHex field.2) }
  else .ok fields

def CdcFields.event (fields : CdcFields) : Except String CdcEvent := do
  let version ← orCorruption "cdc missing v" fields.version
  if version ≠ logVersion then throw s!"unsupported cdc log version {version}"
  let seq ← orCorruption "cdc missing seq" fields.seq
  let op ← orCorruption "cdc missing op" fields.op
  let key ← orCorruption "cdc missing key" fields.key
  return ⟨seq, key, match op with
    | .put => some (fields.value.getD [])
    | .delete => none, op⟩

def decodeEventLine (line : Text) : Except String CdcEvent := do
  let line := trim line
  if line.head? ≠ some 123 ∨ line.getLast? ≠ some 125 then throw "cdc log line is not a JSON object"
  let body := line.tail.dropLast
  let fields ← splitJsonFields (body.length + 1) body
  let read ← fields.foldlM CdcFields.read ⟨none, none, none, none, none⟩
  read.event

def readEvents : List Text → Except String (List CdcEvent)
  | [] => .ok []
  | line :: rest =>
    if trim line = [] then readEvents rest
    else do
      let event ← decodeEventLine line
      let later ← readEvents rest
      return event :: later

/-- Load a log; a stable sort puts the events in the order of their numbers. -/
def loadCdcLog (content : Text) : Except String (List CdcEvent) :=
  (readEvents (lines content)).map fun events => events.mergeSort fun first second => decide (first.seq ≤ second.seq)

def Plain (text : Text) : Prop := ∀ byte ∈ text, byte ≠ 34 ∧ byte ≠ 92

instance (text : Text) : Decidable (Plain text) := List.decidableBAll _ text

variable {text rest name written value : Text} {byte : UInt8} {bound : Nat} {later : List (Text × Text)}
  {event : CdcEvent}

theorem scanString_plain (plain : Plain text) (rest : Text) : ∀ read : Text,
    scanString read (text ++ 34 :: rest) = .ok (read ++ text, rest) := by
  induction text with
  | nil =>
    intro read
    rw [List.nil_append, scanString.eq_def]
    dsimp only
    rw [if_pos rfl, List.append_nil]
  | cons byte text ih =>
    intro read
    obtain ⟨quote, escape⟩ := plain byte List.mem_cons_self
    rw [List.cons_append, scanString.eq_def]
    dsimp only
    rw [if_neg quote, if_neg escape, ih fun other inside => plain other (List.mem_cons_of_mem _ inside),
      List.append_assoc, List.singleton_append]

theorem parseJsonString_plain (plain : Plain text) (rest : Text) :
    parseJsonString (34 :: (text ++ 34 :: rest)) = .ok (text, rest) := by
  unfold parseJsonString
  rw [if_neg (by simp)]
  exact scanString_plain plain rest []

/-- Nothing, or something to be seen at the front. -/
def Shown (text : Text) : Prop := trimStart text = text

theorem shown_cons (shown : isSpace byte = false) : Shown (byte :: rest) :=
  trimStart_of_head shown

/-- A value that stands as `written` in the object and is read as `value`. -/
structure Written (written value : Text) : Prop where
  shown : ∀ rest, Shown (written ++ rest)
  parsed : ∀ rest, rest = [] ∨ rest.head? = some 44 → parseJsonValue (written ++ rest) = .ok (value, rest)

theorem written_string (plain : Plain text) : Written (34 :: (text ++ [34])) text := by
  refine ⟨fun rest => shown_cons (by decide), fun rest _ => ?_⟩
  unfold parseJsonValue
  rw [if_pos (by simp), List.cons_append, List.append_assoc]
  exact parseJsonString_plain plain rest

theorem solid_of_le (low : 48 ≤ byte) : isSpace byte = false ∧ byte ≠ 44 ∧ byte ≠ 34 ∧ byte ≠ 10 := by
  have all : ∀ value : Fin 256, 48 ≤ UInt8.ofNat value → isSpace (UInt8.ofNat value) = false ∧ UInt8.ofNat value ≠ 44 ∧
      UInt8.ofNat value ≠ 34 ∧ UInt8.ofNat value ≠ 10 := by decide +kernel
  have here := all ⟨byte.toNat, byte.toNat_lt⟩
  rw [UInt8.ofNat_toNat] at here
  exact here low

theorem written_decimal (number : Nat) : Written (decimal number) (decimal number) := by
  have solid := fun byte inside => solid_of_le (@digit_of_mem_decimal byte number inside).1
  obtain ⟨first, text, same⟩ := List.exists_cons_of_ne_nil (decimal_ne_nil number)
  rw [same] at solid ⊢
  obtain ⟨shown, -, quote, -⟩ := solid first List.mem_cons_self
  refine ⟨fun rest => shown_cons shown, fun rest ended => ?_⟩
  have stops : rest.takeWhile (fun byte => !(decide (byte = 44) || isSpace byte)) = [] ∧
      rest.dropWhile (fun byte => !(decide (byte = 44) || isSpace byte)) = rest := by
    rcases ended with rfl | comma
    · exact ⟨rfl, rfl⟩
    · obtain ⟨tail, rfl⟩ := List.head?_eq_some_iff.mp comma
      exact ⟨rfl, rfl⟩
  have runs : ∀ byte ∈ first :: text, (!(decide (byte = 44) || isSpace byte)) = true := by
    intro byte inside
    obtain ⟨shown, comma, -, -⟩ := solid byte inside
    simp [shown, comma]
  unfold parseJsonValue
  rw [if_neg (by simpa using quote)]
  dsimp only
  rw [List.takeWhile_append_of_pos runs, List.dropWhile_append_of_pos runs, stops.1, stops.2, List.append_nil]

theorem split_field (plain : Plain name) (reads : Written written value) (shown : Shown rest)
    (behind : splitJsonFields bound rest = .ok later) :
    splitJsonFields (bound + 1) (34 :: (name ++ 34 :: 58 :: (written ++ 44 :: rest))) = .ok ((name, value) :: later) := by
  have quoted : ∀ more, trimStart (34 :: more) = 34 :: more := fun more => shown_cons (by decide)
  have colon : ∀ more, trimStart (58 :: more) = 58 :: more := fun more => shown_cons (by decide)
  have comma : ∀ more, trimStart (44 :: more) = 44 :: more := fun more => shown_cons (by decide)
  have begins : trimStart (written ++ 44 :: rest) = written ++ 44 :: rest := reads.shown _
  have parsed := reads.parsed (44 :: rest) (.inr rfl)
  have next : trimStart rest = rest := shown
  rw [splitJsonFields, if_neg (by simp), quoted]
  dsimp only
  rw [if_neg (by simp), parseJsonString_plain plain]
  simp [bind, Except.bind, pure, Except.pure, colon, comma, begins, parsed, next, behind]

theorem split_last (plain : Plain name) (reads : Written written value) :
    splitJsonFields (bound + 1) (34 :: (name ++ 34 :: 58 :: written)) = .ok [(name, value)] := by
  have quoted : ∀ more, trimStart (34 :: more) = 34 :: more := fun more => shown_cons (by decide)
  have colon : ∀ more, trimStart (58 :: more) = 58 :: more := fun more => shown_cons (by decide)
  have begins : trimStart written = written := by simpa [Shown] using reads.shown []
  have parsed : parseJsonValue written = .ok (value, []) := by simpa using reads.parsed [] (.inl rfl)
  have nothing : trimStart [] = [] := rfl
  rw [splitJsonFields, if_neg (by simp), quoted]
  dsimp only
  rw [if_neg (by simp), parseJsonString_plain plain]
  simp [bind, Except.bind, pure, Except.pure, colon, begins, parsed, nothing]

theorem plain_hexEncode (bytes : Bytes) : Plain (hexEncode bytes) := by
  intro byte inside
  obtain ⟨low, -, escape⟩ := plain_of_mem_hexEncode inside
  exact ⟨(solid_of_le low).2.2.1, escape⟩

theorem decodeHex_hexEncode (bytes : Bytes) : decodeHex (hexEncode bytes) = .ok bytes := by
  have even : (hexEncode bytes).length % 2 = 0 := by
    unfold hexEncode
    rw [List.length_flatMap]
    simp
  unfold decodeHex
  rw [if_neg (not_not.mpr even), hexDecode_hexEncode]
  rfl

def frontFields (event : CdcEvent) (rest : Text) : Text :=
  34 :: (ascii "v" ++ 34 :: 58 :: (decimal logVersion ++ 44 :: 34 :: (ascii "seq" ++ 34 :: 58 ::
    (decimal event.seq ++ 44 :: rest))))

def backFields (event : CdcEvent) : Text :=
  match event.op with
  | .put => 34 :: (ascii "op" ++ 34 :: 58 :: ((34 :: (ascii "put" ++ [34])) ++ 44 :: 34 :: (ascii "key" ++ 34 :: 58 ::
      ((34 :: (hexEncode event.key ++ [34])) ++ 44 :: 34 :: (ascii "value" ++ 34 :: 58 ::
        (34 :: (hexEncode (event.value.getD []) ++ [34])))))))
  | .delete => 34 :: (ascii "op" ++ 34 :: 58 :: ((34 :: (ascii "delete" ++ [34])) ++ 44 :: 34 :: (ascii "key" ++ 34 :: 58 ::
      (34 :: (hexEncode event.key ++ [34])))))

theorem eventText_eq (event : CdcEvent) : eventText event = 123 :: (frontFields event (backFields event) ++ [125]) := by
  have front : ascii "\x7b\"v\":" = 123 :: 34 :: (ascii "v" ++ [34, 58]) := rfl
  have seq : ascii ",\"seq\":" = 44 :: 34 :: (ascii "seq" ++ [34, 58]) := rfl
  have put : ascii ",\"op\":\"put\",\"key\":\"" = 44 :: 34 :: (ascii "op" ++ 34 :: 58 :: 34 :: (ascii "put" ++ 34 :: 44 ::
      34 :: (ascii "key" ++ [34, 58, 34]))) := rfl
  have delete : ascii ",\"op\":\"delete\",\"key\":\"" = 44 :: 34 :: (ascii "op" ++ 34 :: 58 :: 34 :: (ascii "delete" ++
      34 :: 44 :: 34 :: (ascii "key" ++ [34, 58, 34]))) := rfl
  have value : ascii "\",\"value\":\"" = 34 :: 44 :: 34 :: (ascii "value" ++ [34, 58, 34]) := rfl
  have last : ascii "\"\x7d" = [34, 125] := rfl
  unfold eventText frontFields backFields
  cases event.op with
  | put => simp only [front, seq, put, value, last, List.append_assoc, List.cons_append, List.nil_append]
  | delete => simp only [front, seq, delete, last, List.append_assoc, List.cons_append, List.nil_append]

/-- A number of 64 bits, and a value exactly for a put. -/
def CdcEvent.Fits (event : CdcEvent) : Prop :=
  event.seq < 2 ^ 64 ∧ (event.value = none ↔ event.op = .delete)

theorem split_front (shown : Shown rest) (behind : splitJsonFields bound rest = .ok later) :
    splitJsonFields (bound + 2) (frontFields event rest) =
      .ok ((ascii "v", decimal logVersion) :: (ascii "seq", decimal event.seq) :: later) := by
  unfold frontFields
  refine split_field (by decide) (written_decimal _) (shown_cons (by decide)) ?_
  exact split_field (by decide) (written_decimal _) shown behind

section Fields
variable (fields : CdcFields)

theorem read_version : fields.read (ascii "v", decimal logVersion) = .ok { fields with version := some logVersion } := by
  have parsed : parseNat (2 ^ 8) (decimal logVersion) = some logVersion := parseNat_decimal (by decide)
  simp only [CdcFields.read, if_true, parsed]
  rfl

theorem read_seq {seq : Nat} (room : seq < 2 ^ 64) :
    fields.read (ascii "seq", decimal seq) = .ok { fields with seq := some seq } := by
  have other : ascii "seq" ≠ ascii "v" := by decide
  simp only [CdcFields.read, if_neg other, if_true, parseNat_decimal room]
  rfl

theorem read_op {text : Text} {op : CdcOp} (parsed : CdcOp.parse text = .ok op) :
    fields.read (ascii "op", text) = .ok { fields with op := some op } := by
  have first : ascii "op" ≠ ascii "v" := by decide
  have second : ascii "op" ≠ ascii "seq" := by decide
  simp only [CdcFields.read, if_neg first, if_neg second, if_true, parsed]
  rfl

theorem read_key (key : Bytes) : fields.read (ascii "key", hexEncode key) = .ok { fields with key := some key } := by
  have others : ascii "key" ≠ ascii "v" ∧ ascii "key" ≠ ascii "seq" ∧ ascii "key" ≠ ascii "op" := by decide
  simp only [CdcFields.read, if_neg others.1, if_neg others.2.1, if_neg others.2.2, if_true, decodeHex_hexEncode]
  rfl

theorem read_value (value : Bytes) :
    fields.read (ascii "value", hexEncode value) = .ok { fields with value := some value } := by
  have others : ascii "value" ≠ ascii "v" ∧ ascii "value" ≠ ascii "seq" ∧ ascii "value" ≠ ascii "op" ∧
    ascii "value" ≠ ascii "key" := by decide
  simp only [CdcFields.read, if_neg others.1, if_neg others.2.1, if_neg others.2.2.1, if_neg others.2.2.2, if_true,
    decodeHex_hexEncode]
  rfl

end Fields

theorem read_eventText (fits : event.Fits) : ∃ fields read,
    (∀ bound, splitJsonFields (bound + 5) (frontFields event (backFields event)) = .ok fields) ∧
      fields.foldlM CdcFields.read ⟨none, none, none, none, none⟩ = .ok read ∧ read.event = .ok event := by
  obtain ⟨room, valued⟩ := fits
  obtain ⟨seq, key, value, op⟩ := event
  have named := written_string (plain_hexEncode key)
  cases op with
  | put =>
    cases value with
    | none => exact absurd (valued.mp rfl) nofun
    | some value =>
      refine ⟨_, ⟨some logVersion, some seq, some .put, some key, some value⟩, fun bound => split_front
        (shown_cons (by decide)) (split_field (by decide) (written_string (by decide)) (shown_cons (by decide))
          (split_field (by decide) named (shown_cons (by decide))
            (split_last (by decide) (written_string (plain_hexEncode value))))), ?_, rfl⟩
      simp only [List.foldlM_cons, List.foldlM_nil, read_version, read_seq _ room, read_key, read_value,
          read_op _ (show CdcOp.parse (ascii "put") = .ok .put by decide), bind, Except.bind, pure, Except.pure,
          Option.getD_some]
  | delete =>
    obtain rfl : value = none := valued.mpr rfl
    refine ⟨_, ⟨some logVersion, some seq, some .delete, some key, none⟩, fun bound => split_front (shown_cons (by decide))
      (split_field (by decide) (written_string (by decide)) (shown_cons (by decide)) (split_last (by decide) named)), ?_, rfl⟩
    simp only [List.foldlM_cons, List.foldlM_nil, read_version, read_seq _ room, read_key,
      read_op _ (show CdcOp.parse (ascii "delete") = .ok .delete by decide), bind, Except.bind, pure, Except.pure]

theorem length_frontFields (event : CdcEvent) (rest : Text) : 5 ≤ (frontFields event rest).length := by
  simp only [frontFields, List.length_cons, List.length_append]
  omega

theorem decodeEventLine_eventText (fits : event.Fits) : decodeEventLine (eventText event) = .ok event := by
  obtain ⟨fields, read, split, folded, made⟩ := read_eventText fits
  obtain ⟨bound, room⟩ := Nat.exists_eq_add_of_le' (length_frontFields event (backFields event))
  have split := split (bound + 1)
  have enclosed : trim (eventText event) = eventText event := by
    rw [eventText_eq]
    exact trim_enclosed (by decide) (by decide)
  have ends : (123 :: (frontFields event (backFields event) ++ [125])).getLast? = some 125 := by
    rw [← List.cons_append, List.getLast?_concat]
  unfold decodeEventLine
  rw [enclosed, eventText_eq]
  dsimp only
  rw [if_neg (by simp [ends]), List.tail_cons, List.dropLast_concat, room]
  rw [show bound + 5 + 1 = bound + 1 + 5 by omega, split]
  simp only [bind, Except.bind, folded, made]

theorem unbroken_eventText (event : CdcEvent) : ∀ byte ∈ eventText event, byte ≠ 10 := by
  have digits (number : Nat) : ∀ byte ∈ decimal number, byte ≠ 10 := fun byte inside =>
    (solid_of_le (digit_of_mem_decimal inside).1).2.2.2
  have bytes (content : Bytes) : ∀ byte ∈ hexEncode content, byte ≠ 10 := fun byte inside =>
    (solid_of_le (plain_of_mem_hexEncode inside).1).2.2.2
  have fixed (text : Text) (none : text.all (· ≠ 10) = true) : ∀ byte ∈ text, byte ≠ 10 := by simpa using none
  unfold eventText
  cases event.op with
  | put =>
    simp only [List.forall_mem_append]
    exact ⟨⟨⟨⟨⟨⟨⟨⟨fixed _ rfl, digits _⟩, fixed _ rfl⟩, digits _⟩, fixed _ rfl⟩, bytes _⟩, fixed _ rfl⟩, bytes _⟩, fixed _ rfl⟩
  | delete =>
    simp only [List.forall_mem_append]
    exact ⟨⟨⟨⟨⟨⟨fixed _ rfl, digits _⟩, fixed _ rfl⟩, digits _⟩, fixed _ rfl⟩, bytes _⟩, fixed _ rfl⟩

/-- The events whose lines, newlines not counted, are before the cut. -/
def whole : List CdcEvent → Nat → List CdcEvent
  | [], _ => []
  | event :: rest, cut =>
    if (eventText event).length ≤ cut then event :: whole rest (cut - (encodeEventLine event).length) else []

/-- The cut is not inside the text of an event. -/
def CleanCut : List CdcEvent → Nat → Prop
  | [], _ => True
  | event :: rest, cut =>
    cut = 0 ∨ (eventText event).length ≤ cut ∧ CleanCut rest (cut - (encodeEventLine event).length)

/-- Only the last byte of an event closes a brace. -/
theorem unclosed (event : CdcEvent) : 125 ∉ frontFields event (backFields event) := by
  have digits (number : Nat) : 125 ∉ decimal number := fun inside =>
    absurd (digit_of_mem_decimal inside).2 (by decide)
  have bytes (content : Bytes) : 125 ∉ hexEncode content := fun inside =>
    absurd (plain_of_mem_hexEncode inside).2.1 (by decide)
  unfold frontFields backFields
  cases event.op <;> simp [ascii, digits, bytes]

theorem decodeEventLine_unclosed {line : Text} (unclosed : 125 ∉ line) : ∃ reason, decodeEventLine line = .error reason := by
  have ends : (trim line).getLast? ≠ some 125 := fun last => unclosed (mem_of_mem_trim (List.mem_of_getLast? last))
  unfold decodeEventLine
  rw [if_pos (.inr ends)]
  exact ⟨_, rfl⟩

theorem readEvents_torn {cut : Nat} (filled : 0 < cut) (torn : cut < (eventText event).length) :
    ∃ reason, readEvents (lines ((eventText event).take cut)) = .error reason := by
  obtain ⟨count, rfl⟩ : ∃ count, cut = count + 1 := ⟨cut - 1, by omega⟩
  have unbroken : ∀ byte ∈ (eventText event).take (count + 1), byte ≠ 10 := fun byte inside =>
    unbroken_eventText event byte (List.mem_of_mem_take inside)
  have begins : (eventText event).take (count + 1) = 123 :: (frontFields event (backFields event)).take count := by
    rw [eventText_eq] at torn ⊢
    rw [List.length_cons, List.length_append, List.length_singleton] at torn
    rw [List.take_succ_cons, List.take_append_of_le_length (by omega)]
  rw [begins] at unbroken ⊢
  obtain ⟨reason, fails⟩ : ∃ reason, decodeEventLine (123 :: (frontFields event (backFields event)).take count) =
      .error reason := by
    apply decodeEventLine_unclosed
    rintro (_ | ⟨_, inside⟩)
    exact unclosed event (List.mem_of_mem_take inside)
  have shown : trim (123 :: (frontFields event (backFields event)).take count) ≠ [] :=
    trim_ne_nil (by decide)
  rw [lines_last (List.cons_ne_nil _ _) unbroken, readEvents, if_neg shown, fails]
  exact ⟨reason, rfl⟩

theorem readEvents_take {events : List CdcEvent} (fit : ∀ event ∈ events, event.Fits) : ∀ cut : Nat,
    (CleanCut events cut ∧ readEvents (lines ((events.flatMap encodeEventLine).take cut)) = .ok (whole events cut)) ∨
      (¬ CleanCut events cut ∧
        ∃ reason, readEvents (lines ((events.flatMap encodeEventLine).take cut)) = .error reason) := by
  induction events with
  | nil =>
    intro cut
    rw [List.flatMap_nil, List.take_nil]
    exact .inl ⟨trivial, rfl⟩
  | cons event events ih =>
    intro cut
    obtain ⟨fits, others⟩ := List.forall_mem_cons.mp fit
    have filled : 0 < (eventText event).length := by
      rw [eventText_eq]
      exact Nat.succ_pos _
    unfold whole CleanCut
    by_cases before : (eventText event).length ≤ cut
    · have shown : trim (eventText event) ≠ [] := by
        rw [eventText_eq]
        exact trim_ne_nil (by decide)
      have split : lines (((event :: events).flatMap encodeEventLine).take cut) = eventText event ::
          lines ((events.flatMap encodeEventLine).take (cut - (encodeEventLine event).length)) := by
        rw [List.flatMap_cons, List.take_append]
        rcases Nat.lt_or_eq_of_le before with more | last
        · have room : (encodeEventLine event).length ≤ cut := by
            rw [encodeEventLine, List.length_append]
            exact more
          rw [List.take_of_length_le room]
          simpa [encodeEventLine] using lines_line (unbroken_eventText event) _
        · have spent : cut - (encodeEventLine event).length = 0 := by simp [encodeEventLine, last]
          rw [spent, List.take_zero, List.append_nil, encodeEventLine, ← last, List.take_left]
          exact lines_last (List.ne_nil_of_length_pos filled) (unbroken_eventText event)
      rw [split, readEvents, if_neg shown, decodeEventLine_eventText fits, if_pos before,
        or_iff_right (filled.trans_le before).ne', and_iff_right before]
      rcases ih others (cut - (encodeEventLine event).length) with ⟨clean, read⟩ | ⟨torn, reason, fails⟩
      · rw [read]
        exact .inl ⟨clean, rfl⟩
      · rw [fails]
        exact .inr ⟨torn, reason, rfl⟩
    · rw [if_neg before]
      rcases Nat.eq_zero_or_pos cut with rfl | positive
      · exact .inl ⟨.inl rfl, rfl⟩
      · have part : ((event :: events).flatMap encodeEventLine).take cut = (eventText event).take cut := by
          rw [List.flatMap_cons, encodeEventLine, List.append_assoc, List.take_append_of_le_length (not_le.mp before).le]
        rw [part]
        refine .inr ⟨?_, readEvents_torn positive (not_le.mp before)⟩
        rintro (none_ | ⟨complete, -⟩)
        · exact positive.ne' none_
        · exact before complete

/-- A log that was cut is loaded, with just the events whose lines are complete, if
and only if the cut is not inside the text of an event; and every event is decoded
from its line. -/
theorem loadCdcLog_take_iff {events : List CdcEvent} (fit : ∀ event ∈ events, event.Fits) (cut : Nat) :
    ((∃ loaded, loadCdcLog ((events.flatMap encodeEventLine).take cut) = .ok loaded ∧ loaded.Perm (whole events cut)) ∧
      ∀ event ∈ events, decodeEventLine (eventText event) = .ok event) ↔ CleanCut events cut := by
  rw [and_iff_left fun event inside => decodeEventLine_eventText (fit event inside)]
  unfold loadCdcLog
  rcases readEvents_take fit cut with ⟨clean, read⟩ | ⟨torn, reason, fails⟩
  · rw [read]
    exact iff_of_true ⟨_, rfl, List.mergeSort_perm _ _⟩ clean
  · rw [fails]
    refine iff_of_false ?_ torn
    rintro ⟨loaded, read, -⟩
    cases read

def twoChanges : List CdcEvent := [⟨1, [107], some [118], .put⟩, ⟨2, [107], none, .delete⟩]

theorem fit_twoChanges : ∀ event ∈ twoChanges, event.Fits := by
  simp only [twoChanges, List.forall_mem_cons, List.not_mem_nil, false_imp_iff, implies_true, and_true]
  exact ⟨⟨by decide, by decide⟩, by decide, by decide⟩

/-- The second line has lost its newline. -/
theorem loadCdcLog_unended : ∃ loaded, loadCdcLog ((twoChanges.flatMap encodeEventLine).take 91) = .ok loaded ∧
    loaded.Perm twoChanges := by
  have clean : CleanCut twoChanges 91 := .inr ⟨by decide +kernel, .inr ⟨by decide +kernel, trivial⟩⟩
  have all : whole twoChanges 91 = twoChanges := by decide +kernel
  exact all ▸ ((loadCdcLog_take_iff fit_twoChanges 91).mpr clean).1

/-- The second line has lost its brace as well, and with it the whole log is lost. -/
theorem loadCdcLog_torn : ¬ ∃ loaded, loadCdcLog ((twoChanges.flatMap encodeEventLine).take 90) = .ok loaded ∧
    loaded.Perm (whole twoChanges 90) := by
  rintro ⟨loaded, read, -⟩
  have fails : (readEvents (lines ((twoChanges.flatMap encodeEventLine).take 90))).isOk = false := by decide +kernel
  unfold loadCdcLog at read
  cases outcome : readEvents (lines ((twoChanges.flatMap encodeEventLine).take 90)) with
  | error reason =>
    rw [outcome] at read
    cases read
  | ok events =>
    rw [outcome] at fails
    cases fails

end KayaDB.Storage
