import Mathlib.Data.List.Basic
import Mathlib.Data.List.TakeWhile
import Mathlib.Tactic.Common

/-! Text as ASCII bytes: lines, trimming, and numbers and bytes written as decimal
and hexadecimal digits, with what reading them back gives; and which bytes are text
at all. -/

namespace KayaDB.Ascii

abbrev Text := List UInt8

def ascii (text : String) : Text := text.toList.map fun char => UInt8.ofNat char.toNat

def isSpace (byte : UInt8) : Bool := decide (9 ≤ byte ∧ byte ≤ 13) || byte = 32

def trimStart (text : Text) : Text := text.dropWhile isSpace

def trimEnd (text : Text) : Text := (text.reverse.dropWhile isSpace).reverse

def trim (text : Text) : Text := trimEnd (trimStart text)

def lines : Text → List Text
  | [] => []
  | byte :: rest =>
    if byte = 10 then [] :: lines rest
    else
      match lines rest with
      | [] => [[byte]]
      | line :: later => (byte :: line) :: later

def decimal (number : Nat) : Text := (Nat.toDigits 10 number).map fun char => UInt8.ofNat char.toNat

def digitValue (byte : UInt8) : Option Nat := if 48 ≤ byte ∧ byte ≤ 57 then some (byte.toNat - 48) else none

/-- Digits behind those that made up `read`, as long as the number is below the bound. -/
def parseDigits (bound : Nat) : Nat → Text → Option Nat
  | read, [] => some read
  | read, byte :: rest =>
    match digitValue byte with
    | none => none
    | some digit => if read * 10 + digit < bound then parseDigits bound (read * 10 + digit) rest else none

/-- A number below the bound, with or without a plus sign. -/
def parseNat (bound : Nat) (text : Text) : Option Nat :=
  let digits := if text.head? = some 43 then text.tail else text
  if digits = [] then none else parseDigits bound 0 digits

section Decimal
variable {bound number : Nat}

theorem parseDigits_append (first second : Text) : ∀ read : Nat,
    parseDigits bound read (first ++ second) = (parseDigits bound read first).bind (parseDigits bound · second) := by
  induction first with
  | nil => exact fun read => rfl
  | cons byte rest ih =>
    intro read
    simp only [List.cons_append, parseDigits]
    cases digitValue byte with
    | none => rfl
    | some digit =>
      dsimp only
      split
      · exact ih _
      · rfl

theorem decimal_digit (small : number < 10) : decimal number = [UInt8.ofNat (48 + number)] := by
  have digits : ∀ value : Fin 10, [(Nat.digitChar value).toNat].map UInt8.ofNat = [UInt8.ofNat (48 + value)] := by decide
  unfold decimal
  rw [Nat.toDigits_of_lt_base small]
  exact digits ⟨number, small⟩

theorem decimal_split (large : 10 ≤ number) : decimal number = decimal (number / 10) ++ decimal (number % 10) := by
  unfold decimal
  rw [← List.map_append, Nat.toDigits_append_toDigits (by decide) (by omega) (by omega), Nat.div_add_mod]

theorem digitValue_digit (small : number < 10) : digitValue (UInt8.ofNat (48 + number)) = some number := by
  have digits : ∀ value : Fin 10, digitValue (UInt8.ofNat (48 + value)) = some value.val := by decide
  exact digits ⟨number, small⟩

theorem parseDigits_decimal (fits : number < bound) : parseDigits bound 0 (decimal number) = some number := by
  induction number using Nat.strongRecOn with
  | ind number ih =>
    by_cases small : number < 10
    · simp only [decimal_digit small, parseDigits, digitValue_digit small]
      rw [if_pos (by omega), Nat.zero_mul, Nat.zero_add]
    · have last : number % 10 < 10 := Nat.mod_lt _ (by decide)
      rw [decimal_split (by omega), parseDigits_append, ih _ (by omega) (by omega), decimal_digit last, Option.bind_some]
      simp only [parseDigits, digitValue_digit last]
      rw [if_pos (by omega), Nat.div_add_mod']

theorem decimal_ne_nil (number : Nat) : decimal number ≠ [] := by
  unfold decimal
  simp [Nat.toDigits_ne_nil]

theorem digit_of_mem_decimal {byte : UInt8} : ∀ {number : Nat}, byte ∈ decimal number → 48 ≤ byte ∧ byte ≤ 57 := by
  intro number
  induction number using Nat.strongRecOn with
  | ind number ih =>
    by_cases small : number < 10
    · rw [decimal_digit small, List.mem_singleton]
      rintro rfl
      have digits : ∀ value : Fin 10, 48 ≤ UInt8.ofNat (48 + value) ∧ UInt8.ofNat (48 + value) ≤ 57 := by decide
      exact digits ⟨number, small⟩
    · rw [decimal_split (by omega), List.mem_append]
      rintro (front | last)
      · exact ih _ (by omega) front
      · exact ih _ (by omega) last

theorem parseNat_decimal (fits : number < bound) : parseNat bound (decimal number) = some number := by
  have unsigned : (decimal number).head? ≠ some 43 := by
    intro sign
    have digit := digit_of_mem_decimal (List.mem_of_mem_head? sign)
    exact absurd digit.1 (by decide)
  unfold parseNat
  rw [if_neg unsigned]
  dsimp only
  rw [if_neg (decimal_ne_nil number), parseDigits_decimal fits]

end Decimal

def hexDigit (value : Nat) : UInt8 := UInt8.ofNat (if value < 10 then 48 + value else 87 + value)

def hexEncode (bytes : List UInt8) : Text :=
  bytes.flatMap fun byte => [hexDigit (byte.toNat / 16), hexDigit (byte.toNat % 16)]

def hexNibble (byte : UInt8) : Option UInt8 :=
  if 48 ≤ byte ∧ byte ≤ 57 then some (byte - 48)
  else if 97 ≤ byte ∧ byte ≤ 102 then some (byte - 97 + 10)
  else if 65 ≤ byte ∧ byte ≤ 70 then some (byte - 65 + 10)
  else none

def hexDecode : Text → Option (List UInt8)
  | [] => some []
  | [_] => none
  | high :: low :: rest =>
    match hexNibble high, hexNibble low with
    | some first, some second => (hexDecode rest).map fun bytes => (first <<< 4 ||| second) :: bytes
    | _, _ => none

theorem hexNibble_hexDigit : ∀ value : Fin 16, hexNibble (hexDigit value) = some (UInt8.ofNat value) := by decide

theorem hexDigit_nibbles (byte : UInt8) : hexNibble (hexDigit (byte.toNat / 16)) = some (UInt8.ofNat (byte.toNat / 16)) ∧
    hexNibble (hexDigit (byte.toNat % 16)) = some (UInt8.ofNat (byte.toNat % 16)) := by
  have bound := byte.toNat_lt
  exact ⟨hexNibble_hexDigit ⟨byte.toNat / 16, by omega⟩, hexNibble_hexDigit ⟨byte.toNat % 16, by omega⟩⟩

theorem nibbles_join (byte : UInt8) : UInt8.ofNat (byte.toNat / 16) <<< 4 ||| UInt8.ofNat (byte.toNat % 16) = byte := by
  have all : ∀ value : Fin 256, UInt8.ofNat (value / 16) <<< 4 ||| UInt8.ofNat (value % 16) = UInt8.ofNat value := by
    decide +kernel
  have same := all ⟨byte.toNat, byte.toNat_lt⟩
  rwa [UInt8.ofNat_toNat] at same

theorem hexDecode_hexEncode (bytes : List UInt8) : hexDecode (hexEncode bytes) = some bytes := by
  induction bytes with
  | nil => rfl
  | cons byte rest ih =>
    obtain ⟨high, low⟩ := hexDigit_nibbles byte
    have step : hexEncode (byte :: rest) = hexDigit (byte.toNat / 16) :: hexDigit (byte.toNat % 16) :: hexEncode rest := rfl
    rw [step]
    simp only [hexDecode, high, low, ih, Option.map_some, nibbles_join]

theorem hexDigit_plain : ∀ value : Fin 16, 48 ≤ hexDigit value ∧ hexDigit value ≤ 102 ∧ hexDigit value ≠ 92 := by decide

variable {byte : UInt8} {rest line : Text}

theorem plain_of_mem_hexEncode {bytes : List UInt8} (inside : byte ∈ hexEncode bytes) :
    48 ≤ byte ∧ byte ≤ 102 ∧ byte ≠ 92 := by
  obtain ⟨source, -, here⟩ := List.mem_flatMap.mp inside
  have bound := source.toNat_lt
  simp only [List.mem_cons, List.not_mem_nil, or_false] at here
  rcases here with rfl | rfl
  · exact hexDigit_plain ⟨source.toNat / 16, by omega⟩
  · exact hexDigit_plain ⟨source.toNat % 16, by omega⟩

theorem trimStart_of_head (shown : isSpace byte = false) : trimStart (byte :: rest) = byte :: rest :=
  List.dropWhile_cons_of_neg (by rw [shown]; decide)

theorem trimEnd_concat {front : Text} (shown : isSpace byte = false) :
    trimEnd (front ++ [byte]) = front ++ [byte] := by
  unfold trimEnd
  rw [List.reverse_append, List.reverse_singleton, List.singleton_append,
    List.dropWhile_cons_of_neg (by rw [shown]; decide), List.reverse_cons, List.reverse_reverse]

theorem trim_enclosed {first last : UInt8} {middle : Text} (begins : isSpace first = false) (ends : isSpace last = false) :
    trim (first :: (middle ++ [last])) = first :: (middle ++ [last]) := by
  unfold trim
  rw [trimStart_of_head begins]
  exact @trimEnd_concat last (first :: middle) ends

theorem trim_ne_nil (shown : isSpace byte = false) : trim (byte :: rest) ≠ [] := by
  unfold trim trimEnd
  rw [trimStart_of_head shown, ne_eq, List.reverse_eq_nil_iff, List.dropWhile_eq_nil_iff]
  intro all
  have space := all byte (by simp)
  rw [shown] at space
  cases space

theorem lines_line (unbroken : ∀ byte ∈ line, byte ≠ 10) (rest : Text) :
    lines (line ++ 10 :: rest) = line :: lines rest := by
  induction line with
  | nil => simp [lines]
  | cons byte line ih =>
    rw [List.cons_append, lines, if_neg (unbroken byte List.mem_cons_self),
      ih fun other inside => unbroken other (List.mem_cons_of_mem _ inside)]

theorem lines_last (filled : line ≠ []) (unbroken : ∀ byte ∈ line, byte ≠ 10) : lines line = [line] := by
  induction line with
  | nil => exact absurd rfl filled
  | cons byte line ih =>
    rw [lines, if_neg (unbroken byte List.mem_cons_self)]
    cases line with
    | nil => rfl
    | cons next rest =>
      rw [ih (List.cons_ne_nil _ _) fun other inside => unbroken other (List.mem_cons_of_mem _ inside)]

theorem mem_of_mem_trim {text : Text} (inside : byte ∈ trim text) : byte ∈ text := by
  unfold trim trimEnd trimStart at inside
  rw [List.mem_reverse] at inside
  have kept := List.mem_reverse.mp ((List.dropWhile_sublist _).subset inside)
  exact (List.dropWhile_sublist _).subset kept

end KayaDB.Ascii
