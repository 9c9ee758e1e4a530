import DasEdge.Library.CJson
import DasEdge.Library.CString
import DasEdge.Library.BoundedReads

/-!
# The JSON parser

`cJSON_Parse` on the memory from its pointer on. Strings are read twice: the first loop counts how
many bytes to allocate, the second one writes them. The parser calls itself for the items of arrays
and objects. What an arithmetic in double precision makes of the text of a number is given, and an
allocation does not fail.
-/

namespace DasEdge.Cjson

open DasEdge.Library

/-- The text of a number, as `parse_number` takes it apart: all digits as one number, and how many of
them are behind the point. -/
structure NumberText where
  negative : Bool
  digits : ℕ
  fraction : ℕ
  negativeExponent : Bool
  exponent : ℕ
deriving DecidableEq, Repr

/-- A loop over digits: the number before it, and how many digits it has passed. -/
def readDigits : ℕ → ℕ → List UInt8 → ReadResult (ℕ × ℕ)
  | _, _, [] => .fault
  | n, count, c :: rest =>
    if isDigitByte c then readDigits (10 * n + (c.toNat - 48)) (count + 1) rest
    else .ok (n, count) (c :: rest)

/-- The sign in `parse_number`. -/
def readSign (sign : UInt8) (num : List UInt8) : ReadResult Bool :=
  .read num fun c rest => if c = sign then .ok true rest else .ok false num

/-- The fractional part in `parse_number`, with a point that a digit has to follow. -/
def readFraction (n : ℕ) (num : List UInt8) : ReadResult (ℕ × ℕ) :=
  .read num fun c rest =>
    if c = 46 then
      .read rest fun d _ => if isDigitByte d then readDigits n 0 rest else .ok (n, 0) num
    else .ok (n, 0) num

/-- The exponent in `parse_number`. -/
def readExponent (num : List UInt8) : ReadResult (Bool × ℕ) :=
  .read num fun c rest =>
    if c = 101 ∨ c = 69 then
      .read rest fun d digits =>
        (readDigits 0 0 (if d = 43 ∨ d = 45 then digits else rest)).bind fun n end_ =>
          .ok (decide (d = 45), n.1) end_
    else .ok (false, 0) num

/-- `parse_number` -/
def parseNumber (num : List UInt8) : ReadResult NumberText :=
  (readSign 45 num).bind fun negative num =>
  (readSign 48 num).bind fun _ num =>
  (ReadResult.read num fun c _ =>
    if 49 ≤ c ∧ c ≤ 57 then readDigits 0 0 num else .ok (0, 0) num).bind fun whole num =>
  (readFraction whole.1 num).bind fun digits num =>
  (readExponent num).bind fun exponent num =>
    .ok ⟨negative, digits.1, digits.2, exponent.1, exponent.2⟩ num

/-- The value of a character of a hexadecimal number. -/
def hexValue (c : UInt8) : Option ℕ :=
  if 48 ≤ c ∧ c ≤ 57 then some (c.toNat - 48)
  else if 65 ≤ c ∧ c ≤ 70 then some (10 + c.toNat - 65)
  else if 97 ≤ c ∧ c ≤ 102 then some (10 + c.toNat - 97)
  else none

/-- `parse_hex4`, with the characters that are still to be read; what is no digit makes it 0. -/
def parseHex4 : ℕ → ℕ → List UInt8 → Option ℕ
  | 0, h, _ => some h
  | _ + 1, _, [] => none
  | n + 1, h, c :: rest =>
    match hexValue c with
    | some digit => parseHex4 n (16 * h + digit) rest
    | none => some 0

/-- How many bytes a character takes. -/
def utf8Length (uc : ℕ) : ℕ :=
  if uc < 0x80 then 1 else if uc < 0x800 then 2 else if uc < 0x10000 then 3 else 4

/-- `firstByteMark` -/
def firstByteMark : List ℕ := [0x00, 0x00, 0xC0, 0xE0, 0xF0, 0xF8, 0xFC]

/-- The bytes of a character, which are written from the last one on. -/
def utf8Write (mark : ℕ) : ℕ → ℕ → List UInt8 → List UInt8
  | 0, uc, out => UInt8.ofNat (uc ||| mark) :: out
  | n + 1, uc, out => utf8Write mark n (uc >>> 6) (UInt8.ofNat ((uc ||| 0x80) &&& 0xBF) :: out)

/-- The bytes that `parse_string` writes for a character. -/
def utf8Bytes (uc : ℕ) : List UInt8 :=
  utf8Write (firstByteMark.getD (utf8Length uc) 0) (utf8Length uc - 1) uc []

/-- The case of `u` in `parse_string`, from the first of its digits on: the bytes that are written,
and the memory behind. The pointer goes on by four characters, whatever they are. -/
def unescapeUnicode (digits : List UInt8) : Option (List UInt8 × List UInt8) :=
  (parseHex4 4 0 digits).bind fun uc =>
  let rest := digits.drop 4
  if (0xDC00 ≤ uc ∧ uc ≤ 0xDFFF) ∨ uc = 0 then some ([], rest)
  else if 0xD800 ≤ uc ∧ uc ≤ 0xDBFF then
    rest[0]?.bind fun c =>
    if c ≠ 92 then some ([], rest)
    else rest[1]?.bind fun d =>
      if d ≠ 117 then some ([], rest)
      else (parseHex4 4 0 (rest.drop 2)).bind fun uc2 =>
        let rest := rest.drop 6
        if uc2 < 0xDC00 ∨ 0xDFFF < uc2 then some ([], rest)
        else some (utf8Bytes (0x10000 + (((uc &&& 0x3FF) <<< 10) ||| (uc2 &&& 0x3FF))), rest)
  else some (utf8Bytes uc, rest)

/-- A character behind a backslash. -/
def unescape : List UInt8 → Option (List UInt8 × List UInt8)
  | [] => none
  | c :: rest =>
    if c = 98 then some ([8], rest)
    else if c = 102 then some ([12], rest)
    else if c = 110 then some ([10], rest)
    else if c = 114 then some ([13], rest)
    else if c = 116 then some ([9], rest)
    else if c = 117 then unescapeUnicode rest
    else some ([c], rest)

/-- The first loop of `parse_string`, which passes over the character behind a backslash without
reading it. -/
def stringLength : List UInt8 → Option ℕ
  | [] => none
  | [c] => if c = 34 ∨ c = 0 then some 0 else none
  | c :: d :: rest =>
    if c = 34 ∨ c = 0 then some 0
    else ((if c = 92 then stringLength rest else stringLength (d :: rest))).map (· + 1)

/-- The second loop of `parse_string`, with the bytes that are written so far. Behind the last of
them there has to be room for a zero. -/
def parseChars (room : ℕ) : ℕ → List UInt8 → List UInt8 → ReadResult (List UInt8)
  | 0, _, _ => .spent
  | fuel + 1, ptr, out =>
    .read ptr fun c rest =>
      if c = 34 ∨ c = 0 then
        if out.length < room then .ok out (if c = 34 then rest else ptr) else .fault
      else
        match if c = 92 then unescape rest else some ([c], rest) with
        | none => .fault
        | some (bytes, rest) =>
          if out.length + bytes.length ≤ room then parseChars room fuel rest (out ++ bytes) else .fault

/-- `parse_string`; the text that is kept ends at the first zero. -/
def parseString (str : List UInt8) : ReadResult String :=
  .read str fun c ptr =>
    if c ≠ 34 then .fail
    else match stringLength ptr with
      | none => .fault
      | some len => (parseChars (len + 1) ptr.length ptr []).bind fun out rest =>
        .ok (textOf (out.takeWhile (· ≠ 0))) rest

/-- `skip` -/
def skip (memory : List UInt8) : List UInt8 := memory.dropWhile fun c => c ≠ 0 ∧ c ≤ 32

/-- `!strncmp(value, word, strlen(word))`, and the memory behind the word. -/
def startsWith : List UInt8 → List UInt8 → Option (Option (List UInt8))
  | [], value => some (some value)
  | _ :: _, [] => none
  | c :: word, d :: value => if d = c then startsWith word value else some none

/-- A word in `parse_value`, or what comes behind its line. -/
def parseWord (word : List UInt8) (item : CJson) (value : List UInt8)
    (next : ReadResult CJson) : ReadResult CJson :=
  match startsWith word value with
  | none => .fault
  | some (some rest) => .ok item rest
  | some none => next

mutual

/-- `parse_value`; the conversion of a number is given. -/
def parseValue (toInt : NumberText → Int32) : ℕ → List UInt8 → ReadResult CJson
  | 0, _ => .spent
  | fuel + 1, value =>
    parseWord (bytesOf "null") .null value <|
    parseWord (bytesOf "false") (.bool false) value <|
    parseWord (bytesOf "true") (.bool true) value <|
    .read value fun c rest =>
      if c = 34 then (parseString value).bind fun s rest => .ok (.string s) rest
      else if c = 45 ∨ isDigitByte c then
        (parseNumber value).bind fun n rest => .ok (.number (toInt n)) rest
      else if c = 91 then
        .read (skip rest) fun d rest' =>
          if d = 93 then .ok (.array []) rest'
          else (parseArrayItems toInt fuel (skip rest)).bind fun items rest => .ok (.array items) rest
      else if c = 123 then
        .read (skip rest) fun d rest' =>
          if d = 125 then .ok (.object []) rest'
          else (parseObjectItems toInt fuel (skip rest)).bind fun items rest =>
            .ok (.object items) rest
      else .fail

/-- The loop of `parse_array`. -/
def parseArrayItems (toInt : NumberText → Int32) : ℕ → List UInt8 → ReadResult (List CJson)
  | 0, _ => .spent
  | fuel + 1, value =>
    (parseValue toInt fuel (skip value)).bind fun child rest =>
    .read (skip rest) fun c rest =>
      if c = 44 then
        (parseArrayItems toInt fuel rest).bind fun items rest => .ok (child :: items) rest
      else if c = 93 then .ok [child] rest
      else .fail

/-- The loop of `parse_object`. -/
def parseObjectItems (toInt : NumberText → Int32) : ℕ → List UInt8 → ReadResult (List (String × CJson))
  | 0, _ => .spent
  | fuel + 1, value =>
    (parseString (skip value)).bind fun string rest =>
    .read (skip rest) fun c rest =>
      if c ≠ 58 then .fail
      else (parseValue toInt fuel (skip rest)).bind fun child rest =>
        .read (skip rest) fun c rest =>
          if c = 44 then
            (parseObjectItems toInt fuel rest).bind fun items rest =>
              .ok ((string, child) :: items) rest
          else if c = 125 then .ok [(string, child)] rest
          else .fail

end

/-- `cJSON_Parse`, with the memory behind the text that it has read. -/
def cJSONParse (toInt : NumberText → Int32) (memory : List UInt8) : ReadResult CJson :=
  parseValue toInt (2 * memory.length + 1) (skip memory)

end DasEdge.Cjson
