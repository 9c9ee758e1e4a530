import Mathlib.Data.List.Basic

/-!
# JSON values as a C program reads them

A number keeps the integer that its text was cut down to. Keys are compared without regard to the
case of their letters, and the first item of a key counts. A text holds one character for each of
its bytes.
-/

namespace DasEdge.Library

/-- The value of a JSON text. -/
inductive CJson where
  | null
  | bool (b : Bool)
  | number (valueint : Int32)
  | string (valuestring : String)
  | array (items : List CJson)
  | object (items : List (String × CJson))

/-- The text of bytes. -/
def textOf (bytes : List UInt8) : String := String.ofList (bytes.map fun b => Char.ofNat b.toNat)

/-- The bytes of a text. -/
def bytesOf (text : String) : List UInt8 := text.toList.map fun c => UInt8.ofNat c.toNat

/-- Bytes are read from the text of them. -/
@[simp] theorem bytesOf_textOf (bytes : List UInt8) : bytesOf (textOf bytes) = bytes := by
  have hbyte : ∀ b : UInt8, UInt8.ofNat (Char.ofNat b.toNat).toNat = b := by
    intro b
    have hlt := b.toNat_lt
    have hvalid : b.toNat.isValidChar := Or.inl (by omega)
    rw [Char.ofNat, dif_pos hvalid]
    exact UInt8.ofNat_toNat
  rw [bytesOf, textOf, String.toList_ofList, List.map_map]
  exact (List.map_congr_left fun b _ => hbyte b).trans (List.map_id bytes)

/-- `strcasecmp`, when it returns 0. -/
def strcasecmp (s t : String) : Bool := s.toList.map Char.toLower = t.toList.map Char.toLower

namespace CJson

/-- `valueint`, which is 0 for what is no number, and 1 for `true`. -/
def valueint : CJson → Int32
  | .number n => n
  | .bool true => 1
  | _ => 0

/-- `valuestring`, or null. -/
def valuestring : CJson → Option String
  | .string s => some s
  | _ => none

/-- `cJSON_GetObjectItem`; the items of an array have no key. -/
def getObjectItem : CJson → String → Option CJson
  | .object items, key => (items.find? fun item => strcasecmp item.1 key).map Prod.snd
  | _, _ => none

/-- `cJSON_GetInt` -/
def getInt (object : CJson) (key : String) (default : Int32) : Int32 :=
  ((object.getObjectItem key).map valueint).getD default

/-- `cJSON_GetString` with a null default. -/
def getString (object : CJson) (key : String) : Option String :=
  (object.getObjectItem key).bind valuestring

end CJson

/-- A byte inside the quotes of a printed string. -/
def escapeByte (token : UInt8) : List UInt8 :=
  if token = 92 then [92, 92]
  else if token = 34 then [92, 34]
  else if token = 8 then bytesOf "\\b"
  else if token = 12 then bytesOf "\\f"
  else if token = 10 then bytesOf "\\n"
  else if token = 13 then bytesOf "\\r"
  else if token = 9 then bytesOf "\\t"
  else if token < 32 then
    bytesOf "\\u00" ++ bytesOf (String.ofList [Nat.digitChar (token.toNat / 16),
      Nat.digitChar (token.toNat % 16)])
  else [token]

/-- `print_string_ptr` -/
def printString (str : String) : List UInt8 := [34] ++ (bytesOf str).flatMap escapeByte ++ [34]

namespace CJson

mutual

/-- `cJSON_PrintUnformatted`; a number is printed as the integer that is kept of it. -/
def printUnformatted : CJson → List UInt8
  | null => bytesOf "null"
  | bool true => bytesOf "true"
  | bool false => bytesOf "false"
  | number n => bytesOf (toString n.toInt)
  | string s => printString s
  | array items => [91] ++ printArray items ++ [93]
  | object items => [123] ++ printObject items ++ [125]

/-- The items of `print_array`. -/
def printArray : List CJson → List UInt8
  | [] => []
  | [item] => item.printUnformatted
  | item :: items => item.printUnformatted ++ [44] ++ printArray items

/-- The items of `print_object`. -/
def printObject : List (String × CJson) → List UInt8
  | [] => []
  | [(key, item)] => printString key ++ [58] ++ item.printUnformatted
  | (key, item) :: items =>
    printString key ++ [58] ++ item.printUnformatted ++ [44] ++ printObject items

end

end CJson

end DasEdge.Library
