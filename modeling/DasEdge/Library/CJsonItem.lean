import DasEdge.Library.CJson
import Mathlib.Algebra.Order.Ring.Nat
import Mathlib.Data.Int.Notation

/-!
# JSON values with their numbers

An item keeps both numbers that a parser reads from the text of a number or that a program puts into
it: the integer and the double precision number, which is a bit pattern. How a number becomes
another one, and how a text is printed and read, is given.
-/

namespace DasEdge.Library

/-- `cJSON` -/
inductive CJsonItem where
  | null
  | bool (b : Bool)
  | number (valueint : Int32) (valuedouble : UInt64)
  | string (valuestring : String)
  | array (items : List CJsonItem)
  | object (items : List (String × CJsonItem))

/-- The conversions of numbers between C types, and the texts of items. -/
structure CJsonEnv where
  ofInt : ℤ → UInt64
  toInt : UInt64 → Int32
  ofFloat : UInt32 → UInt64
  toFloat : UInt64 → UInt32
  print : CJsonItem → String
  parse : String → Option CJsonItem

namespace CJsonItem

/-- `valueint`, which is 0 for what is no number, and 1 for `true`. -/
def valueint : CJsonItem → Int32
  | .number n _ => n
  | .bool true => 1
  | _ => 0

/-- `valuedouble`, which is 0 for what is no number. -/
def valuedouble : CJsonItem → UInt64
  | .number _ d => d
  | _ => 0

/-- `valuestring`, or null. -/
def valuestring : CJsonItem → Option String
  | .string s => some s
  | _ => none

/-- `cJSON_GetObjectItem` -/
def getObjectItem : CJsonItem → String → Option CJsonItem
  | .object items, key => (items.find? fun item => strcasecmp item.1 key).map Prod.snd
  | _, _ => none

/-- `cJSON_GetInt` -/
def getInt (object : CJsonItem) (key : String) (default : Int32) : Int32 :=
  ((object.getObjectItem key).map valueint).getD default

/-- `cJSON_GetDouble` -/
def getDouble (object : CJsonItem) (key : String) (default : UInt64) : UInt64 :=
  ((object.getObjectItem key).map valuedouble).getD default

/-- `cJSON_GetString` with a null default. -/
def getString (object : CJsonItem) (key : String) : Option String :=
  (object.getObjectItem key).bind valuestring

end CJsonItem

/-- `cJSON_CreateNumber` -/
def CJsonEnv.createNumber (env : CJsonEnv) (num : UInt64) : CJsonItem := .number (env.toInt num) num

/-- `cJSON_CreateNumber` of an integer. -/
def CJsonEnv.createInt (env : CJsonEnv) (num : ℤ) : CJsonItem := env.createNumber (env.ofInt num)

end DasEdge.Library

/-!
# Reading an object back

Keys without capital letters are compared as they are, so that an object with such keys is a table.
Numbers come back when their conversions keep them, as those between C types do: an `int` through a
double, and a single precision number through a double.
-/

namespace DasEdge.Library

/-- A key without capital letters. -/
def LowerKey (key : String) : Prop := key.toList.map Char.toLower = key.toList

instance (key : String) : Decidable (LowerKey key) := decEq _ _

/-- Keys without capital letters are compared as they are. -/
theorem strcasecmp_lower {s t : String} (hs : LowerKey s) (ht : LowerKey t) :
    strcasecmp s t = decide (s = t) := by
  rw [strcasecmp, hs, ht]
  simp only [String.toList_inj]

/-- An object whose keys have no capital letters is a table. -/
theorem getObjectItem_lower {items : List (String × CJsonItem)} {key : String}
    (hitems : ∀ item ∈ items, LowerKey item.1)
    (hkey : LowerKey key) : (CJsonItem.object items).getObjectItem key = items.lookup key := by
  induction items with
  | nil => rfl
  | cons item items ih =>
    obtain ⟨hitem, hitems⟩ := List.forall_mem_cons.mp hitems
    have hrest := ih hitems
    rw [CJsonItem.getObjectItem] at hrest ⊢
    rw [List.find?_cons, strcasecmp_lower hitem hkey, List.lookup_cons]
    by_cases heq : item.1 = key
    · subst heq
      simp
    · have hne : (key == item.1) = false := by simpa using Ne.symm heq
      simp [heq, hne, hrest]

/-- Another key is passed over. -/
theorem lookup_cons_ne {α : Type*} {k key : String} {v : α} {rest : List (String × α)} (h : key ≠ k) :
    ((k, v) :: rest).lookup key = rest.lookup key := by
  have hne : (key == k) = false := by simpa using h
  rw [List.lookup_cons, hne]

/-- The keys of an object are those of a list. -/
theorem lowerKey_of_keys {items : List (String × CJsonItem)} (keys : List String)
    (hkeys : items.map Prod.fst = keys)
    (hlower : ∀ key ∈ keys, LowerKey key) : ∀ item ∈ items, LowerKey item.1 :=
  fun _ hitem => hlower _ (hkeys ▸ List.mem_map_of_mem hitem)

section Object

variable {items : List (String × CJsonItem)} (hitems : ∀ item ∈ items, LowerKey item.1)
  {key : String} (hkey : LowerKey key)
  {v : CJsonItem} (hv : items.lookup key = some v)

include hitems hkey hv

/-- An item of an object. -/
theorem getObjectItem_lookup : (CJsonItem.object items).getObjectItem key = some v := by
  rw [getObjectItem_lower hitems hkey, hv]

/-- An integer of an object. -/
theorem getInt_lookup (default : Int32) : (CJsonItem.object items).getInt key default = v.valueint := by
  rw [CJsonItem.getInt, getObjectItem_lookup hitems hkey hv]
  rfl

/-- A number of an object. -/
theorem getDouble_lookup (default : UInt64) :
    (CJsonItem.object items).getDouble key default = v.valuedouble := by
  rw [CJsonItem.getDouble, getObjectItem_lookup hitems hkey hv]
  rfl

/-- A text of an object. -/
theorem getString_lookup : (CJsonItem.object items).getString key = v.valuestring := by
  rw [CJsonItem.getString, getObjectItem_lookup hitems hkey hv]
  rfl

end Object

/-- A single precision pattern that is no number. -/
def IsNan (x : UInt32) : Prop := x.toNat / 2 ^ 23 % 2 ^ 8 = 255 ∧ x.toNat % 2 ^ 23 ≠ 0

/-- Two patterns for one number, or two that are none. -/
def SameFloat (x y : UInt32) : Prop := x = y ∨ (IsNan x ∧ IsNan y)

/-- Conversions that keep each `int` and each single precision number. -/
structure NumbersKept (env : CJsonEnv) : Prop where
  int : ∀ n : Int32, env.toInt (env.ofInt n.toInt) = n
  float : ∀ x : UInt32, SameFloat x (env.toFloat (env.ofFloat x))

/-- The integer of an item made from an `int`. -/
theorem NumbersKept.valueint {env : CJsonEnv} (h : NumbersKept env) (n : Int32) :
    (env.createInt n.toInt).valueint = n := h.int n

/-- The integer of an item made from a number that an `int` can hold. -/
theorem NumbersKept.valueint_nat {env : CJsonEnv} (h : NumbersKept env) {n : ℕ} (hn : n < 2 ^ 31) :
    (env.createInt n).valueint.toUInt32 = n.toUInt32 := by
  have hint : (Int32.ofNat n).toInt = n := Int32.toInt_ofNat_of_lt hn
  have hvalue := h.valueint (Int32.ofNat n)
  rw [hint] at hvalue
  rw [hvalue]
  rfl

end DasEdge.Library
