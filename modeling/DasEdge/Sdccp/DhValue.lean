import DasEdge.Library.CJsonItem
import Mathlib.Algebra.Order.Ring.Nat

/-!
# Values of DH responses

The lookup of a value among the records of a response in `sdccp_dh.c`. One record alone is taken by
its type, and several by their identity and their type, so that a record that comes alone may belong
to another sensor.
-/

namespace DasEdge.Sdccp

open DasEdge.Library

/-- `isnan` of a double precision pattern. -/
def IsNanDouble (x : UInt64) : Prop := x.toNat / 2 ^ 52 % 2 ^ 11 = 2047 ∧ x.toNat % 2 ^ 52 ≠ 0

instance (x : UInt64) : Decidable (IsNanDouble x) := inferInstanceAs (Decidable (_ ∧ _))

/-- `0.0/0.0` -/
def dhNan : UInt64 := 0x7ff8000000000000

/-- It is no number. -/
theorem isNanDouble_dhNan : IsNanDouble dhNan := by decide

/-- The children of an item, which `cJSON_GetArraySize` counts. -/
def arrayItems : CJsonItem → List CJsonItem
  | .array items => items
  | .object items => items.map Prod.snd
  | _ => []

/-- A number that was asked for, or any number for the wildcard. -/
def dhMatches (wanted found : Int32) : Bool := wanted == -1 || wanted == found

/-- `dh_get_rsp_value`. Without `recs` a null pointer is read. -/
def dhGetRspValue (root : Option CJsonItem) (sid itype : Int32) (key : String) : Option UInt64 :=
  match root with
  | none => some dhNan
  | some root => (root.getObjectItem "recs").map fun recs =>
    match arrayItems recs with
    | [] => dhNan
    | [item] => if dhMatches itype (item.getInt "Type" (-1)) then item.getDouble key dhNan else dhNan
    | items =>
      ((items.find? fun item => dhMatches sid (item.getInt "SID" (-1)) && dhMatches itype
        (item.getInt "Type" (-1))).map
        fun item => item.getDouble key dhNan).getD dhNan

/-- The records of a response. -/
def dhRecords (root : CJsonItem) : List CJsonItem :=
  ((root.getObjectItem "recs").map arrayItems).getD []

/-- A record of a sensor. -/
def OfSensor (item : CJsonItem) (sid itype : Int32) : Prop :=
  item.getInt "SID" (-1) = sid ∧ item.getInt "Type" (-1) = itype

/-- A value of a response is that of a record of the sensor, which holds the key. -/
def DhSound (root : CJsonItem) (sid itype : Int32) (key : String) : Prop :=
  ∀ v, dhGetRspValue (some root) sid itype key = some v → ¬ IsNanDouble v →
    ∃ item ∈ dhRecords root, OfSensor item sid itype ∧ ∃ x, item.getObjectItem key = some x ∧
      v = x.valuedouble

/-- The only record is of the type, belongs to another sensor and holds the key. -/
def OnlyOther (root : CJsonItem) (sid itype : Int32) (key : String) : Prop :=
  ∃ item x, dhRecords root = [item] ∧ item.getInt "Type" (-1) = itype ∧ item.getInt "SID" (-1) ≠ sid ∧
    item.getObjectItem key = some x ∧ ¬ IsNanDouble x.valuedouble

/-- A number other than the wildcard matches itself. -/
theorem dhMatches_iff {wanted : Int32} (h : wanted ≠ -1) (found : Int32) :
    dhMatches wanted found = true ↔ found = wanted := by
  rw [dhMatches, Bool.or_eq_true, beq_iff_eq, beq_iff_eq]
  exact ⟨fun hmatch => (hmatch.resolve_left h).symm, fun hfound => .inr hfound.symm⟩

/-- A value that is a number is that of the key. -/
theorem getDouble_key {item : CJsonItem} {key : String} (h : ¬ IsNanDouble (item.getDouble key dhNan)) :
    ∃ x, item.getObjectItem key = some x ∧ item.getDouble key dhNan = x.valuedouble := by
  rw [CJsonItem.getDouble] at h ⊢
  cases hfound : item.getObjectItem key with
  | none =>
    rw [hfound] at h
    exact absurd isNanDouble_dhNan h
  | some x => exact ⟨x, rfl, rfl⟩

section Lookup
variable {root recs : CJsonItem} (hrecs : root.getObjectItem "recs" = some recs) {sid itype : Int32}
include hrecs

/-- The records of a response with records. -/
theorem dhRecords_eq : dhRecords root = arrayItems recs := by
  rw [dhRecords, hrecs]
  rfl

/-- A record alone is taken by its type. -/
theorem dhGetRspValue_single {item : CJsonItem} (hitem : arrayItems recs = [item])
    (hitype : itype ≠ -1) (key : String) :
    dhGetRspValue (some root) sid itype key =
      some (if item.getInt "Type" (-1) = itype then item.getDouble key dhNan else dhNan) := by
  simp only [dhGetRspValue, hrecs, Option.map_some, hitem, dhMatches_iff hitype]

/-- Of several records the first one of the sensor is taken. -/
theorem dhGetRspValue_several {first second : CJsonItem} {rest : List CJsonItem}
    (hitems : arrayItems recs = first :: second :: rest)
    (hsid : sid ≠ -1) (hitype : itype ≠ -1) {key : String} {v : UInt64}
    (hv : dhGetRspValue (some root) sid itype key = some v)
    (hnan : ¬ IsNanDouble v) :
    ∃ item ∈ arrayItems recs, OfSensor item sid itype ∧ v = item.getDouble key dhNan := by
  simp only [dhGetRspValue, hrecs, Option.map_some, hitems, Option.some.injEq] at hv
  rw [← hitems] at hv
  cases hfind : (arrayItems recs).find? fun item =>
      dhMatches sid (item.getInt "SID" (-1)) && dhMatches itype (item.getInt "Type" (-1)) with
  | none =>
    rw [hfind] at hv
    exact absurd (hv ▸ isNanDouble_dhNan) hnan
  | some item =>
    rw [hfind] at hv
    have hmatch := List.find?_some hfind
    rw [Bool.and_eq_true, dhMatches_iff hsid, dhMatches_iff hitype] at hmatch
    exact ⟨item, List.mem_of_find?_eq_some hfind, hmatch, hv.symm⟩

end Lookup

/-- The number of an item that is found. -/
theorem getDouble_item {item x : CJsonItem} {key : String} (h : item.getObjectItem key = some x) :
    item.getDouble key dhNan = x.valuedouble := by
  rw [CJsonItem.getDouble, h]
  rfl

/-- Values are those of the sensor's records exactly when no record of another sensor with the type
comes alone with the key. -/
theorem dhSound_iff (root : CJsonItem) {sid itype : Int32} (hsid : sid ≠ -1) (hitype : itype ≠ -1)
    (key : String) :
    DhSound root sid itype key ↔ ¬ OnlyOther root sid itype key := by
  constructor
  · rintro hsound ⟨item, x, hitem, htype, hother, hx, hnan⟩
    cases hrecs : root.getObjectItem "recs" with
    | none =>
      rw [dhRecords, hrecs] at hitem
      cases hitem
    | some recs =>
      have hvalue : item.getDouble key dhNan = x.valuedouble := getDouble_item hx
      have hv : dhGetRspValue (some root) sid itype key = _ :=
        dhGetRspValue_single hrecs ((dhRecords_eq hrecs).symm.trans hitem) hitype key
      rw [if_pos htype, hvalue] at hv
      obtain ⟨found, hfound, hsensor, -⟩ := hsound _ hv hnan
      rw [hitem, List.mem_singleton] at hfound
      exact hother (hfound ▸ hsensor.1)
  · intro honly v hv hnan
    cases hrecs : root.getObjectItem "recs" with
    | none =>
      simp only [dhGetRspValue, hrecs, Option.map_none] at hv
      cases hv
    | some recs =>
      rw [dhRecords_eq hrecs]
      match hitems : arrayItems recs with
      | [] =>
        simp only [dhGetRspValue, hrecs, Option.map_some, hitems, Option.some.injEq] at hv
        exact absurd (hv ▸ isNanDouble_dhNan) hnan
      | [item] =>
        rw [dhGetRspValue_single hrecs hitems hitype, Option.some.injEq] at hv
        split at hv
        · next htype =>
          subst hv
          obtain ⟨x, hx, hget⟩ := getDouble_key hnan
          by_cases hother : item.getInt "SID" (-1) = sid
          · exact ⟨item, List.mem_singleton_self item, ⟨hother, htype⟩, x, hx, hget⟩
          · exact absurd ⟨item, x, (dhRecords_eq hrecs).trans hitems, htype, hother, hx,
              hget ▸ hnan⟩ honly
        · exact absurd (hv ▸ isNanDouble_dhNan) hnan
      | first :: second :: rest =>
        obtain ⟨item, hitem, hsensor, hvalue⟩ := dhGetRspValue_several hrecs hitems hsid hitype hv hnan
        obtain ⟨x, hx, hget⟩ := getDouble_key (hvalue ▸ hnan)
        exact ⟨item, hitems ▸ hitem, hsensor, x, hx, hvalue.trans hget⟩

/-- A response with one record, of sensor 7. -/
def dhSingle : CJsonItem :=
  .object [("recs", .array [.object [("SID", .number 7 0), ("Type", .number 2 0),
    ("a", .number 1 0x3ff0000000000000)]])]

/-- For sensor 7 it is sound. -/
theorem dhSound_iff_seven : DhSound dhSingle 7 2 "a" := by
  refine (dhSound_iff dhSingle (by decide) (by decide) "a").mpr ?_
  rintro ⟨item, x, hitem, -, hother, -⟩
  obtain rfl := List.singleton_inj.mp hitem
  exact hother (by decide)

/-- It answers for sensor 5 too. -/
theorem not_dhSound_single : ¬ ∀ root sid itype key, sid ≠ -1 → itype ≠ -1 →
    DhSound root sid itype key := by
  intro h
  obtain ⟨item, hitem, ⟨hother, -⟩, -⟩ :=
    h dhSingle 5 2 "a" (by decide) (by decide) 0x3ff0000000000000 (by rfl) (by decide)
  obtain rfl := List.mem_singleton.mp hitem
  exact absurd hother (by decide)

end DasEdge.Sdccp
