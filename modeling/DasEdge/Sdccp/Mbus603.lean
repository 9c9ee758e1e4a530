import DasEdge.Library.ChunkReads
import DasEdge.Sdccp.Dlt645
import Mathlib.Data.Nat.Digits.Defs

/-!
# The heat meter

The long frame of `mbus_603.c`. Its checksum is taken over as many bytes as the first length byte
says, the other marks are looked for by the length of the chunk, and the records of the meter are
read at offsets that the code counts on.
-/

namespace DasEdge.Sdccp

open DasEdge.Library

/-- `MBUS603_PRE` and `MBUS603_MID` -/
def mbus603Pre : UInt8 := 0x68
/-- `MBUS603_EOM` -/
def mbus603Eom : UInt8 := 0x16

/-- `S_Mbus603_Result_t` -/
structure Mbus603Result where
  state : UInt8
  ver : UInt8
  sumE1 : UInt32
  e3 : UInt32
  e8 : UInt32
  e9 : UInt32
  v1 : UInt32
  timeSum : UInt32
  t1 : UInt32
  t2 : UInt32
  dt : UInt32
  e1E3 : UInt32
  maxMonthPower : UInt32
  fRate : UInt32

/-- The number that bytes make, the lowest first. -/
def littleEndian (bytes : List UInt8) : ℕ := Nat.ofDigits 256 (bytes.map UInt8.toNat)

/-- One record of `Mbus603_ParsePack`: its bytes are printed, and those behind its header are copied
to a number. -/
def mbus603Record (pData : List UInt8) (offset header value : ℕ) : Option UInt32 :=
  (readSlice pData offset (header + value)).map fun record =>
    UInt32.ofNat (littleEndian (record.1.drop header))

/-- `Mbus603_ParsePack`: the result that is queued. -/
def mbus603ParsePack (ver state : UInt8) (pData : List UInt8) : Option Mbus603Result := do
  let sumE1 ← mbus603Record pData 0 3 4
  let e3 ← mbus603Record pData 7 5 4
  let e8 ← mbus603Record pData 16 3 4
  let e9 ← mbus603Record pData 23 3 4
  let v1 ← mbus603Record pData 30 2 4
  -- the pulse inputs A and B are left out
  let timeSum ← mbus603Record pData (36 + 7 + 8) 2 4
  -- and so is the time of errors
  let t1 ← mbus603Record pData (57 + 6) 2 2
  let t2 ← mbus603Record pData 67 2 2
  let dt ← mbus603Record pData 71 2 2
  let e1E3 ← mbus603Record pData 75 2 4
  let maxMonthPower ← mbus603Record pData 81 2 4
  let fRate ← mbus603Record pData 87 2 4
  return ⟨state, ver, sumE1, e3, e8, e9, v1, timeSum, t1, t2, dt, e1E3, maxMonthPower, fRate⟩

/-- `Mbus603_PutBytes`: the result that a chunk queues. -/
def mbus603PutBytes (pBytes : List UInt8) : Option (Option Mbus603Result) := do
  let pre ← pBytes[0]?
  if pre ≠ mbus603Pre then return none
  else
    let mid ← pBytes[3]?
    if mid ≠ mbus603Pre then return none
    else
      let eom ← pBytes[pBytes.length - 1]?
      if eom ≠ mbus603Eom then return none
      else
        let btLen ← pBytes[1]?
        let covered ← readSlice pBytes 4 btLen.toNat
        let sum ← pBytes[pBytes.length - 2]?
        if checkSum covered.1 ≠ sum then return none
        else
          let ver ← pBytes[13]?
          let state ← pBytes[16]?
          let result ← mbus603ParsePack ver state (pBytes.drop 19)
          return some result

/-- The long frame of some data. -/
def mbus603Frame (data : List UInt8) : List UInt8 :=
  [mbus603Pre, UInt8.ofNat data.length, UInt8.ofNat data.length, mbus603Pre] ++ data ++
    [checkSum data, mbus603Eom]

/-- A chunk that is a frame: two equal length bytes that tell its size, the marks and the checksum. -/
def IsMbus603Frame (bytes : List UInt8) : Prop := ∃ data : List UInt8, data.length < 256 ∧
    bytes = mbus603Frame data

/-- A chunk is read within its bounds, and queues a result only as a frame. -/
def Mbus603Read (pBytes : List UInt8) : Prop :=
  ∃ queued, mbus603PutBytes pBytes = some queued ∧ (queued.isSome → IsMbus603Frame pBytes)

/-- The records of the meter: the lengths of their headers and of their values. -/
def mbus603Layout : List (ℕ × ℕ) :=
  [(3, 4), (5, 4), (3, 4), (3, 4), (2, 4), (3, 4), (4, 4), (2, 4), (2, 4), (2, 2), (2, 2), (2, 2),
    (2, 4), (2, 4), (2, 4)]

/-- Records in the layout of the meter. -/
def HasMbus603Layout (records : List (List UInt8)) : Prop :=
  records.map List.length = mbus603Layout.map fun record => record.1 + record.2

/-- The value of a record. -/
def mbus603Value (records : List (List UInt8)) (k : ℕ) : ℕ :=
  littleEndian ((records.getD k []).drop (mbus603Layout.getD k (0, 0)).1)

/-- Each field of a result is the value of its own record. -/
structure Mbus603Fields (records : List (List UInt8)) (result : Mbus603Result) : Prop where
  sumE1 : result.sumE1.toNat = mbus603Value records 0
  e3 : result.e3.toNat = mbus603Value records 1
  e8 : result.e8.toNat = mbus603Value records 2
  e9 : result.e9.toNat = mbus603Value records 3
  v1 : result.v1.toNat = mbus603Value records 4
  timeSum : result.timeSum.toNat = mbus603Value records 7
  t1 : result.t1.toNat = mbus603Value records 9
  t2 : result.t2.toNat = mbus603Value records 10
  dt : result.dt.toNat = mbus603Value records 11
  e1E3 : result.e1E3.toNat = mbus603Value records 12
  maxMonthPower : result.maxMonthPower.toNat = mbus603Value records 13
  fRate : result.fRate.toNat = mbus603Value records 14

/-- The marks of a long frame, the last of them by the length of the chunk. -/
def Mbus603Marked (pBytes : List UInt8) : Prop :=
  pBytes.getD 0 0 = mbus603Pre ∧ pBytes.getD 3 0 = mbus603Pre ∧
    pBytes.getD (pBytes.length - 1) 0 = mbus603Eom

/-- The checksum of the code, taken over as many bytes as the first length byte says. -/
def Mbus603Checked (pBytes : List UInt8) : Prop :=
  checkSum ((pBytes.drop 4).take (pBytes.getD 1 0).toNat) = pBytes.getD (pBytes.length - 2) 0

/-- A chunk is not empty, and not shorter than its marks. With right marks it has the bytes that its
first length byte tells, and with a right checksum the two length bytes are equal, tell its size,
and leave room for the records. -/
def Mbus603Whole (pBytes : List UInt8) : Prop :=
  pBytes ≠ [] ∧ (pBytes.getD 0 0 = mbus603Pre → 4 ≤ pBytes.length) ∧
    (Mbus603Marked pBytes → 4 + (pBytes.getD 1 0).toNat ≤ pBytes.length ∧
      (Mbus603Checked pBytes →
        112 ≤ pBytes.length ∧ pBytes.getD 2 0 = pBytes.getD 1 0 ∧
        pBytes.length = (pBytes.getD 1 0).toNat + 6))

instance (pBytes : List UInt8) : Decidable (Mbus603Marked pBytes) :=
  inferInstanceAs (Decidable (_ ∧ _ ∧ _))

instance (pBytes : List UInt8) : Decidable (Mbus603Checked pBytes) :=
  inferInstanceAs (Decidable (_ = _))

instance (pBytes : List UInt8) : Decidable (Mbus603Whole pBytes) :=
  inferInstanceAs (Decidable (_ ∧ (_ → _) ∧ (_ → _ ∧ (_ → _))))

/-- A record that lies in the data is read. -/
theorem mbus603Record_eq {pData : List UInt8} {offset header value : ℕ}
    (h : offset + (header + value) ≤ pData.length) :
    mbus603Record pData offset header value =
      some (UInt32.ofNat (littleEndian (((pData.drop offset).take (header + value)).drop header))) := by
  obtain ⟨record, hread, hbytes⟩ := readSlice_of_le h
  rw [mbus603Record, hread, Option.map_some, hbytes]

/-- A record that is read lies in the data. -/
theorem le_of_mbus603Record {pData : List UInt8} {offset header value : ℕ} {n : UInt32}
    (h : mbus603Record pData offset header value = some n) :
    offset + (header + value) ≤ pData.length := by
  obtain ⟨record, hread, -⟩ := Option.map_eq_some_iff.mp h
  exact (readSlice_eq_some_iff.mp hread).1

/-- The records are read where the data reaches behind the last of them. -/
theorem mbus603ParsePack_isSome_iff (ver state : UInt8) (pData : List UInt8) :
    (∃ result, mbus603ParsePack ver state pData = some result) ↔ 93 ≤ pData.length := by
  constructor
  · rintro ⟨result, hresult⟩
    by_contra hshort
    have hlast : mbus603Record pData 87 2 4 = none :=
      Option.eq_none_iff_forall_ne_some.mpr fun n hn => hshort (le_of_mbus603Record hn)
    simp only [mbus603ParsePack, hlast, Option.bind_eq_bind, Option.bind_none,
      Option.bind_fun_none] at hresult
    exact absurd hresult.symm (Option.some_ne_none result)
  · intro h
    simp (disch := omega) only [mbus603ParsePack, mbus603Record_eq, Option.bind_eq_bind,
      Option.bind_some]
    exact ⟨_, rfl⟩

/-- A chunk without the first mark is turned down. -/
theorem mbus603PutBytes_of_first_ne {first : UInt8} (h : first ≠ mbus603Pre) (rest : List UInt8) :
    mbus603PutBytes (first :: rest) = some none := by
  simp only [mbus603PutBytes, List.getElem?_cons_zero, Option.bind_eq_bind, Option.bind_some]
  rw [if_pos h]
  rfl

/-- A chunk that ends behind the first mark is read behind its end. -/
theorem mbus603PutBytes_short {pBytes : List UInt8} (hfirst : pBytes.getD 0 0 = mbus603Pre)
    (h : pBytes.length < 4) :
    mbus603PutBytes pBytes = none := by
  obtain _ | ⟨first, rest⟩ := pBytes
  · rfl
  · obtain rfl : first = mbus603Pre := hfirst
    simp only [mbus603PutBytes, List.getElem?_cons_zero, Option.bind_eq_bind, Option.bind_some]
    rw [if_neg (not_not.mpr rfl), List.getElem?_eq_none (Nat.le_of_lt_succ h)]
    rfl

/-- What the code does with four bytes or more, of which the first is the mark. -/
theorem mbus603PutBytes_long {pBytes : List UInt8} (hfirst : pBytes.getD 0 0 = mbus603Pre)
    (h : 4 ≤ pBytes.length) :
    mbus603PutBytes pBytes =
      if ¬ Mbus603Marked pBytes then some none
      else (readSlice pBytes 4 (pBytes.getD 1 0).toNat).bind fun _ =>
        if ¬ Mbus603Checked pBytes then some none
        else pBytes[13]?.bind fun ver => pBytes[16]?.bind fun state =>
          (mbus603ParsePack ver state (pBytes.drop 19)).map some := by
  have hread {pos : ℕ} (hpos : pos < pBytes.length) : pBytes[pos]? = some (pBytes.getD pos 0) :=
    getElem?_eq_some_getD hpos 0
  simp only [mbus603PutBytes, hread (show 0 < pBytes.length by omega),
    hread (show 3 < pBytes.length by omega),
    hread (show 1 < pBytes.length by omega), hread (show pBytes.length - 1 < pBytes.length by omega),
    hread (show pBytes.length - 2 < pBytes.length by omega), Option.bind_eq_bind, Option.bind_some]
  rw [if_neg (not_not.mpr hfirst)]
  by_cases hmid : pBytes.getD 3 0 = mbus603Pre
  · rw [if_neg (not_not.mpr hmid)]
    by_cases heom : pBytes.getD (pBytes.length - 1) 0 = mbus603Eom
    · rw [if_neg (not_not.mpr heom), if_neg (not_not.mpr ⟨hfirst, hmid, heom⟩)]
      refine Option.bind_congr fun covered hcovered => ?_
      rw [(readSlice_eq_some_iff.mp hcovered).2]
      simp only [Option.map_eq_bind, Function.comp_def]
      rfl
    · rw [if_pos heom, if_pos fun hmarked => heom hmarked.2.2]
      rfl
  · rw [if_pos hmid, if_pos fun hmarked => hmid hmarked.2.1]
    rfl

/-- A frame has the marks, the checksum and two equal length bytes that tell its size. -/
theorem mbus603Frame_checks {data : List UInt8} (h : data.length < 256) :
    Mbus603Marked (mbus603Frame data) ∧ Mbus603Checked (mbus603Frame data) ∧
      (mbus603Frame data).getD 2 0 = (mbus603Frame data).getD 1 0 ∧
      (mbus603Frame data).length = data.length + 6 ∧
        ((mbus603Frame data).getD 1 0).toNat = data.length := by
  have hbtLen : ((mbus603Frame data).getD 1 0).toNat = data.length := UInt8.toNat_ofNat_of_lt' h
  have hlength : (mbus603Frame data).length = data.length + 6 := by simp [mbus603Frame]
  have hlast :=
    getElem?_last_two ([mbus603Pre, UInt8.ofNat data.length, UInt8.ofNat data.length,
    mbus603Pre] ++ data)
    (checkSum data) mbus603Eom
  refine ⟨⟨rfl, rfl, ?_⟩, ?_, rfl, hlength, hbtLen⟩
  · rw [List.getD_eq_getElem?_getD]
    exact congrArg (Option.getD · 0) hlast.2
  · rw [Mbus603Checked, hbtLen, List.getD_eq_getElem?_getD]
    refine Eq.trans ?_ (congrArg (Option.getD · 0) hlast.1).symm
    exact congrArg checkSum (List.take_left' rfl)

/-- Marks, a checksum and length bytes that are right make a frame. -/
theorem isMbus603Frame_of_checks {pBytes : List UInt8} (hmarked : Mbus603Marked pBytes)
    (hchecked : Mbus603Checked pBytes)
    (htwo : pBytes.getD 2 0 = pBytes.getD 1 0)
    (hlength : pBytes.length = (pBytes.getD 1 0).toNat + 6) : IsMbus603Frame pBytes := by
  obtain ⟨body, sum, eom, rfl, hbodyLength⟩ := exists_last_two (show 2 ≤ pBytes.length by omega)
  match body, (show 4 ≤ body.length by omega) with
  | b0 :: b1 :: b2 :: b3 :: data, _ =>
    have hlast := getElem?_last_two (b0 :: b1 :: b2 :: b3 :: data) sum eom
    obtain ⟨hpre, hmid, heom⟩ := hmarked
    obtain rfl : b0 = mbus603Pre := hpre
    obtain rfl : b3 = mbus603Pre := hmid
    obtain rfl : b1 = b2 := htwo.symm
    replace hlength : data.length = b1.toNat := by simpa using hlength
    have heom' : eom = mbus603Eom := by
      rw [List.getD_eq_getElem?_getD, hlast.2] at heom
      exact heom
    have hsum : checkSum data = sum := by
      rw [Mbus603Checked, List.getD_eq_getElem?_getD (i := _ - 2), hlast.1] at hchecked
      refine Eq.trans (congrArg checkSum ?_) hchecked
      exact (List.take_left' hlength).symm
    refine ⟨data, hlength ▸ b1.toNat_lt, ?_⟩
    rw [heom', ← hsum, mbus603Frame, hlength, UInt8.ofNat_toNat]
    rfl

/-- Behind right marks and a right checksum the records decide. -/
theorem mbus603PutBytes_checked {pBytes : List UInt8} (hmarked : Mbus603Marked pBytes)
    (hchecked : Mbus603Checked pBytes)
    (hlong : 4 + (pBytes.getD 1 0).toNat ≤ pBytes.length) :
    mbus603PutBytes pBytes =
      pBytes[13]?.bind fun ver => pBytes[16]?.bind fun state =>
      (mbus603ParsePack ver state (pBytes.drop 19)).map some := by
  obtain ⟨covered, hread, -⟩ := readSlice_of_le hlong
  rw [mbus603PutBytes_long hmarked.1 (by omega), if_neg (not_not.mpr hmarked), hread, Option.bind_some,
    if_neg (not_not.mpr hchecked)]

/-- Behind right marks and a right checksum a chunk is read as a frame exactly when its length bytes
are right and leave room for the records. -/
theorem mbus603Read_iff_of_checked {pBytes : List UInt8} (hmarked : Mbus603Marked pBytes)
    (hchecked : Mbus603Checked pBytes)
    (hlong : 4 + (pBytes.getD 1 0).toNat ≤ pBytes.length) :
    Mbus603Read pBytes ↔
      112 ≤ pBytes.length ∧ pBytes.getD 2 0 = pBytes.getD 1 0 ∧
      pBytes.length = (pBytes.getD 1 0).toNat + 6 := by
  rw [Mbus603Read, mbus603PutBytes_checked hmarked hchecked hlong]
  constructor
  · rintro ⟨queued, hqueued, hframe⟩
    obtain ⟨ver, -, hver⟩ := Option.bind_eq_some_iff.mp hqueued
    obtain ⟨state, -, hstate⟩ := Option.bind_eq_some_iff.mp hver
    obtain ⟨result, hresult, rfl⟩ := Option.map_eq_some_iff.mp hstate
    have hroom := (mbus603ParsePack_isSome_iff ver state _).mp ⟨result, hresult⟩
    rw [List.length_drop] at hroom
    obtain ⟨data, hlt, rfl⟩ := hframe rfl
    obtain ⟨-, -, htwo, hlength, hbtLen⟩ := mbus603Frame_checks hlt
    exact ⟨by omega, htwo, by rw [hlength, hbtLen]⟩
  · rintro ⟨hroom, htwo, hlength⟩
    obtain ⟨ver, hver⟩ := exists_getElem? (show 13 < pBytes.length by omega)
    obtain ⟨state, hstate⟩ := exists_getElem? (show 16 < pBytes.length by omega)
    obtain ⟨result, hresult⟩ := (mbus603ParsePack_isSome_iff ver state (pBytes.drop 19)).mpr (by
      rw [List.length_drop]
      omega)
    refine ⟨some result, ?_, fun _ => isMbus603Frame_of_checks hmarked hchecked htwo hlength⟩
    rw [hver, Option.bind_some, hstate, Option.bind_some, hresult, Option.map_some]

/-- Chunks are read within their bounds and queue results as frames exactly when their checks find
them whole. -/
theorem mbus603Read_iff (pBytes : List UInt8) : Mbus603Read pBytes ↔ Mbus603Whole pBytes := by
  by_cases hempty : pBytes = []
  · subst hempty
    exact iff_of_false (fun ⟨queued, hqueued, _⟩ =>
      absurd hqueued.symm (Option.some_ne_none queued)) fun h => h.1 rfl
  rw [Mbus603Whole, and_iff_right hempty]
  by_cases hfirst : pBytes.getD 0 0 = mbus603Pre
  · rw [forall_prop_of_true hfirst]
    by_cases hshort : pBytes.length < 4
    · refine iff_of_false ?_ fun h => absurd h.1 (Nat.not_le_of_lt hshort)
      rintro ⟨queued, hqueued, -⟩
      rw [mbus603PutBytes_short hfirst hshort] at hqueued
      exact absurd hqueued.symm (Option.some_ne_none queued)
    have hlong := mbus603PutBytes_long hfirst (Nat.le_of_not_lt hshort)
    rw [and_iff_right (Nat.le_of_not_lt hshort)]
    by_cases hmarked : Mbus603Marked pBytes
    · rw [if_neg (not_not.mpr hmarked)] at hlong
      rw [forall_prop_of_true hmarked]
      by_cases hcovered : 4 + (pBytes.getD 1 0).toNat ≤ pBytes.length
      · rw [and_iff_right hcovered]
        by_cases hchecked : Mbus603Checked pBytes
        · rw [forall_prop_of_true hchecked]
          exact mbus603Read_iff_of_checked hmarked hchecked hcovered
        · obtain ⟨covered, hread, -⟩ := readSlice_of_le hcovered
          rw [hread, Option.bind_some, if_pos hchecked] at hlong
          exact iff_of_true ⟨none, hlong, Bool.noConfusion⟩ fun h => absurd h hchecked
      · refine iff_of_false ?_ fun h => hcovered h.1
        rintro ⟨queued, hqueued, -⟩
        obtain ⟨covered, hread, -⟩ := Option.bind_eq_some_iff.mp (hlong.symm.trans hqueued)
        exact hcovered (readSlice_eq_some_iff.mp hread).1
    · rw [if_pos hmarked] at hlong
      exact iff_of_true ⟨none, hlong, Bool.noConfusion⟩ fun h => absurd h hmarked
  · refine iff_of_true ?_ ⟨fun h => absurd h hfirst, fun h => absurd h.1 hfirst⟩
    obtain ⟨first, rest, rfl⟩ := List.exists_cons_of_ne_nil hempty
    exact ⟨none, mbus603PutBytes_of_first_ne hfirst rest, Bool.noConfusion⟩

/-- A number of four bytes or less is copied whole. -/
theorem littleEndian_lt {bytes : List UInt8} (h : bytes.length ≤ 4) : littleEndian bytes < 2 ^ 32 := by
  have hlt : littleEndian bytes < 256 ^ (bytes.map UInt8.toNat).length :=
    Nat.ofDigits_lt_base_pow_length (by decide) fun x hx => by
      obtain ⟨b, -, rfl⟩ := List.mem_map.mp hx
      exact b.toNat_lt
  rw [List.length_map] at hlt
  exact hlt.trans_le (Nat.pow_le_pow_right (by decide) h)

/-- Where records in the layout lie one behind another, each is read at its own place. -/
theorem mbus603Record_layout {records : List (List UInt8)} (h : HasMbus603Layout records)
    (tail : List UInt8)
    (k offset : ℕ) {header value : ℕ} (hk : mbus603Layout[k]? = some (header, value))
    (hvalue : value ≤ 4)
    (hoffset : ((mbus603Layout.map fun record => record.1 + record.2).take k).sum = offset) :
    ∃ n, mbus603Record (records.flatten ++ tail) offset header value = some n ∧
      n.toNat = mbus603Value records k := by
  have hlength := congrArg (·[k]?) h
  simp only [List.getElem?_map, hk, Option.map_some] at hlength
  obtain ⟨record, hrecord, hlen⟩ := Option.map_eq_some_iff.mp hlength
  have hpart : records[k]? = some (⟨record, hlen⟩ : { part : List UInt8 // part.length =
    header + value }).1 := hrecord
  have hread := readSlice_flatten records tail hpart
  rw [show records.map List.length = _ from h, hoffset] at hread
  refine ⟨_, by rw [mbus603Record, hread, Option.map_some], ?_⟩
  have hlt : littleEndian (record.drop header) < 2 ^ 32 :=
    littleEndian_lt (by rw [List.length_drop, hlen]; omega)
  rw [UInt32.toNat_ofNat_of_lt' hlt]
  simp only [mbus603Value, List.getD_eq_getElem?_getD, hrecord, hk, Option.getD_some]

/-- Where records in the layout lie one behind another, each field is the value of its own. -/
theorem mbus603ParsePack_layout {records : List (List UInt8)} (h : HasMbus603Layout records)
    (ver state : UInt8)
    (tail : List UInt8) :
    ∃ result, mbus603ParsePack ver state (records.flatten ++ tail) = some result ∧
      Mbus603Fields records result := by
  obtain ⟨sumE1, hsumE1, vsumE1⟩ := mbus603Record_layout h tail 0 0 rfl (by decide) rfl
  obtain ⟨e3, he3, ve3⟩ := mbus603Record_layout h tail 1 7 rfl (by decide) rfl
  obtain ⟨e8, he8, ve8⟩ := mbus603Record_layout h tail 2 16 rfl (by decide) rfl
  obtain ⟨e9, he9, ve9⟩ := mbus603Record_layout h tail 3 23 rfl (by decide) rfl
  obtain ⟨v1, hv1, vv1⟩ := mbus603Record_layout h tail 4 30 rfl (by decide) rfl
  obtain ⟨timeSum, htimeSum, vtimeSum⟩ := mbus603Record_layout h tail 7 (36 + 7 + 8) rfl (by decide) rfl
  obtain ⟨t1, ht1, vt1⟩ := mbus603Record_layout h tail 9 (57 + 6) rfl (by decide) rfl
  obtain ⟨t2, ht2, vt2⟩ := mbus603Record_layout h tail 10 67 rfl (by decide) rfl
  obtain ⟨dt, hdt, vdt⟩ := mbus603Record_layout h tail 11 71 rfl (by decide) rfl
  obtain ⟨e1E3, he1E3, ve1E3⟩ := mbus603Record_layout h tail 12 75 rfl (by decide) rfl
  obtain ⟨maxMonthPower, hmax, vmax⟩ := mbus603Record_layout h tail 13 81 rfl (by decide) rfl
  obtain ⟨fRate, hfRate, vfRate⟩ := mbus603Record_layout h tail 14 87 rfl (by decide) rfl
  refine ⟨⟨state, ver, sumE1, e3, e8, e9, v1, timeSum, t1, t2, dt, e1E3, maxMonthPower, fRate⟩, ?_,
    ⟨vsumE1, ve3, ve8, ve9, vv1, vtimeSum, vt1, vt2, vdt, ve1E3, vmax, vfRate⟩⟩
  simp only [mbus603ParsePack, hsumE1, he3, he8, he9, hv1, htimeSum, ht1, ht2, hdt, he1E3, hmax,
    hfRate, Option.bind_eq_bind,
    Option.bind_some]
  rfl

/-- A frame with records in the layout of the meter behind its fifteen bytes of address and head
queues their values. -/
theorem mbus603PutBytes_layout {head records tail} (hhead : head.length = 15)
    (hlayout : HasMbus603Layout records)
    (hlt : (head ++ (records.flatten ++ tail)).length < 256) :
    ∃ result, mbus603PutBytes (mbus603Frame (head ++ (records.flatten ++ tail))) = some (some result) ∧
      Mbus603Fields records result := by
  obtain ⟨hmarked, hchecked, -, hlength, hbtLen⟩ := mbus603Frame_checks hlt
  have hlong : 19 ≤ (mbus603Frame (head ++ (records.flatten ++ tail))).length := by
    rw [hlength, List.length_append, hhead]
    omega
  obtain ⟨ver, hver⟩ := exists_getElem? (Nat.lt_of_lt_of_le (show 13 < 19 by decide) hlong)
  obtain ⟨state, hstate⟩ := exists_getElem? (Nat.lt_of_lt_of_le (show 16 < 19 by decide) hlong)
  have hdrop : (mbus603Frame (head ++ (records.flatten ++ tail))).drop 19 =
      records.flatten ++ (tail ++ [checkSum (head ++ (records.flatten ++ tail)), mbus603Eom]) := by
    simp only [mbus603Frame, List.append_assoc]
    rw [← List.append_assoc _ head, List.drop_left' (by rw [List.length_append, hhead]; rfl)]
  obtain ⟨result, hresult, hfields⟩ := mbus603ParsePack_layout hlayout ver state
    (tail ++ [checkSum (head ++ (records.flatten ++ tail)), mbus603Eom])
  refine ⟨result, ?_, hfields⟩
  rw [mbus603PutBytes_checked hmarked hchecked (by rw [hbtLen, hlength]; omega), hver,
    Option.bind_some, hstate, Option.bind_some,
    hdrop, hresult, Option.map_some]

/-- Chunks are read within their bounds and queue results as frames exactly when their checks find
them whole, and of records in the layout of the meter each field is the value of its own. -/
theorem mbus603PutBytes_read_iff (pBytes : List UInt8) :
    (Mbus603Read pBytes ↔ Mbus603Whole pBytes) ∧
      ∀ (head : List UInt8) (records : List (List UInt8)) (tail : List UInt8), head.length = 15 →
        HasMbus603Layout records →
        (head ++ (records.flatten ++ tail)).length < 256 →
          ∃ result, mbus603PutBytes (mbus603Frame (head ++ (records.flatten ++ tail))) =
            some (some result) ∧
            Mbus603Fields records result :=
  ⟨mbus603Read_iff pBytes, fun _ _ _ => mbus603PutBytes_layout⟩

/-- A frame whose second length byte is not its first. -/
def unequalLengthFrame : List UInt8 :=
  [mbus603Pre, 106, 0, mbus603Pre] ++ List.replicate 107 0 ++ [mbus603Eom]

/-- It queues a result. -/
theorem not_mbus603Read_unequalLength : ¬ ∀ pBytes, Mbus603Read pBytes := by
  intro h
  have hread := (mbus603Read_iff_of_checked (by decide) (by decide +kernel) (by decide)).mp
    (h unequalLengthFrame)
  revert hread
  decide

end DasEdge.Sdccp
