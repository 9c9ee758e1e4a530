import DasEdge.Library.BcdText
import DasEdge.Library.DoubleFormat
import DasEdge.VarManage.MeterDelivery
import Mathlib.Tactic.IntervalCases

/-!
# Whether a meter's value arrives

A number goes through three steps: its bytes are put into a buffer by the input type, at most two or
four registers of the buffer are stored, and the refresh decodes them by the same type. The buffer
of a counter is left empty for the floating-point types, two registers hold only half of a `double`,
and numbers from 2^31 on go through a `long`. For all other types the value arrives.
-/

namespace DasEdge.VarManage

open DasEdge.Library

/-- What the conversions between integers, `float` and `double` guarantee. -/
structure DoubleOps.Lawful (ops : DoubleOps) : Prop where
  ofInt_inj : ∀ m n : ℤ, m.natAbs < 2 ^ 53 → n.natAbs < 2 ^ 53 → ops.ofInt m = ops.ofInt n → m = n
  toInt_ofInt : ∀ n : ℤ, -2 ^ 31 ≤ n → n < 2 ^ 31 → ops.toInt .int32 (ops.ofInt n) = n
  ofFloat_zero : ops.ofFloat 0 = ops.ofInt 0
  ofFloat_toFloat : ∀ x, ops.ofFloat (ops.toFloat (ops.ofFloat x)) = ops.ofFloat x

/-- A call of a delivery function with the answer that it is about. -/
inductive MeterCall where
  | dlt645 (meter : List UInt8) (addr : UInt16) (op : UInt32) (val : UInt32)
  | dust (addr : UInt16) (op : UInt8) (result : DustResultData)
  | mbus603 (addr : UInt16) (op : UInt8) (result : Mbus603Result)
  | smf (addr : UInt16) (op : UInt8) (result : InstrumentData)
  | dh (addr : UInt16) (sid type : UInt32) (key : List UInt8) (rsp : List UInt8 → UInt64)

/-- What a call does. -/
def MeterCall.run (env : RefreshEnv) (cfg : ℕ → ErrCfg) (vars : List ExtData) (st : PollState) :
    MeterCall → PollState
  | .dlt645 meter addr op val => refreshExtDataWithDlt645 env vars meter addr op val st
  | .dust addr op result => refreshExtDataWithDust env vars addr op result st
  | .mbus603 addr op result => refreshExtDataWithMbus603 env vars addr op result st
  | .smf addr op result => refreshExtDataWithSmf env vars addr op result st
  | .dh addr sid type key rsp => refreshExtDataWithDh env cfg vars addr sid type key rsp st

/-- The internal address of a call. -/
def MeterCall.addr : MeterCall → UInt16
  | .dlt645 _ addr _ _ | .dust addr _ _ | .mbus603 addr _ _ | .smf addr _ _ | .dh addr _ _ _ _ => addr

/-- The search of a call. -/
def MeterCall.finds : MeterCall → ExtData → Bool
  | .dlt645 meter addr op _ => dlt645Finds meter addr op
  | .dust addr op _ => dustFinds addr op
  | .mbus603 addr op _ => mbus603Finds addr op
  | .smf addr op _ => smfFinds addr op
  | .dh addr sid type key _ => dhFinds addr sid type key

/-- The most registers that a call stores. -/
def MeterCall.limit : MeterCall → ℕ
  | .dlt645 _ _ _ _ => 4
  | .dust _ _ _ | .mbus603 _ _ _ | .smf _ _ _ | .dh _ _ _ _ _ => 2

/-- The number that a call delivers, if the answer has one. -/
def MeterCall.number (ops : DoubleOps) : MeterCall → Option MeterNumber
  | .dlt645 _ _ _ val => some (.ofFloat ops val)
  | .dust _ op result => (selectReading result.readings op).map .counter
  | .mbus603 _ op result => (selectReading result.readings op).map .counter
  | .smf _ op result => (selectReading result.readings op).map (.ofFloat ops)
  | .dh _ _ _ key rsp => if ops.ne (rsp key) (rsp key) then none else some (.ofDouble ops (rsp key))

/-- The number itself, as a `double`. -/
def MeterNumber.source (ops : DoubleOps) : MeterNumber → UInt64
  | .counter n => ops.ofInt n
  | .real _ dbval => dbval

/-- The integers that an integer type holds: from the first number on, and below the second. -/
def intRange : EVarType → ℤ × ℤ
  | .bit => (0, 2)
  | .int8 => (-2 ^ 7, 2 ^ 7)
  | .uint8 => (0, 2 ^ 8)
  | .int16 => (-2 ^ 15, 2 ^ 15)
  | .uint16 => (0, 2 ^ 16)
  | .int32 => (-2 ^ 31, 2 ^ 31)
  | .uint32 => (0, 2 ^ 32)
  | .float | .double | .array | .error => (0, 0)

/-- A type can hold a number. -/
def Representable (ops : DoubleOps) (type : EVarType) (x : UInt64) : Prop :=
  match type with
  | .float => ∃ f, x = ops.ofFloat f
  | .double => True
  | type => ∃ n : ℤ, (intRange type).1 ≤ n ∧ n < (intRange type).2 ∧ x = ops.ofInt n

/-- A variable of one numeric type with the default byte rule, without expression and scaling. -/
structure MeterPlain (data : ExtData) : Prop where
  typed : typedSize data.xIo.btInVarType ≠ 0
  sameType : data.xIo.btOutVarType = data.xIo.btInVarType
  rule : data.xIo.btInVarRuleType = 0
  noExpression : hasExpression data = false
  noScaling : data.eAttr ≠ .ai

/-- The two registers behind those that a call stores hold the low half of a `double`. -/
def HoldsLowHalf (regs : ℕ → UInt8) (usAddress : ℕ) (x : UInt64) : Prop :=
  ∀ k < 4, (regs (2 * usAddress + (7 - k))).toNat = x.toNat / 256 ^ k % 256

/-- What lets a number arrive. A `float` or `double` from 2^31 on must be converted to a `long` with
the same low 32 bits; a counter arrives in a `float` if it is zero; and the registers that two
registers leave of a `double` must hold its low half already, for a counter with a high half of
zero. -/
def NumberArrives (ops : DoubleOps) (limit : ℕ) (regs : ℕ → UInt8) (usAddress : ℕ) :
    EVarType → MeterNumber → Prop
  | .uint32, .real _ dbval =>
    ∀ n : ℤ, 2 ^ 31 ≤ n → n < 2 ^ 32 → dbval = ops.ofInt n → ops.toInt .int32 dbval % 2 ^ 32 = n
  | .float, .counter n => n = 0
  | .double, .counter n => (ops.ofInt n).toNat < 2 ^ 32 ∧ HoldsLowHalf regs usAddress (ops.ofInt n)
  | .double, .real _ dbval => limit = 4 ∨ HoldsLowHalf regs usAddress dbval
  | _, _ => True

/-- The number that the buffer for a type holds. -/
def meterSerial (ops : DoubleOps) (number : MeterNumber) : EVarType → ℕ
  | .bit => if number.intval ops = 0 then 0 else 1
  | .int8 | .uint8 | .int16 | .uint16 | .int32 | .uint32 => (number.intval ops % 2 ^ 32).toNat
  | .float =>
    match number with
    | .counter _ => 0
    | .real fbval _ => fbval.toNat
  | .double =>
    match number with
    | .counter _ => 0
    | .real _ dbval => dbval.toNat
  | .array | .error => 0

/-- A byte of a buffer with a natural number. -/
theorem bigEndianBuf_nat (x : ℕ) {n k : ℕ} (hk : k < n) :
    (bigEndianBuf x n (n - 1 - k)).toNat = x / 256 ^ k % 256 := by
  have hindex : n - 1 - (n - 1 - k) = k := by omega
  have hdigit : (x : ℤ) / 256 ^ k % 256 = ((x / 256 ^ k % 256 : ℕ) : ℤ) := by push_cast; rfl
  rw [bigEndianBuf, if_pos (by omega), hindex, hdigit, Int.toNat_natCast]
  simp

/-- A byte of a buffer with an integer depends on its low 32 bits. -/
theorem bigEndianBuf_int (x : ℤ) {n k : ℕ} (hn : n ≤ 4) (hk : k < n) :
    (bigEndianBuf x n (n - 1 - k)).toNat = (x % 2 ^ 32).toNat / 256 ^ k % 256 := by
  rw [← bigEndianBuf_nat _ hk]
  have hindex : n - 1 - (n - 1 - k) = k := by omega
  rw [bigEndianBuf, bigEndianBuf, if_pos (by omega), if_pos (by omega), hindex]
  congr 3
  have hfour : k < 4 := by omega
  interval_cases k
  · omega
  · omega
  · omega
  · omega

/-- The bytes of the buffer for a type, the highest first. -/
theorem meterBuf_digit (ops : DoubleOps) (number : MeterNumber) (type : EVarType) {k : ℕ}
    (hk : k < typedSize type) :
    (meterBuf ops number type (typedSize type - 1 - k)).toNat = meterSerial ops number type /
      256 ^ k % 256 := by
  cases type with
  | bit =>
    have hcast : (if number.intval ops = 0 then (0 : ℤ) else 1) =
        ((if number.intval ops = 0 then 0 else 1 : ℕ) : ℤ) := by
      split
      · rfl
      · rfl
    simp only [meterBuf, meterSerial, hcast]
    exact bigEndianBuf_nat _ hk
  | int8 => exact bigEndianBuf_int _ (by decide) hk
  | uint8 => exact bigEndianBuf_int _ (by decide) hk
  | int16 => exact bigEndianBuf_int _ (by decide) hk
  | uint16 => exact bigEndianBuf_int _ (by decide) hk
  | int32 => exact bigEndianBuf_int _ (by decide) hk
  | uint32 => exact bigEndianBuf_int _ (by decide) hk
  | float =>
    cases number with
    | counter n => simp [meterBuf, meterSerial]
    | real fbval dbval => exact bigEndianBuf_nat _ hk
  | double =>
    cases number with
    | counter n => simp [meterBuf, meterSerial]
    | real fbval dbval => exact bigEndianBuf_nat _ hk
  | array => exact absurd hk (Nat.not_lt_zero k)
  | error => exact absurd hk (Nat.not_lt_zero k)

/-- The default rule reverses the bytes of a number. -/
theorem edianSource_default {type : EVarType} {k : ℕ} (hk : k < typedSize type) :
    edianSource type 0 k = typedSize type - 1 - k := by
  cases type with
  | bit => exact (Nat.lt_one_iff.mp hk).trans (Nat.zero_sub k).symm
  | int8 => exact (Nat.lt_one_iff.mp hk).trans (Nat.zero_sub k).symm
  | uint8 => exact (Nat.lt_one_iff.mp hk).trans (Nat.zero_sub k).symm
  | int16 => simp [edianSource, typedSize]
  | uint16 => simp [edianSource, typedSize]
  | int32 => simp [edianSource, typedSize]
  | uint32 => simp [edianSource, typedSize]
  | float => simp [edianSource, typedSize]
  | double => simp [edianSource, typedSize]
  | array => exact absurd hk (Nat.not_lt_zero k)
  | error => exact absurd hk (Nat.not_lt_zero k)

/-- What a refresh reads at an address behind a store, by its bytes. -/
def storedValue (env : RefreshEnv) (limit : ℕ) (number : MeterNumber) (type : EVarType) (usAddress : ℕ)
    (s : RefreshState) : VarValue :=
  let stored := refreshRegs s (meterBuf env.ops number type) usAddress (min (typeRegs type) limit)
  vBigEdianExtData type 0 (readUnion stored.regs usAddress) (env.stack stored usAddress)

/-- A byte of the number that is read comes from the buffer or, behind the registers that were
stored, from what stood there. -/
theorem storedValue_byte (env : RefreshEnv) (limit : ℕ) (number : MeterNumber) {type : EVarType}
    (usAddress : ℕ)
    (s : RefreshState) {k : ℕ} (hk : k < typedSize type) :
    (storedValue env limit number type usAddress s (Fin.ofNat 8 k)).toNat =
      if typedSize type - 1 - k < 2 * min (typeRegs type) limit
      then meterSerial env.ops number type / 256 ^ k % 256
      else (s.regs (2 * usAddress + (typedSize type - 1 - k))).toNat := by
  obtain ⟨htyped, height⟩ := typedSize_le_edianSize type
  have hval : (Fin.ofNat 8 k).val = k := Nat.mod_eq_of_lt (by omega)
  have hsource : (Fin.ofNat 8 (typedSize type - 1 - k)).val = typedSize type - 1 - k :=
    Nat.mod_eq_of_lt (by omega)
  rw [storedValue, vBigEdianExtData_lt (by omega), hval, edianSource_default hk, readUnion, hsource]
  simp only [refreshRegs]
  split
  · next hin => rw [if_pos (by omega), Nat.add_sub_cancel_left, meterBuf_digit env.ops number type hk]
  · next hout => rw [if_neg (by omega)]

/-- If all registers of a type are stored, the number in the buffer is read. -/
theorem storedValue_leNat (env : RefreshEnv) {limit : ℕ} (number : MeterNumber) {type : EVarType}
    (usAddress : ℕ)
    (s : RefreshState) (hlimit : typeRegs type ≤ limit) :
    leNat (storedValue env limit number type usAddress s) (typedSize type) =
      meterSerial env.ops number type % 256 ^ typedSize type := by
  apply digitSum_of_digits
  intro k hk
  have hregs : typedSize type ≤ 2 * typeRegs type := by cases type <;> decide
  rw [storedValue_byte env limit number usAddress s hk, if_pos (by rw [min_eq_left hlimit]; omega)]

/-- A delivery stores its number where its search finds a variable. -/
theorem MeterCall.run_eq {env : RefreshEnv} {vars : List ExtData} {call : MeterCall}
    {number : MeterNumber}
    {data : ExtData} {i : ℕ} (hfound : vars.zipIdx.find? (fun x => call.finds x.1) = some (data, i))
    (hnumber : call.number env.ops = some number) (htyped : typedSize data.xIo.btInVarType ≠ 0)
    (cfg : ℕ → ErrCfg)
    (st : PollState) :
    call.run env cfg vars st = meterStore env vars call.addr call.limit number
      data.xIo.btInVarType st := by
  have hfind : vars.find? call.finds = some data := by
    have hmap := List.find?_map (p := call.finds) (f := Prod.fst) (l := vars.zipIdx)
    rw [List.zipIdx_map_fst] at hmap
    rw [hmap]
    exact congrArg (Option.map Prod.fst) hfound
  have hregs : 0 < typeRegs data.xIo.btInVarType := by
    cases htype : data.xIo.btInVarType <;> first | decide | exact absurd (htype ▸ rfl) htyped
  have hhandle : ∀ handle, withFound vars call.finds handle st = handle data.xIo.btInVarType st := by
    intro handle
    rw [withFound, hfind]
    exact if_pos hregs
  cases call with
  | dlt645 meter addr op val =>
    cases hnumber
    exact hhandle _
  | dust addr op result =>
    have hreading : (selectReading result.readings op).map MeterNumber.counter = some number := hnumber
    refine (hhandle _).trans ?_
    rw [hreading]
    rfl
  | mbus603 addr op result =>
    have hreading : (selectReading result.readings op).map MeterNumber.counter = some number := hnumber
    refine (hhandle _).trans ?_
    rw [hreading]
    rfl
  | smf addr op result =>
    have hreading : (selectReading result.readings op).map (MeterNumber.ofFloat env.ops) =
      some number := hnumber
    refine (hhandle _).trans ?_
    rw [hreading]
    rfl
  | dh addr sid type key rsp =>
    rw [MeterCall.number] at hnumber
    rw [MeterCall.run, refreshExtDataWithDh]
    refine (hhandle _).trans ?_
    split at hnumber
    · cases hnumber
    · next hnan =>
      cases hnumber
      exact if_neg hnan

/-- The value of the variable that a plain delivery refreshes. -/
theorem meterStore_value {env : RefreshEnv} {vars : List ExtData} {addr : UInt16}
    {data : ExtData} {i : ℕ}
    (hplain : MeterPlain data) (hnode : coveringNode vars addr.toNat = some (data, i)) (limit : ℕ)
    (number : MeterNumber) (st : PollState) :
    (meterStore env vars addr limit number data.xIo.btInVarType st).refresh.values i =
      storedValue env limit number data.xIo.btInVarType addr.toNat st.refresh := by
  simp only [meterStore, masterRefreshPolled, masterRefreshExtDataWithRegs, hnode, refreshNode,
    Function.update_self]
  rw [refreshedValue_plain hplain.noExpression hplain.noScaling, doSetOutValue,
    if_pos hplain.sameType.symm,
    hplain.rule]
  rfl

/-- A number as one of the calls delivers it, with its limit. -/
def MeterNumber.WellFormed (ops : DoubleOps) (limit : ℕ) : MeterNumber → Prop
  | .counter n => n < 2 ^ 32 ∧ limit = 2
  | .real fbval dbval => (dbval = ops.ofFloat fbval ∨ fbval = ops.toFloat dbval) ∧
    (limit = 2 ∨ limit = 4)

/-- A reading that is selected is one of the readings. -/
theorem selectReading_mem {α : Type} {readings : List α} {op : UInt8} {reading : α}
    (h : selectReading readings op = some reading) : reading ∈ readings := by
  unfold selectReading at h
  split at h
  · cases h
  · exact List.mem_of_getElem? h

/-- The number of a call is as it delivers it. -/
theorem MeterCall.number_wellFormed {ops : DoubleOps} {call : MeterCall} {number : MeterNumber}
    (h : call.number ops = some number) : number.WellFormed ops call.limit := by
  cases call with
  | dlt645 meter addr op val =>
    cases h
    exact ⟨.inl rfl, .inr rfl⟩
  | dust addr op result =>
    obtain ⟨reading, hreading, rfl⟩ := Option.map_eq_some_iff.mp h
    have hbound : ∀ n ∈ result.readings, n < 2 ^ 32 := by
      simp only [DustResultData.readings, List.forall_mem_cons, List.not_mem_nil, false_implies,
        implies_true, and_true]
      refine ⟨?_, ?_, result.pm25Sum.toNat_lt, result.pm10Sum.toNat_lt, ?_, ?_, ?_, ?_⟩
      · exact result.pm25.toNat_lt.trans (by decide)
      · exact result.pm10.toNat_lt.trans (by decide)
      · exact result.pm25Num.toNat_lt.trans (by decide)
      · exact result.pm10Num.toNat_lt.trans (by decide)
      · exact result.t.toNat_lt.trans (by decide)
      · exact result.h.toNat_lt.trans (by decide)
    exact ⟨hbound reading (selectReading_mem hreading), rfl⟩
  | mbus603 addr op result =>
    obtain ⟨reading, hreading, rfl⟩ := Option.map_eq_some_iff.mp h
    have hbound : ∀ n ∈ result.readings, n < 2 ^ 32 := by
      simp only [Mbus603Result.readings, List.forall_mem_cons, List.not_mem_nil, false_implies,
        implies_true, and_true]
      exact ⟨UInt32.toNat_lt _, UInt32.toNat_lt _, UInt32.toNat_lt _, UInt32.toNat_lt _,
        UInt32.toNat_lt _,
        UInt32.toNat_lt _, UInt32.toNat_lt _, UInt32.toNat_lt _, UInt32.toNat_lt _, UInt32.toNat_lt _,
        UInt32.toNat_lt _, UInt32.toNat_lt _⟩
    exact ⟨hbound reading (selectReading_mem hreading), rfl⟩
  | smf addr op result =>
    obtain ⟨reading, -, rfl⟩ := Option.map_eq_some_iff.mp h
    exact ⟨.inl rfl, .inl rfl⟩
  | dh addr sid type key rsp =>
    rw [MeterCall.number] at h
    split at h
    · cases h
    · cases h
      exact ⟨.inr rfl, .inl rfl⟩

/-- A counter that is an integer as a `double` is that integer. -/
theorem counter_eq {ops : DoubleOps} (hops : ops.Lawful) {n : ℕ} {m : ℤ} (hn : n < 2 ^ 32)
    (hm : m.natAbs ≤ 2 ^ 32)
    (h : ops.ofInt n = ops.ofInt m) : (n : ℤ) = m :=
  hops.ofInt_inj n m (by rw [Int.natAbs_natCast]; omega) (by omega) h

/-- The low 32 bits of a number that is an integer as a `double`. For a `float` or `double` this
needs the conversion to a `long`. -/
theorem intval_mod {ops : DoubleOps} (hops : ops.Lawful) {limit : ℕ} {number : MeterNumber}
    (hnumber : number.WellFormed ops limit) {m : ℤ} (hlo : -2 ^ 31 ≤ m) (hhi : m < 2 ^ 32)
    (hsource : number.source ops = ops.ofInt m)
    (hlong : ∀ fbval dbval, number = .real fbval dbval → m < 2 ^ 31) :
    number.intval ops % 2 ^ 32 = m % 2 ^ 32 := by
  cases number with
  | counter n =>
    have hsame := counter_eq hops hnumber.1 (by omega) hsource
    rw [MeterNumber.intval_counter, ← hsame]
    exact Int.bmod_emod
  | real fbval dbval =>
    have hdouble : dbval = ops.ofInt m := hsource
    rw [MeterNumber.intval_real, hdouble, hops.toInt_ofInt m hlo (hlong fbval dbval rfl)]

/-- The number that is read under an integer type of at least eight bits. -/
theorem storedValue_int (env : RefreshEnv) {limit : ℕ} (number : MeterNumber) {type : EVarType}
    (usAddress : ℕ)
    (s : RefreshState) (hlimit : 2 ≤ limit)
    (htype : type ∈ [EVarType.int8, .uint8, .int16, .uint16, .int32, .uint32])
    {m : ℤ} (hm : number.intval env.ops % 2 ^ 32 = m % 2 ^ 32) :
    ((leNat (storedValue env limit number type usAddress s) (typedSize type) : ℕ) : ℤ) =
      m % 256 ^ typedSize type := by
  have hregs : typeRegs type ≤ 2 := by
    revert htype
    cases type <;> decide
  have hserial : meterSerial env.ops number type = (number.intval env.ops % 2 ^ 32).toNat := by
    cases type <;> first | rfl | exact absurd htype (by decide)
  have hsize : typedSize type = 1 ∨ typedSize type = 2 ∨ typedSize type = 4 := by
    revert htype
    cases type <;> decide
  rw [storedValue_leNat env number usAddress s (hregs.trans hlimit), hserial, hm]
  rcases hsize with hsize | hsize | hsize
  · rw [hsize]
    omega
  · rw [hsize]
    omega
  · rw [hsize]
    omega

/-- The signed number of bytes that hold a small integer. -/
theorem leInt_of_leNat {v : VarValue} {n : ℕ} {m : ℤ} (h : (leNat v n : ℤ) = m % 256 ^ n)
    (hlo : -256 ^ n ≤ m * 2)
    (hhi : m * 2 < 256 ^ n) : leInt v n = m := by
  have hcast : (256 : ℤ) ^ n = ((256 ^ n : ℕ) : ℤ) := by push_cast; rfl
  rw [hcast] at h hlo hhi
  rw [leInt, h, Int.emod_bmod]
  exact Int.bmod_eq_of_le_mul_two hlo hhi

/-- A signed type is read as the signed number of its bytes. -/
theorem getExtValue_signed {ops : DoubleOps} {type : EVarType}
    (htype : type ∈ [EVarType.int8, .int16, .int32])
    (v : VarValue) : getExtValue ops type v = some (ops.ofInt (leInt v (typedSize type))) := by
  cases type <;> first | exact absurd htype (by decide) | rfl

/-- An unsigned type is read as the number of its bytes. -/
theorem getExtValue_unsigned {ops : DoubleOps} {type : EVarType}
    (htype : type ∈ [EVarType.uint8, .uint16, .uint32])
    (v : VarValue) : getExtValue ops type v = some (ops.ofInt (leNat v (typedSize type))) := by
  cases type <;> first | exact absurd htype (by decide) | rfl

/-- A number arrives in a signed type. -/
theorem storedValue_signed {env : RefreshEnv} {limit : ℕ} {number : MeterNumber} {type : EVarType}
    (htype : type ∈ [EVarType.int8, .int16, .int32]) (usAddress : ℕ) (s : RefreshState)
    (hlimit : 2 ≤ limit) {m : ℤ}
    (hlo : (intRange type).1 ≤ m) (hhi : m < (intRange type).2) (hm : number.intval env.ops % 2 ^ 32 = m % 2 ^ 32) :
    getExtValue env.ops type (storedValue env limit number type usAddress s) = some (env.ops.ofInt m) := by
  have hread := storedValue_int env number usAddress s hlimit
    (show type ∈ [EVarType.int8, .uint8, .int16, .uint16, .int32, .uint32] by revert htype; cases type <;> decide) hm
  have hvalue : leInt (storedValue env limit number type usAddress s) (typedSize type) = m := by
    apply leInt_of_leNat hread
    · cases type <;> first | exact absurd htype (by decide) | (simp only [intRange, typedSize] at hlo ⊢; omega)
    · cases type <;> first | exact absurd htype (by decide) | (simp only [intRange, typedSize] at hhi ⊢; omega)
  rw [getExtValue_signed htype, hvalue]

/-- A number arrives in an unsigned type. -/
theorem storedValue_unsigned {env : RefreshEnv} {limit : ℕ} {number : MeterNumber} {type : EVarType}
    (htype : type ∈ [EVarType.uint8, .uint16, .uint32]) (usAddress : ℕ) (s : RefreshState)
    (hlimit : 2 ≤ limit) {m : ℤ}
    (hlo : (intRange type).1 ≤ m) (hhi : m < (intRange type).2)
    (hm : number.intval env.ops % 2 ^ 32 = m % 2 ^ 32) :
    getExtValue env.ops type (storedValue env limit number type usAddress s) = some (env.ops.ofInt m) := by
  have hread := storedValue_int env number usAddress s hlimit
    (show type ∈ [EVarType.int8, .uint8, .int16, .uint16, .int32, .uint32] by revert htype; cases type <;> decide) hm
  have hvalue : ((leNat (storedValue env limit number type usAddress s) (typedSize type) : ℕ) : ℤ) =
      m := by
    rw [hread]
    apply Int.emod_eq_of_lt
    · cases type <;> first | exact absurd htype (by decide) | exact hlo
    · cases type <;> first | exact absurd htype (by decide) | exact hhi
  rw [getExtValue_unsigned htype, hvalue]

/-- A number arrives in a bit. -/
theorem storedValue_bit {env : RefreshEnv} {limit : ℕ} {number : MeterNumber} (usAddress : ℕ)
    (s : RefreshState)
    (hlimit : 2 ≤ limit) {m : ℤ} (hlo : 0 ≤ m) (hhi : m < 2) (hm : number.intval env.ops = m) :
    getExtValue env.ops .bit (storedValue env limit number .bit usAddress s) =
      some (env.ops.ofInt m) := by
  have hread :=
    storedValue_leNat env number usAddress s
    (show typeRegs .bit ≤ limit from le_trans (by decide) hlimit)
  have hvalue : ((leNat (storedValue env limit number .bit usAddress s) 1 : ℕ) : ℤ) = m := by
    change leNat (storedValue env limit number .bit usAddress s) 1 = _ at hread
    rw [hread, meterSerial, hm]
    split
    · next hzero => rw [hzero]; rfl
    · next hone =>
      have hm : m = 1 := by omega
      rw [hm]
      rfl
  rw [← hvalue]
  rfl

/-- A counter that is a small integer is it in a `long`, and so is a `double`. -/
theorem intval_eq {ops : DoubleOps} (hops : ops.Lawful) {limit : ℕ} {number : MeterNumber}
    (hnumber : number.WellFormed ops limit) {m : ℤ} (hlo : 0 ≤ m) (hhi : m < 2 ^ 31)
    (hsource : number.source ops = ops.ofInt m) : number.intval ops = m := by
  cases number with
  | counter n =>
    have hsame := counter_eq hops hnumber.1 (by omega) hsource
    rw [MeterNumber.intval_counter, hsame]
    exact Int.bmod_eq_of_le_mul_two (by omega) (by omega)
  | real fbval dbval =>
    have hdouble : dbval = ops.ofInt m := hsource
    rw [MeterNumber.intval_real, hdouble, hops.toInt_ofInt m (by omega) hhi]

/-- When a number arrives in an unsigned 32-bit type. -/
theorem storedValue_uint32_iff {env : RefreshEnv} (hops : env.ops.Lawful) {limit : ℕ}
    {number : MeterNumber}
    (hnumber : number.WellFormed env.ops limit) (hlimit : 2 ≤ limit)
    (hrep : Representable env.ops .uint32 (number.source env.ops)) (usAddress : ℕ) (s : RefreshState) :
    getExtValue env.ops .uint32 (storedValue env limit number .uint32 usAddress s) =
      some (number.source env.ops) ↔
      NumberArrives env.ops limit s.regs usAddress .uint32 number := by
  obtain ⟨m, hlo, hhi, hsource⟩ : ∃ m : ℤ, 0 ≤ m ∧ m < 2 ^ 32 ∧
    number.source env.ops = env.ops.ofInt m := hrep
  have hvalue : getExtValue env.ops .uint32 (storedValue env limit number .uint32 usAddress s) =
      some (env.ops.ofInt (number.intval env.ops % 2 ^ 32)) :=
    storedValue_unsigned (by decide) usAddress s hlimit (Int.emod_nonneg _ (by decide))
      (Int.emod_lt_of_pos _ (by decide)) (Int.emod_emod_of_dvd _ (dvd_refl _)).symm
  have hsmall : m % 2 ^ 32 = m := Int.emod_eq_of_lt hlo hhi
  rw [hvalue, hsource, Option.some.injEq]
  cases number with
  | counter n =>
    refine iff_of_true ?_ trivial
    rw [intval_mod hops hnumber (by omega) hhi hsource (by simp), hsmall]
  | real fbval dbval =>
    have hdouble : dbval = env.ops.ofInt m := hsource
    constructor
    · intro hsame n hge hlt hn
      exact hops.ofInt_inj _ n (by omega) (by omega) (hsame.trans (hdouble.symm.trans hn))
    · intro hcond
      by_cases hlong : m < 2 ^ 31
      · rw [intval_mod hops hnumber (by omega) hhi hsource fun _ _ _ => hlong, hsmall]
      · rw [MeterNumber.intval_real, hcond m (by omega) hhi hdouble]

/-- When a number arrives in a `float`. -/
theorem storedValue_float_iff {env : RefreshEnv} (hops : env.ops.Lawful) {limit : ℕ}
    {number : MeterNumber}
    (hnumber : number.WellFormed env.ops limit) (hlimit : 2 ≤ limit)
    (hrep : Representable env.ops .float (number.source env.ops)) (usAddress : ℕ) (s : RefreshState) :
    getExtValue env.ops .float (storedValue env limit number .float usAddress s) =
      some (number.source env.ops) ↔
      NumberArrives env.ops limit s.regs usAddress .float number := by
  have hread :=
    storedValue_leNat env number usAddress s
    (show typeRegs .float ≤ limit from le_trans (by decide) hlimit)
  change leNat (storedValue env limit number .float usAddress s) 4 = _ at hread
  rw [getExtValue, hread]
  cases number with
  | counter n =>
    have hzero : env.ops.ofFloat (meterSerial env.ops (.counter n) .float %
      256 ^ typedSize .float).toUInt32 =
        env.ops.ofInt 0 := hops.ofFloat_zero
    rw [hzero, MeterNumber.source, Option.some.injEq]
    constructor
    · intro hsame
      have hn := counter_eq hops hnumber.1 (by omega) hsame.symm
      exact Int.natCast_eq_zero.mp hn
    · rintro rfl
      rfl
  | real fbval dbval =>
    refine iff_of_true ?_ trivial
    have hfloat : (meterSerial env.ops (.real fbval dbval) .float %
        256 ^ typedSize .float).toUInt32 = fbval := by
      change (fbval.toNat % 2 ^ 32).toUInt32 = fbval
      rw [Nat.mod_eq_of_lt fbval.toNat_lt]
      simp
    rw [hfloat, MeterNumber.source, Option.some.injEq]
    cases hnumber.1 with
    | inl hwide => exact hwide.symm
    | inr hnarrow =>
      obtain ⟨f, hf⟩ : ∃ f, dbval = env.ops.ofFloat f := hrep
      rw [hnarrow, hf, hops.ofFloat_toFloat]

/-- When a number arrives in a `double`. -/
theorem storedValue_double_iff {env : RefreshEnv} {limit : ℕ} {number : MeterNumber}
    (hnumber : number.WellFormed env.ops limit) (usAddress : ℕ) (s : RefreshState) :
    getExtValue env.ops .double (storedValue env limit number .double usAddress s) =
      some (number.source env.ops) ↔
      NumberArrives env.ops limit s.regs usAddress .double number := by
  have hbyte : ∀ v : VarValue, ∀ i < 8, (v (Fin.ofNat 8 i)).toNat < 256 := fun v i _ => UInt8.toNat_lt _
  have hread : ∀ (v : VarValue) (x : UInt64), getExtValue env.ops .double v = some x ↔
      ∀ k < 8, (v (Fin.ofNat 8 k)).toNat = x.toNat / 256 ^ k % 256 := by
    intro v x
    have hlt : leNat v 8 < 2 ^ 64 := digitSum_lt (hbyte v)
    rw [← digitSum_eq_iff (hbyte v) x.toNat_lt, getExtValue, Option.some.injEq, ← UInt64.toNat_inj]
    change (leNat v 8).toUInt64.toNat = x.toNat ↔ leNat v 8 = x.toNat
    have hmod : (leNat v 8).toUInt64.toNat = leNat v 8 := by simpa using Nat.mod_eq_of_lt hlt
    rw [hmod]
  have hstored : ∀ k < 8, (storedValue env limit number .double usAddress s (Fin.ofNat 8 k)).toNat =
      if 7 - k < 2 * min 4 limit then meterSerial env.ops number .double / 256 ^ k % 256
      else (s.regs (2 * usAddress + (7 - k))).toNat :=
    fun k hk => storedValue_byte env limit number usAddress s hk
  rw [hread]
  cases number with
  | counter n =>
    obtain ⟨-, rfl⟩ := hnumber
    have hx := (env.ops.ofInt n).toNat_lt
    constructor
    · intro hdigits
      have hhigh : ∀ k, 4 ≤ k → k < 8 → (env.ops.ofInt n).toNat / 256 ^ k % 256 = 0 := by
        intro k hge hlt
        have hdigit := hdigits k hlt
        rw [hstored k hlt, if_pos (by omega)] at hdigit
        exact hdigit.symm.trans (by simp [meterSerial])
      refine ⟨?_, fun k hk => ?_⟩
      · have hfour := hhigh 4 (by decide) (by decide)
        have hfive := hhigh 5 (by decide) (by decide)
        have hsix := hhigh 6 (by decide) (by decide)
        have hseven := hhigh 7 (by decide) (by decide)
        omega
      · have hdigit := hdigits k (by omega)
        rwa [hstored k (by omega), if_neg (by omega)] at hdigit
    · rintro ⟨hsmall, hlow⟩ k hk
      rw [hstored k hk]
      split
      · have hzero : (env.ops.ofInt n).toNat / 256 ^ k = 0 := by
          apply Nat.div_eq_of_lt
          exact hsmall.trans_le (le_trans (by decide)
            (Nat.pow_le_pow_right (by decide) (show 4 ≤ k by omega)))
        rw [MeterNumber.source, hzero]
        simp [meterSerial]
      · exact hlow k (by omega)
  | real fbval dbval =>
    have hdigits : (∀ k < 8, (storedValue env limit (.real fbval dbval) .double usAddress s
      (Fin.ofNat 8 k)).toNat =
        dbval.toNat / 256 ^ k % 256) ↔ ∀ k < 8, 2 * min 4 limit ≤ 7 - k →
          (s.regs (2 * usAddress + (7 - k))).toNat = dbval.toNat / 256 ^ k % 256 := by
      refine forall_congr' fun k => forall_congr' fun hk => ?_
      rw [hstored k hk]
      split
      · next hin => exact iff_of_true rfl (fun hout => absurd hin (by omega))
      · next hout => exact ⟨fun h _ => h, fun h => h (by omega)⟩
    refine hdigits.trans ?_
    cases hnumber.2 with
    | inl htwo =>
      subst htwo
      constructor
      · exact fun h => .inr fun k hk => h k (by omega) (by omega)
      · intro h k hk hout
        exact (h.resolve_left (by decide)) k (by omega)
    | inr hfour =>
      subst hfour
      exact iff_of_true (fun k hk hout => by omega) (.inl rfl)

/-- A number that an integer type can hold is an integer in its range. -/
theorem representable_int {ops : DoubleOps} {type : EVarType} {x : UInt64}
    (h : Representable ops type x)
    (htype : type ≠ .float ∧ type ≠ .double) :
    ∃ n : ℤ, (intRange type).1 ≤ n ∧ n < (intRange type).2 ∧ x = ops.ofInt n := by
  cases type <;> first | exact h | exact absurd rfl htype.1 | exact absurd rfl htype.2

/-- A number arrives in the types whose integers fit in a `long`. -/
theorem storedValue_small {env : RefreshEnv} (hops : env.ops.Lawful) {limit : ℕ} {number : MeterNumber}
    (hnumber : number.WellFormed env.ops limit) (hlimit : 2 ≤ limit) {type : EVarType}
    (htype : type ∈ [EVarType.bit, .int8, .uint8, .int16, .uint16, .int32])
    (hrep : Representable env.ops type (number.source env.ops)) (usAddress : ℕ) (s : RefreshState) :
    getExtValue env.ops type (storedValue env limit number type usAddress s) =
      some (number.source env.ops) := by
  obtain ⟨m, hlo, hhi, hsource⟩ := representable_int hrep
    (by constructor <;> (rintro rfl; exact absurd htype (by decide)))
  have hrange : -2 ^ 31 ≤ (intRange type).1 ∧ (intRange type).2 ≤ 2 ^ 31 := by
    revert htype
    cases type <;> decide
  have hm := intval_mod hops hnumber (hrange.1.trans hlo) (by omega) hsource fun _ _ _ =>
    hhi.trans_le hrange.2
  rw [hsource]
  cases type with
  | bit => exact storedValue_bit usAddress s hlimit hlo hhi (intval_eq hops hnumber hlo (hhi.trans_le hrange.2) hsource)
  | int8 => exact storedValue_signed (by decide) usAddress s hlimit hlo hhi hm
  | uint8 => exact storedValue_unsigned (by decide) usAddress s hlimit hlo hhi hm
  | int16 => exact storedValue_signed (by decide) usAddress s hlimit hlo hhi hm
  | uint16 => exact storedValue_unsigned (by decide) usAddress s hlimit hlo hhi hm
  | int32 => exact storedValue_signed (by decide) usAddress s hlimit hlo hhi hm
  | uint32 => exact absurd htype (by decide)
  | float => exact absurd htype (by decide)
  | double => exact absurd htype (by decide)
  | array => exact absurd htype (by decide)
  | error => exact absurd htype (by decide)

/-- When a number that a type can hold arrives in it. -/
theorem storedValue_arrives_iff {env : RefreshEnv} (hops : env.ops.Lawful) {limit : ℕ}
    {number : MeterNumber}
    (hnumber : number.WellFormed env.ops limit) {type : EVarType} (htyped : typedSize type ≠ 0)
    (hrep : Representable env.ops type (number.source env.ops)) (usAddress : ℕ) (s : RefreshState) :
    getExtValue env.ops type (storedValue env limit number type usAddress s) =
      some (number.source env.ops) ↔
      NumberArrives env.ops limit s.regs usAddress type number := by
  have hlimit : 2 ≤ limit := by
    cases number with
    | counter n => exact hnumber.2.ge
    | real fbval dbval => cases hnumber.2 with
      | inl htwo => exact htwo.ge
      | inr hfour => exact le_trans (by decide) hfour.ge
  have hsmall := fun htype : type ∈ [EVarType.bit, .int8, .uint8, .int16, .uint16, .int32] =>
    storedValue_small hops hnumber hlimit htype hrep usAddress s
  cases type with
  | bit => exact iff_of_true (hsmall (by decide)) (by cases number <;> trivial)
  | int8 => exact iff_of_true (hsmall (by decide)) (by cases number <;> trivial)
  | uint8 => exact iff_of_true (hsmall (by decide)) (by cases number <;> trivial)
  | int16 => exact iff_of_true (hsmall (by decide)) (by cases number <;> trivial)
  | uint16 => exact iff_of_true (hsmall (by decide)) (by cases number <;> trivial)
  | int32 => exact iff_of_true (hsmall (by decide)) (by cases number <;> trivial)
  | uint32 => exact storedValue_uint32_iff hops hnumber hlimit hrep usAddress s
  | float => exact storedValue_float_iff hops hnumber hlimit hrep usAddress s
  | double => exact storedValue_double_iff hnumber usAddress s
  | array => exact absurd rfl htyped
  | error => exact absurd rfl htyped

/-- After a delivery the variable that its search finds holds the number exactly when the variable
is the first to cover the address and the number arrives in its type, or another is and the variable
already held the number. -/
theorem meterValue_arrives_iff (env : RefreshEnv) (cfg : ℕ → ErrCfg) (vars : List ExtData)
    (call : MeterCall)
    (st : PollState) (number : MeterNumber) (data : ExtData) (i : ℕ) (hops : env.ops.Lawful)
    (hfound : vars.zipIdx.find? (fun x => call.finds x.1) = some (data, i))
    (hnumber : call.number env.ops = some number) (hplain : MeterPlain data)
    (hrep : Representable env.ops data.xIo.btInVarType (number.source env.ops)) :
    getExtValue env.ops data.xIo.btOutVarType ((call.run env cfg vars st).refresh.values i) =
        some (number.source env.ops) ↔
      (coveringNode vars call.addr.toNat = some (data, i) ∧
        NumberArrives env.ops call.limit st.refresh.regs call.addr.toNat data.xIo.btInVarType number) ∨
      (coveringNode vars call.addr.toNat ≠ some (data, i) ∧
        getExtValue env.ops data.xIo.btOutVarType (st.refresh.values i) =
        some (number.source env.ops)) := by
  rw [MeterCall.run_eq hfound hnumber hplain.typed cfg st]
  by_cases hnode : coveringNode vars call.addr.toNat = some (data, i)
  · rw [meterStore_value hplain hnode, hplain.sameType,
      storedValue_arrives_iff hops (MeterCall.number_wellFormed hnumber) hplain.typed hrep]
    simp [hnode]
  · have hkept : (meterStore env vars call.addr call.limit number data.xIo.btInVarType
      st).refresh.values i =
        st.refresh.values i := by
      apply masterRefresh_values
      intro other hother
      have hsame := coveringNode_getElem? hother
      rw [List.mem_zipIdx_iff_getElem?.mp (List.mem_of_find?_eq_some hfound)] at hsame
      cases hsame
      exact hnode hother
    rw [hkept]
    simp [hnode]

/-- Conversions that are exact on integers and on normal numbers. -/
def exactOps : DoubleOps where
  ofInt := encodeInt
  ofFloat := widen
  toFloat := narrow
  toInt _ := decodeInt
  isZero x := x = 0
  ne x y := x ≠ y
  lt x y := decodeInt x < decodeInt y
  adcResult _ x := x

/-- They guarantee what conversions do. -/
theorem exactOps_lawful : exactOps.Lawful where
  ofInt_inj m n hm hn h := by rw [← decodeInt_encode hm, ← decodeInt_encode hn]; exact congrArg decodeInt h
  toInt_ofInt n hlo hhi := decodeInt_encode (by omega)
  ofFloat_zero := by decide
  ofFloat_toFloat x := congrArg widen (narrow_widen x)

/-- A variable of a numeric type for the PM2.5 reading of a Dust device. -/
def dustVariable (type : EVarType) : ExtData where
  xIo := { usAddr := 1024, usProtoType := 4, btInVarType := type, btOutVarType := type, param := { dustOp := 1 } }

/-- It has the default byte rule, and neither expression nor scaling. -/
theorem dustVariable_plain {type : EVarType} (h : typedSize type ≠ 0) :
    MeterPlain (dustVariable type) :=
  ⟨h, rfl, rfl, rfl, by simp [dustVariable]⟩

/-- A state without values. -/
def emptyPollState : PollState := ⟨⟨fun _ => 0, fun _ => 0⟩, fun _ => 0, fun _ => false⟩

/-- The reading 35 of a Dust device for a 16-bit variable. -/
theorem meterValue_arrives_iff_dust :
    getExtValue exactOps .uint16 (((MeterCall.dust 1024 1 { pm25 := 35 }).run (quietEnv exactOps)
        (fun _ => ⟨false, 0⟩) [dustVariable .uint16] emptyPollState).refresh.values 0) =
          some (exactOps.ofInt 35) ↔
      (coveringNode [dustVariable .uint16] 1024 = some (dustVariable .uint16, 0) ∧
        NumberArrives exactOps 2 emptyPollState.refresh.regs 1024 .uint16 (.counter 35)) ∨
      (coveringNode [dustVariable .uint16] 1024 ≠ some (dustVariable .uint16, 0) ∧
        getExtValue exactOps .uint16 (emptyPollState.refresh.values 0) = some (exactOps.ofInt 35)) :=
  meterValue_arrives_iff (quietEnv exactOps) (fun _ => ⟨false, 0⟩) [dustVariable .uint16]
    (.dust 1024 1 { pm25 := 35 }) emptyPollState (.counter 35) (dustVariable .uint16) 0 exactOps_lawful (by decide) rfl
    (dustVariable_plain (by decide)) ⟨35, by decide, by decide, rfl⟩

/-- The reading 35 of a Dust device does not arrive in a `float`. -/
theorem meterValue_lost :
    ¬ ∀ (env : RefreshEnv) (cfg : ℕ → ErrCfg) (vars : List ExtData) (call : MeterCall) (st : PollState)
      (number : MeterNumber) (data : ExtData) (i : ℕ), env.ops.Lawful →
      vars.zipIdx.find? (fun x => call.finds x.1) = some (data, i) → call.number env.ops = some number →
      MeterPlain data → Representable env.ops data.xIo.btInVarType (number.source env.ops) →
        getExtValue env.ops data.xIo.btOutVarType ((call.run env cfg vars st).refresh.values i) =
          some (number.source env.ops) := by
  intro h
  have hrep : Representable exactOps .float (MeterNumber.source exactOps (.counter 35)) :=
    ⟨0x420C0000, by decide⟩
  have hplain := dustVariable_plain (show typedSize .float ≠ 0 by decide)
  have harrives := h (quietEnv exactOps) (fun _ => ⟨false, 0⟩) [dustVariable .float] (.dust 1024 1 { pm25 := 35 })
    emptyPollState (.counter 35) (dustVariable .float) 0 exactOps_lawful (by decide) rfl hplain hrep
  rw [MeterCall.run_eq (show _ = some (dustVariable .float, 0) by decide) rfl hplain.typed,
    meterStore_value hplain (by decide), hplain.sameType] at harrives
  have hzero : 35 = 0 := (@storedValue_float_iff (quietEnv exactOps) exactOps_lawful 2 (.counter 35)
    ⟨by decide, rfl⟩ le_rfl hrep 1024 emptyPollState.refresh).mp harrives
  exact absurd hzero (by decide)

end DasEdge.VarManage
