import DasEdge.VarManage.PollErrors

/-!
# Values of meters

The functions that deliver a meter's answer for Dlt645, Dust, Mbus603, Smf and Dh. Each looks for a
variable with the poll's internal address and some of its parameters, writes the number into a byte
buffer by the input type of the variable that it finds, puts at most two or four registers of it at
the internal address, and refreshes whichever variable covers that address first. `long` has 32 bits
on the board, and the conversion of a number outside of its range is that of the parameter.
-/

namespace DasEdge.VarManage

/-- `Dust_ResultData_t` -/
structure DustResultData where
  pm25 : UInt16 := 0
  pm10 : UInt16 := 0
  pm25Sum : UInt32 := 0
  pm10Sum : UInt32 := 0
  pm25Num : UInt16 := 0
  pm10Num : UInt16 := 0
  t : UInt8 := 0
  h : UInt8 := 0

/-- The counters of `S_Mbus603_Result_t`. -/
structure Mbus603Result where
  sumE1 : UInt32 := 0
  e3 : UInt32 := 0
  e8 : UInt32 := 0
  e9 : UInt32 := 0
  v1 : UInt32 := 0
  timeSum : UInt32 := 0
  t1 : UInt32 := 0
  t2 : UInt32 := 0
  dt : UInt32 := 0
  e1E3 : UInt32 := 0
  maxMonthPower : UInt32 := 0
  fRate : UInt32 := 0

/-- The readings of `s_instrumentData_t`, as the bit patterns of `float`s. -/
structure InstrumentData where
  sensor : Fin 7 → UInt32 := fun _ => 0
  interTemp : UInt32 := 0
  press : UInt32 := 0
  rh : UInt32 := 0
  sensorTemp : UInt32 := 0
  pm25 : UInt32 := 0
  pm10 : UInt32 := 0

/-- The `switch` over op codes, which count from 1. -/
def selectReading {α : Type} (readings : List α) (op : UInt8) : Option α :=
  if op = 0 then none else readings[op.toNat - 1]?

/-- The readings by their Dust op codes. -/
def DustResultData.readings (result : DustResultData) : List ℕ :=
  [result.pm25.toNat, result.pm10.toNat, result.pm25Sum.toNat, result.pm10Sum.toNat,
    result.pm25Num.toNat,
    result.pm10Num.toNat, result.t.toNat, result.h.toNat]

/-- The readings by their Mbus603 op codes. -/
def Mbus603Result.readings (result : Mbus603Result) : List ℕ :=
  [result.sumE1.toNat, result.e3.toNat, result.e8.toNat, result.e9.toNat, result.v1.toNat,
    result.timeSum.toNat,
    result.t1.toNat, result.t2.toNat, result.dt.toNat, result.e1E3.toNat, result.maxMonthPower.toNat,
    result.fRate.toNat]

/-- The readings by their Smf op codes. -/
def InstrumentData.readings (result : InstrumentData) : List UInt32 :=
  [result.sensor 0, result.sensor 1, result.sensor 2, result.sensor 3, result.pm25, result.pm10,
    result.interTemp,
    result.rh, result.press, result.sensorTemp]

/-- The op codes without a reading. -/
theorem selectReading_eq_none_iff {α : Type} (readings : List α) (op : UInt8) :
    selectReading readings op = none ↔ ¬ (op ≠ 0 ∧ op.toNat ≤ readings.length) := by
  unfold selectReading
  by_cases hzero : op = 0
  · simp [hzero]
  · have hpos : op.toNat ≠ 0 := fun h => hzero (UInt8.toNat_inj.mp h)
    rw [if_neg hzero, List.getElem?_eq_none_iff]
    simp only [ne_eq, hzero, not_false_eq_true, true_and]
    omega

/-- The number of an answer as a delivery function keeps it: a counter that goes into `long intval`,
or a number with its `float` and its `double`. -/
inductive MeterNumber where
  | counter (n : ℕ)
  | real (fbval : UInt32) (dbval : UInt64)

/-- The number of an answer that is a `float`. -/
def MeterNumber.ofFloat (ops : DoubleOps) (val : UInt32) : MeterNumber := .real val (ops.ofFloat val)

/-- The number of an answer that is a `double`. -/
def MeterNumber.ofDouble (ops : DoubleOps) (val : UInt64) : MeterNumber := .real (ops.toFloat val) val

/-- `intval` -/
def MeterNumber.intval (ops : DoubleOps) : MeterNumber → ℤ
  | .counter n => Int.bmod n (2 ^ 32)
  | .real _ dbval => ops.toInt .int32 dbval

/-- A counter in a `long`. -/
theorem MeterNumber.intval_counter (ops : DoubleOps) (n : ℕ) :
    (MeterNumber.counter n).intval ops = Int.bmod n (2 ^ 32) := rfl

/-- A `double` in a `long`. -/
theorem MeterNumber.intval_real (ops : DoubleOps) (fbval : UInt32) (dbval : UInt64) :
    (MeterNumber.real fbval dbval).intval ops = ops.toInt .int32 dbval := rfl

/-- A buffer with the low `n` bytes of a number in front, the highest first. -/
def bigEndianBuf (x : ℤ) (n : ℕ) : ℕ → UInt8 := fun k =>
  if k < n then (x / 256 ^ (n - 1 - k) % 256).toNat.toUInt8 else 0

/-- `f_buf` -/
def meterBuf (ops : DoubleOps) (number : MeterNumber) : EVarType → ℕ → UInt8
  | .bit => bigEndianBuf (if number.intval ops = 0 then 0 else 1) 1
  | .int8 | .uint8 => bigEndianBuf (number.intval ops) 1
  | .int16 | .uint16 => bigEndianBuf (number.intval ops) 2
  | .int32 | .uint32 => bigEndianBuf (number.intval ops) 4
  | .float =>
    match number with
    | .counter _ => fun _ => 0
    | .real fbval _ => bigEndianBuf fbval.toNat 4
  | .double =>
    match number with
    | .counter _ => fun _ => 0
    | .real _ dbval => bigEndianBuf dbval.toNat 8
  | .array | .error => fun _ => 0

/-- The step that the delivery functions share: of a variable with registers that the search finds,
the input type goes on. -/
def withFound (vars : List ExtData) (finds : ExtData → Bool) (handle : EVarType → PollState → PollState)
    (st : PollState) : PollState :=
  match vars.find? finds with
  | none => st
  | some data => if 0 < typeRegs data.xIo.btInVarType then handle data.xIo.btInVarType st else st

/-- The step that puts a number into at most `limit` registers and refreshes the variable there. -/
def meterStore (env : RefreshEnv) (vars : List ExtData) (addr : UInt16) (limit : ℕ)
    (number : MeterNumber)
    (type : EVarType) (st : PollState) : PollState :=
  masterRefreshPolled env vars
    { st with
      refresh :=
      refreshRegs st.refresh (meterBuf env.ops number type) addr.toNat (min (typeRegs type) limit) }
    addr.toNat

/-- The step behind a `switch` over op codes that need not have a reading. -/
def meterStoreReading (env : RefreshEnv) (vars : List ExtData) (addr : UInt16) (limit : ℕ)
    (number : Option MeterNumber) (type : EVarType) (st : PollState) : PollState :=
  match number with
  | none => st
  | some number => meterStore env vars addr limit number type st

/-- The step that the error paths share: the first variable that the search finds has its error
counted, and its `bErrFlag` set by the paths that do so. -/
def tryClearFound (cfg : ℕ → ErrCfg) (vars : List ExtData) (finds : ExtData → Bool) (marks : Bool)
    (st : PollState) : PollState :=
  match vars.zipIdx.find? fun x => finds x.1 with
  | none => st
  | some (data, i) =>
    let counted := tryClearNode (cfg i) st data i
    if marks then counted else { counted with bErrFlag := st.bErrFlag }

/-- The test of `__GetExtDataIoInfoWithDlt645Addr`. -/
def dlt645Finds (meter : List UInt8) (addr : UInt16) (op : UInt32) (data : ExtData) : Bool :=
  data.bEnable && data.xIo.param.dlt645.addr = meter && data.xIo.usAddr =
    addr && data.xIo.param.dlt645.op = op

/-- `bVarManage_RefreshExtDataWithDlt645` -/
def refreshExtDataWithDlt645 (env : RefreshEnv) (vars : List ExtData) (meter : List UInt8)
    (addr : UInt16)
    (op : UInt32) (val : UInt32) (st : PollState) : PollState :=
  withFound vars (dlt645Finds meter addr op) (meterStore env vars addr 4 (.ofFloat env.ops val)) st

/-- `vVarManage_Dlt645TryClearExtDataWithErr` -/
def dlt645TryClearExtDataWithErr (cfg : ℕ → ErrCfg) (vars : List ExtData) (meter : List UInt8)
    (addr : UInt16)
    (op : UInt32) (st : PollState) : PollState :=
  tryClearFound cfg vars (dlt645Finds meter addr op) true st

/-- The test of `__GetExtDataIoInfoWithDust`. -/
def dustFinds (addr : UInt16) (op : UInt8) (data : ExtData) : Bool :=
  data.bEnable && data.xIo.usAddr = addr && data.xIo.param.dustOp = op

/-- `bVarManage_RefreshExtDataWithDust` -/
def refreshExtDataWithDust (env : RefreshEnv) (vars : List ExtData) (addr : UInt16) (op : UInt8)
    (result : DustResultData) (st : PollState) : PollState :=
  withFound vars (dustFinds addr op)
    (meterStoreReading env vars addr 2 ((selectReading result.readings op).map .counter)) st

/-- `vVarManage_DustTryClearExtDataWithErr` -/
def dustTryClearExtDataWithErr (cfg : ℕ → ErrCfg) (vars : List ExtData) (addr : UInt16) (op : UInt8)
    (st : PollState) : PollState :=
  tryClearFound cfg vars (dustFinds addr op) false st

/-- The test of `__GetExtDataIoInfoWithMbus603`, whose op code has 8 bits and is compared with one
of 32. -/
def mbus603Finds (addr : UInt16) (op : UInt8) (data : ExtData) : Bool :=
  data.bEnable && data.xIo.usAddr = addr && data.xIo.param.mbus603.op = op.toUInt32

/-- `bVarManage_RefreshExtDataWithMbus603` -/
def refreshExtDataWithMbus603 (env : RefreshEnv) (vars : List ExtData) (addr : UInt16) (op : UInt8)
    (result : Mbus603Result) (st : PollState) : PollState :=
  withFound vars (mbus603Finds addr op)
    (meterStoreReading env vars addr 2 ((selectReading result.readings op).map .counter)) st

/-- The test of `__GetExtDataIoInfoWithSmf`. -/
def smfFinds (addr : UInt16) (op : UInt8) (data : ExtData) : Bool :=
  data.bEnable && data.xIo.usAddr = addr && data.xIo.param.smfOp = op

/-- `bVarManage_RefreshExtDataWithSmf` -/
def refreshExtDataWithSmf (env : RefreshEnv) (vars : List ExtData) (addr : UInt16) (op : UInt8)
    (result : InstrumentData) (st : PollState) : PollState :=
  withFound vars (smfFinds addr op)
    (meterStoreReading env vars addr 2 ((selectReading result.readings op).map (.ofFloat env.ops))) st

/-- `vVarManage_SmfTryClearExtDataWithErr` -/
def smfTryClearExtDataWithErr (cfg : ℕ → ErrCfg) (vars : List ExtData) (addr : UInt16) (op : UInt8)
    (st : PollState) : PollState :=
  tryClearFound cfg vars (smfFinds addr op) false st

/-- A variable has the parameters that a Dh poll asks for. -/
def dhAsks (sid type : UInt32) (data : ExtData) : Bool :=
  data.bEnable && data.xIo.param.dh.sid = sid && data.xIo.param.dh.type = type

/-- The test of `__GetExtDataIoInfoWithDh`. -/
def dhFinds (addr : UInt16) (sid type : UInt32) (key : List UInt8) (data : ExtData) : Bool :=
  dhAsks sid type data && data.xIo.usAddr = addr && data.xIo.param.dh.key = key

/-- `vVarManage_DhTryClearOneExtDataWithErr` -/
def dhTryClearOneExtDataWithErr (cfg : ℕ → ErrCfg) (vars : List ExtData) (addr : UInt16)
    (sid type : UInt32)
    (st : PollState) : PollState :=
  tryClearFound cfg vars (fun data => dhAsks sid type data && data.xIo.usAddr = addr) false st

/-- `vVarManage_DhTryClearExtDataWithErr` -/
def dhTryClearExtDataWithErr (cfg : ℕ → ErrCfg) (vars : List ExtData) (sid type : UInt32)
    (st : PollState) : PollState :=
  vars.foldl (fun st data =>
    if dhAsks sid type data then dhTryClearOneExtDataWithErr cfg vars data.xIo.usAddr sid type st
    else st) st

/-- `bVarManage_RefreshExtDataWithDh`; `rsp` is what `dh_get_rsp_value` finds in the response for a
key, and `isnan` is comparing it with itself. -/
def refreshExtDataWithDh (env : RefreshEnv) (cfg : ℕ → ErrCfg) (vars : List ExtData) (addr : UInt16)
    (sid type : UInt32) (key : List UInt8) (rsp : List UInt8 → UInt64) (st : PollState) : PollState :=
  withFound vars (dhFinds addr sid type key)
    (fun inVarType st =>
      let val := rsp key
      if env.ops.ne val val then dhTryClearOneExtDataWithErr cfg vars addr sid type st
      else meterStore env vars addr 2 (.ofDouble env.ops val) inVarType st) st

/-- `bVarManage_RefreshExtDataListWithDh` -/
def refreshExtDataListWithDh (env : RefreshEnv) (cfg : ℕ → ErrCfg) (vars : List ExtData)
    (sid type : UInt32)
    (rsp : List UInt8 → UInt64) (st : PollState) : PollState :=
  vars.foldl (fun st data =>
    if dhAsks sid type data then
      refreshExtDataWithDh env cfg vars data.xIo.usAddr sid type data.xIo.param.dh.key rsp st
    else st) st

end DasEdge.VarManage
