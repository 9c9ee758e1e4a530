import DasEdge.VarManage.ExtData
import Mathlib.Data.UInt
import Mathlib.Logic.Function.Basic

/-!
# Refreshing stored values from registers

The paths on which a Modbus response or a Modbus write reaches the stored values and the registers
`g_xExtDataRegs`. The registers are little-endian memory: register `a` is the bytes `2a` and `2a+1`,
and a pointer to a register that is cast to `VarValue_v *` reads and writes eight bytes from there.
Floating-point arithmetic, the expression evaluator and the rule table are parameters, and so is what
an uninitialised local `VarValue_v` holds. The averages and error counters that the same functions
update are left out.
-/

namespace DasEdge.VarManage

/-- Arithmetic on `double`, whose values are bit patterns. -/
structure DoubleOps where
  ofInt : ℤ → UInt64
  ofFloat : UInt32 → UInt64
  toFloat : UInt64 → UInt32
  toInt : EVarType → UInt64 → ℤ
  isZero : UInt64 → Bool
  ne : UInt64 → UInt64 → Bool
  lt : UInt64 → UInt64 → Bool
  adcResult : ExtDataAiCfg → UInt64 → UInt64

/-- The rule types that `__doexp_rule` tells apart. -/
inductive RuleType where
  | none | ctrl | other
  deriving DecidableEq

/-- Stored values by position in the list, and registers by byte. -/
structure RefreshState where
  values : ℕ → VarValue
  regs : ℕ → UInt8

/-- What the refresh paths call or read from outside. `evaluate` is `none` when it reports an error;
`staleText` is what a text buffer holds that was never written. -/
structure RefreshEnv where
  ops : DoubleOps
  evaluate : (ℕ → VarValue) → String → String → Option UInt64
  ruleGet : String → Option RuleType
  staleText : String
  stack : RefreshState → ℕ → VarValue

/-- The number in the first `n` bytes of a value. -/
def leNat (v : VarValue) (n : ℕ) : ℕ :=
  ((List.range n).map fun i => (v (Fin.ofNat 8 i)).toNat * 256 ^ i).sum

/-- The signed number in the first `n` bytes of a value. -/
def leInt (v : VarValue) (n : ℕ) : ℤ := Int.bmod (leNat v n) (256 ^ n)

/-- The bytes that belong to the member that a type selects; none for an array. -/
def typedSize : EVarType → ℕ
  | .bit | .int8 | .uint8 => 1
  | .int16 | .uint16 => 2
  | .int32 | .uint32 | .float => 4
  | .double => 8
  | .array | .error => 0

/-- `__GetExtValue` -/
def getExtValue (ops : DoubleOps) (type : EVarType) (v : VarValue) : Option UInt64 :=
  match type with
  | .bit | .uint8 => some (ops.ofInt (leNat v 1))
  | .int8 => some (ops.ofInt (leInt v 1))
  | .int16 => some (ops.ofInt (leInt v 2))
  | .uint16 => some (ops.ofInt (leNat v 2))
  | .int32 => some (ops.ofInt (leInt v 4))
  | .uint32 => some (ops.ofInt (leNat v 4))
  | .float => some (ops.ofFloat (leNat v 4).toUInt32)
  | .double => some (leNat v 8).toUInt64
  | .array | .error => none

/-- The bit pattern that a `double` is stored as in the member of a type. -/
def castDouble (ops : DoubleOps) (type : EVarType) (x : UInt64) : ℤ :=
  match type with
  | .bit => if ops.isZero x then 0 else 1
  | .float => (ops.toFloat x).toNat
  | .double => x.toNat
  | _ => ops.toInt type x

/-- The assignment of a `double` to the member of a type, which leaves the other bytes alone. -/
def setExtValue (ops : DoubleOps) (type : EVarType) (x : UInt64) (v : VarValue) : VarValue := fun i =>
  if i.val < typedSize type then (castDouble ops type x / 256 ^ i.val % 256).toNat.toUInt8 else v i

/-- The bytes that `vBigEdianExtData` writes. -/
def edianSize : EVarType → ℕ
  | .int16 | .uint16 => 2
  | .int32 | .uint32 | .float => 4
  | _ => 8

/-- The byte that `vBigEdianExtData` moves to place `i`. -/
def edianSource (type : EVarType) (rule : UInt8) (i : ℕ) : ℕ :=
  match type with
  | .int16 | .uint16 => 1 - i
  | .int32 | .uint32 | .float =>
    if rule = 0 then 3 - i
    else if rule = 1 then 2 * (i / 2) + (1 - i % 2)
    else if rule = 2 then 2 * (1 - i / 2) + i % 2
    else i
  | .double =>
    if rule = 0 then 7 - i
    else if rule = 1 then 2 * (i / 2) + (1 - i % 2)
    else if rule = 2 then 2 * (3 - i / 2) + i % 2
    else i
  | _ => i

/-- `vBigEdianExtData`, and `vLittleEdianExtData`, which calls it: the union `out` afterwards. -/
def vBigEdianExtData (type : EVarType) (rule : UInt8) (input out : VarValue) : VarValue := fun i =>
  if i.val < edianSize type then input (Fin.ofNat 8 (edianSource type rule i)) else out i

/-- The union at a register. -/
def readUnion (regs : ℕ → UInt8) (usAddress : ℕ) : VarValue := fun i => regs (2 * usAddress + i.val)

/-- The registers after the union at a register is written. -/
def writeUnion (regs : ℕ → UInt8) (usAddress : ℕ) (v : VarValue) : ℕ → UInt8 := fun b =>
  if 2 * usAddress ≤ b ∧ b < 2 * usAddress + 8 then v (Fin.ofNat 8 (b - 2 * usAddress)) else regs b

/-- The output range of an enabled variable holds a register. -/
def coversOut (usAddress : ℕ) (data : ExtData) : Bool :=
  data.bEnable && data.xIo.usAddr.toNat ≤ usAddress &&
    usAddress < data.xIo.usAddr.toNat + typeRegs data.xIo.btOutVarType

/-- The first enabled variable whose output range holds a register, with its position. -/
def coveringNode (vars : List ExtData) (usAddress : ℕ) : Option (ExtData × ℕ) :=
  vars.zipIdx.find? fun x => coversOut usAddress x.1

/-- `bVarManage_CheckExtValue` -/
def checkExtValue (ops : DoubleOps) (data : ExtData) (v : VarValue) : Bool :=
  match getExtValue ops data.xIo.btOutVarType v with
  | none => true
  | some value =>
    if data.xIo.bUseMax && ops.lt (ops.ofFloat data.xIo.fMax) value then false
    else if data.xIo.bUseMin && ops.lt value (ops.ofFloat data.xIo.fMin) then false
    else true

/-- `__do_set_out_value`: the value read as `type` becomes a value of the output type. -/
def doSetOutValue (ops : DoubleOps) (data : ExtData) (type : EVarType) (v : VarValue) : VarValue :=
  if type = data.xIo.btOutVarType then v
  else
    match getExtValue ops type v with
    | none => v
    | some value => setExtValue ops data.xIo.btOutVarType value v

/-- `__try_refresh_ai_value` -/
def tryRefreshAiValue (ops : DoubleOps) (data : ExtData) (v : VarValue) : VarValue :=
  if data.eAttr = .ai then
    match getExtValue ops data.xIo.btOutVarType v with
    | none => v
    | some value => setExtValue ops data.xIo.btOutVarType (ops.adcResult data.cfgAi value) v
  else v

/-- The part of `__doexp_exp` and `__doexp_rule` that evaluates a text: whether the value changed, and
the value. -/
def doexpText (env : RefreshEnv) (data : ExtData) (values : ℕ → VarValue) (v : VarValue)
    (text : String) :
    Bool × VarValue :=
  match getExtValue env.ops data.xIo.btOutVarType v with
  | none => (false, v)
  | some value =>
    match env.evaluate values text data.szName with
    | none => (false, v)
    | some x => if env.ops.ne x value then (true, setExtValue env.ops data.xIo.btOutVarType x v)
      else (false, v)

/-- The text that `__doexp_rule` evaluates for a rule. -/
def ruleText (env : RefreshEnv) (name : String) (pIn pOut : Option String) : RuleType → String
  | .none => name ++ "(" ++ pIn.getD "(null)" ++ ")"
  | .ctrl =>
    "if (" ++ name ++ "(" ++ pIn.getD "" ++ ")) \x7b return (" ++ name ++ "_o(" ++ pOut.getD "" ++
      ")); \x7d else \x7b return 0; \x7d"
  | .other => env.staleText

/-- `__doexp_value` -/
def doexpValue (env : RefreshEnv) (data : ExtData) (values : ℕ → VarValue) (v : VarValue) :
    Bool × VarValue :=
  match data.xIo.exp with
  | .exp szExp =>
    match szExp with
    | none => (false, v)
    | some text => if text = "" then (false, v) else doexpText env data values v text
  | .rule name pIn pOut =>
    match name with
    | none => (false, v)
    | some name =>
      if name = "" then (false, v)
      else
        match env.ruleGet name with
        | none => (false, v)
        | some type => doexpText env data values v (ruleText env name pIn pOut type)

/-- The value that a refresh stores for the node at `i`: `raw` is what was read, `converted` what the
node's value is set to. An expression's result is given up when `raw` exceeds a limit. -/
def refreshedValue (env : RefreshEnv) (data : ExtData) (s : RefreshState) (i : ℕ)
    (raw converted : VarValue) : VarValue :=
  let scaled := tryRefreshAiValue env.ops data converted
  let result := doexpValue env data (Function.update s.values i scaled) scaled
  if result.1 && !checkExtValue env.ops data raw then s.values i else result.2

/-- The body that `__SlaveRefreshExtDataWithRegs` and `__MasterRefreshExtDataWithRegs` share: the value
is read under one type, converted, scaled, put through the expression, and written back under the
output type. -/
def refreshNode (env : RefreshEnv) (type : EVarType) (rule : UInt8) (convert : VarValue → VarValue)
    (usAddress : ℕ) (s : RefreshState) (data : ExtData) (i : ℕ) : RefreshState :=
  let raw := vBigEdianExtData type rule (readUnion s.regs usAddress) (env.stack s usAddress)
  let value := refreshedValue env data s i raw (convert raw)
  { values := Function.update s.values i value
    regs := writeUnion s.regs usAddress
      (vBigEdianExtData data.xIo.btOutVarType data.xIo.btOutVarRuleType value
      (readUnion s.regs usAddress)) }

/-- `__SlaveRefreshExtDataWithRegs` -/
def slaveRefreshExtDataWithRegs (env : RefreshEnv) (vars : List ExtData) (s : RefreshState)
    (usAddress : ℕ) :
    RefreshState :=
  match coveringNode vars usAddress with
  | none => s
  | some (data, i) =>
    refreshNode env data.xIo.btOutVarType data.xIo.btOutVarRuleType id usAddress s data i

/-- `__MasterRefreshExtDataWithRegs` -/
def masterRefreshExtDataWithRegs (env : RefreshEnv) (vars : List ExtData) (s : RefreshState)
    (usAddress : ℕ) :
    RefreshState :=
  match coveringNode vars usAddress with
  | none => s
  | some (data, i) =>
    refreshNode env data.xIo.btInVarType data.xIo.btInVarRuleType
      (doSetOutValue env.ops data data.xIo.btInVarType) usAddress s data i

/-- `__refresh_regs`: `nregs` registers from `usAddr` on are taken from the buffer. -/
def refreshRegs (s : RefreshState) (regbuf : ℕ → UInt8) (usAddr nregs : ℕ) : RefreshState where
  values := s.values
  regs := fun b => if 2 * usAddr ≤ b ∧ b < 2 * usAddr + 2 * nregs then regbuf (b - 2 * usAddr)
    else s.regs b

/-- The test of `bVarManage_RefreshExtDataWithModbusMaster`. -/
def masterSelects (usDevType usDevNum : ℕ) (btSlaveAddr : UInt8) (usAddress usNRegs : ℕ)
    (data : ExtData) : Bool :=
  data.bEnable && data.xIo.usDevType.toNat = usDevType && data.xIo.usDevNum.toNat = usDevNum &&
    data.xIo.param.modbus.btSlaveAddr = btSlaveAddr && usAddress ≤
      data.xIo.param.modbus.usExtAddr.toNat &&
    typeRegs data.xIo.btInVarType + data.xIo.param.modbus.usExtAddr.toNat ≤ usAddress + usNRegs

/-- One node of `bVarManage_RefreshExtDataWithModbusMaster`. -/
def masterDeliver (env : RefreshEnv) (vars : List ExtData) (usDevType usDevNum : ℕ)
    (btSlaveAddr : UInt8)
    (usAddress usNRegs : ℕ) (pucRegBuffer : ℕ → UInt8) (s : RefreshState) (data : ExtData) :
    RefreshState :=
  if masterSelects usDevType usDevNum btSlaveAddr usAddress usNRegs data then
    let ofs := data.xIo.param.modbus.usExtAddr.toNat - usAddress
    masterRefreshExtDataWithRegs env vars
      (refreshRegs s (fun k => pucRegBuffer (2 * ofs + k)) data.xIo.usAddr.toNat
        (typeRegs data.xIo.btInVarType))
      data.xIo.usAddr.toNat
  else s

/-- `bVarManage_RefreshExtDataWithModbusMaster` -/
def refreshExtDataWithModbusMaster (env : RefreshEnv) (vars : List ExtData) (s : RefreshState)
    (usDevType usDevNum : ℕ) (btSlaveAddr : UInt8) (usAddress usNRegs : ℕ) (pucRegBuffer : ℕ → UInt8) :
    RefreshState :=
  vars.foldl (masterDeliver env vars usDevType usDevNum btSlaveAddr usAddress usNRegs pucRegBuffer) s

/-- `bVarManage_RefreshExtDataWithModbusSlave` without the write that it forwards to the device. -/
def refreshExtDataWithModbusSlave (env : RefreshEnv) (vars : List ExtData) (usNRegs : ℕ)
    (usAddress : UInt16)
    (s : RefreshState) : RefreshState :=
  if usNRegs = 0 then s
  else
    match coveringNode vars usAddress.toNat with
    | some (data, _) =>
      let nregs := typeRegs data.xIo.btOutVarType - (usAddress.toNat - data.xIo.usAddr.toNat)
      if 0 < nregs then
        refreshExtDataWithModbusSlave env vars (usNRegs - nregs) (usAddress + nregs.toUInt16)
          (slaveRefreshExtDataWithRegs env vars s usAddress.toNat)
      else refreshExtDataWithModbusSlave env vars (usNRegs - 1) (usAddress + 1) s
    | none => refreshExtDataWithModbusSlave env vars (usNRegs - 1) (usAddress + 1) s
  termination_by usNRegs

end DasEdge.VarManage
