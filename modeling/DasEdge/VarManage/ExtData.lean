import Mathlib.Data.Fintype.Pi

/-!
# Collected variables

The fields of `ExtData_t` that the list, the poll plan and the refresh paths of `varmanage.c` read
or write. A stored value is the eight bytes of the union `VarValue_v`, and the numbers that the code
keeps as `float` are kept as their bit patterns. The protocol parameters are a union as well. Its
members are separate fields here: a search that reads the member of another protocol finds any value
in it, as it does in the code.
-/

namespace DasEdge.VarManage

/-- `eVarType`; `error` stands for every code from `E_VAR_ERROR` on. -/
inductive EVarType where
  | bit | int8 | uint8 | int16 | uint16 | int32 | uint32 | float | double | array | error
  deriving DecidableEq, Repr

/-- `g_var_type_sz`: the size in bytes that goes with a type. -/
def gVarTypeSz : EVarType → ℕ
  | .bit | .int8 | .uint8 | .array => 1
  | .int16 | .uint16 => 2
  | .int32 | .uint32 | .float => 4
  | .double => 8
  | .error => 0

/-- `(size+1)/2`: the number of registers that a value of the type takes. -/
def typeRegs (type : EVarType) : ℕ := (gVarTypeSz type + 1) / 2

/-- The eight bytes of the union `VarValue_v`. -/
abbrev VarValue := Fin 8 → UInt8

/-- `eVarAttr` -/
inductive EVarAttr where
  | none | ai | di | do
  deriving DecidableEq, Repr

/-- `ExtData_IO_modbus_t` -/
structure ExtDataIoModbus where
  btOpCode : UInt8 := 3
  nSyncFAddr : Int32 := 0
  btSlaveAddr : UInt8 := 0
  usExtAddr : UInt16 := 0
  usAddrOfs : UInt16 := 0
  deriving DecidableEq

/-- `ExtData_IO_dlt645_t` -/
structure ExtDataIoDlt645 where
  addr : List UInt8 := []
  op : UInt32 := 0
  deriving DecidableEq

/-- `ExtData_IO_mbus603_t` -/
structure ExtDataIoMbus603 where
  addr : UInt8 := 0
  op : UInt32 := 0
  deriving DecidableEq

/-- `ExtData_IO_dh_t` -/
structure ExtDataIoDh where
  sid : UInt32 := 0
  type : UInt32 := 0
  key : List UInt8 := []
  deriving DecidableEq

/-- `ExtData_IO_Param_t` -/
structure ExtDataIoParam where
  modbus : ExtDataIoModbus := {}
  dlt645 : ExtDataIoDlt645 := {}
  mbus603 : ExtDataIoMbus603 := {}
  dustOp : UInt8 := 0
  smfOp : UInt8 := 0
  dh : ExtDataIoDh := {}
  deriving DecidableEq

/-- `ExtData_IO_Exp_t` with the tag `exp_type`. -/
inductive ExtDataIoExp where
  | exp (szExp : Option String)
  | rule (name pIn pOut : Option String)
  deriving DecidableEq

/-- `ExtData_AI_cfg_t`; `range` and `unit` are the codes of `eRangeType_t` and `eUnitType_t`. -/
structure ExtDataAiCfg where
  range : ℕ := 0
  unit : ℕ := 0
  extRangeMin : UInt32 := 0
  extRangeMax : UInt32 := 0
  extFactor : UInt32 := 0
  deriving DecidableEq

/-- `ExtData_IO_t`. The sizes `btInVarSize` and `btOutVarSize` are not stored: every writer sets them
to the size of the type. -/
structure ExtDataIo where
  btInVarType : EVarType := .uint16
  btInVarRuleType : UInt8 := 0
  btOutVarType : EVarType := .uint16
  btOutVarRuleType : UInt8 := 0
  fMax : UInt32 := 0
  fMin : UInt32 := 0
  bUseMax : Bool := false
  bUseMin : Bool := false
  usDevType : UInt16 := 0
  usDevNum : UInt16 := 0
  usProtoType : UInt16 := 0
  usAddr : UInt16 := 0
  param : ExtDataIoParam := {}
  exp : ExtDataIoExp := .exp none
  deriving DecidableEq

/-- `ExtData_t` without its links and its stored value. -/
structure ExtData where
  bEnable : Bool := true
  szName : String := ""
  eAttr : EVarAttr := .none
  xIo : ExtDataIo := {}
  cfgAi : ExtDataAiCfg := {}
  deriving DecidableEq

/-- `btInVarSize` -/
def ExtData.btInVarSize (data : ExtData) : ℕ := gVarTypeSz data.xIo.btInVarType

/-- `btOutVarSize` -/
def ExtData.btOutVarSize (data : ExtData) : ℕ := gVarTypeSz data.xIo.btOutVarType

/-- `prvCheckExeDataEnable` with `PROTO_DEV_CHECK`. -/
def prvCheckExeDataEnable (data : ExtData) : Bool :=
  data.bEnable && data.xIo.btInVarType ≠ .error && data.xIo.btOutVarType ≠ .error &&
    1024 ≤ data.xIo.usAddr && data.xIo.usAddr ≤
      10240 && (data.xIo.usDevType ≤ 4 || data.xIo.usDevType = 200)

/-- No type takes more than four registers. -/
theorem typeRegs_le (type : EVarType) : typeRegs type ≤ 4 := by
  cases type <;> decide

end DasEdge.VarManage
