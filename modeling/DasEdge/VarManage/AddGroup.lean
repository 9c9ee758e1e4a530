import DasEdge.Library.CJson
import DasEdge.VarManage.ExtData

/-!
# Variables that are created together

The three calls that create the variables of a whole device: eight analog inputs, eight digital
ones, and the registers that a JSON description lists. Each of them answers its code and the
variables that it put at the end of the list, which it has also when it gives up half way. `room` is
the number of allocations that succeed.
-/

namespace DasEdge.VarManage

open DasEdge.Library

/-- `ExtData_t` with the name of its group. -/
structure ExtDataCfg extends ExtData where
  szGroup : String := ""
  deriving DecidableEq

/-- `WEBNET_ERR_GROUP_EXIST` -/
def webnetErrGroupExist : ℤ := -1001
/-- `WEBNET_ERR_NAME_EXIST` -/
def webnetErrNameExist : ℤ := -1002
/-- `WEBNET_ERR_NO_MEM` -/
def webnetErrNoMem : ℤ := -1003
/-- `WEBNET_ERR_PARAM` -/
def webnetErrParam : ℤ := -1004

/-- `snprintf` into a buffer of `size` bytes. -/
def snprintf (size : ℕ) (text : String) : String := String.ofList (text.toList.take (size - 1))

/-- `__var_has_group` -/
def varHasGroup (vars : List ExtDataCfg) (group : String) : Bool :=
  vars.any fun node => group = node.szGroup

/-- `__var_has_name` -/
def varHasName (vars : List ExtDataCfg) (name : String) : Bool :=
  vars.any fun node => name = node.szName

/-- The loop of `__var_get_next_addr`: `max_addr` and `sz`. -/
def varMaxAddr (vars : List ExtDataCfg) : UInt16 × ℕ :=
  vars.foldl (fun s node => if node.xIo.usAddr > s.1 then (node.xIo.usAddr, node.btOutVarSize)
    else s) (1024, 1)

/-- `__var_get_next_addr` -/
def varGetNextAddr (vars : List ExtDataCfg) : UInt16 :=
  (varMaxAddr vars).1 + UInt16.ofNat (((varMaxAddr vars).2 + 1) / 2)

/-- The loop that creates the variables of a group, with the addresses that a round leaves to the
next one. -/
def createLoop (make : ℕ → UInt16 → UInt16 → Option ExtDataCfg) (sz : UInt16) :
    ℕ → List ℕ → UInt16 → UInt16 → ℤ × List ExtDataCfg
  | _, [], _, _ => (0, [])
  | 0, _ :: _, _, _ => (webnetErrNoMem, [])
  | room + 1, n :: ns, extAddr, addr =>
    match make n extAddr addr with
    | none => (webnetErrParam, [])
    | some data =>
      let rest := createLoop make sz room ns (extAddr + sz) (addr + sz)
      (rest.1, data :: rest.2)

/-- The part of a created variable that is the same for every call. -/
def createdIo (inType outType : EVarType) (devType devNum proto op slaveAddr : Int32)
    (extAddr addr : UInt16) : ExtDataIo :=
  { btInVarType := inType, btOutVarType := outType
    usDevType := devType.toUInt32.toUInt16, usDevNum := devNum.toUInt32.toUInt16
    usProtoType := proto.toUInt32.toUInt16, usAddr := addr
    param := { modbus := { btOpCode := op.toUInt32.toUInt8, btSlaveAddr := slaveAddr.toUInt32.toUInt8, usExtAddr := extAddr } } }

/-- The variable of a round of `__var_add_ai`; its range is `0.0` to `20.0`. -/
def aiVar (group pre : String) (slaveAddr devType devNum : Int32) (n : ℕ) (extAddr addr : UInt16) :
    ExtDataCfg :=
  { szGroup := group, eAttr := .ai, szName := snprintf 33 (pre ++ "_AI_" ++ toString (n + 1))
    xIo := createdIo .float .float devType devNum 0 3 slaveAddr extAddr addr
    cfgAi := { range := 1, unit := 3, extRangeMin := 0, extRangeMax := 0x41A00000, extFactor := 0 } }

/-- `__var_add_ai` -/
def varAddAi (room : ℕ) (vars : List ExtDataCfg) (id pre : String) (slaveAddr devType devNum : Int32) :
    ℤ × List ExtDataCfg :=
  let group := snprintf 33 ("AI_" ++ id)
  if varHasGroup vars group then (webnetErrGroupExist, [])
  else if (List.range 8).any fun n =>
    varHasName vars (snprintf 32 (pre ++ "_AI_" ++ toString (n + 1))) then
    (webnetErrNameExist, [])
  else
    createLoop (fun n extAddr addr =>
      some (aiVar group pre slaveAddr devType devNum n extAddr addr)) 2 room (List.range 8)
      50 (varGetNextAddr vars)

/-- The name that `__var_add_ttl` looks for in a round of its first loop. -/
def ttlCheckedName (devType1 : Int32) (pre : String) (n : ℕ) : Option String :=
  let di := pre ++ "_TTL_DI_"
  let dout := pre ++ "_TTL_DO_"
  if devType1 = 0 then some (snprintf 32 (if n < 4 then di ++ toString (n + 1)
    else dout ++ toString (n - 3)))
  else if devType1 = 1 then some (snprintf 32 (if n < 4 then dout ++ toString (n + 1)
    else di ++ toString (n - 3)))
  else if devType1 = 2 then some (snprintf 32 (di ++ toString (n + 1)))
  else if devType1 = 3 then some (snprintf 32 (dout ++ toString (n + 1)))
  else none

/-- The attribute and the name that `__var_add_ttl` gives in a round of its second loop. The eight
inputs or outputs are counted from 0 here, where the first loop counts them from 1. -/
def ttlCreatedName (devType1 : Int32) (pre : String) (n : ℕ) : Option (EVarAttr × String) :=
  let di := pre ++ "_TTL_DI_"
  let dout := pre ++ "_TTL_DO_"
  if devType1 = 0 then
    some (if n < 4 then (.di, snprintf 33 (di ++ toString (n + 1)))
      else (.do, snprintf 33 (dout ++ toString (n - 3))))
  else if devType1 = 1 then
    some (if n < 4 then (.do, snprintf 33 (dout ++ toString (n + 1)))
      else (.di, snprintf 33 (di ++ toString (n - 3))))
  else if devType1 = 2 then some (.di, snprintf 33 (di ++ toString n))
  else if devType1 = 3 then some (.do, snprintf 33 (dout ++ toString n))
  else none

/-- The variable of a round of `__var_add_ttl`. -/
def ttlVar (devType1 : Int32) (group pre : String) (slaveAddr devType devNum : Int32) (n : ℕ)
    (extAddr addr : UInt16) :
    Option ExtDataCfg :=
  (ttlCreatedName devType1 pre n).map fun name =>
    { szGroup := group, eAttr := name.1, szName := name.2
      xIo := createdIo .uint16 .uint16 devType devNum 0 3 slaveAddr extAddr addr }

/-- The first loop of `__var_add_ttl`: the code with which it ends the call, if it does. -/
def ttlCheck (vars : List ExtDataCfg) (devType1 : Int32) (pre : String) : List ℕ → Option ℤ
  | [] => none
  | n :: ns =>
    match ttlCheckedName devType1 pre n with
    | none => some webnetErrParam
    | some name => if varHasName vars name then some webnetErrNameExist
      else ttlCheck vars devType1 pre ns

/-- `__var_add_ttl` -/
def varAddTtl (room : ℕ) (vars : List ExtDataCfg) (devType1 : Int32) (id pre : String)
    (slaveAddr devType devNum : Int32) : ℤ × List ExtDataCfg :=
  let group := snprintf 33 ("TTL_" ++ toString 0 ++ "_" ++ id)
  if varHasGroup vars group then (webnetErrGroupExist, [])
  else match ttlCheck vars devType1 pre (List.range 8) with
    | some rc => (rc, [])
    | none =>
      createLoop (ttlVar devType1 group pre slaveAddr devType devNum) 1 room (List.range 8) 70
        (varGetNextAddr vars)

/-- `varmanage_type_from_string` -/
def varmanageTypeFromString (type : String) : EVarType :=
  if strcasecmp type "BIT" then .bit
  else if strcasecmp type "INT8" then .int8
  else if strcasecmp type "UINT8" then .uint8
  else if strcasecmp type "INT16" then .int16
  else if strcasecmp type "UINT16" then .uint16
  else if strcasecmp type "INT32" then .int32
  else if strcasecmp type "UINT32" then .uint32
  else if strcasecmp type "FLOAT" then .float
  else if strcasecmp type "DOUBLE" then .double
  else .error

/-- `varmanage_endian_from_string`, or `none` for -1. -/
def varmanageEndianFromString (type : EVarType) (endian : String) : Option ℕ :=
  match type with
  | .int32 | .uint32 | .float => ["AB CD", "CD AB", "BA DC", "DC BA"].findIdx? (strcasecmp endian)
  | .double =>
    ["AB CD EF GH", "GH EF CD AB", "BA DC FE HG", "HG FE DC BA"].findIdx? (strcasecmp endian)
  | _ => none

/-- The first loop of `__varmanage_add_dev_with_json`: the code with which it ends the call, if it
does. -/
def regsCheck (vars : List ExtDataCfg) : List CJson → Option ℤ
  | [] => none
  | reg :: regs =>
    match reg.getString "name" with
    | none => some webnetErrParam
    | some name =>
      if name.length = 0 ∨ 32 < name.length then some webnetErrParam
      else if varHasName vars name then some webnetErrNameExist
      else regsCheck vars regs

/-- A text that is given and not empty. -/
def given (text : Option String) : Option String := text.filter fun s => s.length ≠ 0

/-- An endian that is given is one of the type. -/
def endianCheck (type : EVarType) (endian : Option String) : Bool :=
  match given endian with
  | some text => (varmanageEndianFromString type text).isSome
  | none => true

/-- The checks that `__varmanage_add_dev_with_json` makes on the members of a register behind its
name: the types of the variable, or `none` for `WEBNET_ERR_PARAM`. -/
def regTypes (reg : CJson) : Option (EVarType × EVarType) := do
  let op := reg.getInt "op" 3
  let regAddr := reg.getInt "reg_addr" (-1)
  guard (0 ≤ regAddr ∧ regAddr ≤ 0xFFFF)
  guard (op = 3 ∨ op = 4)
  let inText ← given (reg.getString "in_type")
  let inType := varmanageTypeFromString inText
  guard (inType ≠ .error)
  let outType := ((given (reg.getString "out_type")).map varmanageTypeFromString).getD inType
  guard (outType ≠ .error)
  guard (endianCheck inType (reg.getString "in_endian"))
  guard (endianCheck outType (reg.getString "out_endian"))
  return (inType, outType)

/-- The second loop of `__varmanage_add_dev_with_json`, which takes the next address anew for every
register. The first loop has seen to it that every register has a name. -/
def regsLoop (group : String) (slave devType devNum proto : Int32) :
    ℕ → List ExtDataCfg → List CJson → ℤ × List ExtDataCfg
  | _, _, [] => (0, [])
  | room, vars, reg :: regs =>
    let name := (reg.getString "name").getD ""
    if varHasName vars name then (webnetErrNameExist, [])
    else match regTypes reg with
      | none => (webnetErrParam, [])
      | some (inType, outType) =>
        match room with
        | 0 => (webnetErrNoMem, [])
        | room + 1 =>
          let data : ExtDataCfg :=
            { szGroup := group, szName := name
              xIo := createdIo inType outType devType devNum proto (reg.getInt "op" 3) slave
                (reg.getInt "reg_addr" (-1)).toUInt32.toUInt16 (varGetNextAddr vars) }
          let rest := regsLoop group slave devType devNum proto room (vars ++ [data]) regs
          (rest.1, data :: rest.2)

/-- `__varmanage_add_dev_with_json` -/
def varmanageAddDevWithJson (room : ℕ) (vars : List ExtDataCfg) (obj : CJson)
    (devType devNum proto : Int32) :
    ℤ × List ExtDataCfg :=
  let slave := obj.getInt "slave" (-1)
  match obj.getString "group" with
  | none => (webnetErrParam, [])
  | some group =>
    if group.length = 0 ∨ 32 < group.length then (webnetErrParam, [])
    else if varHasGroup vars group then (webnetErrGroupExist, [])
    else if slave < 1 ∨ 247 < slave then (webnetErrParam, [])
    else match obj.getObjectItem "regs" with
      | some (.array (reg :: regs)) =>
        match regsCheck vars (reg :: regs) with
        | some rc => (rc, [])
        | none => regsLoop group slave devType devNum proto room vars (reg :: regs)
      | _ => (webnetErrParam, [])

end DasEdge.VarManage
