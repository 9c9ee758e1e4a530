import DasEdge.Library.BcdText
import DasEdge.Library.CJsonItem
import DasEdge.Library.WordBytes
import DasEdge.VarManage.SyncSlaveLink

/-!
# The configuration of a variable as JSON

The fields of `ExtData_t` that `jsonParseExtDataInfo` reads from a JSON object and
`jsonFillExtDataInfo` writes into one. The unions are kept as they lie in memory: the parameters as
bytes, where the members start at the offsets that their alignment gives, and the texts of an
expression or a rule as three pointers. What `jsonFillExtDataInfo` writes of the value is left out.
-/

namespace DasEdge.VarManage

open DasEdge.Library

/-- The pointers of `ExtData_IO_Exp_t`: `szExp` is the same one as `rule.name`. -/
structure InfoExp where
  name : Option String := none
  pIn : Option String := none
  pOut : Option String := none
  deriving DecidableEq

/-- `ExtData_IO_t`. The sizes of the types are not kept, they go with the types. -/
structure InfoIo where
  btErrOp : UInt8 := 0
  btErrCnt : UInt8 := 0
  btRWType : UInt8 := 0
  btInVarType : UInt8 := 0
  btInVarRuleType : UInt8 := 0
  btOutVarType : UInt8 := 0
  btOutVarRuleType : UInt8 := 0
  bUseMax : Bool := false
  bUseMin : Bool := false
  bUseInit : Bool := false
  bUseRatio : Bool := false
  fMax : UInt32 := 0
  fMin : UInt32 := 0
  fInit : UInt32 := 0
  fRatio : UInt32 := 0
  usDevType : UInt16 := 0
  usDevNum : UInt16 := 0
  usProtoType : UInt16 := 0
  szProtoName : Option String := none
  usAddr : UInt16 := 0
  param : List UInt8 := List.replicate 24 0
  expType : Int32 := 0
  exp : InfoExp := {}
  deriving DecidableEq

/-- `ExtData_Storage_t` -/
structure InfoStorage where
  bEnable : Bool := false
  ulStep : UInt32 := 0
  btType : UInt8 := 0
  bCheck : Bool := false
  fMax : UInt32 := 0
  fMin : UInt32 := 0
  deriving DecidableEq

/-- `ExtData_Up_t` -/
structure InfoUp where
  bEnable : Bool := false
  szNid : Option String := none
  szFid : Option String := none
  szUnit : Option String := none
  pi : UInt8 := 0
  usDevType : UInt16 := 0
  usDevNum : UInt16 := 0
  usProtoType : UInt16 := 0
  szProtoName : Option String := none
  szDesc : Option String := none
  deriving DecidableEq

/-- `ExtData_AI_cfg_t` -/
structure InfoAi where
  range : Int32 := 0
  unit : Int32 := 0
  extRangeMin : UInt32 := 0
  extRangeMax : UInt32 := 0
  extFactor : UInt32 := 0
  deriving DecidableEq

/-- `ExtData_t`, all zero as it is allocated. -/
structure ExtDataInfo where
  bEnable : Bool := false
  szGroup : String := ""
  szName : String := ""
  szAlias : String := ""
  eAttr : Int32 := 0
  xIo : InfoIo := {}
  xAlarm : Bool := false
  xStorage : InfoStorage := {}
  xUp : InfoUp := {}
  ai : InfoAi := {}
  deriving DecidableEq

/-- The type of a code; the codes from `E_VAR_ERROR` on have no size. -/
def eVarTypeOf (code : UInt8) : EVarType :=
  ([.bit, .int8, .uint8, .int16, .uint16, .int32, .uint32, .float, .double,
    .array] : List EVarType).getD code.toNat .error

/-- The integer of a small field. -/
def int8 (n : UInt8) : Int32 := n.toUInt32.toInt32

/-- The integer of a field of 16 bits. -/
def int16 (n : UInt16) : Int32 := n.toUInt32.toInt32

/-- The number in `width` bytes from a position on. -/
def paramWord (param : List UInt8) (pos width : ℕ) : ℕ :=
  digitSum 256 (fun i => (param.getD (pos + i) 0).toNat) width

/-- Bytes are written at a position. -/
def putParam (param : List UInt8) (pos : ℕ) (bytes : List UInt8) : List UInt8 :=
  param.take pos ++ bytes ++ param.drop (pos + bytes.length)

/-- A field of one byte. -/
def paramUInt8 (param : List UInt8) (pos : ℕ) : UInt8 := param.getD pos 0

/-- A field of two bytes. -/
def paramUInt16 (param : List UInt8) (pos : ℕ) : UInt16 := UInt16.ofNat (paramWord param pos 2)

/-- A field of four bytes. -/
def paramUInt32 (param : List UInt8) (pos : ℕ) : UInt32 := UInt32.ofNat (paramWord param pos 4)

/-- `HEX_CH_TO_NUM` -/
def hexChToNum (c : UInt8) : UInt8 := if c ≤ 57 then c - 48 else c - 65 + 10

/-- The bytes that a text of hexadecimal digits gives, the last one first. -/
def hexBytes : List UInt8 → List UInt8
  | high :: low :: rest => hexBytes rest ++ [(hexChToNum high <<< 4) + hexChToNum low]
  | _ => []

/-- `strncpy` of at most 32 characters behind which the buffer is zero. -/
def strncpy (text : String) : String := String.ofList (text.toList.take 32)

/-- A text is put in place of an allocated one, unless it is empty. -/
def dupText (old : Option String) : Option String → Option String
  | none => old
  | some text => if text.toList = [] then none else some text

/-- A flag is set by a number that is not negative. -/
def flagOf (old : Bool) (itmp : Int32) : Bool := if 0 ≤ itmp then itmp ≠ 0 else old

/-- The part of `jsonParseExtDataInfo` for the parameters of the protocol. -/
def parseParam (pIo : CJsonItem) (devType protoType : ℕ) (param : List UInt8) : List UInt8 :=
  if protoIsModbus devType protoType || protoIsObmodbus devType protoType then
    let op := (pIo.getInt "mbop" (int8 (paramUInt8 param 0))).toUInt32.toUInt8
    let param := putParam param 0 [if op = 0 then 3 else op]
    let param :=
      putParam param 4 (uint32Bytes (pIo.getInt "sfa" (paramUInt32 param 4).toInt32).toUInt32)
    let param := putParam param 8 [(pIo.getInt "sa" (int8 (paramUInt8 param 8))).toUInt32.toUInt8]
    let param :=
      putParam param 10 (uint16Bytes
      (pIo.getInt "ea" (int16 (paramUInt16 param 10))).toUInt32.toUInt16)
    putParam param 12 (uint16Bytes (pIo.getInt "ao" (int16 (paramUInt16 param 12))).toUInt32.toUInt16)
  else if protoIsDlt645 devType protoType then
    let param := match pIo.getString "dltad" with
      | some text => if text.length = 12 then putParam param 0 (hexBytes (bytesOf text)) else param
      | none => param
    putParam param 8 (uint32Bytes (pIo.getInt "dltop" (paramUInt32 param 8).toInt32).toUInt32)
  else if protoIsMbus603 devType protoType then
    let param := putParam param 0 [(pIo.getInt "mbus603ad" 0).toUInt32.toUInt8]
    putParam param 4 (uint32Bytes (pIo.getInt "mbus603op" (paramUInt32 param 4).toInt32).toUInt32)
  else if protoIsDust devType protoType then
    putParam param 0 [(pIo.getInt "dustop" (int8 (paramUInt8 param 0))).toUInt32.toUInt8]
  else if protoIsSmf devType protoType then
    putParam param 0 [(pIo.getInt "smfop" (int8 (paramUInt8 param 0))).toUInt32.toUInt8]
  else if protoIsDh devType protoType then
    let param :=
      putParam param 0 (uint32Bytes (pIo.getInt "dhsid" (paramUInt32 param 0).toInt32).toUInt32)
    let param :=
      putParam param 4 (uint32Bytes (pIo.getInt "dhtype" (paramUInt32 param 4).toInt32).toUInt32)
    match pIo.getString "dhkey" with
    | some text => if text.length < 16 then putParam param 8 (bytesOf text ++ [0]) else param
    | none => param
  else param

/-- The part of `jsonParseExtDataInfo` for the expression or the rule. -/
def parseExp (pIo : CJsonItem) (expType : Int32) (exp : InfoExp) : InfoExp :=
  if expType = 0 then { exp with name := dupText exp.name (pIo.getString "exp") }
  else if expType = 1 then
    match pIo.getObjectItem "rule" with
    | some rule =>
      { name := dupText exp.name (rule.getString "name"), pIn := dupText exp.pIn (rule.getString "p_in")
        pOut := dupText exp.pOut (rule.getString "p_out") }
    | none => exp
  else exp

/-- A rule type that is one. -/
def ruleType (code : Int32) : UInt8 :=
  let type := code.toUInt32.toUInt8
  if 4 ≤ type then 0 else type

/-- The part of `jsonParseExtDataInfo` for `io`. -/
def parseIo (env : CJsonEnv) (pIo : CJsonItem) (io : InfoIo) : InfoIo :=
  let inType := (pIo.getInt "vt" (int8 io.btInVarType)).toUInt32.toUInt8
  let inRule := ruleType (pIo.getInt "vrl" (int8 io.btInVarRuleType))
  let useMax := (pIo.getObjectItem "vma").isSome
  let useMin := (pIo.getObjectItem "vmi").isSome
  let useInit := (pIo.getObjectItem "vii").isSome
  let useRatio := (pIo.getObjectItem "vrt").isSome
  let number := fun (key : String) (old : UInt32) => env.toFloat (pIo.getDouble key (env.ofFloat old))
  let devType := (pIo.getInt "dt" (int16 io.usDevType)).toUInt32.toUInt16
  let protoType := (pIo.getInt "pt" (int16 io.usProtoType)).toUInt32.toUInt16
  let expType := pIo.getInt "exp_t" 0
  { btErrOp := (pIo.getInt "eop" (int8 io.btErrOp)).toUInt32.toUInt8
    btErrCnt := (pIo.getInt "ecnt" (int8 io.btErrCnt)).toUInt32.toUInt8
    btRWType := (pIo.getInt "rw" (int8 io.btRWType)).toUInt32.toUInt8
    btInVarType := inType
    btInVarRuleType := inRule
    btOutVarType := (pIo.getInt "ovt" (int8 inType)).toUInt32.toUInt8
    btOutVarRuleType := ruleType (pIo.getInt "ovrl" (int8 inRule))
    bUseMax := useMax, bUseMin := useMin, bUseInit := useInit, bUseRatio := useRatio
    fMax := if useMax then number "vma" io.fMax else io.fMax
    fMin := if useMin then number "vmi" io.fMin else io.fMin
    fInit := if useInit then number "vii" io.fInit else io.fInit
    fRatio := if useRatio then number "vrt" io.fRatio else io.fRatio
    usDevType := devType
    usDevNum := (pIo.getInt "dtn" (int16 io.usDevNum)).toUInt32.toUInt16
    usProtoType := protoType
    szProtoName := dupText io.szProtoName (pIo.getString "pnm")
    usAddr := (pIo.getInt "ad" (int16 io.usAddr)).toUInt32.toUInt16
    param := parseParam pIo devType.toNat protoType.toNat io.param
    expType := expType
    exp := parseExp pIo expType io.exp }

/-- The part of `jsonParseExtDataInfo` for `storage`. -/
def parseStorage (env : CJsonEnv) (pStorage : CJsonItem) (storage : InfoStorage) : InfoStorage :=
  { bEnable := flagOf storage.bEnable (pStorage.getInt "se" (-1))
    ulStep := (pStorage.getInt "ss" storage.ulStep.toInt32).toUInt32
    btType := (pStorage.getInt "st" (int8 storage.btType)).toUInt32.toUInt8
    bCheck := flagOf storage.bCheck (pStorage.getInt "sc" (-1))
    fMax := env.toFloat (pStorage.getDouble "sma" (env.ofFloat storage.fMax))
    fMin := env.toFloat (pStorage.getDouble "smi" (env.ofFloat storage.fMin)) }

/-- The part of `jsonParseExtDataInfo` for `up`. -/
def parseUp (pUp : CJsonItem) (up : InfoUp) : InfoUp :=
  { bEnable := flagOf up.bEnable (pUp.getInt "en" (-1))
    szNid := dupText up.szNid (pUp.getString "nid")
    szFid := dupText up.szFid (pUp.getString "fid")
    szUnit := dupText up.szUnit (pUp.getString "unit")
    pi := (pUp.getInt "pi" 4).toUInt32.toUInt8
    usDevType := (pUp.getInt "dt" (int16 up.usDevType)).toUInt32.toUInt16
    usDevNum := (pUp.getInt "dtn" (int16 up.usDevNum)).toUInt32.toUInt16
    usProtoType := (pUp.getInt "pt" (int16 up.usProtoType)).toUInt32.toUInt16
    szProtoName := dupText up.szProtoName (pUp.getString "pnm")
    szDesc := dupText up.szDesc (pUp.getString "desc") }

/-- The part of `jsonParseExtDataInfo` for the `cfg` of an analog input. -/
def parseAi (env : CJsonEnv) (pCfg : CJsonItem) : InfoAi :=
  let number := fun (key : String) => env.toFloat (pCfg.getDouble key 0)
  { range := pCfg.getInt "range" 0, unit := pCfg.getInt "unit" 0
    extRangeMin := number "rmin", extRangeMax := number "rmax", extFactor := number "fact" }

/-- `jsonParseExtDataInfo` -/
def jsonParseExtDataInfo (env : CJsonEnv) (pItem : CJsonItem) (data : ExtDataInfo) : ExtDataInfo :=
  let text := fun (key old : String) => ((pItem.getString key).map strncpy).getD old
  let eAttr := pItem.getInt "attr" data.eAttr
  { bEnable := flagOf data.bEnable (pItem.getInt "en" (-1))
    szGroup := text "gp" data.szGroup
    szName := text "na" data.szName
    szAlias := text "al" data.szAlias
    eAttr := eAttr
    xIo := ((pItem.getObjectItem "io").map fun pIo => parseIo env pIo data.xIo).getD data.xIo
    xAlarm := ((pItem.getObjectItem "alarm").map fun pAlarm =>
    flagOf data.xAlarm (pAlarm.getInt "en" (-1))).getD data.xAlarm
    xStorage :=
    ((pItem.getObjectItem "storage").map fun pStorage =>
    parseStorage env pStorage data.xStorage).getD data.xStorage
    xUp := ((pItem.getObjectItem "up").map fun pUp => parseUp pUp data.xUp).getD data.xUp
    ai := if eAttr = 1 then ((pItem.getObjectItem "cfg").map (parseAi env)).getD data.ai else data.ai }

/-- The size that goes with the code of a type. -/
def typeSz (code : UInt8) : ℕ := gVarTypeSz (eVarTypeOf code)

/-- Two hexadecimal digits, as `%02X` writes them. -/
def hexText (b : UInt8) : String :=
  String.ofList [(Nat.digitChar (b.toNat / 16)).toUpper, (Nat.digitChar (b.toNat % 16)).toUpper]

/-- The text of an allocated string, or an empty one. -/
def textItem (text : Option String) : CJsonItem := .string (text.getD "")

/-- A flag as a number. -/
def flagItem (env : CJsonEnv) (flag : Bool) : CJsonItem := env.createInt flag.toNat

/-- An integer field as a number. -/
def natItem (env : CJsonEnv) (n : ℕ) : CJsonItem := env.createInt n

/-- A field of single precision as a number. -/
def floatItem (env : CJsonEnv) (x : UInt32) : CJsonItem := env.createNumber (env.ofFloat x)

/-- The part of `jsonFillExtDataInfo` for the parameters of the protocol. -/
def fillParam (env : CJsonEnv) (devType protoType : ℕ) (param : List UInt8) :
    List (String × CJsonItem) :=
  if protoIsModbus devType protoType || protoIsObmodbus devType protoType then
    [("mbop", natItem env (paramUInt8 param 0).toNat), ("sa", natItem env (paramUInt8 param 8).toNat),
      ("sfa", env.createInt (paramUInt32 param 4).toInt32.toInt),
      ("ea", natItem env (paramUInt16 param 10).toNat),
      ("ao", natItem env (paramUInt16 param 12).toNat)]
  else if protoIsDlt645 devType protoType then
    [("dltad", .string (String.join ((List.range 6).map fun i => hexText (paramUInt8 param (5 - i))))),
      ("dltop", natItem env (paramUInt32 param 8).toNat)]
  else if protoIsMbus603 devType protoType then
    [("mbus603ad", natItem env (paramUInt8 param 0).toNat),
      ("mbus603op", natItem env (paramUInt32 param 4).toNat)]
  else if protoIsDust devType protoType then [("dustop", natItem env (paramUInt8 param 0).toNat)]
  else if protoIsSmf devType protoType then [("smfop", natItem env (paramUInt8 param 0).toNat)]
  else if protoIsDh devType protoType then
    [("dhsid", natItem env (paramUInt32 param 0).toNat),
      ("dhtype", natItem env (paramUInt32 param 4).toNat),
      ("dhkey", .string (textOf (((param.drop 8).take 16).takeWhile (· ≠ 0))))]
  else []

/-- The part of `jsonFillExtDataInfo` for the expression or the rule. -/
def fillExp (expType : Int32) (exp : InfoExp) : List (String × CJsonItem) :=
  if expType = 0 then [("exp", textItem exp.name)]
  else if expType = 1 then [("rule",
    .object [("name", textItem exp.name), ("p_in", textItem exp.pIn),
    ("p_out", textItem exp.pOut)])]
  else []

/-- A number that is only written when it is used. -/
def fillUsed (env : CJsonEnv) (key : String) (used : Bool) (x : UInt32) : List (String × CJsonItem) :=
  if used then [(key, floatItem env x)] else []

/-- The part of `jsonFillExtDataInfo` for `io`. -/
def fillIo (env : CJsonEnv) (io : InfoIo) : List (String × CJsonItem) :=
  [("eop", natItem env io.btErrOp.toNat), ("ecnt", natItem env io.btErrCnt.toNat),
    ("rw", natItem env io.btRWType.toNat),
    ("vt", natItem env io.btInVarType.toNat), ("vs", natItem env (typeSz io.btInVarType)),
    ("ovt", natItem env io.btOutVarType.toNat), ("ovs", natItem env (typeSz io.btOutVarType)),
    ("vrl", natItem env io.btInVarRuleType.toNat), ("ovrl", natItem env io.btOutVarRuleType.toNat)] ++
  fillUsed env "vma" io.bUseMax io.fMax ++ fillUsed env "vmi" io.bUseMin io.fMin ++
  fillUsed env "vii" io.bUseInit io.fInit ++ fillUsed env "vrt" io.bUseRatio io.fRatio ++
  [("dt", natItem env io.usDevType.toNat), ("dtn", natItem env io.usDevNum.toNat),
  ("pt", natItem env io.usProtoType.toNat),
    ("pnm", textItem io.szProtoName), ("ad", natItem env io.usAddr.toNat)] ++
  fillParam env io.usDevType.toNat io.usProtoType.toNat io.param ++
  [("exp_t", env.createInt io.expType.toInt)] ++ fillExp io.expType io.exp

/-- The part of `jsonFillExtDataInfo` for `storage`. -/
def fillStorage (env : CJsonEnv) (storage : InfoStorage) : List (String × CJsonItem) :=
  [("se", flagItem env storage.bEnable), ("ss", natItem env storage.ulStep.toNat),
    ("st", natItem env storage.btType.toNat),
    ("sc", flagItem env storage.bCheck), ("sma", floatItem env storage.fMax),
    ("smi", floatItem env storage.fMin)]

/-- The part of `jsonFillExtDataInfo` for `up`. -/
def fillUp (env : CJsonEnv) (up : InfoUp) : List (String × CJsonItem) :=
  [("en", flagItem env up.bEnable), ("nid", textItem up.szNid), ("fid", textItem up.szFid),
    ("unit", textItem up.szUnit),
    ("pi", natItem env up.pi.toNat), ("dt", natItem env up.usDevType.toNat),
    ("dtn", natItem env up.usDevNum.toNat),
    ("pt", natItem env up.usProtoType.toNat), ("pnm", textItem up.szProtoName),
    ("desc", textItem up.szDesc)]

/-- The part of `jsonFillExtDataInfo` for the `cfg` of an analog input. -/
def fillAi (env : CJsonEnv) (ai : InfoAi) : List (String × CJsonItem) :=
  [("range", env.createInt ai.range.toInt), ("unit", env.createInt ai.unit.toInt),
    ("rmin", floatItem env ai.extRangeMin),
    ("rmax", floatItem env ai.extRangeMax), ("fact", floatItem env ai.extFactor)]

/-- `jsonFillExtDataInfo` into an empty object, without the value `va`. -/
def jsonFillExtDataInfo (env : CJsonEnv) (data : ExtDataInfo) : CJsonItem :=
  .object [("en", flagItem env data.bEnable), ("gp", .string data.szGroup),
    ("na", .string data.szName), ("al", .string data.szAlias),
    ("attr", env.createInt data.eAttr.toInt), ("io", .object (fillIo env data.xIo)),
    ("alarm", .object [("en", flagItem env data.xAlarm)]),
    ("storage", .object (fillStorage env data.xStorage)),
    ("up", .object (fillUp env data.xUp)),
    ("cfg", .object (if data.eAttr = 1 then fillAi env data.ai else []))]

end DasEdge.VarManage
