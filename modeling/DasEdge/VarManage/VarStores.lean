import DasEdge.Board.BoardCfg
import DasEdge.Library.GuardedRun
import DasEdge.Library.LinkedWalk
import DasEdge.VarManage.AddGroup
import DasEdge.VarManage.ExtDataInfo
import DasEdge.VarManage.ExtDataListInvariant

/-!
# The list of variables and its table

The requests that add, edit and delete variables work on the list in memory and on the table
`cfg_varext`. A node of the list carries the name and the address, which is all that the calls on
the list look at; its configuration is kept beside it by the address of the node. The name of a
variable is put into the text of a statement as it is, so which rows that text selects is given;
otherwise the database executes what it gets. A request comes with what its allocations give it, and
answers `none` where the code runs over its buffer, or where a loop does not end within the rounds
it is given.
-/

namespace DasEdge.VarManage

open DasEdge.Library DasEdge.Board

/-- What a name does to a statement that ends in `WHERE name='%s'`: whether `DELETE` and `UPDATE`
succeed, and which names they select. `DELETE` goes to `sqlite3_exec`, which may carry out a first
statement and fail at what follows it. -/
structure SqlName where
  deleteOk : String → Bool
  deletes : String → String → Bool
  updateOk : String → Bool
  updates : String → String → Bool

/-- The list in memory and the database. -/
structure VarStores where
  list : ExtDataList
  info : ℕ → ExtDataInfo
  db : CfgDb

/-- What a variable gets from outside: a node, memory for the copy of it, for the JSON object and
for its text, and the time. -/
structure StoreRoom where
  p : ℕ
  copy : Bool
  object : Bool
  text : Bool
  time : ℤ

/-- What the list carries of a variable. -/
def listNode (info : ExtDataInfo) : ExtData :=
  { szName := info.szName, xIo := { usAddr := info.xIo.usAddr } }

/-- `vVarManage_InsertNode` -/
def insertVar (fuel : ℕ) (st : VarStores) (p : ℕ) (info : ExtDataInfo) : Option VarStores :=
  (insertNode fuel st.list p (listNode info)).map fun list =>
    { st with list := list, info := Function.update st.info p info }

/-- The configuration of a node is written. -/
def writeVar (st : VarStores) (p : ℕ) (info : ExtDataInfo) : Option VarStores :=
  (setData st.list.heap p (listNode info)).map fun h =>
    { st with list := { st.list with heap := h }, info := Function.update st.info p info }

/-- `__sort_extdata_link` -/
def sortVars (fuel : ℕ) (st : VarStores) : Option VarStores :=
  (sortExtdataLink fuel st.list).map fun list => { st with list := list }

/-- The text that is stored of a variable, if there is memory for it. -/
def storedText (env : CJsonEnv) (room : StoreRoom) (info : ExtDataInfo) : Option String :=
  if room.text then some (env.print (jsonFillExtDataInfo env info)) else none

/-- `board_cfg_varext_add` of a copy of a variable. -/
def varextAdd (env : CJsonEnv) (sql : SqlName) (room : StoreRoom) (info : ExtDataInfo)
    (db : CfgDb) : CfgDb :=
  if room.copy then
    (boardCfgVarextAdd sql.deletes db info.szName (storedText env room info) room.time ⟨room.object,
      true, true, true⟩).2
  else db

/-- `board_cfg_varext_update` with a copy of a variable. -/
def varextUpdate (env : CJsonEnv) (sql : SqlName) (room : StoreRoom) (name : String)
    (info : ExtDataInfo) (db : CfgDb) : CfgDb :=
  if room.copy ∧ db.sCfgDbinit ∧ room.object ∧ sql.updateOk name then
    let set :=
      fun row : CfgTextRow => { row with name := some info.szName, cfg := storedText env room info }
    { db with cfgVarext := sqlUpdate (CfgTextRow.selected sql.updates name) set db.cfgVarext }
  else db

/-- `board_cfg_varext_del`. The statement is printed into a buffer of 256 bytes. -/
def varextDel (sql : SqlName) (name : String) (db : CfgDb) : Option (Bool × CfgDb) :=
  if db.sCfgDbinit then
    if 256 < "DELETE FROM cfg_varext WHERE name='".length + name.length + 2 then none
    else some (sql.deleteOk name,
      { db with cfgVarext := sqlDelete (CfgTextRow.selected sql.deletes name) db.cfgVarext })
  else some (false, db)

/-- `while (data && n--) data = data->next` -/
def nodeAt (h : LinkHeap ExtData) : ℕ → Option ℕ → Option (Option ℕ)
  | 0, data => some data
  | _ + 1, none => some none
  | n + 1, some p => do nodeAt h n (← h p).next

/-- `setVarManageExtDataWithJson`; `calloc` says whether there is memory for a new node. -/
def setVarManageExtDataWithJson (env : CJsonEnv) (sql : SqlName) (fuel : ℕ) (st : VarStores)
    (pCfg : CJsonItem) (calloc : Bool)
    (room : StoreRoom) : Option VarStores :=
  let n := pCfg.getInt "n" (-1)
  if 0 ≤ n then
    if st.list.n < (n + 1).toInt then
      if calloc then do
        let st ← insertVar fuel st room.p {}
        let info := jsonParseExtDataInfo env pCfg {}
        let st ← writeVar st room.p info
        sortVars fuel { st with db := varextAdd env sql room info st.db }
      else sortVars fuel st
    else do
      match ← nodeAt st.list.heap n.toInt.toNat st.list.pList with
      | some p =>
        let dataBak := st.info p
        let info := jsonParseExtDataInfo env pCfg dataBak
        let st ← writeVar st p info
        sortVars fuel { st with db := varextUpdate env sql room dataBak.szName info st.db }
      | none => sortVars fuel st
  else some st

/-- `delVarManageExtData` -/
def delVarManageExtData (sql : SqlName) (fuel : ℕ) (st : VarStores) (pCfg : CJsonItem) :
    Option VarStores :=
  match pCfg.getString "na" with
  | some name =>
    if 0 < name.length then do
      let (ret, db) ← varextDel sql name st.db
      let list ← if ret then (removeNodeWithName fuel st.list name).map Prod.snd else some st.list
      sortVars fuel { st with list := list, db := db }
    else some st
  | none => some st

/-- `btInVarType` or `btOutVarType` of a type. -/
def typeCode : EVarType → UInt8
  | .bit => 0
  | .int8 => 1
  | .uint8 => 2
  | .int16 => 3
  | .uint16 => 4
  | .int32 => 5
  | .uint32 => 6
  | .float => 7
  | .double => 8
  | .array => 9
  | .error => 10

/-- `eAttr` of an attribute. -/
def attrCode : EVarAttr → Int32
  | .none => 0
  | .ai => 1
  | .di => 2
  | .do => 3

/-- The configuration of a variable that is created with a group. -/
def createdInfo (data : ExtDataCfg) : ExtDataInfo :=
  let modbus := data.xIo.param.modbus
  { bEnable := data.bEnable, szGroup := data.szGroup, szName := data.szName,
    eAttr := attrCode data.eAttr
    xIo :=
      { btInVarType := typeCode data.xIo.btInVarType, btOutVarType := typeCode data.xIo.btOutVarType
        usDevType := data.xIo.usDevType, usDevNum := data.xIo.usDevNum, usProtoType :=
        data.xIo.usProtoType
        usAddr := data.xIo.usAddr
        param := putParam (putParam (putParam (List.replicate 24 0) 0 [modbus.btOpCode]) 8
        [modbus.btSlaveAddr]) 10
          (uint16Bytes modbus.usExtAddr) }
    ai :=
      { range := Int32.ofNat data.cfgAi.range, unit := Int32.ofNat data.cfgAi.unit, extRangeMin := data.cfgAi.extRangeMin
        extRangeMax := data.cfgAi.extRangeMax, extFactor := data.cfgAi.extFactor } }

/-- What the calls that create groups look at in a variable. -/
def groupView (info : ExtDataInfo) : ExtDataCfg :=
  { szGroup := info.szGroup, szName := info.szName
    xIo := { usAddr := info.xIo.usAddr, btOutVarType := eVarTypeOf info.xIo.btOutVarType } }

/-- The variables of the list, from its start on. -/
def liveInfos (fuel : ℕ) (st : VarStores) : List ExtDataInfo :=
  (linkedNodes st.list.heap fuel st.list.pList).map fun node => st.info node.1

/-- A variable of a group is put at the end of the list, and stored. -/
def createVar (env : CJsonEnv) (sql : SqlName) (fuel : ℕ) (st : VarStores)
    (made : ExtDataCfg × StoreRoom) :
    Option (Unit × VarStores) :=
  (insertVar fuel st made.2.p (createdInfo made.1)).map fun st =>
    ((), { st with db := varextAdd env sql made.2 (createdInfo made.1) st.db })

/-- A call that creates a group: the variables it makes are stored one after another, and the list
is sorted unless it gives up. -/
def createGroup (env : CJsonEnv) (sql : SqlName) (fuel : ℕ) (st : VarStores)
    (made : ℤ × List ExtDataCfg)
    (rooms : List StoreRoom) : Option VarStores :=
  (runBlocking (createVar env sql fuel) st (made.2.zip rooms)).bind fun r =>
    if made.1 = 0 then sortVars fuel r.2 else some r.2

/-- The calls that create groups. -/
inductive GroupCall where
  | ai (id pre : String) (slaveAddr devType devNum : Int32)
  | ttl (devType1 : Int32) (id pre : String) (slaveAddr devType devNum : Int32)
  | dev (obj : CJson) (devType devNum proto : Int32)

/-- `__var_add_ai`, `__var_add_ttl` and `__varmanage_add_dev_with_json`: the code and the variables
they make. -/
def GroupCall.made (room : ℕ) (vars : List ExtDataCfg) : GroupCall → ℤ × List ExtDataCfg
  | .ai id pre slaveAddr devType devNum => varAddAi room vars id pre slaveAddr devType devNum
  | .ttl devType1 id pre slaveAddr devType devNum =>
    varAddTtl room vars devType1 id pre slaveAddr devType devNum
  | .dev obj devType devNum proto => varmanageAddDevWithJson room vars obj devType devNum proto

/-- A request, with what its allocations give it. -/
inductive VarRequest where
  | set (pCfg : CJsonItem) (calloc : Bool) (room : StoreRoom)
  | del (pCfg : CJsonItem)
  | add (call : GroupCall) (rooms : List StoreRoom)

/-- The variables that a call makes in a state. -/
def groupMade (fuel : ℕ) (st : VarStores) (call : GroupCall) (rooms : List StoreRoom) :
    ℤ × List ExtDataCfg :=
  call.made rooms.length ((liveInfos fuel st).map groupView)

/-- One request. -/
def varRequest (env : CJsonEnv) (sql : SqlName) (fuel : ℕ) (st : VarStores) :
    VarRequest → Option (Unit × VarStores)
  | .set pCfg calloc room =>
    (setVarManageExtDataWithJson env sql fuel st pCfg calloc room).map fun st => ((), st)
  | .del pCfg => (delVarManageExtData sql fuel st pCfg).map fun st => ((), st)
  | .add call rooms =>
    (createGroup env sql fuel st (groupMade fuel st call rooms) rooms).map fun st => ((), st)

/-- The variables that `board_cfg_varext_loadlist` makes of the rows of the table. -/
def loadedInfos (env : CJsonEnv) (db : CfgDb) : List ExtDataInfo :=
  (boardCfgVarextLoadlist db).filterMap fun row => (env.parse row.2).map fun item =>
    jsonParseExtDataInfo env item {}

/-- A variable by its name and its configuration. -/
def described (env : CJsonEnv) (info : ExtDataInfo) : String × CJsonItem :=
  (info.szName, jsonFillExtDataInfo env info)

/-- The stored variables are the live ones, name by name and configuration by configuration. -/
def StoresAgree (env : CJsonEnv) (fuel : ℕ) (st : VarStores) : Prop :=
  ((loadedInfos env st.db).map (described env)).Perm ((liveInfos fuel st).map (described env))

end DasEdge.VarManage
