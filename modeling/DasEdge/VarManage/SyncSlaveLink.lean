import DasEdge.VarManage.ExtData

/-!
# The poll plan

The two-level list `s_psync_slave`: variables are grouped into slave nodes, the register ranges of a
Modbus slave are kept ascending by address, and one pass merges ranges that touch. The merging pass
computes the ends of the ranges in 16 bits. The members of the unions `param` are constructors here:
a node is always read under the class that its own fields `dev_type`, `dev_num`, `proto_type` give.
-/

namespace DasEdge.VarManage

/-- `PROTO_DEV_IS_RS` -/
def protoDevIsRs (devType : ℕ) : Bool := devType ≤ 1

/-- `PROTO_DEV_IS_NET` or `PROTO_DEV_IS_GPRS` -/
def protoDevIsNetOrGprs (devType : ℕ) : Bool := devType = 2 || devType = 4

/-- `PROTO_DEV_IS_ZIGBEE` or `PROTO_DEV_IS_LORA` -/
def protoDevIsRadio (devType : ℕ) : Bool := devType = 3 || devType = 5

/-- `__proto_is_rtu_self` -/
def protoIsRtuSelf (devType devNum : ℕ) : Bool := devType = 100 && devNum < 8

/-- `__proto_is_rtu_self_mid` -/
def protoIsRtuSelfMid (devType : ℕ) : Bool := devType = 200

/-- `__proto_is_modbus` -/
def protoIsModbus (devType protoType : ℕ) : Bool :=
  if protoDevIsRs devType then protoType ≤ 1
  else if protoDevIsNetOrGprs devType then protoType ≤ 0 || protoType = 2
  else if protoDevIsRadio devType then protoType ≤ 1
  else false

/-- `__proto_is_obmodbus` -/
def protoIsObmodbus (devType protoType : ℕ) : Bool := protoDevIsRs devType && protoType = 5

/-- `__proto_is_dlt645` -/
def protoIsDlt645 (devType protoType : ℕ) : Bool :=
  protoDevIsRs devType && (protoType = 2 || protoType = 3)

/-- `__proto_is_mbus603` -/
def protoIsMbus603 (devType protoType : ℕ) : Bool := devType ≤ 1 && protoType = 6

/-- `__proto_is_dust` -/
def protoIsDust (devType protoType : ℕ) : Bool := devType ≤ 1 && protoType = 4

/-- `__proto_is_smf` -/
def protoIsSmf (devType protoType : ℕ) : Bool := protoDevIsNetOrGprs devType && protoType = 5

/-- `__proto_is_dh` -/
def protoIsDh (devType protoType : ℕ) : Bool := protoDevIsNetOrGprs devType && protoType = 7

/-- The branch that a device and protocol take in the functions on the poll plan. -/
inductive SyncClass where
  | self | selfMid | modbus | dlt645 | mbus603 | dust | smf | obmodbus | dh | none
  deriving DecidableEq, Repr

/-- The chain of tests that those functions share. -/
def syncClass (devType devNum protoType : ℕ) : SyncClass :=
  if protoIsRtuSelf devType devNum then .self
  else if protoIsRtuSelfMid devType then .selfMid
  else if protoIsModbus devType protoType then .modbus
  else if protoIsDlt645 devType protoType then .dlt645
  else if protoIsMbus603 devType protoType then .mbus603
  else if protoIsDust devType protoType then .dust
  else if protoIsSmf devType protoType then .smf
  else if protoIsObmodbus devType protoType then .obmodbus
  else if protoIsDh devType protoType then .dh
  else .none

/-- `_SYNC_EXT_MAX_SIZE` -/
def syncExtMaxSize : ℕ := 100

/-- The member `modbus` of `sync_ext_t`: a range of `size` registers from `addr` on. -/
structure SyncExtModbus where
  addr : UInt16
  ofs : UInt16
  size : UInt8
  deriving DecidableEq

/-- `sync_ext_t`; `blank` is a node whose union was never written. -/
inductive SyncExt where
  | self (addr : UInt16)
  | modbus (ext : SyncExtModbus)
  | dlt645 (addr : UInt16) (op : UInt32)
  | mbus603 (addr : UInt16) (op : UInt32)
  | dust (addr : UInt16) (op : UInt8)
  | smf (addr : UInt16) (op : UInt8)
  | obmodbus (addr ofs : UInt16) (size : UInt8)
  | dh (addr : UInt16) (key : List UInt8)
  | blank
  deriving DecidableEq

/-- The union `param` of `sync_slave_t`; `blank` is a union that was never written. -/
inductive SyncSlaveParam where
  | modbus (op slaveAddr : UInt8) (faAddr : Int8)
  | dlt645 (addr : List UInt8)
  | mbus603 (addr : UInt8)
  | obmodbus (op slaveAddr : UInt8)
  | dh (sid type : UInt32)
  | blank
  deriving DecidableEq

/-- `sync_slave_t` -/
structure SyncSlave where
  devType : UInt8
  devNum : UInt8
  protoType : UInt8
  param : SyncSlaveParam
  extList : List SyncExt
  deriving DecidableEq

/-- The class of a slave node. -/
def SyncSlave.syncClass (slave : SyncSlave) : SyncClass :=
  VarManage.syncClass slave.devType.toNat slave.devNum.toNat slave.protoType.toNat

/-- The class of a variable. -/
def ExtData.syncClass (data : ExtData) : SyncClass :=
  VarManage.syncClass data.xIo.usDevType.toNat data.xIo.usDevNum.toNat data.xIo.usProtoType.toNat

/-- The range of a Modbus variable as `__add_sync_slave_node` and `__add_sync_ext_node` store it. -/
def modbusExt (data : ExtData) : SyncExtModbus where
  addr := data.xIo.param.modbus.usExtAddr
  ofs := data.xIo.param.modbus.usAddrOfs
  size := (typeRegs data.xIo.btInVarType).toUInt8

/-- The ext node of a variable under a class. -/
def newSyncExt (data : ExtData) : SyncClass → SyncExt
  | .self | .selfMid => .self data.xIo.usAddr
  | .modbus => .modbus (modbusExt data)
  | .dlt645 => .dlt645 data.xIo.usAddr data.xIo.param.dlt645.op
  | .mbus603 => .mbus603 data.xIo.usAddr data.xIo.param.mbus603.op
  | .dust => .dust data.xIo.usAddr data.xIo.param.dustOp
  | .smf => .smf data.xIo.usAddr data.xIo.param.smfOp
  | .obmodbus => .obmodbus data.xIo.param.modbus.usExtAddr data.xIo.param.modbus.usAddrOfs
      data.btInVarSize.toUInt8
  | .dh => .dh data.xIo.usAddr data.xIo.param.dh.key
  | .none => .blank

/-- The union `param` that `__add_sync_slave_node` fills in under a class. -/
def newSyncSlaveParam (data : ExtData) : SyncClass → SyncSlaveParam
  | .modbus => .modbus data.xIo.param.modbus.btOpCode data.xIo.param.modbus.btSlaveAddr
      data.xIo.param.modbus.nSyncFAddr.toInt8
  | .dlt645 => .dlt645 data.xIo.param.dlt645.addr
  | .mbus603 => .mbus603 data.xIo.param.mbus603.addr
  | .obmodbus => .obmodbus data.xIo.param.modbus.btOpCode data.xIo.param.modbus.btSlaveAddr
  | .dh => .dh data.xIo.param.dh.sid data.xIo.param.dh.type
  | .self | .selfMid | .dust | .smf | .none => .blank

/-- `__add_sync_slave_node`: the node's fields are 8 bits wide and truncate those of the variable. -/
def addSyncSlaveNode (data : ExtData) : SyncSlave :=
  let devType := data.xIo.usDevType.toUInt8
  let devNum := data.xIo.usDevNum.toUInt8
  let protoType := data.xIo.usProtoType.toUInt8
  let cls := syncClass devType.toNat devNum.toNat protoType.toNat
  ⟨devType, devNum, protoType, newSyncSlaveParam data cls, [newSyncExt data cls]⟩

/-- A slave node has the device and protocol of a variable. -/
def syncSlaveHasDev (slave : SyncSlave) (data : ExtData) : Bool :=
  slave.devType.toNat = data.xIo.usDevType.toNat && slave.devNum.toNat = data.xIo.usDevNum.toNat &&
    slave.protoType.toNat = data.xIo.usProtoType.toNat

/-- The test of `__find_sync_slave_node`, which takes the first node that passes it. -/
def findSyncSlaveNode (data : ExtData) (slave : SyncSlave) : Bool :=
  match data.syncClass with
  | .self => slave.devType.toNat = data.xIo.usDevType.toNat && slave.devNum.toNat =
    data.xIo.usDevNum.toNat
  | .selfMid => slave.devType.toNat = data.xIo.usDevType.toNat
  | .modbus =>
    match slave.param with
    | .modbus op slaveAddr faAddr => op = data.xIo.param.modbus.btOpCode &&
        faAddr.toInt = data.xIo.param.modbus.nSyncFAddr.toInt &&
        slaveAddr = data.xIo.param.modbus.btSlaveAddr && syncSlaveHasDev slave data
    | _ => false
  | .dlt645 => slave.param = .dlt645 data.xIo.param.dlt645.addr && syncSlaveHasDev slave data
  | .mbus603 => slave.param = .mbus603 data.xIo.param.mbus603.addr && syncSlaveHasDev slave data
  | .dust | .smf => syncSlaveHasDev slave data
  | .obmodbus =>
    slave.param = .obmodbus data.xIo.param.modbus.btOpCode data.xIo.param.modbus.btSlaveAddr &&
      syncSlaveHasDev slave data
  | .dh => slave.param = .dh data.xIo.param.dh.sid data.xIo.param.dh.type && syncSlaveHasDev slave data
  | .none => false

/-- The insertion loop of `__add_sync_ext_node` for a Modbus slave: before the first greater address,
nothing for an equal node, else at the end. -/
def insertSyncExt (new : SyncExtModbus) : List SyncExt → List SyncExt
  | [] => [.modbus new]
  | .modbus ext :: rest =>
    if new.addr < ext.addr then .modbus new :: .modbus ext :: rest
    else if new.addr = ext.addr && new.ofs = ext.ofs && new.size = ext.size then .modbus ext :: rest
    else .modbus ext :: insertSyncExt new rest
  | ext :: rest => ext :: insertSyncExt new rest

/-- What `__add_sync_ext_node` does to the slave node it found. -/
def addExtToSlave (data : ExtData) (slave : SyncSlave) : SyncSlave :=
  match slave.syncClass with
  | .modbus => { slave with extList := insertSyncExt (modbusExt data) slave.extList }
  | .dh => slave
  | cls => { slave with extList := slave.extList ++ [newSyncExt data cls] }

/-- `__add_sync_ext_node`: in the first slave node that fits, or in a new one at the end. -/
def addSyncExtNode (data : ExtData) : List SyncSlave → List SyncSlave
  | [] => [addSyncSlaveNode data]
  | slave :: rest =>
    if findSyncSlaveNode data slave then addExtToSlave data slave :: rest
    else slave :: addSyncExtNode data rest

/-- The 16-bit end of a range. -/
def SyncExtModbus.addrEnd (ext : SyncExtModbus) : UInt16 := ext.addr + ext.size.toUInt16

/-- One round of `__trim_sync_slave_link`: what `node` becomes when `next` is merged into it or
dropped, or `none` when the round goes on to `next`. -/
def mergeSyncExt (node next : SyncExtModbus) : Option SyncExtModbus :=
  if node.addr.toNat + node.size.toNat ≥ next.addr.toNat then
    if node.addrEnd < next.addrEnd then
      if (next.addrEnd.toNat : ℤ) - node.addr.toNat ≤ syncExtMaxSize then
        some { node with size := (next.addrEnd - node.addr).toUInt8 }
      else none
    else some node
  else none

/-- The loop of `__trim_sync_slave_link` over the ranges of one slave node. -/
def trimExtList (node : SyncExtModbus) : List SyncExt → List SyncExt
  | [] => [.modbus node]
  | .modbus next :: rest =>
    match mergeSyncExt node next with
    | some merged => trimExtList merged rest
    | none => .modbus node :: trimExtList next rest
  | other :: rest => .modbus node :: other :: rest

/-- `__trim_sync_slave_link` on one slave node. -/
def trimSyncSlave (slave : SyncSlave) : SyncSlave :=
  if protoIsModbus slave.devType.toNat slave.protoType.toNat then
    match slave.extList with
    | .modbus node :: rest => { slave with extList := trimExtList node rest }
    | _ => slave
  else slave

/-- The plan that the loop of `__creat_sync_slave_link` hands to the merging pass. -/
def addedSyncSlaves (vars : List ExtData) : List SyncSlave :=
  vars.foldl (fun plan data => if data.bEnable then addSyncExtNode data plan else plan) []

/-- `__creat_sync_slave_link` -/
def creatSyncSlaveLink (vars : List ExtData) : List SyncSlave :=
  (addedSyncSlaves vars).map trimSyncSlave

end DasEdge.VarManage
