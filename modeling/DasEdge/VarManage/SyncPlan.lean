import DasEdge.Library.LinkedWalk
import DasEdge.VarManage.SyncSlaveLink

/-!
# The nodes of the poll plan

The poll plan as it is linked in memory. The ext nodes of a slave node are linked both ways. The
slave nodes are only appended and walked, so they are a list here, with their addresses. Allocations
succeed and number the nodes. A walk is given a round for each number that was handed out; no result
means that they are spent, or that a link to no node is followed.
-/

namespace DasEdge.VarManage

open DasEdge.Library

/-- The address of an ext node. -/
def SyncExt.addr : SyncExt → UInt16
  | .self addr | .dlt645 addr _ | .mbus603 addr _ | .dust addr _ | .smf addr _ | .obmodbus addr
    _ _ | .dh addr _ => addr
  | .modbus ext => ext.addr
  | .blank => 0

/-- The address, offset and size of an ext node that has them. -/
def SyncExt.range : SyncExt → Option (UInt16 × UInt16 × UInt8)
  | .modbus ext => some (ext.addr, ext.ofs, ext.size)
  | .obmodbus addr ofs size => some (addr, ofs, size)
  | _ => none

/-- `sync_slave_t` at its address, with the link to its first ext node. -/
structure SyncSlaveCell where
  addr : ℕ
  devType : UInt8
  devNum : UInt8
  protoType : UInt8
  param : SyncSlaveParam
  extList : Option ℕ

/-- The slave node with the ext nodes that it links. -/
def SyncSlaveCell.slave (cell : SyncSlaveCell) (extList : List SyncExt) : SyncSlave :=
  ⟨cell.devType, cell.devNum, cell.protoType, cell.param, extList⟩

/-- The class of a slave node. -/
def SyncSlaveCell.syncClass (cell : SyncSlaveCell) : SyncClass :=
  VarManage.syncClass cell.devType.toNat cell.devNum.toNat cell.protoType.toNat

/-- `s_psync_slave` with the nodes it links, and the number of the next node. -/
structure SyncPlan where
  exts : LinkHeap SyncExt
  brk : ℕ
  slaves : List SyncSlaveCell

/-- `__add_sync_slave_node`, with the nodes `p` and `p + 1`. -/
def addSyncSlaveCell (data : ExtData) (exts : LinkHeap SyncExt) (p : ℕ) :
    LinkHeap SyncExt × SyncSlaveCell :=
  let slave := addSyncSlaveNode data
  (Function.update exts (p + 1) (some ⟨newSyncExt data slave.syncClass, none, none⟩),
    ⟨p, slave.devType, slave.devNum, slave.protoType, slave.param, some (p + 1)⟩)

/-- The loop of `__add_sync_ext_node` over a Modbus slave node, with the new node `p`: the nodes and
the first of them when it returns from inside, and nothing when it comes to the end. -/
def insertSyncExtAt (new : SyncExtModbus) (p : ℕ) (exts : LinkHeap SyncExt) (start : Option ℕ) :
    ℕ → Option ℕ → Option (Option (LinkHeap SyncExt × Option ℕ))
  | 0, _ => none
  | _ + 1, none => some none
  | fuel + 1, some q =>
    (exts q).bind fun node =>
      match node.data with
      | .modbus ext =>
        if new.addr < ext.addr then (insertLink exts start p q).map some
        else if new.addr = ext.addr && new.ofs = ext.ofs && new.size = ext.size then
          some (some (Function.update exts p none, start))
        else insertSyncExtAt new p exts start fuel node.next
      | _ => insertSyncExtAt new p exts start fuel node.next

/-- What `__add_sync_ext_node` does to the slave node it found, with the new node `p`. -/
def addExtToCell (data : ExtData) (exts : LinkHeap SyncExt) (p : ℕ) (cell : SyncSlaveCell) :
    Option (LinkHeap SyncExt × SyncSlaveCell) :=
  let exts' := Function.update exts p (some ⟨newSyncExt data cell.syncClass, none, none⟩)
  let atEnd :=
    (appendLink (p + 1) exts' cell.extList p).map fun r => (r.1, { cell with extList := r.2 })
  match cell.syncClass with
  | .modbus =>
    (insertSyncExtAt (modbusExt data) p exts' cell.extList (p + 1) cell.extList).bind fun
      | some r => some (r.1, { cell with extList := r.2 })
      | none => atEnd
  | .dh => some (exts, cell)
  | _ => atEnd

/-- `__add_sync_ext_node` on the slave nodes from one on. -/
def addSyncExtCell (data : ExtData) (exts : LinkHeap SyncExt) (p : ℕ) :
    List SyncSlaveCell → Option (LinkHeap SyncExt × List SyncSlaveCell)
  | [] =>
    let r := addSyncSlaveCell data exts p
    some (r.1, [r.2])
  | cell :: rest =>
    if findSyncSlaveNode data (cell.slave []) then
      (addExtToCell data exts p cell).map fun r => (r.1, r.2 :: rest)
    else (addSyncExtCell data exts p rest).map fun r => (r.1, cell :: r.2)

/-- A round of the loop of `__creat_sync_slave_link`. -/
def addSyncPlan (data : ExtData) (plan : SyncPlan) : Option SyncPlan :=
  if data.bEnable then
    (addSyncExtCell data plan.exts plan.brk plan.slaves).map fun r => ⟨r.1, plan.brk + 2, r.2⟩
  else some plan

/-- The plan that the loop of `__creat_sync_slave_link` builds, when the next node has the number
`brk`. -/
def addedSyncPlan (brk : ℕ) (vars : List ExtData) : Option SyncPlan :=
  vars.foldlM (fun plan data => addSyncPlan data plan) ⟨fun _ => none, brk, []⟩

/-- The loop of `__trim_sync_slave_link` over the ext nodes of a slave node from one on. -/
def trimExtNodes : ℕ → LinkHeap SyncExt → ℕ → Option (LinkHeap SyncExt)
  | 0, _, _ => none
  | fuel + 1, exts, p =>
    (exts p).bind fun node =>
      match node.next with
      | none => some exts
      | some q =>
        (exts q).bind fun next =>
          match node.data, next.data with
          | .modbus a, .modbus b =>
            match mergeSyncExt a b with
            | none => trimExtNodes fuel exts q
            | some merged =>
              (setData exts p (.modbus merged)).bind fun exts =>
                (setNext exts p next.next).bind fun exts =>
                (setBack exts next.next (some p)).bind fun exts =>
                  trimExtNodes fuel (Function.update exts q none) p
          | _, _ => some exts

/-- A round of `__trim_sync_slave_link`. -/
def trimSyncCell (fuel : ℕ) (exts : LinkHeap SyncExt) (cell : SyncSlaveCell) :
    Option (LinkHeap SyncExt) :=
  match cell.extList with
  | some p => if protoIsModbus cell.devType.toNat cell.protoType.toNat then trimExtNodes fuel exts p
    else some exts
  | none => some exts

/-- `__trim_sync_slave_link` on the slave nodes from one on. -/
def trimSyncCells (fuel : ℕ) (exts : LinkHeap SyncExt) : List SyncSlaveCell → Option (LinkHeap SyncExt)
  | [] => some exts
  | cell :: rest => (trimSyncCell fuel exts cell).bind fun exts => trimSyncCells fuel exts rest

/-- `__creat_sync_slave_link`, which has freed the old plan first. -/
def creatSyncPlan (brk : ℕ) (vars : List ExtData) : Option SyncPlan :=
  (addedSyncPlan brk vars).bind fun plan =>
    (trimSyncCells (plan.brk + 1) plan.exts plan.slaves).map fun exts => { plan with exts := exts }

end DasEdge.VarManage

/-!
# The cursor of the polling task

The polling task keeps a slave node and an ext node. Each call looks for them in the plan, moves on
to the next pair, or to the first one when they are not in the plan, and copies the fields of the
pair. A pointer to a slave node is its address, and what it leads to are the slave nodes from there
on.
-/

namespace DasEdge.VarManage

open DasEdge.Library

/-- The union `param` of `sync_node_t`. -/
inductive SyncNodeParam where
  | self (addr : UInt16)
  | modbus (op slaveAddr : UInt8) (extAddr extOfs : UInt16) (extSize : UInt8)
  | dlt645 (dlt645Addr : List UInt8) (addr : UInt16) (op : UInt32)
  | mbus603 (mbusAddr : UInt8) (addr : UInt16) (op : UInt32)
  | dust (addr : UInt16) (op : UInt8)
  | smf (addr : UInt16) (op : UInt8)
  | obmodbus (op slaveAddr : UInt8) (extAddr extOfs : UInt16) (extSize : UInt8)
  | dh (sid type : UInt32) (key : List UInt8) (addr : UInt16)
  | blank

/-- `sync_node_t` -/
structure SyncNode where
  devType : UInt8
  devNum : UInt8
  protoType : UInt8
  param : SyncNodeParam

/-- The pointers `slave` and `ext` of the task. -/
abbrev SyncCursor := Option ℕ × Option ℕ

/-- The slave nodes from an address on. -/
def slavesFrom (plan : SyncPlan) (addr : ℕ) : List SyncSlaveCell :=
  plan.slaves.dropWhile (·.addr ≠ addr)

/-- The inner loop of `__isexist_sync_ext`. -/
def existsExt (exts : LinkHeap SyncExt) (ext : ℕ) : ℕ → Option ℕ → Option Bool
  | 0, _ => none
  | _ + 1, none => some false
  | fuel + 1, some p => if ext = p then some true else (exts p).bind fun node =>
    existsExt exts ext fuel node.next

/-- `__isexist_sync_ext` -/
def isexistSyncExt (plan : SyncPlan) (slave ext : ℕ) : Option Bool :=
  match slavesFrom plan slave with
  | cell :: _ => existsExt plan.exts ext (plan.brk + 1) cell.extList
  | [] => some false

/-- The first pair of slave nodes. -/
def firstOf (slaves : List SyncSlaveCell) (ext : Option ℕ) : SyncCursor :=
  match slaves with
  | cell :: _ => (some cell.addr, cell.extList)
  | [] => (none, ext)

/-- The move of `__get_next_sync_ext_node`. Behind the last pair the slave node is null and the ext
node stays. -/
def moveCursor (plan : SyncPlan) : SyncCursor → Option SyncCursor
  | (some slave, some ext) =>
    (isexistSyncExt plan slave ext).bind fun found =>
      if found then
        (plan.exts ext).map fun node =>
          match node.next with
          | some next => (some slave, some next)
          | none => firstOf (slavesFrom plan slave).tail (some ext)
      else some (firstOf plan.slaves none)
  | _ => some (firstOf plan.slaves none)

/-- The member of `param` that `__get_next_sync_ext_node` fills in for a pair. The field `op` of an
ext node for `mbus603` has eight bits. -/
def syncNodeParam (old : SyncNodeParam) (cell : SyncSlaveCell) (ext : SyncExt) : SyncNodeParam :=
  match cell.syncClass, cell.param, ext with
  | .self, _, .self addr => .self addr
  | .selfMid, _, .self addr => .self addr
  | .modbus, .modbus op slaveAddr _, .modbus ext => .modbus op slaveAddr ext.addr ext.ofs ext.size
  | .dlt645, .dlt645 dlt645Addr, .dlt645 addr op => .dlt645 dlt645Addr addr op
  | .mbus603, .mbus603 mbusAddr, .mbus603 addr op => .mbus603 mbusAddr addr op.toUInt8.toUInt32
  | .dust, _, .dust addr op => .dust addr op
  | .smf, _, .smf addr op => .smf addr op
  | .obmodbus, .obmodbus op slaveAddr, .obmodbus addr ofs size => .obmodbus op slaveAddr addr ofs size
  | .dh, .dh sid type, .dh addr key => .dh sid type key addr
  | _, _, _ => old

/-- `__get_next_sync_ext_node`: what it returns, the pointers, and `node`. -/
def getNextSyncExtNode (plan : SyncPlan) (cursor : SyncCursor) (node : SyncNode) :
    Option (Bool × SyncCursor × SyncNode) :=
  (moveCursor plan cursor).bind fun cursor =>
    match cursor with
    | (some slave, some ext) =>
      (slavesFrom plan slave).head?.bind fun cell => (plan.exts ext).map fun extNode =>
        (true, cursor, ⟨cell.devType, cell.devNum, cell.protoType,
          syncNodeParam node.param cell extNode.data⟩)
    | _ => some (false, cursor, node)

/-- Calls that are fed their own results, until one returns `VAR_FALSE`: the pointers and the nodes
of the others, and the pointers at the end. -/
def pollRound (plan : SyncPlan) : ℕ → SyncCursor → SyncNode →
    Option (List (SyncCursor × SyncNode) × SyncCursor)
  | 0, _, _ => none
  | calls + 1, cursor, node =>
    (getNextSyncExtNode plan cursor node).bind fun r =>
      if r.1 then (pollRound plan calls r.2.1 r.2.2).map fun rest => (r.2 :: rest.1, rest.2)
        else some ([], r.2.1)

end DasEdge.VarManage
