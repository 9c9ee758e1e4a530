import DasEdge.Wireless.NodeRegistryRuns
import Mathlib.Data.Int.Notation

/-!
# The Zigbee nodes

`zgb_std.c`: the registry with the fields and the times of a Zigbee node. Times are seconds in 32
bits, and are taken as they are. A node is only online by an announcement.
-/

namespace DasEdge.Zigbee

open DasEdge.Library DasEdge.Wireless

/-- The fields of `zgb_mnode_t` that a LoRa node has not in the same way. -/
structure ZgbMnode where
  workmode : UInt8
  mac : List UInt8
  rssi : UInt8
  uptime : UInt32
  lasttime : UInt32
  offtime : UInt32

/-- `zgb_std_scan_t` -/
structure ZgbStdScan extends SnodeInfo where
  workmode : UInt8
  netid : UInt16
  mac : List UInt8
  rssi : UInt8

/-- The registry of `zgb_std.c`. -/
abbrev ZgbNodes := NodeRegistry UInt16 ZgbMnode

/-- What an announcement at a time does to the times of a node. -/
def ZgbMnode.heard (now : UInt32) (online : Bool) (mnode : ZgbMnode) : ZgbMnode :=
  let mnode := { mnode with lasttime := now }
  if online then mnode else { mnode with uptime := now, offtime := 0 }

/-- `zgb_mnode_insert` -/
def zgbMnodeInsert (fuel : ℕ) (reg : ZgbNodes) (info : ZgbStdScan) (now : UInt32) (p q : ℕ) :
    Option (Option ℕ × ZgbNodes) :=
  mnodeInsert fuel reg info.netid
    { workmode := info.workmode, mac := info.mac, rssi := info.rssi, uptime := now, lasttime := now, offtime := 0 }
    (fun online mnode => { mnode.heard now online with workmode := info.workmode, rssi := info.rssi }) info.toSnodeInfo p q

/-- `zgb_mnode_rm_with_id` -/
def zgbMnodeRmWithId (fuel : ℕ) (reg : ZgbNodes) (netid : UInt16) : Option ZgbNodes :=
  mnodeRmWithId fuel reg netid

/-- `zgb_mnode_rm_all` -/
def zgbMnodeRmAll (fuel : ℕ) (reg : ZgbNodes) : Option ZgbNodes := mnodeRmAll fuel reg

/-- What `zgb_check_online` does with one node. -/
def zgbCheckNode (now learnStep : UInt32) (online : Bool) (mnode : ZgbMnode) :
    Option (Bool × ZgbMnode) :=
  if online then
    if mnode.lasttime > now ∨ now - mnode.lasttime ≥ learnStep * 4 then
      some (false, { mnode with offtime := now - learnStep * 3 })
    else some (true, mnode)
  else if now - mnode.offtime ≥ learnStep * 10 then none
  else some (false, mnode)

/-- `zgb_check_online` -/
def zgbCheckOnline (fuel : ℕ) (reg : ZgbNodes) (now learnStep : UInt32) : Option ZgbNodes :=
  checkOnline fuel reg (zgbCheckNode now learnStep)

/-- `zgb_set_dst_node` -/
def zgbSetDstNode (fuel : ℕ) (reg : ZgbNodes) (setDstAddr : UInt16 → Bool) (type : ℕ) (addr : ℤ) :
    Option (Option UInt16 × Bool) :=
  setDstNode fuel reg setDstAddr type addr

/-- A call on the registry, with the time at which it is made. -/
inductive ZgbNodeOp where
  | insert (info : ZgbStdScan) (now : UInt32) (p q : ℕ)
  | rmWithId (netid : UInt16)
  | rmAll
  | checkOnline (now learnStep : UInt32)

/-- One call, with the node that it returns. -/
def zgbNodeStep (fuel : ℕ) (reg : ZgbNodes) : ZgbNodeOp → Option (Option ℕ × ZgbNodes)
  | .insert info now p q => zgbMnodeInsert fuel reg info now p q
  | .rmWithId netid => (zgbMnodeRmWithId fuel reg netid).map fun reg => (none, reg)
  | .rmAll => (zgbMnodeRmAll fuel reg).map fun reg => (none, reg)
  | .checkOnline now learnStep => (zgbCheckOnline fuel reg now learnStep).map fun reg => (none, reg)

/-- The call as one on any registry. -/
def ZgbNodeOp.call : ZgbNodeOp → NodeOp UInt16 ZgbMnode
  | .insert info now p q => .insert info.netid
      { workmode := info.workmode, mac := info.mac, rssi := info.rssi, uptime := now, lasttime := now, offtime := 0 }
      (fun online mnode => { mnode.heard now online with workmode := info.workmode, rssi := info.rssi }) info.toSnodeInfo p q
  | .rmWithId netid => .rmWithId netid
  | .rmAll => .rmAll
  | .checkOnline now learnStep => .checkOnline (zgbCheckNode now learnStep)

/-- A call is the one on any registry. -/
theorem zgbNodeStep_eq (fuel : ℕ) (reg : ZgbNodes) (op : ZgbNodeOp) : zgbNodeStep fuel reg op = nodeStep fuel reg op.call := by
  cases op <;> rfl

end DasEdge.Zigbee
