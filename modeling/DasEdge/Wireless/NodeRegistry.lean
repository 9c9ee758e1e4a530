import DasEdge.Library.LinkedWalk
import Mathlib.Data.Int.Notation

/-!
# The registry of wireless nodes

`lora_std.c` and its copy `zgb_std.c` keep the nodes that have announced themselves in a doubly
linked list. Each node has a doubly linked list of sub-nodes, one for a protocol type, with the
slave addresses behind the node. The two files do the same with the links. They differ in the fields
that a node has besides, and in what they do with its times, so that these are parameters here. A
loop is given a number of rounds, and there is no result when they are spent or when a link to no
node is followed.
-/

namespace DasEdge.Wireless

open DasEdge.Library

/-- `lora_snode_t`, `zgb_snode_t`. The array `lst` has `cnt` addresses. -/
structure Snode where
  type : UInt8
  cnt : UInt8
  lst : List UInt8
  deriving DecidableEq

/-- `lora_mnode_t`, `zgb_mnode_t`: the fields that both have in the same way, and the others. -/
structure Mnode (ν δ : Type) where
  netid : ν
  online : Bool
  data : δ
  snode : Option ℕ

/-- The nodes from `s_lora_mnode` or `s_zgb_mnode` on, and all sub-nodes. -/
structure NodeRegistry (ν δ : Type) where
  mnodes : LinkHeap (Mnode ν δ)
  start : Option ℕ
  snodes : LinkHeap Snode

/-- `LORA_SN_T_MODBUS_RTU`, `ZGB_SN_T_MODBUS_RTU` -/
def snTModbusRtu : UInt8 := 0

/-- `LORA_SN_T_MODBUS_ASCII`, `ZGB_SN_T_MODBUS_ASCII` -/
def snTModbusAscii : UInt8 := 1

/-- What an announcement says of the sub-nodes; `data` is the memory from the first address on. -/
structure SnodeInfo where
  type : UInt8
  cnt : UInt8
  data : ℕ → UInt8

/-- The addresses that are announced. -/
def SnodeInfo.addrs (info : SnodeInfo) : List UInt8 := (List.range info.cnt.toNat).map info.data

/-- The array that `_snode_insert` makes: addresses are only copied for the two Modbus types. -/
def SnodeInfo.lst (info : SnodeInfo) : List UInt8 :=
  if info.type = snTModbusRtu ∨ info.type = snTModbusAscii then info.addrs
    else List.replicate info.cnt.toNat 0

variable {ν δ : Type} [DecidableEq ν]

/-- A sub-node has an address of a type. -/
def Snode.hasAddr (type : ℕ) (addr : ℤ) (snode : Snode) : Bool :=
  snode.type.toNat = type && 0 < snode.cnt && snode.lst.any fun a => (a.toNat : ℤ) = addr

/-- `_snode_find_with_addr` -/
def snodeFindWithAddr (fuel : ℕ) (reg : NodeRegistry ν δ) (mnode : Mnode ν δ) (type : ℕ)
    (addr : ℤ) : Option (Option ℕ) :=
  findLink reg.snodes (fun snode => some (snode.hasAddr type addr)) fuel mnode.snode

/-- `_snode_rm_one` of the node at `p`. -/
def snodeRmOne (fuel : ℕ) (reg : NodeRegistry ν δ) (p : ℕ) (type : UInt8) :
    Option (NodeRegistry ν δ) := do
  let mnode := (← reg.mnodes p).data
  match ← findLink reg.snodes (fun snode => some (snode.type = type)) fuel mnode.snode with
  | none => some reg
  | some q =>
    let (snodes, snode) ← unlinkNode reg.snodes mnode.snode q
    let mnodes ← setData reg.mnodes p { mnode with snode := snode }
    some { reg with mnodes := mnodes, snodes := snodes }

/-- `_snode_rm_all` of the node at `p`. -/
def snodeRmAll (fuel : ℕ) (reg : NodeRegistry ν δ) (p : ℕ) : Option (NodeRegistry ν δ) := do
  let mnode := (← reg.mnodes p).data
  let snodes ← freeLinks reg.snodes fuel mnode.snode
  let mnodes ← setData reg.mnodes p { mnode with snode := none }
  some { reg with mnodes := mnodes, snodes := snodes }

/-- `_snode_insert` for the node at `p`. The new sub-node is at `q`, which was free before the old
one of the type is removed. -/
def snodeInsert (fuel : ℕ) (reg : NodeRegistry ν δ) (p q : ℕ) (info : SnodeInfo) :
    Option (NodeRegistry ν δ) := do
  let reg ← snodeRmOne fuel reg p info.type
  let snodes := Function.update reg.snodes q (some ⟨⟨info.type, info.cnt, info.lst⟩, none, none⟩)
  let mnode := (← reg.mnodes p).data
  let (snodes, snode) ← appendLink fuel snodes mnode.snode q
  let mnodes ← setData reg.mnodes p { mnode with snode := snode }
  some { reg with mnodes := mnodes, snodes := snodes }

/-- `mnode_find_with_netid` -/
def mnodeFindWithNetid (fuel : ℕ) (reg : NodeRegistry ν δ) (netid : ν) : Option (Option ℕ) :=
  findLink reg.mnodes (fun mnode => some (mnode.netid = netid)) fuel reg.start

/-- `mnode_find_with_addr` -/
def mnodeFindWithAddr (fuel : ℕ) (reg : NodeRegistry ν δ) (type : ℕ) (addr : ℤ) : Option (Option ℕ) :=
  findLink reg.mnodes (fun mnode => (snodeFindWithAddr fuel reg mnode type addr).map Option.isSome)
    fuel reg.start

/-- `set_dst_node`: the network id that the radio is given, if any, and the result. The radio
answers whether it takes the id. -/
def setDstNode (fuel : ℕ) (reg : NodeRegistry ν δ) (setDstAddr : ν → Bool) (type : ℕ) (addr : ℤ) :
    Option (Option ν × Bool) := do
  match ← mnodeFindWithAddr fuel reg type addr with
  | none => some (none, false)
  | some p =>
    let mnode := (← reg.mnodes p).data
    if mnode.online then some (some mnode.netid, setDstAddr mnode.netid) else some (none, false)

/-- A node is taken out with its sub-nodes. -/
def mnodeRm (fuel : ℕ) (reg : NodeRegistry ν δ) (p : ℕ) : Option (NodeRegistry ν δ) := do
  let reg ← snodeRmAll fuel reg p
  let (mnodes, start) ← unlinkNode reg.mnodes reg.start p
  some { reg with mnodes := mnodes, start := start }

/-- `mnode_rm_with_id` -/
def mnodeRmWithId (fuel : ℕ) (reg : NodeRegistry ν δ) (netid : ν) : Option (NodeRegistry ν δ) := do
  match ← mnodeFindWithNetid fuel reg netid with
  | none => some reg
  | some p => mnodeRm fuel reg p

/-- The loop of `mnode_rm_all`. -/
def mnodeRmAllFrom (fuel : ℕ) : ℕ → NodeRegistry ν δ → Option ℕ → Option (NodeRegistry ν δ)
  | 0, _, _ => none
  | _ + 1, reg, none => some reg
  | rounds + 1, reg, some p => do
    let next := (← reg.mnodes p).next
    let reg ← snodeRmAll fuel reg p
    mnodeRmAllFrom fuel rounds { reg with mnodes := Function.update reg.mnodes p none } next

/-- `mnode_rm_all` -/
def mnodeRmAll (fuel : ℕ) (reg : NodeRegistry ν δ) : Option (NodeRegistry ν δ) :=
  (mnodeRmAllFrom fuel fuel reg reg.start).map fun reg => { reg with start := none }

/-- `mnode_insert` of an announcement: a node at `p` that is new gets `fresh` fields, one that is
there has its fields changed by `again`, and the sub-node is at `q`. -/
def mnodeInsert (fuel : ℕ) (reg : NodeRegistry ν δ) (netid : ν) (fresh : δ) (again : Bool → δ → δ)
    (info : SnodeInfo) (p q : ℕ) :
    Option (Option ℕ × NodeRegistry ν δ) := do
  match ← mnodeFindWithNetid fuel reg netid with
  | none =>
    let mnodes := Function.update reg.mnodes p (some ⟨⟨netid, true, fresh, none⟩, none, none⟩)
    let (mnodes, start) ← appendLink fuel mnodes reg.start p
    let reg ← snodeInsert fuel { reg with mnodes := mnodes, start := start } p q info
    some (some p, reg)
  | some p =>
    let mnode := (← reg.mnodes p).data
    let mnodes ← setData reg.mnodes p { mnode with online := true, data := again mnode.online mnode.data }
    let reg ← snodeInsert fuel { reg with mnodes := mnodes } p q info
    some (some p, reg)

/-- `mnode_online`: the fields are changed by `touch`. -/
def mnodeOnline (fuel : ℕ) (reg : NodeRegistry ν δ) (netid : ν) (touch : Bool → δ → δ) :
    Option (Option ℕ × NodeRegistry ν δ) := do
  match ← mnodeFindWithNetid fuel reg netid with
  | none => some (none, reg)
  | some p =>
    let mnode := (← reg.mnodes p).data
    let mnodes ← setData reg.mnodes p { mnode with online := true, data := touch mnode.online mnode.data }
    some (some p, { reg with mnodes := mnodes })

/-- The loop of `check_online`. For a node that stays `check` has the online flag and the fields. -/
def checkOnlineFrom (fuel : ℕ) (check : Bool → δ → Option (Bool × δ)) :
    ℕ → NodeRegistry ν δ → Option ℕ → Option (NodeRegistry ν δ)
  | 0, _, _ => none
  | _ + 1, reg, none => some reg
  | rounds + 1, reg, some p => do
    let node ← reg.mnodes p
    match check node.data.online node.data.data with
    | some (online, data) =>
      let mnodes ← setData reg.mnodes p { node.data with online := online, data := data }
      checkOnlineFrom fuel check rounds { reg with mnodes := mnodes } node.next
    | none =>
      let reg ← mnodeRm fuel reg p
      checkOnlineFrom fuel check rounds reg node.next

/-- `check_online` -/
def checkOnline (fuel : ℕ) (reg : NodeRegistry ν δ) (check : Bool → δ → Option (Bool × δ)) :
    Option (NodeRegistry ν δ) :=
  checkOnlineFrom fuel check fuel reg reg.start

/-- A call on the registry. The addresses that the allocator gives to new nodes come with an
insertion. -/
inductive NodeOp (ν δ : Type) where
  | insert (netid : ν) (fresh : δ) (again : Bool → δ → δ) (info : SnodeInfo) (p q : ℕ)
  | online (netid : ν) (touch : Bool → δ → δ)
  | rmWithId (netid : ν)
  | rmAll
  | checkOnline (check : Bool → δ → Option (Bool × δ))

/-- One call, with the node that it returns. -/
def nodeStep (fuel : ℕ) (reg : NodeRegistry ν δ) : NodeOp ν δ → Option (Option ℕ × NodeRegistry ν δ)
  | .insert netid fresh again info p q => mnodeInsert fuel reg netid fresh again info p q
  | .online netid touch => mnodeOnline fuel reg netid touch
  | .rmWithId netid => (mnodeRmWithId fuel reg netid).map fun reg => (none, reg)
  | .rmAll => (mnodeRmAll fuel reg).map fun reg => (none, reg)
  | .checkOnline check => (checkOnline fuel reg check).map fun reg => (none, reg)

end DasEdge.Wireless
