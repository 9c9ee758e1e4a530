import DasEdge.Library.WhileLoop
import DasEdge.Library.WordBytes
import DasEdge.Wireless.NodeRegistryRuns
import Mathlib.Algebra.Order.Ring.Int
import Mathlib.Algebra.Order.Ring.Nat
import Mathlib.Data.Int.Notation
import Mathlib.Logic.Function.Basic

/-!
# LoRa packets

What the receive thread of `lora.c` takes from the serial port goes to a static buffer and from
there, when it begins like a packet, to the queue of `__lora_parse_thread`. A packet is a command
head, a std head, a body and a 16-bit sum. The parse thread moves over the buffer that it takes from
the queue; behind the bytes received the buffer has what was there before. A buffer is the memory
from its first byte on. What is done with a packet that is handed on is left out here.
-/

namespace DasEdge.Lora

open DasEdge.Library

/-- `LORA_CMD_RECV` -/
def loraCmdRecv : UInt8 := 0x41

/-- `LORA_STD_FA_SIZE` -/
def loraStdFaSize : ℕ := 1024

/-- `LORA_STD_PRE0` -/
def loraStdPre0 : UInt8 := 0xFE

/-- `LORA_STD_PRE1` -/
def loraStdPre1 : UInt8 := 0xFD

/-- `LORA_STD_MAX` -/
def loraStdMax : ℕ := 4

/-- `LORA_STD_MSG_MAX` -/
def loraStdMsgMax : ℕ := 8

/-- `lora_cmd_head_t` -/
structure LoraCmdHead where
  cmd : UInt8
  addr : UInt32
  op : UInt8
  seq : UInt16

/-- `sizeof(lora_cmd_head_t)` -/
def loraCmdHeadSize : ℕ := 8

/-- `lora_std_head_t` -/
structure LoraStdHead where
  pre0 : UInt8
  pre1 : UInt8
  packtype : BitVec 2
  p2p : BitVec 1
  msgtype : BitVec 5
  rssi : UInt8
  msglen : UInt8

/-- `sizeof(lora_std_head_t)` -/
def loraStdHeadSize : ℕ := 5

/-- The command head at a place. -/
def readCmdHead (buf : ℕ → UInt8) (pos : ℕ) : LoraCmdHead where
  cmd := buf pos
  addr := readUInt32 buf (pos + 1)
  op := buf (pos + 5)
  seq := (buf (pos + 6)).toUInt16 + (buf (pos + 6 + 1)).toUInt16 * 0x100

/-- The std head at a place. The first field of a byte has its lowest bits. -/
def readStdHead (buf : ℕ → UInt8) (pos : ℕ) : LoraStdHead where
  pre0 := buf pos
  pre1 := buf (pos + 1)
  packtype := (buf (pos + 2)).toBitVec.extractLsb' 0 2
  p2p := (buf (pos + 2)).toBitVec.extractLsb' 2 1
  msgtype := (buf (pos + 2)).toBitVec.extractLsb' 3 5
  rssi := buf (pos + 3)
  msglen := buf (pos + 4)

/-- `__lora_get_check` -/
def loraGetCheck (check : UInt16) (buffer : ℕ → UInt8) (len : ℕ) : UInt16 :=
  (List.range len).foldl (fun check n => check + (buffer n).toUInt16) check

/-- The test of the head in `__check_buffer`. -/
def LoraStdHead.Passes (head : LoraStdHead) : Prop :=
  head.pre0 = loraStdPre0 ∧ head.pre1 = loraStdPre1 ∧ head.packtype.toNat < loraStdMax ∧
    head.msgtype.toNat < loraStdMsgMax ∧
    loraStdHeadSize + 2 ≤ head.msglen.toNat

instance LoraStdHead.decidablePasses (head : LoraStdHead) : Decidable head.Passes := by
  unfold LoraStdHead.Passes; infer_instance

/-- `__check_buffer` -/
def checkBuffer (head : LoraStdHead) (buffer : ℕ → UInt8) : Bool :=
  if head.Passes then
    let sum := head.msglen.toNat - 2
    (buffer sum).toUInt16 + (buffer (sum + 1)).toUInt16 * 0x100 = loraGetCheck 0 buffer sum
  else false

/-- The places of `buffer` that `__check_buffer` reads. -/
def checkBufferReads (head : LoraStdHead) : List ℕ :=
  if head.Passes then List.range head.msglen.toNat else []

/-- What `__lora_std_parse_buffer` is called with; `buffer` is the memory behind the std head. -/
structure LoraHanded where
  cmdHead : LoraCmdHead
  stdHead : LoraStdHead
  buffer : ℕ → UInt8

/-- The variables of the loop of `__lora_parse_thread`. -/
structure LoraCursor where
  pos : ℕ
  remain : ℤ

/-- A round of the loop: the places of the buffer that it reads, the bytes that remain behind the
command head, and the packet that is handed on. -/
structure LoraRound where
  reads : List ℕ
  remain : ℤ
  handed : Option LoraHanded

/-- A signed number in a comparison with one of type `size_t`. -/
def toSizeT (n : ℤ) : ℕ := (n % 2 ^ 32).toNat

/-- The test of the loop. -/
def LoraCursor.more (s : LoraCursor) : Bool := 0 < s.remain

/-- The body of the loop. -/
def loraParseRound (buf : ℕ → UInt8) (s : LoraCursor) : LoraRound × LoraCursor :=
  let cmdHead := readCmdHead buf s.pos
  let cmdReads := (List.range loraCmdHeadSize).map (s.pos + ·)
  let pos := s.pos + loraCmdHeadSize
  let remain := s.remain - loraCmdHeadSize
  if loraStdHeadSize + 2 ≤ toSizeT remain ∧ cmdHead.cmd = loraCmdRecv then
    let stdHead := readStdHead buf pos
    let buffer n := buf (pos + n)
    let reads := cmdReads ++ (List.range loraStdHeadSize ++ checkBufferReads stdHead).map (pos + ·)
    if checkBuffer stdHead buffer then
      (⟨reads, remain, some ⟨cmdHead, stdHead, fun n => buf (pos + loraStdHeadSize + n)⟩⟩,
        ⟨pos + stdHead.msglen.toNat, remain - stdHead.msglen.toNat⟩)
    else (⟨reads, remain, none⟩, ⟨pos + 1, remain - 1⟩)
  else (⟨cmdReads, remain, none⟩, ⟨pos + 1, remain - 1⟩)

/-- The loop of `__lora_parse_thread` over a buffer with `len` bytes. Every round takes bytes from
what remains, so that one round more than there are bytes is enough. -/
def loraParse (buf : ℕ → UInt8) (len : ℕ) : Option (List LoraRound) :=
  whileRun LoraCursor.more (loraParseRound buf) (len + 1) ⟨0, len⟩

/-- `lora_buf_queue_t` -/
structure LoraBufQueue where
  len : ℕ
  buf : ℕ → UInt8

/-- What `__lora_recv_buffer` sends: nothing, an item for `s_lora_cmd_queue`, or one for
`s_lora_std_queue`. -/
inductive LoraSent where
  | none
  | cmd (item : LoraBufQueue)
  | std (item : LoraBufQueue)

/-- `__lora_is_std_head` -/
def loraIsStdHead (data : ℕ → UInt8) (len : ℕ) : Bool :=
  loraStdHeadSize ≤ len && data 0 = loraStdPre0 && data 1 = loraStdPre1

/-- `__lora_is_at_end` -/
def loraIsAtEnd (data : ℕ → UInt8) (len : ℕ) : Bool := data (len - 2) = 0x0D && data (len - 1) = 0x0A

/-- `__lora_recv_buffer` with the bytes `buffer`, in AT mode or as central or end device: what it
sends, and the static buffer behind it. -/
def loraRecvBuffer (inAtMode central : Bool) (buf : ℕ → UInt8) (buffer : List UInt8) :
    LoraSent × (ℕ → UInt8) :=
  let len := buffer.length
  let buf n := buffer.getD n (buf n)
  if inAtMode then
    let buf := Function.update buf len 0
    (if loraIsAtEnd buf len && 4 < len then .cmd ⟨len, buf⟩ else .none, buf)
  else if central && loraCmdHeadSize ≤ len && (readCmdHead buf 0).cmd = loraCmdRecv &&
      loraIsStdHead (fun n => buf (loraCmdHeadSize + n)) (len - loraCmdHeadSize) then
    (.std ⟨len, buf⟩, buf)
  else (.none, buf)

/-! ### Well-formed packets -/

/-- The bytes of a command head. -/
def LoraCmdHead.bytes (head : LoraCmdHead) : List UInt8 :=
  head.cmd :: (uint32Bytes head.addr ++ head.op :: uint16Bytes head.seq)

/-- The bytes of a std head. -/
def LoraStdHead.bytes (head : LoraStdHead) : List UInt8 :=
  [head.pre0, head.pre1, ⟨head.msgtype ++ head.p2p ++ head.packtype⟩, head.rssi, head.msglen]

/-- The 16-bit sum of bytes. -/
def loraSum (bytes : List UInt8) : UInt16 := bytes.foldl (fun check byte => check + byte.toUInt16) 0

/-- A well-formed packet: the command is the one for received packets, the std head passes its test,
and it states the length of std head, body and sum. -/
structure LoraPacket where
  cmdHead : LoraCmdHead
  stdHead : LoraStdHead
  body : List UInt8
  cmd_eq : cmdHead.cmd = loraCmdRecv
  passes : stdHead.Passes
  msglen_eq : stdHead.msglen.toNat = loraStdHeadSize + body.length + 2

/-- The bytes of a packet. -/
def LoraPacket.bytes (packet : LoraPacket) : List UInt8 :=
  let summed := packet.stdHead.bytes ++ packet.body
  packet.cmdHead.bytes ++ (summed ++ uint16Bytes (loraSum summed))

/-- A packet is handed on. -/
structure LoraHanded.Carries (handed : LoraHanded) (packet : LoraPacket) : Prop where
  cmdHead : handed.cmdHead = packet.cmdHead
  stdHead : handed.stdHead = packet.stdHead
  body : ShowsAt handed.buffer 0 packet.body

end DasEdge.Lora

/-!
# The LoRa nodes

`lora_std.c`: the registry with the fields and the times of a LoRa node. Times are seconds in 32
bits. A time from before 2019 was taken before the clock was set, and is replaced. The search for a
node to be asked for its signal, and the announcement that is null, are left out.
-/

namespace DasEdge.Lora

open DasEdge.Library DasEdge.Wireless

/-- `lora_id_t` -/
structure LoraId where
  type0 : UInt16
  type1 : UInt16
  sn : List UInt8

/-- The fields of `lora_mnode_t` that a Zigbee node has not in the same way. -/
structure LoraMnode where
  workmode : UInt8
  id : LoraId
  rssi : UInt8
  snr : Int16
  rssiDb : Int16
  uptime : UInt32
  lasttime : UInt32
  lastHrtTime : UInt32
  lastRssiTime : UInt32
  offtime : UInt32

/-- `lora_std_info_t` -/
structure LoraStdInfo extends SnodeInfo where
  workmode : UInt8
  netid : UInt32
  id : LoraId

/-- `INVALID_RSSI` -/
def invalidRssi : Int16 := 1000

/-- `INVALID_SNR` -/
def invalidSnr : Int16 := 1000

/-- The time before which the clock was not set. -/
def clockSet : UInt32 := 1546272000

/-- The registry of `lora_std.c`. -/
abbrev LoraNodes := NodeRegistry UInt32 LoraMnode

/-- What a message at a time does to the times of a node. -/
def LoraMnode.heard (now : UInt32) (online : Bool) (mnode : LoraMnode) : LoraMnode :=
  let mnode := { mnode with lasttime := now, lastHrtTime := now }
  let mnode := if online then mnode else { mnode with uptime := now, offtime := 0 }
  if mnode.uptime < clockSet then { mnode with uptime := now } else mnode

/-- `lora_mnode_insert` -/
def loraMnodeInsert (fuel : ℕ) (reg : LoraNodes) (info : LoraStdInfo) (rssi : UInt8) (now : UInt32)
    (p q : ℕ) :
    Option (Option ℕ × LoraNodes) :=
  mnodeInsert fuel reg info.netid
    { workmode := info.workmode, id := info.id, rssi := rssi, snr := invalidSnr,
      rssiDb := invalidRssi, uptime := now,
      lasttime := now, lastHrtTime := now, lastRssiTime := 0, offtime := 0 }
    (fun online mnode => { mnode.heard now online with workmode := info.workmode, rssi := rssi })
      info.toSnodeInfo p q

/-- `lora_mnode_online` -/
def loraMnodeOnline (fuel : ℕ) (reg : LoraNodes) (netid : UInt32) (rssi : UInt8) (now : UInt32) :
    Option (Option ℕ × LoraNodes) :=
  mnodeOnline fuel reg netid fun online mnode => { mnode.heard now online with rssi := rssi }

/-- `lora_mnode_rm_with_id` -/
def loraMnodeRmWithId (fuel : ℕ) (reg : LoraNodes) (netid : UInt32) : Option LoraNodes :=
  mnodeRmWithId fuel reg netid

/-- `lora_mnode_rm_all` -/
def loraMnodeRmAll (fuel : ℕ) (reg : LoraNodes) : Option LoraNodes := mnodeRmAll fuel reg

/-- What `lora_check_online` does with one node. -/
def loraCheckNode (now learnstep : UInt32) (online : Bool) (mnode : LoraMnode) :
    Option (Bool × LoraMnode) :=
  if online then
    let mnode := if mnode.lasttime < clockSet then { mnode with lasttime := now } else mnode
    let mnode := if mnode.uptime < clockSet then { mnode with uptime := mnode.lasttime } else mnode
    if mnode.lasttime > now ∨ now - mnode.lasttime ≥ learnstep * 4 then
      some (false, { mnode with offtime := now - learnstep * 3 })
    else some (true, mnode)
  else if now - mnode.offtime ≥ learnstep * 10 then none
  else some (false, mnode)

/-- `lora_check_online` -/
def loraCheckOnline (fuel : ℕ) (reg : LoraNodes) (now learnstep : UInt32) : Option LoraNodes :=
  checkOnline fuel reg (loraCheckNode now learnstep)

/-- `lora_set_dst_node` -/
def loraSetDstNode (fuel : ℕ) (reg : LoraNodes) (setDstAddr : UInt32 → Bool) (type : ℕ) (addr : ℤ) :
    Option (Option UInt32 × Bool) :=
  setDstNode fuel reg setDstAddr type addr

/-- A call on the registry, with the time at which it is made. -/
inductive LoraNodeOp where
  | insert (info : LoraStdInfo) (rssi : UInt8) (now : UInt32) (p q : ℕ)
  | online (netid : UInt32) (rssi : UInt8) (now : UInt32)
  | rmWithId (netid : UInt32)
  | rmAll
  | checkOnline (now learnstep : UInt32)

/-- One call, with the node that it returns. -/
def loraNodeStep (fuel : ℕ) (reg : LoraNodes) : LoraNodeOp → Option (Option ℕ × LoraNodes)
  | .insert info rssi now p q => loraMnodeInsert fuel reg info rssi now p q
  | .online netid rssi now => loraMnodeOnline fuel reg netid rssi now
  | .rmWithId netid => (loraMnodeRmWithId fuel reg netid).map fun reg => (none, reg)
  | .rmAll => (loraMnodeRmAll fuel reg).map fun reg => (none, reg)
  | .checkOnline now learnstep => (loraCheckOnline fuel reg now learnstep).map fun reg => (none, reg)

/-- The call as one on any registry. -/
def LoraNodeOp.call : LoraNodeOp → NodeOp UInt32 LoraMnode
  | .insert info rssi now p q => .insert info.netid
      { workmode := info.workmode, id := info.id, rssi := rssi, snr := invalidSnr,
        rssiDb := invalidRssi, uptime := now,
        lasttime := now, lastHrtTime := now, lastRssiTime := 0, offtime := 0 }
      (fun online mnode => { mnode.heard now online with workmode := info.workmode, rssi := rssi })
        info.toSnodeInfo p q
  | .online netid rssi now => .online netid fun online mnode =>
    { mnode.heard now online with rssi := rssi }
  | .rmWithId netid => .rmWithId netid
  | .rmAll => .rmAll
  | .checkOnline now learnstep => .checkOnline (loraCheckNode now learnstep)

/-- A call is the one on any registry. -/
theorem loraNodeStep_eq (fuel : ℕ) (reg : LoraNodes) (op : LoraNodeOp) :
    loraNodeStep fuel reg op = nodeStep fuel reg op.call := by
  cases op <;> rfl

end DasEdge.Lora

/-!
# What the LoRa parse loop reads and hands on

The loop compares the bytes that remain with a number of type `size_t`, so that it goes on when
fewer bytes are left than a command head has, and it takes the length that a std head states as it
is. Then it reads what lies behind the bytes received, and may find a packet there. As long as whole
heads are left and no std head states more than there is, the loop stays inside the bytes received,
and it hands on the packets that are there.
-/

namespace DasEdge.Lora

open DasEdge.Library

/-- At a place there are a command head for received packets and a std head that passes its test,
with `remain` bytes from the place on. -/
def LoraRecvAt (buf : ℕ → UInt8) (pos remain : ℕ) : Prop :=
  loraCmdHeadSize + loraStdHeadSize + 2 ≤ remain ∧ buf pos = loraCmdRecv ∧
    (readStdHead buf (pos + loraCmdHeadSize)).Passes

instance decidableLoraRecvAt (buf : ℕ → UInt8) (pos remain : ℕ) :
    Decidable (LoraRecvAt buf pos remain) := by
  unfold LoraRecvAt; infer_instance

/-- The length that the std head behind a command head states, with the command head. -/
def loraStated (buf : ℕ → UInt8) (pos : ℕ) : ℕ :=
  loraCmdHeadSize + (readStdHead buf (pos + loraCmdHeadSize)).msglen.toNat

/-- How far it is to the next place: over a packet, or over a command head and one byte. -/
def loraStride (buf : ℕ → UInt8) (pos remain : ℕ) : ℕ :=
  if LoraRecvAt buf pos remain ∧
      checkBuffer (readStdHead buf (pos + loraCmdHeadSize))
      (fun n => buf (pos + loraCmdHeadSize + n)) = true then
    loraStated buf pos
  else loraCmdHeadSize + 1

/-- There is a whole command head at a place, and a std head behind it states no more bytes than
there are. -/
def LoraFitsAt (buf : ℕ → UInt8) (pos remain : ℕ) : Prop :=
  loraCmdHeadSize ≤ remain ∧ (LoraRecvAt buf pos remain → loraStated buf pos ≤ remain)

instance decidableLoraFitsAt (buf : ℕ → UInt8) (pos remain : ℕ) :
    Decidable (LoraFitsAt buf pos remain) := by
  unfold LoraFitsAt; infer_instance

/-- So it is at every place from a place on, with places to spend. -/
def LoraFits (buf : ℕ → UInt8) : ℕ → ℕ → ℕ → Prop
  | 0, _, remain => remain = 0
  | places + 1, pos, remain =>
    remain = 0 ∨ LoraFitsAt buf pos remain ∧
      LoraFits buf places (pos + loraStride buf pos remain) (remain - loraStride buf pos remain)

instance LoraFits.decidable (buf : ℕ → UInt8) : (places pos remain : ℕ) →
    Decidable (LoraFits buf places pos remain)
  | 0, _, _ => inferInstanceAs (Decidable (_ = _))
  | places + 1, pos, remain =>
    @instDecidableOr _ _ _ (@instDecidableAnd
      _ _ _ (LoraFits.decidable buf places (pos + loraStride buf pos remain) _))

/-- The rounds read only the bytes received, hand on no packet that states more than remains, and
when the bytes are those of packets, hand these on. -/
structure LoraParseCorrect (buf : ℕ → UInt8) (len : ℕ) (rounds : List LoraRound) : Prop where
  reads : ∀ round ∈ rounds, ∀ place ∈ round.reads, place < len
  remain : ∀ round ∈ rounds, ∀ handed ∈ round.handed, (handed.stdHead.msglen.toNat : ℤ) ≤ round.remain
  handed : ∀ packets : List LoraPacket, (packets.map LoraPacket.bytes).flatten =
    (List.range len).map buf →
    List.Forall₂ LoraHanded.Carries (rounds.filterMap LoraRound.handed) packets

/-- A round that stays inside the bytes received and hands on no packet that states more than
remains. -/
def LoraRound.Sound (len : ℕ) (round : LoraRound) : Prop :=
  (∀ place ∈ round.reads, place < len) ∧
    ∀ handed ∈ round.handed, (handed.stdHead.msglen.toNat : ℤ) ≤ round.remain

/-- The cursor is inside a buffer, or has moved behind its end. -/
structure LoraCursor.At (s : LoraCursor) (len : ℕ) : Prop where
  sum : s.pos + s.remain = len
  lt : len < 2 ^ 31

/-- A number that is not negative is compared as it is. -/
theorem toSizeT_eq {n : ℤ} (h : 0 ≤ n) (hlt : n < 2 ^ 31) : toSizeT n = n.toNat := by
  unfold toSizeT
  rw [Int.emod_eq_of_lt h (by omega)]

/-- With a whole command head the comparison is one of the bytes behind it. -/
theorem LoraCursor.At.toSizeT_iff {s : LoraCursor} {len remain : ℕ} (hat : s.At len)
    (hremain : s.remain = remain)
    (hwhole : loraCmdHeadSize ≤ remain) :
    loraStdHeadSize + 2 ≤ toSizeT (s.remain - loraCmdHeadSize) ↔
      loraCmdHeadSize + loraStdHeadSize + 2 ≤ remain := by
  have hsum := hat.sum
  have hlt := hat.lt
  obtain ⟨behind, rfl⟩ := Nat.exists_eq_add_of_le hwhole
  have hbehind : s.remain - loraCmdHeadSize = behind := by omega
  rw [hbehind, toSizeT_eq (Int.natCast_nonneg _) (by omega), Int.toNat_natCast]
  omega

/-- A head that passes the check passes the test. -/
theorem LoraStdHead.Passes.of_checkBuffer {head : LoraStdHead} {buffer : ℕ → UInt8}
    (h : checkBuffer head buffer = true) :
    head.Passes := by
  by_contra hnot
  rw [checkBuffer, if_neg hnot] at h
  cases h

/-- What a round hands on and where it goes. -/
theorem loraParseRound_eq {buf : ℕ → UInt8} {s : LoraCursor} {len remain : ℕ} (hat : s.At len)
    (hremain : s.remain = remain)
    (hwhole : loraCmdHeadSize ≤ remain) :
    (loraParseRound buf s).1.handed =
        (if LoraRecvAt buf s.pos remain ∧
            checkBuffer (readStdHead buf (s.pos + loraCmdHeadSize))
            (fun n => buf (s.pos + loraCmdHeadSize + n)) = true then
          some ⟨readCmdHead buf s.pos, readStdHead buf (s.pos + loraCmdHeadSize),
            fun n => buf (s.pos + loraCmdHeadSize + loraStdHeadSize + n)⟩
        else none) ∧
      (loraParseRound buf s).2 = ⟨s.pos + loraStride buf s.pos remain,
      s.remain - loraStride buf s.pos remain⟩ := by
  have htest := hat.toSizeT_iff hremain hwhole
  unfold loraStride loraStated
  simp only [loraParseRound, htest]
  by_cases hrecv : loraCmdHeadSize + loraStdHeadSize + 2 ≤ remain ∧
    (readCmdHead buf s.pos).cmd = loraCmdRecv
  · rw [if_pos hrecv]
    by_cases hcheck : checkBuffer (readStdHead buf (s.pos + loraCmdHeadSize))
        (fun n => buf (s.pos + loraCmdHeadSize + n)) = true
    · have hboth : LoraRecvAt buf s.pos remain := ⟨hrecv.1, hrecv.2, .of_checkBuffer hcheck⟩
      rw [if_pos hcheck, if_pos ⟨hboth, hcheck⟩, if_pos ⟨hboth, hcheck⟩]
      refine ⟨rfl, ?_⟩
      simp only [LoraCursor.mk.injEq]
      omega
    · rw [if_neg hcheck, if_neg fun h => hcheck h.2, if_neg fun h => hcheck h.2]
      refine ⟨rfl, ?_⟩
      simp only [LoraCursor.mk.injEq]
      omega
  · have hnot : ¬ LoraRecvAt buf s.pos remain := fun h => hrecv ⟨h.1, h.2.1⟩
    rw [if_neg hrecv, if_neg fun h => hnot h.1, if_neg fun h => hnot h.1]
    refine ⟨rfl, ?_⟩
    simp only [LoraCursor.mk.injEq]
    omega

/-- What remains behind the command head. -/
theorem loraParseRound_remain (buf : ℕ → UInt8) (s : LoraCursor) :
    (loraParseRound buf s).1.remain = s.remain - loraCmdHeadSize := by
  simp only [loraParseRound]
  split
  · split <;> rfl
  · rfl

/-- Places from a place on. -/
theorem mem_map_range {place first count : ℕ} :
    place ∈ (List.range count).map (first + ·) ↔ first ≤ place ∧ place < first + count := by
  simp only [List.mem_map, List.mem_range]
  exact ⟨fun ⟨i, hi, heq⟩ => by omega, fun h => ⟨place - first, by omega, by omega⟩⟩

/-- The places that the check reads. -/
theorem mem_map_checkBufferReads {place first : ℕ} {head : LoraStdHead} :
    place ∈ (checkBufferReads head).map (first + ·) ↔ head.Passes ∧ first ≤ place ∧
      place < first + head.msglen.toNat := by
  unfold checkBufferReads
  split
  · next hpasses => simp only [mem_map_range, hpasses, true_and]
  · next hpasses => simp only [hpasses, false_and, List.map_nil, List.not_mem_nil]

/-- The places that a round reads. -/
theorem loraParseRound_reads {buf : ℕ → UInt8} {s : LoraCursor} (place : ℕ) :
    place ∈ (loraParseRound buf s).1.reads ↔
      (s.pos ≤ place ∧ place < s.pos + loraCmdHeadSize) ∨
      (loraStdHeadSize + 2 ≤ toSizeT (s.remain - loraCmdHeadSize) ∧ buf s.pos = loraCmdRecv) ∧
        ((s.pos + loraCmdHeadSize ≤ place ∧ place < s.pos + loraCmdHeadSize + loraStdHeadSize) ∨
          (readStdHead buf (s.pos + loraCmdHeadSize)).Passes ∧ s.pos + loraCmdHeadSize ≤ place ∧
            place < s.pos + loraStated buf s.pos) := by
  have hcmd : (readCmdHead buf s.pos).cmd = buf s.pos := rfl
  simp only [loraParseRound, hcmd]
  by_cases htest : loraStdHeadSize + 2 ≤ toSizeT (s.remain - loraCmdHeadSize) ∧ buf s.pos = loraCmdRecv
  · rw [if_pos htest]
    simp only [htest, and_self, true_and, loraStated, ← Nat.add_assoc]
    split
    all_goals
      rw [List.mem_append, List.map_append, List.mem_append, mem_map_range, mem_map_range,
        mem_map_checkBufferReads]
  · rw [if_neg htest, mem_map_range]
    exact ⟨.inl, fun h => h.elim id fun h => absurd h.1 htest⟩

/-- A round is sound where the heads fit. -/
theorem loraParseRound_sound_iff {buf : ℕ → UInt8} {s : LoraCursor} {len remain : ℕ}
    (hat : s.At len) (hremain : s.remain = remain) :
    (loraParseRound buf s).1.Sound len ↔ LoraFitsAt buf s.pos remain := by
  have hsum := hat.sum
  by_cases hwhole : loraCmdHeadSize ≤ remain
  · have htest := hat.toSizeT_iff hremain hwhole
    constructor
    · refine fun h => ⟨hwhole, fun hrecv => ?_⟩
      -- the check reads the last byte that the std head states
      have hleast := hrecv.2.2.2.2.2.2
      have hlast := h.1 (s.pos + loraStated buf s.pos - 1) ((loraParseRound_reads _).mpr
        (.inr ⟨⟨htest.mpr hrecv.1, hrecv.2.1⟩,
        .inr ⟨hrecv.2.2, by unfold loraStated; omega, by unfold loraStated; omega⟩⟩))
      omega
    · rintro ⟨-, hstated⟩
      refine ⟨fun place hplace => ?_, fun handed hhanded => ?_⟩
      · rw [loraParseRound_reads, htest] at hplace
        rcases hplace with hplace | ⟨hrecv, hplace | ⟨hpasses, hplace⟩⟩
        · omega
        · have hleast := hrecv.1
          omega
        · have hfits := hstated ⟨hrecv.1, hrecv.2, hpasses⟩
          omega
      · rw [(loraParseRound_eq hat hremain hwhole).1] at hhanded
        split at hhanded
        · next hboth =>
          obtain rfl := Option.some.inj hhanded
          have hfits := hstated hboth.1
          rw [loraParseRound_remain, hremain]
          unfold loraStated at hfits
          dsimp only
          omega
        · cases hhanded
  · refine ⟨fun h => ?_, fun h => absurd h.1 hwhole⟩
    -- the command head is read over the end
    have hover := h.1 (s.pos + remain) ((loraParseRound_reads _).mpr (.inl (by omega)))
    omega

/-- A stride is not empty. -/
theorem loraStride_pos (buf : ℕ → UInt8) (pos remain : ℕ) : 0 < loraStride buf pos remain := by
  unfold loraStride loraStated
  split
  · exact Nat.lt_of_lt_of_le (by decide) (Nat.le_add_right loraCmdHeadSize _)
  · exact Nat.succ_pos _

/-- One place more to spend makes no difference when there are as many as bytes. -/
theorem loraFits_succ (buf : ℕ → UInt8) {places pos remain : ℕ} (h : remain ≤ places) :
    LoraFits buf (places + 1) pos remain ↔ LoraFits buf places pos remain := by
  induction places generalizing pos remain with
  | zero =>
    obtain rfl := Nat.le_zero.mp h
    exact ⟨fun _ => rfl, fun _ => .inl rfl⟩
  | succ places ih =>
    have hpos := loraStride_pos buf pos remain
    have hless : remain - loraStride buf pos remain ≤ places := by omega
    exact or_congr_right (and_congr_right fun _ => ih hless)

/-- As many places as bytes are enough. -/
theorem loraFits_of_le (buf : ℕ → UInt8) {places pos remain : ℕ} (h : remain ≤ places) :
    LoraFits buf places pos remain ↔ LoraFits buf remain pos remain := by
  induction places, h using Nat.le_induction with
  | base => rfl
  | succ places hle ih => rw [loraFits_succ buf hle, ih]

/-- A round moves the cursor over the bytes that it takes from what remains, and takes some. -/
theorem loraParseRound_moves (buf : ℕ → UInt8) (s : LoraCursor) :
    ∃ taken, 0 < taken ∧ (loraParseRound buf s).2 = ⟨s.pos + taken, s.remain - taken⟩ := by
  have hsize : loraCmdHeadSize = 8 := rfl
  simp only [loraParseRound]
  split
  · split
    · refine ⟨loraCmdHeadSize + (readStdHead buf (s.pos + loraCmdHeadSize)).msglen.toNat, by omega, ?_⟩
      simp only [LoraCursor.mk.injEq]
      omega
    · refine ⟨loraCmdHeadSize + 1, by omega, ?_⟩
      simp only [LoraCursor.mk.injEq]
      omega
  · refine ⟨loraCmdHeadSize + 1, by omega, ?_⟩
    simp only [LoraCursor.mk.injEq]
    omega

/-- The cursor of the next round is at the next place. -/
theorem LoraCursor.At.next {s : LoraCursor} {len : ℕ} (hat : s.At len) (buf : ℕ → UInt8) :
    (loraParseRound buf s).2.At len := by
  obtain ⟨taken, -, hnext⟩ := loraParseRound_moves buf s
  have hsum := hat.sum
  rw [hnext]
  exact ⟨by dsimp only; omega, hat.lt⟩

/-- A round takes bytes from what remains. -/
theorem loraParseRound_less (buf : ℕ → UInt8) (s : LoraCursor) :
    (loraParseRound buf s).2.remain < s.remain := by
  obtain ⟨taken, htaken, hnext⟩ := loraParseRound_moves buf s
  rw [hnext]
  dsimp only
  omega

/-- All rounds are sound if and only if the heads fit at every place. -/
theorem loraRounds_sound_iff {buf : ℕ → UInt8} {len fuel : ℕ} (hlen : len < 2 ^ 31)
    {rounds : List LoraRound}
    (hrun : whileRun LoraCursor.more (loraParseRound buf) fuel ⟨0, len⟩ = some rounds) :
    (∀ round ∈ rounds, round.Sound len) ↔ LoraFits buf len 0 len := by
  have hstart : LoraCursor.At ⟨0, len⟩ len := ⟨by simp, hlen⟩
  refine whileRun_forall_iff (fun s => s.At len)
    (fun s => LoraFits buf s.remain.toNat s.pos s.remain.toNat)
    (fun round => round.Sound len) (fun s hat _ => hat.next buf) (fun s _ hend => ?_)
      (fun s hat htest => ?_) hstart hrun
  · have hnone : s.remain.toNat = 0 := Int.toNat_of_nonpos (by simpa [LoraCursor.more] using hend)
    rw [hnone]
    rfl
  · have hmore : 0 < s.remain := of_decide_eq_true htest
    obtain ⟨remain, hremain⟩ := Int.eq_succ_of_zero_lt hmore
    rw [loraParseRound_sound_iff hat hremain, hremain]
    have hunfold : LoraFits buf (remain + 1) s.pos (remain + 1) ↔ LoraFitsAt buf s.pos (remain + 1) ∧
        LoraFits buf remain (s.pos + loraStride buf s.pos (remain + 1))
        (remain + 1 - loraStride buf s.pos (remain + 1)) :=
      or_iff_right (Nat.succ_ne_zero remain)
    refine hunfold.trans (and_congr_right fun hfits => ?_)
    have hpos := loraStride_pos buf s.pos (remain + 1)
    have hless : remain + 1 - loraStride buf s.pos (remain + 1) ≤ remain := by omega
    have hnext : (s.remain - loraStride buf s.pos (remain + 1)).toNat =
        remain + 1 - loraStride buf s.pos (remain + 1) := by
      omega
    rw [(loraParseRound_eq hat hremain hfits.1).2, hnext]
    exact loraFits_of_le buf hless

/-- A command head is read where its bytes are. -/
theorem readCmdHead_eq {buf : ℕ → UInt8} {pos : ℕ} {head : LoraCmdHead}
    (h : ShowsAt buf pos head.bytes) :
    readCmdHead buf pos = head := by
  obtain ⟨cmd, addr, op, seq⟩ := head
  unfold LoraCmdHead.bytes at h
  rw [showsAt_cons, showsAt_append, showsAt_cons] at h
  obtain ⟨hcmd, haddr, hop, hseq⟩ := h
  unfold readCmdHead
  rw [hcmd, (readUInt32_eq_iff buf (pos + 1) addr).mpr haddr]
  congr 1
  exact (uint16_eq_iff buf (pos + 6) seq).mpr hseq

/-- The fields of a byte. -/
theorem extractLsb'_fields (packtype : BitVec 2) (p2p : BitVec 1) (msgtype : BitVec 5) :
    (msgtype ++ p2p ++ packtype).extractLsb' 0 2 = packtype ∧
      (msgtype ++ p2p ++ packtype).extractLsb' 2 1 = p2p ∧
      (msgtype ++ p2p ++ packtype).extractLsb' 3 5 = msgtype := by
  refine ⟨?_, ?_, ?_⟩
  · rw [BitVec.extractLsb'_append_eq_of_add_le (by decide), BitVec.extractLsb'_eq_self]
  · rw [BitVec.extractLsb'_append_eq_of_le (by decide),
      BitVec.extractLsb'_append_eq_of_add_le (by decide),
      BitVec.extractLsb'_eq_self]
  · rw [BitVec.extractLsb'_append_eq_of_le (by decide), BitVec.extractLsb'_append_eq_of_le (by decide),
      BitVec.extractLsb'_eq_self]

/-- A std head is read where its bytes are. -/
theorem readStdHead_eq {buf : ℕ → UInt8} {pos : ℕ} {head : LoraStdHead}
    (h : ShowsAt buf pos head.bytes) :
    readStdHead buf pos = head := by
  obtain ⟨pre0, pre1, packtype, p2p, msgtype, rssi, msglen⟩ := head
  obtain ⟨hpacktype, hp2p, hmsgtype⟩ := extractLsb'_fields packtype p2p msgtype
  unfold LoraStdHead.bytes at h
  simp only [showsAt_cons, Nat.add_assoc, Nat.reduceAdd] at h
  obtain ⟨hpre0, hpre1, hfields, hrssi, hmsglen, -⟩ := h
  unfold readStdHead
  rw [hpre0, hpre1, hfields, hrssi, hmsglen, hpacktype, hp2p, hmsgtype]

/-- The sum of bytes in a buffer. -/
theorem loraGetCheck_eq {buffer : ℕ → UInt8} {bytes : List UInt8} (h : ShowsAt buffer 0 bytes) :
    loraGetCheck 0 buffer bytes.length = loraSum bytes := by
  have hmap := h.map_range
  simp only [Nat.zero_add] at hmap
  unfold loraGetCheck loraSum
  rw [← hmap, List.foldl_map, List.length_map, List.length_range]

/-- The length of a packet. -/
theorem LoraPacket.bytes_length (packet : LoraPacket) :
    packet.bytes.length = loraCmdHeadSize + packet.stdHead.msglen.toNat := by
  rw [packet.msglen_eq]
  simp [LoraPacket.bytes, LoraCmdHead.bytes, LoraStdHead.bytes, uint32Bytes, uint16Bytes,
    loraCmdHeadSize, loraStdHeadSize]
  omega

/-- A std head with a body and their sum behind it checks. -/
theorem checkBuffer_of_sum {head : LoraStdHead} {buffer : ℕ → UInt8} {body : List UInt8}
    (hpasses : head.Passes)
    (hmsglen : head.msglen.toNat = loraStdHeadSize + body.length + 2)
    (hshows : ShowsAt buffer 0 ((head.bytes ++ body) ++ uint16Bytes (loraSum (head.bytes ++ body)))) :
    checkBuffer head buffer = true := by
  have hlength : head.msglen.toNat - 2 = (head.bytes ++ body).length := by
    rw [hmsglen, List.length_append, Nat.add_sub_cancel]
    rfl
  rw [showsAt_append, Nat.zero_add] at hshows
  have hread := (uint16_eq_iff buffer _ _).mpr hshows.2
  simp only [checkBuffer, if_pos hpasses, hlength, loraGetCheck_eq hshows.1, decide_eq_true_eq]
  exact hread

/-- A round at a packet hands the packet on and moves over it. -/
theorem loraParseRound_packet {buf : ℕ → UInt8} {s : LoraCursor} {len : ℕ} (hat : s.At len)
    {packet : LoraPacket}
    (hshows : ShowsAt buf s.pos packet.bytes) (hremain : (packet.bytes.length : ℤ) ≤ s.remain) :
    (∃ handed, (loraParseRound buf s).1.handed = some handed ∧ handed.Carries packet) ∧
      (loraParseRound buf s).2 = ⟨s.pos + packet.bytes.length, s.remain - packet.bytes.length⟩ := by
  have hlength := packet.bytes_length
  have hleast := packet.passes.2.2.2.2
  obtain ⟨remain, hs⟩ := Int.eq_ofNat_of_zero_le (Int.le_trans (Int.natCast_nonneg _) hremain)
  have hcmdLength : packet.cmdHead.bytes.length = loraCmdHeadSize := rfl
  have hstdLength : packet.stdHead.bytes.length = loraStdHeadSize := rfl
  have hparts := hshows
  unfold LoraPacket.bytes at hparts
  rw [showsAt_append, hcmdLength] at hparts
  obtain ⟨hcmd, hbehind⟩ := hparts
  have hparts := hbehind
  rw [showsAt_append, showsAt_append, hstdLength] at hparts
  obtain ⟨⟨hstd, hbody⟩, -⟩ := hparts
  have hstdHead := readStdHead_eq hstd
  have hcheck : checkBuffer packet.stdHead (fun n => buf (s.pos + loraCmdHeadSize + n)) = true :=
    checkBuffer_of_sum packet.passes packet.msglen_eq (showsAt_from.mpr hbehind)
  have hrecv : LoraRecvAt buf s.pos remain := by
    refine ⟨by omega, ?_, ?_⟩
    · have hread : (readCmdHead buf s.pos).cmd = packet.cmdHead.cmd := by rw [readCmdHead_eq hcmd]
      exact hread.trans packet.cmd_eq
    · rw [hstdHead]
      exact packet.passes
  have hboth : LoraRecvAt buf s.pos remain ∧
      checkBuffer (readStdHead buf (s.pos + loraCmdHeadSize))
      (fun n => buf (s.pos + loraCmdHeadSize + n)) = true :=
    ⟨hrecv, by rw [hstdHead]; exact hcheck⟩
  obtain ⟨hhanded, hnext⟩ := loraParseRound_eq hat hs (by omega)
  rw [if_pos hboth] at hhanded
  refine ⟨⟨_, hhanded, ⟨readCmdHead_eq hcmd, hstdHead, showsAt_from.mpr hbody⟩⟩, ?_⟩
  rw [hnext, loraStride, if_pos hboth, loraStated, hstdHead, hlength]

/-- When packets are all that remains, they are handed on in their order. -/
theorem loraRounds_packets {buf : ℕ → UInt8} {s : LoraCursor} {len fuel : ℕ}
    {rounds : List LoraRound} (hat : s.At len)
    {packets : List LoraPacket} (hshows : ShowsAt buf s.pos (packets.map LoraPacket.bytes).flatten)
    (hremain : s.remain = (packets.map LoraPacket.bytes).flatten.length)
    (hrun : whileRun LoraCursor.more (loraParseRound buf) fuel s = some rounds) :
    List.Forall₂ LoraHanded.Carries (rounds.filterMap LoraRound.handed) packets := by
  induction packets generalizing s fuel rounds with
  | nil =>
    have hnone : s.remain = 0 := hremain
    have htest : s.more = false := by rw [LoraCursor.more, hnone]; rfl
    obtain rfl := whileRun_of_false htest hrun
    exact .nil
  | cons packet packets ih =>
    rw [List.map_cons, List.flatten_cons] at hshows hremain
    rw [showsAt_append] at hshows
    rw [List.length_append] at hremain
    have hlength := packet.bytes_length
    have hsize : loraCmdHeadSize = 8 := rfl
    have hmore : 0 < s.remain := by omega
    have htest : s.more = true := decide_eq_true hmore
    obtain ⟨fuel', tail, htail, rfl⟩ := whileRun_of_true htest hrun
    obtain ⟨⟨handed, hhanded, hcarries⟩, hnext⟩ := loraParseRound_packet hat hshows.1 (by omega)
    rw [List.filterMap_cons_some hhanded]
    refine .cons hcarries (ih (hat.next buf) ?_ ?_ htail)
    · rw [hnext]
      exact hshows.2
    · rw [hnext]
      dsimp only
      omega

/-- The loop ends. -/
theorem loraParse_ends (buf : ℕ → UInt8) (len : ℕ) : ∃ rounds, loraParse buf len = some rounds := by
  refine whileRun_ends (fun s : LoraCursor => s.remain.toNat) (fun s htest => ?_) (Nat.lt_succ_self len)
  have hmore : 0 < s.remain := of_decide_eq_true htest
  have hless := loraParseRound_less buf s
  omega

/-- The loop ends, reads only the bytes received, hands on no packet that states more than remains,
and hands on the packets of which the bytes consist, if and only if the heads fit at every place. -/
theorem lora_parse_correct_iff (buf : ℕ → UInt8) (len : ℕ) (hlen : len < 2 ^ 31) :
    (∃ rounds, loraParse buf len = some rounds ∧ LoraParseCorrect buf len rounds) ↔
      LoraFits buf len 0 len := by
  constructor
  · rintro ⟨rounds, hrun, hcorrect⟩
    exact (loraRounds_sound_iff hlen hrun).mp fun round hround =>
      ⟨hcorrect.reads round hround, hcorrect.remain round hround⟩
  · intro hfits
    obtain ⟨rounds, hrun⟩ := loraParse_ends buf len
    have hsound := (loraRounds_sound_iff hlen hrun).mpr hfits
    refine ⟨rounds, hrun, fun round hround => (hsound round hround).1,
      fun round hround => (hsound round hround).2, ?_⟩
    intro packets hpackets
    have hlength : (packets.map LoraPacket.bytes).flatten.length = len := by
      rw [hpackets, List.length_map, List.length_range]
    have hshows : ShowsAt buf 0 (packets.map LoraPacket.bytes).flatten := by
      rw [hpackets]
      intro i hi
      rw [List.getElem_map, List.getElem_range, Nat.zero_add]
    exact loraRounds_packets (s := ⟨0, len⟩) ⟨by simp, hlen⟩ hshows (by rw [hlength]) hrun

/-- Two packets, and bytes behind them that are no packet. -/
theorem lora_parse_correct_twice :
    ∃ rounds,
      loraParse (fun n => [0x41, 1, 0, 0, 0, 0, 0, 0, 0xFE, 0xFD, 1, 0, 7, 3, 2, 0x41, 2, 0, 0, 0,
      0, 0, 0, 0xFE, 0xFD, 1, 0, 7, 3, 2,
          0, 0, 0, 0, 0, 0, 0, 0, 0].getD n 0) 39 = some rounds ∧
        LoraParseCorrect (fun n => [0x41, 1, 0, 0, 0, 0, 0, 0, 0xFE, 0xFD, 1, 0, 7, 3, 2, 0x41, 2,
        0, 0, 0, 0, 0, 0, 0xFE, 0xFD, 1,
          0, 7, 3, 2, 0, 0, 0, 0, 0, 0, 0, 0, 0].getD n 0) 39 rounds :=
  (lora_parse_correct_iff _ 39 (by decide)).mpr (by decide)

/-- A packet comes, and then the first part of the same packet. What was received before completes
it, so that it is handed on again. -/
theorem lora_parse_hands_on_twice :
    ¬ ∀ (buf : ℕ → UInt8) (buffer : List UInt8) (item : LoraBufQueue), buffer.length ≤ loraStdFaSize →
      (loraRecvBuffer false true buf buffer).1 = .std item →
      ∃ rounds, loraParse item.buf item.len = some rounds ∧
        LoraParseCorrect item.buf item.len rounds := by
  intro hall
  obtain ⟨rounds, hrun, hcorrect⟩ := hall
    (loraRecvBuffer false true (fun _ => 0) [0x41, 1, 0, 0, 0, 0, 0, 0, 0xFE, 0xFD, 1, 0, 9, 5, 6,
      0x10, 2]).2
    [0x41, 1, 0, 0, 0, 0, 0, 0, 0xFE, 0xFD, 1, 0, 9, 5, 6] _ (by decide) rfl
  cases hrun
  have hread := hcorrect.reads _ (.head _) 16
  revert hread
  decide

end DasEdge.Lora
