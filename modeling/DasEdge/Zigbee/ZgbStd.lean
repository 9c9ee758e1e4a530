import DasEdge.Board.RtCrc32
import DasEdge.Library.WordBytes
import DasEdge.Zigbee.ZgbNodes
import Mathlib.Algebra.Order.Ring.Int

/-!
# Zigbee packets

What the worker of `zigbee.c` receives goes to a static buffer and from there, when it begins like a
packet, to the queue of `_zgbparse_thread`; behind the bytes received the buffer has what was there
before. A packet is a head, a body and a CRC-32, and the head states the length of all three. What a
node does with a scan request, and what is received as a command or as data, is left out.
-/

namespace DasEdge.Zigbee

open DasEdge.Library DasEdge.Board DasEdge.Wireless

/-- `ZGB_STD_FA_SIZE` -/
def zgbStdFaSize : ℕ := 2048

/-- `ZGB_STD_PRE` -/
def zgbStdPre : UInt32 := 0x9AABDEEF

/-- `ZGB_STD_NPRE` -/
def zgbStdNpre : UInt32 := ~~~ zgbStdPre

/-- The members of `ezgb_std_pack_t` and `ezgb_std_msg_t` that are used here. -/
def zgbStdFaReq : UInt8 := 2
def zgbStdFaRsp : UInt8 := 3
def zgbStdMsgScan : UInt8 := 1

/-- `zgb_std_head_t` -/
structure ZgbStdHead where
  pre : UInt32
  npre : UInt32
  ver : UInt8
  msglen : UInt16
  seq : UInt8
  packtype : UInt8
  msgtype : UInt8

/-- `sizeof(zgb_std_head_t)` -/
def zgbStdHeadSize : ℕ := 14

/-- `sizeof(zgb_std_scan_req_t)` -/
def zgbStdScanReqSize : ℕ := 13

/-- `ZGB_OFS(zgb_std_scan_t, data)` -/
def zgbStdScanOfs : ℕ := 14

/-- The 16-bit number at a place. -/
def readUInt16 (buf : ℕ → UInt8) (pos : ℕ) : UInt16 :=
  (buf pos).toUInt16 + (buf (pos + 1)).toUInt16 * 0x100

/-- The head at a place. -/
def readZgbHead (buf : ℕ → UInt8) (pos : ℕ) : ZgbStdHead where
  pre := readUInt32 buf pos
  npre := readUInt32 buf (pos + 4)
  ver := buf (pos + 8)
  msglen := readUInt16 buf (pos + 9)
  seq := buf (pos + 11)
  packtype := buf (pos + 12)
  msgtype := buf (pos + 13)

/-- The `zgb_std_scan_t` at a place. -/
def readZgbScan (buf : ℕ → UInt8) (pos : ℕ) : ZgbStdScan where
  workmode := buf pos
  netid := readUInt16 buf (pos + 1)
  mac := (List.range 8).map fun n => buf (pos + 3 + n)
  rssi := buf (pos + 11)
  type := buf (pos + 12)
  cnt := buf (pos + 13)
  data n := buf (pos + zgbStdScanOfs + n)

/-- The test of the head in `__check_buffer`. -/
def ZgbStdHead.Passes (head : ZgbStdHead) : Prop :=
  head.pre = zgbStdPre ∧ head.npre = zgbStdNpre ∧ head.ver = 0 ∧ 4 ≤ head.msglen.toNat

instance ZgbStdHead.decidablePasses (head : ZgbStdHead) : Decidable head.Passes := by
  unfold ZgbStdHead.Passes; infer_instance

/-- `__check_buffer` -/
def zgbCheckBuffer (buffer : ℕ → UInt8) : Bool :=
  let head := readZgbHead buffer 0
  if head.Passes then
    let sum := head.msglen.toNat - 4
    readUInt32 buffer sum = ulRTCrc32 0 ((List.range sum).map buffer)
  else false

/-- The places of `buffer` that `__check_buffer` reads. -/
def zgbCheckReads (buffer : ℕ → UInt8) : List ℕ :=
  let head := readZgbHead buffer 0
  List.range zgbStdHeadSize ++ if head.Passes then List.range head.msglen.toNat else []

/-- `zgb_buf_queue_t` -/
structure ZgbBufQueue where
  len : ℕ
  buf : ℕ → UInt8

/-- What `_zgbparse_thread` does with an item: the places that it reads, the first one that it
clears with how many there are, the head that it accepts, the scan response that it registers, and
the network id of a scan request. -/
structure ZgbParse where
  reads : List ℕ := []
  cleared : ℕ × ℕ := (0, 0)
  accepted : Option ZgbStdHead := none
  response : Option ZgbStdScan := none
  request : Option UInt16 := none

/-- The places that the registration of the scan response at a place reads. -/
def zgbScanReads (buf : ℕ → UInt8) (pos : ℕ) : List ℕ :=
  let info := readZgbScan buf pos
  (List.range (zgbStdScanOfs + if info.type = snTModbusRtu ∨
    info.type = snTModbusAscii then info.cnt.toNat else 0)).map (pos + ·)

/-- One round of `_zgbparse_thread`, as node or router or not. The number of bytes to clear is
computed without sign. -/
def zgbParse (isNode : Bool) (item : ZgbBufQueue) : ZgbParse :=
  if zgbStdHeadSize + 4 ≤ item.len then
    let head := readZgbHead item.buf 0
    let reads := List.range zgbStdHeadSize ++ zgbCheckReads item.buf
    if zgbCheckBuffer item.buf then
      let first := head.msglen.toNat - 4
      let count := (((zgbStdFaSize : ℤ) - first) % 2 ^ 32).toNat
      let buf n := if first ≤ n ∧ n < first + count then 0 else item.buf n
      if head.packtype = zgbStdFaRsp ∧ head.msgtype = zgbStdMsgScan then
        { reads := reads ++ zgbScanReads buf zgbStdHeadSize, cleared := (first, count),
          accepted := some head,
          response := some (readZgbScan buf zgbStdHeadSize) }
      else if head.packtype = zgbStdFaReq ∧ head.msgtype = zgbStdMsgScan ∧ isNode = true then
        { reads := reads ++ (List.range zgbStdScanReqSize).map (zgbStdHeadSize + ·),
          cleared := (first, count),
          accepted := some head, request := some (readUInt16 buf zgbStdHeadSize) }
      else { reads := reads, cleared := (first, count), accepted := some head }
    else { reads := reads }
  else {}

/-- What `__zgb_recv_buffer` sends: an item for `s_zgb_cmd_queue`, one for `s_zgb_buf_queue`, or
data. -/
inductive ZgbSent where
  | cmd (item : ZgbBufQueue)
  | std (item : ZgbBufQueue)
  | data (item : ZgbBufQueue)

/-- `__is_std_head` -/
def zgbIsStdHead (data : ℕ → UInt8) (len : ℕ) : Bool :=
  zgbStdHeadSize ≤ len && readUInt32 data 0 = zgbStdPre && readUInt32 data 4 = zgbStdNpre

/-- `__is_tempcmd_head` -/
def zgbIsTempcmdHead (data : ℕ → UInt8) (len : ℕ) : Bool :=
  4 ≤ len && data 0 = 0xDE && data 1 = 0xDF && data 2 = 0xEF

/-- `__is_cmd_head` -/
def zgbIsCmdHead (data : ℕ → UInt8) (len : ℕ) : Bool :=
  4 ≤ len && data 0 = 0xAB && data 1 = 0xBC && data 2 = 0xCD

/-- `__zgb_recv_buffer` with bytes that the static buffer `buf` has room for, while a command waits
or not. -/
def zgbRecvBuffer (inCmd : Bool) (buf : ℕ → UInt8) (buffer : List UInt8) : ZgbSent :=
  let item : ZgbBufQueue := ⟨buffer.length, fun n => buffer.getD n (buf n)⟩
  if inCmd && (zgbIsTempcmdHead item.buf item.len || zgbIsCmdHead item.buf item.len) then .cmd item
  else if zgbIsStdHead item.buf item.len then .std item
  else .data item

end DasEdge.Zigbee
