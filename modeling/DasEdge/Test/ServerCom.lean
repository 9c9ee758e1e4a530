import DasEdge.Board.RtCrc32
import DasEdge.Library.RingQueue
import DasEdge.Test.ByteBuffer

/-!
# The packages of the test port

A package is a head of eight bytes, a message and a checksum of all that comes before it. The
receiver looks for a head in the last eight bytes of the stream, and when it has found one it reads
as many bytes as the head announces.
-/

namespace DasEdge.Test

open DasEdge.Library

/-- `CRC8_TAB` -/
def crc8Tab : List UInt8 :=
  [0x00, 0x07, 0x0E, 0x09, 0x1C, 0x1B, 0x12, 0x15, 0x38, 0x3F, 0x36, 0x31, 0x24, 0x23, 0x2A, 0x2D,
    0x70, 0x77, 0x7E, 0x79, 0x6C, 0x6B, 0x62, 0x65, 0x48, 0x4F, 0x46, 0x41, 0x54, 0x53, 0x5A, 0x5D,
    0xE0, 0xE7, 0xEE, 0xE9, 0xFC, 0xFB, 0xF2, 0xF5, 0xD8, 0xDF, 0xD6, 0xD1, 0xC4, 0xC3, 0xCA, 0xCD,
    0x90, 0x97, 0x9E, 0x99, 0x8C, 0x8B, 0x82, 0x85, 0xA8, 0xAF, 0xA6, 0xA1, 0xB4, 0xB3, 0xBA, 0xBD,
    0xC7, 0xC0, 0xC9, 0xCE, 0xDB, 0xDC, 0xD5, 0xD2, 0xFF, 0xF8, 0xF1, 0xF6, 0xE3, 0xE4, 0xED, 0xEA,
    0xB7, 0xB0, 0xB9, 0xBE, 0xAB, 0xAC, 0xA5, 0xA2, 0x8F, 0x88, 0x81, 0x86, 0x93, 0x94, 0x9D, 0x9A,
    0x27, 0x20, 0x29, 0x2E, 0x3B, 0x3C, 0x35, 0x32, 0x1F, 0x18, 0x11, 0x16, 0x03, 0x04, 0x0D, 0x0A,
    0x57, 0x50, 0x59, 0x5E, 0x4B, 0x4C, 0x45, 0x42, 0x6F, 0x68, 0x61, 0x66, 0x73, 0x74, 0x7D, 0x7A,
    0x89, 0x8E, 0x87, 0x80, 0x95, 0x92, 0x9B, 0x9C, 0xB1, 0xB6, 0xBF, 0xB8, 0xAD, 0xAA, 0xA3, 0xA4,
    0xF9, 0xFE, 0xF7, 0xF0, 0xE5, 0xE2, 0xEB, 0xEC, 0xC1, 0xC6, 0xCF, 0xC8, 0xDD, 0xDA, 0xD3, 0xD4,
    0x69, 0x6E, 0x67, 0x60, 0x75, 0x72, 0x7B, 0x7C, 0x51, 0x56, 0x5F, 0x58, 0x4D, 0x4A, 0x43, 0x44,
    0x19, 0x1E, 0x17, 0x10, 0x05, 0x02, 0x0B, 0x0C, 0x21, 0x26, 0x2F, 0x28, 0x3D, 0x3A, 0x33, 0x34,
    0x4E, 0x49, 0x40, 0x47, 0x52, 0x55, 0x5C, 0x5B, 0x76, 0x71, 0x78, 0x7F, 0x6A, 0x6D, 0x64, 0x63,
    0x3E, 0x39, 0x30, 0x37, 0x22, 0x25, 0x2C, 0x2B, 0x06, 0x01, 0x08, 0x0F, 0x1A, 0x1D, 0x14, 0x13,
    0xAE, 0xA9, 0xA0, 0xA7, 0xB2, 0xB5, 0xBC, 0xBB, 0x96, 0x91, 0x98, 0x9F, 0x8A, 0x8D, 0x84, 0x83,
    0xDE, 0xD9, 0xD0, 0xD7, 0xC2, 0xC5, 0xCC, 0xCB, 0xE6, 0xE1, 0xE8, 0xEF, 0xFA, 0xFD, 0xF4, 0xF3]

/-- `btMDCrc8` -/
def btMDCrc8 (crc : UInt8) (data : List UInt8) : UInt8 :=
  ~~~ (data.foldl (fun crc byte => crc8Tab.getD (crc ^^^ byte).toNat 0) (~~~ crc))

/-- `ulMDCrc32`, which has the table and the steps of `ulRTCrc32`. -/
def ulMDCrc32 (crc : UInt32) (data : List UInt8) : UInt32 := Board.ulRTCrc32 crc data

/-- `S_PACKAGE_HEAD`, with the two bytes of its length as they lie in memory. -/
structure SPackageHead where
  preCode0 : UInt8
  preCode1 : UInt8
  lengthHi : UInt8
  lengthLo : UInt8
  version : UInt8
  type : UInt8
  senquence : UInt8
  crc8 : UInt8
  deriving DecidableEq

namespace SPackageHead

/-- The bytes of a head in front of its checksum. -/
def checked (head : SPackageHead) : List UInt8 :=
  [head.preCode0, head.preCode1, head.lengthHi, head.lengthLo, head.version, head.type, head.senquence]

/-- The bytes of a head. -/
def bytes (head : SPackageHead) : List UInt8 := head.checked ++ [head.crc8]

/-- `ntohs(head.Length)` -/
def length (head : SPackageHead) : ℕ := head.lengthHi.toNat * 256 + head.lengthLo.toNat

/-- The checksum of a head is right. -/
def crcOk (head : SPackageHead) : Bool := btMDCrc8 0 head.checked = head.crc8

end SPackageHead

/-- `CREAT_HEADER` -/
def creatHeader (len : UInt32) (type q : UInt8) : SPackageHead :=
  let head : SPackageHead :=
    ⟨0x12, 0xEF, (len.toUInt16 >>> 8).toUInt8, len.toUInt16.toUInt8, 0, type, q, 0⟩
  { head with crc8 := btMDCrc8 0 head.checked }

/-- `queue_head_t`, which holds a head. -/
abbrev QueueHead := RingQueue UInt8 9

/-- The eight bytes of a full queue as a head. -/
def headOf (q : QueueHead) : SPackageHead :=
  ⟨q.get 0, q.get 1, q.get 2, q.get 3, q.get 4, q.get 5, q.get 6, q.get 7⟩

/-- `try2match_com_head` -/
def try2matchComHead (q : QueueHead) (ch : UInt8) : QueueHead × Option SPackageHead :=
  let q := q.write ch
  if q.full then
    if q.get 0 ≠ 0x12 ∨ q.get 1 ≠ 0xEF ∨ q.get 4 ≠ 0 then (q.remove, none)
    else if (headOf q).crcOk then (q.clear, some (headOf q))
    else (q.remove.remove, none)
  else (q, none)

/-- `S_MSG`; `content` is the place of its text in the buffer. -/
structure SMsg where
  type : UInt8
  senquence : UInt16
  content : UInt32
  deriving DecidableEq

/-- The types of the head and of the message of an `S_PACKAGE`, and the number of its message. -/
structure SPackage where
  headType : UInt8
  type : UInt8
  senquence : UInt16

/-- `creat_package_buffer` -/
def creatPackageBuffer (mem : ComServerBuf) (package : SPackage) :
    Option (ComServerBuf × ByteBuffer) := do
  let bb := bbSkip (bbNewFromBuf 1024) 8
  let (mem, bb) ← bbPut mem bb package.type
  bbPutShort mem bb package.senquence

/-- `send_package_buffer`: the bytes that are sent. -/
def sendPackageBuffer (mem : ComServerBuf) (bb : ByteBuffer) (package : SPackage) :
    Option (ComServerBuf × List UInt8) := do
  let head := creatHeader (bbGetPos bb + 4) package.headType 0
  let mem ← bbPutBytesAt mem head.bytes 0
  let crc32 := ulMDCrc32 0 (← readRun mem (bbGetPos bb))
  let (mem, bb) ← bbPutInt mem bb crc32
  return (mem, ← readRun mem (bbGetPos bb))

/-- `SDCCP_OK` -/
def sdccpOk : ℤ := 0
/-- `SDCCP_ERR` -/
def sdccpErr : ℤ := -1
/-- `SDCCP_TIMEOUT` -/
def sdccpTimeout : ℤ := -2

/-- `recv_block` into the buffer from `index` on. `arriving` are the bytes that come in before a
pause that is longer than the timeout, if there is one. It answers its code and the bytes that it
left. -/
def recvBlock : ComServerBuf → UInt32 → ℕ → List UInt8 → Option (ℤ × ComServerBuf × List UInt8)
  | mem, _, 0, arriving => some (sdccpOk, mem, arriving)
  | mem, _, _ + 1, [] => some (sdccpTimeout, mem, [])
  | mem, index, len + 1, b :: arriving => do recvBlock (← writeAt mem index b) (index + 1) len arriving

/-- What `process_package` comes to: its code, the buffer, the bytes that it left in the queue and
the message that it hands on, if it does. -/
structure Processed where
  ret : ℤ
  mem : ComServerBuf
  rest : List UInt8
  msg : Option SMsg

/-- The part of `process_package` behind the bytes that were received, up to the message that is
handed on. -/
def checkPackage (mem : ComServerBuf) (bb : ByteBuffer) (rest : List UInt8) : Option Processed := do
  let crc32 ← bbGetIntAt mem (bbLimit bb - 4)
  if ulMDCrc32 0 (← readRun mem (bbLimit bb - 4)) ≠ crc32 then return ⟨sdccpErr, mem, rest, none⟩
  let (type, bb) ← bbGet mem bb
  let (senquence, bb) ← bbGetShort mem bb
  return ⟨sdccpOk, mem, rest, some ⟨type, senquence, bbGetPos bb⟩⟩

/-- `process_package` -/
def processPackage (mem : ComServerBuf) (head : SPackageHead) (arriving : List UInt8) :
    Option Processed := do
  if head.length > serverBufSizeCom then return ⟨sdccpErr, mem, arriving, none⟩
  let (mem, bb) ← bbPutBytes mem (bbNewFromBuf (UInt32.ofNat head.length)) head.bytes
  let (ret, mem, rest) ← recvBlock mem (bbGetPos bb) (bbRemain bb).toNat arriving
  if ret ≠ sdccpOk then return ⟨ret, mem, rest, none⟩
  checkPackage mem bb rest

end DasEdge.Test
