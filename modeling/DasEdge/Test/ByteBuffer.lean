import DasEdge.Library.NetworkBytes

/-!
# The byte buffer of the test port

A byte buffer puts and gets bytes of `com_server_buf` at a position that it counts on. None of its
operations looks at its limit, and all of its counts are 32-bit words. An access is given by the
distance from the start of the buffer, and one outside of the 1024 bytes is answered by `none`.
-/

namespace DasEdge.Test

open DasEdge.Library

/-- `SERVER_BUF_SIZE_COM` -/
def serverBufSizeCom : ℕ := 1024

/-- The bytes of `com_server_buf`. -/
abbrev ComServerBuf := ℕ → UInt8

/-- A byte that is read. -/
def readAt (mem : ComServerBuf) (index : UInt32) : Option UInt8 :=
  if index.toNat < serverBufSizeCom then some (mem index.toNat) else none

/-- A byte that is written. -/
def writeAt (mem : ComServerBuf) (index : UInt32) (value : UInt8) : Option ComServerBuf :=
  if index.toNat < serverBufSizeCom then some (Function.update mem index.toNat value) else none

/-- The bytes of a run that are read. -/
def readRun (mem : ComServerBuf) (len : UInt32) : Option (List UInt8) :=
  if len.toNat ≤ serverBufSizeCom then some ((List.range len.toNat).map mem) else none

/-- `memcpy` into the buffer. -/
def copyAt (mem : ComServerBuf) (index : UInt32) (arr : List UInt8) : Option ComServerBuf :=
  if arr = [] ∨ index.toNat + arr.length ≤ serverBufSizeCom
    then some (copyOver mem index.toNat arr) else none

/-- `byte_buffer_t`; its `buf` is `com_server_buf`. -/
structure ByteBuffer where
  pos : UInt32
  len : UInt32

/-- `bb_new_from_buf` -/
def bbNewFromBuf (len : UInt32) : ByteBuffer := ⟨0, len⟩

/-- `bb_skip` -/
def bbSkip (bb : ByteBuffer) (len : UInt32) : ByteBuffer := { bb with pos := bb.pos + len }

/-- `bb_limit` -/
def bbLimit (bb : ByteBuffer) : UInt32 := bb.len

/-- `bb_remain` -/
def bbRemain (bb : ByteBuffer) : UInt32 := bb.len - bb.pos

/-- `bb_get_pos`, and the place of `bb_point`. -/
def bbGetPos (bb : ByteBuffer) : UInt32 := bb.pos

/-- `bb_get` -/
def bbGet (mem : ComServerBuf) (bb : ByteBuffer) : Option (UInt8 × ByteBuffer) := do
  return (← readAt mem bb.pos, bbSkip bb 1)

/-- `bb_get_short` -/
def bbGetShort (mem : ComServerBuf) (bb : ByteBuffer) : Option (UInt16 × ByteBuffer) := do
  let (hi, bb) ← bbGet mem bb
  let (lo, bb) ← bbGet mem bb
  return (hi.toUInt16 <<< 8 ||| lo.toUInt16, bb)

/-- `bb_get_int_at` -/
def bbGetIntAt (mem : ComServerBuf) (index : UInt32) : Option UInt32 := do
  let b0 ← readAt mem index
  let b1 ← readAt mem (index + 1)
  let b2 ← readAt mem (index + 2)
  let b3 ← readAt mem (index + 3)
  return b0.toUInt32 <<< 24 ||| b1.toUInt32 <<< 16 ||| b2.toUInt32 <<< 8 ||| b3.toUInt32

/-- `bb_put` -/
def bbPut (mem : ComServerBuf) (bb : ByteBuffer) (value : UInt8) :
    Option (ComServerBuf × ByteBuffer) := do
  return (← writeAt mem bb.pos value, bbSkip bb 1)

/-- `bb_put_bytes` -/
def bbPutBytes (mem : ComServerBuf) (bb : ByteBuffer) (arr : List UInt8) :
    Option (ComServerBuf × ByteBuffer) := do
  return (← copyAt mem bb.pos arr, bbSkip bb (UInt32.ofNat arr.length))

/-- `bb_put_bytes_at` -/
def bbPutBytesAt (mem : ComServerBuf) (arr : List UInt8) (index : UInt32) : Option ComServerBuf :=
  copyAt mem index arr

/-- `bb_put_short` -/
def bbPutShort (mem : ComServerBuf) (bb : ByteBuffer) (value : UInt16) :
    Option (ComServerBuf × ByteBuffer) := do
  let (mem, bb) ← bbPut mem bb (value >>> 8).toUInt8
  bbPut mem bb value.toUInt8

/-- `bb_put_int` -/
def bbPutInt (mem : ComServerBuf) (bb : ByteBuffer) (value : UInt32) :
    Option (ComServerBuf × ByteBuffer) := do
  let (mem, bb) ← bbPut mem bb (value >>> 24).toUInt8
  let (mem, bb) ← bbPut mem bb (value >>> 16).toUInt8
  let (mem, bb) ← bbPut mem bb (value >>> 8).toUInt8
  bbPut mem bb value.toUInt8

end DasEdge.Test
