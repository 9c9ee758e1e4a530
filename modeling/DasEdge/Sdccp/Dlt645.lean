import DasEdge.Library.BcdText
import DasEdge.Library.WordBytes
import Mathlib.Algebra.Field.Rat

/-!
# DL/T 645

The requests that `dlt645.c` and `dlt645_1997.c` build for a data marker, and what they take from a
reply. Bytes of the data field are sent increased by `0x33`. Numbers are exact here: what is read of
a decimal text, and its quotient by a scale.
-/

namespace DasEdge.Sdccp

open DasEdge.Library

/-- `S_DLT645_A_t` -/
abbrev Dlt645Addr := { addr : List UInt8 // addr.length = 6 }

/-- `DLT645_PRE` and `DLT645_MID` -/
def dlt645Pre : UInt8 := 0x68
/-- `DLT645_EOM` -/
def dlt645Eom : UInt8 := 0x16
/-- `C_CODE_READ_DATA` -/
def cCodeReadData : UInt8 := 0x11
/-- `C_1997_CODE_READ_DATA` -/
def c1997CodeReadData : UInt8 := 0x01
/-- `C_DIR_SLAVE` -/
def cDirSlave : UInt8 := 1
/-- `C_ACK_OK` -/
def cAckOk : UInt8 := 0

/-- `S_DLT645_C_t` -/
structure Dlt645C where
  cCode : UInt8
  fck : UInt8
  ack : UInt8
  dir : UInt8
  deriving DecidableEq

/-- The byte of the bit fields. -/
def Dlt645C.byte (xCon : Dlt645C) : UInt8 :=
  xCon.cCode % 32 + 32 * (xCon.fck % 2) + 64 * (xCon.ack % 2) + 128 * (xCon.dir % 2)

/-- `CheckSum` -/
def checkSum (buf : List UInt8) : UInt8 := buf.foldl (· + ·) 0

/-- `vCreatePaket`: the bytes of the packet. -/
def vCreatePaket (xAddr : Dlt645Addr) (xCon : Dlt645C) (pData : List UInt8) : List UInt8 :=
  let buf := [dlt645Pre] ++ xAddr.1 ++ [dlt645Pre, xCon.byte, UInt8.ofNat pData.length] ++ pData
  buf ++ [checkSum buf, dlt645Eom]

/-- `bDlt645ReadData`: the request that it sends. -/
def bDlt645ReadData (xaddr : Dlt645Addr) (dataMarker : UInt32) : List UInt8 :=
  let datamarker := dataMarker + 0x33333333
  vCreatePaket xaddr ⟨cCodeReadData, 0, 0, 0⟩ (uint32Bytes datamarker)

/-- `bDlt645_1997ReadData`: the request that it sends. -/
def bDlt6451997ReadData (xaddr : Dlt645Addr) (dataMarker : UInt16) : List UInt8 :=
  let datamarker := dataMarker.toUInt32 + 0x3333
  vCreatePaket xaddr ⟨c1997CodeReadData, 0, 0, 0⟩ ((uint32Bytes datamarker).take 2)

/-- `atof` of a text that `%02x` writes, behind a sign: there is no point in it, but there may be an
exponent. -/
def atofHex (text : List UInt8) : ℚ :=
  let digits := if text.head? = some 45 then text.tail else text
  let behind := digits.dropWhile isDigitByte
  let exponent := if behind.head? = some 101 then digitsValue behind.tail else 0
  let value : ℚ := digitsValue digits * 10 ^ exponent
  if text.head? = some 45 then -value else value

/-- The bytes of a data field as they were before `0x33` was added. -/
def minus33 (pData : List UInt8) : List UInt8 := pData.map (· - 0x33)

/-- `DataToDouble` of a field of `len` bytes. -/
def dataToDouble (pData : List UInt8) : ℚ :=
  let pData := minus33 pData
  if pData.length = 8 then atofHex ((pData.drop 5).reverse.flatMap hexByteText)
  else if pData.length ∈ [1, 2, 3, 4] then atofHex (pData.reverse.flatMap hexByteText)
  else 0

/-- `__DataToDouble` of a field of `len` bytes. It tests `pData[len - 1] && 0x80`. -/
def dataToDoubleSigned (pData : List UInt8) : ℚ :=
  let pData := minus33 pData
  let top := pData.getLast?.getD 0
  if pData.length ∈ [1, 2, 3, 4] then
    let text := ((pData.dropLast ++ [top &&& 0x7f]).reverse.flatMap hexByteText)
    atofHex (if top ≠ 0 then 45 :: text else text)
  else 0

/-- `vPraseData`: the value, if the status is `mdTRUE`. -/
def vPraseData (pData : List UInt8) (dataMark : UInt32) : Option ℚ :=
  if pData.length = 0 then none
  else if 0x00000000 ≤ dataMark ∧ dataMark ≤ 0x00440000 then
    if pData.length = 4 then
      let floatData :=
        if (0x00000000 ≤ dataMark ∧ dataMark ≤ 0x00000400) ∨
          (0x00030000 ≤ dataMark ∧ dataMark ≤ 0x00030400) ∨
            (dataMark ≤ 0x00040000 ∧ 0x00040400 ≤ dataMark) then
          dataToDoubleSigned pData
        else dataToDouble pData
      some (floatData / 100)
    else none
  else if 0x02010100 ≤ dataMark ∧ dataMark ≤ 0x0201FF00 then
    if pData.length = 2 then some (dataToDouble pData / 10) else none
  else if 0x02020100 ≤ dataMark ∧ dataMark ≤ 0x0202FF00 then
    if pData.length = 3 then some (dataToDoubleSigned pData / 1000) else none
  else if 0x02030000 ≤ dataMark ∧ dataMark ≤ 0x0205FF00 then
    if pData.length = 3 then some (dataToDoubleSigned pData / 10000) else none
  else if 0x02060000 ≤ dataMark ∧ dataMark ≤ 0x0206FF00 then
    if pData.length = 2 then some (dataToDouble pData / 1000) else none
  else if 0x02070100 ≤ dataMark ∧ dataMark ≤ 0x02070400 then
    if pData.length = 2 then some (dataToDouble pData / 10) else none
  else if 0x01010000 ≤ dataMark ∧ dataMark ≤ 0x01040000 then
    if pData.length = 8 then some (dataToDouble pData / 10000) else none
  else none

/-- `vPraseData` of `dlt645_1997.c`, whose converter knows no eight bytes. -/
def vPraseData1997 (pData : List UInt8) (dataMark : UInt16) : Option ℚ :=
  if 0x9010 ≤ dataMark ∧ dataMark ≤ 0x9164 then
    if pData.length = 4 then some (dataToDouble pData / 100) else none
  else if 0xB611 ≤ dataMark ∧ dataMark ≤ 0xB613 then
    if pData.length = 2 then some (dataToDouble pData / 10) else none
  else if 0xB621 ≤ dataMark ∧ dataMark ≤ 0xB623 then
    if pData.length = 2 then some (dataToDouble pData / 100) else none
  else if 0xB630 ≤ dataMark ∧ dataMark ≤ 0xB633 then
    if pData.length = 3 then some (dataToDouble pData / 10000) else none
  else if 0xB640 ≤ dataMark ∧ dataMark ≤ 0xB643 then
    if pData.length = 2 then some (dataToDouble pData / 100) else none
  else if 0xB650 ≤ dataMark ∧ dataMark ≤ 0xB653 then
    if pData.length = 2 then some (dataToDouble pData / 1000) else none
  else if 0xA010 ≤ dataMark ∧ dataMark ≤ 0xA120 then
    if pData.length = 3 then some (dataToDouble pData / 10000) else none
  else none

/-- `S_DLT645_Package_t`, where `pData` is its data field of `btLen` bytes. -/
structure Dlt645Package where
  xAddr : Dlt645Addr
  xCon : Dlt645C
  pData : List UInt8

/-- `S_DLT645_Result_t` -/
structure Dlt645Result where
  addr : Dlt645Addr
  op : UInt32
  val : ℚ

/-- What `Dlt645_ParsePack` takes from a package with data: `DataMark`, and the result that it
sends, if there is a value. -/
def dlt645ParsePack (pPack : Dlt645Package) : Option (UInt32 × Option Dlt645Result) :=
  if pPack.xCon.dir ≠ cDirSlave ∨ pPack.xCon.ack ≠ cAckOk then none
  else if pPack.xCon.cCode = cCodeReadData ∧ 4 ≤ pPack.pData.length then
    let dataMark := readUInt32 (fun i => pPack.pData.getD i 0) 0 - 0x33333333
    some (dataMark, (vPraseData (pPack.pData.drop 4) dataMark).map fun fdata =>
      ⟨pPack.xAddr, dataMark, fdata⟩)
  else none

/-- What `Dlt645_1997_ParsePack` takes from a package with data. -/
def dlt6451997ParsePack (pPack : Dlt645Package) : Option (UInt16 × Option Dlt645Result) :=
  if pPack.xCon.dir ≠ cDirSlave ∨ pPack.xCon.ack ≠ cAckOk then none
  else if pPack.xCon.cCode = c1997CodeReadData ∧ 2 ≤ pPack.pData.length then
    let dataMark := (pPack.pData.getD 0 0).toUInt16 + (pPack.pData.getD 1 0).toUInt16 * 0x100 - 0x3333
    some (dataMark, (vPraseData1997 (pPack.pData.drop 2) dataMark).map fun fdata =>
      ⟨pPack.xAddr, dataMark.toUInt32, fdata⟩)
  else none

end DasEdge.Sdccp
