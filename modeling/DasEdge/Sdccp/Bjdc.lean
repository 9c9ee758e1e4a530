import DasEdge.Library.WordBytes
import Mathlib.Logic.Function.Basic

/-!
# BJDC frames

The sender `cc_bjdc_send_xmlpack` and the byte receiver `CC_BJDC_PutBytes` of `cc_bjdc.c`. A frame
is a header word, the length of type and data, a type word, the data, a check value, and an end
marker, all in the byte order of the machine, which is little-endian. The data is the XML string,
filled up with null characters to a multiple of 16 and encrypted. The receiver decrypts the data in
its buffer, puts a null character behind it, and calls the parser. What the parser does is left out
here: the receiver notes the packages that it is called with. The cipher is a parameter.
-/

namespace DasEdge.Sdccp

open DasEdge.Library

/-- `AES_Encrypt` and `AES_Decrypt` with the key and the initialisation vector of the program, in
place. -/
structure Aes where
  encrypt : List UInt8 → List UInt8
  decrypt : List UInt8 → List UInt8
  encrypt_length : ∀ data, (encrypt data).length = data.length
  decrypt_length : ∀ data, (decrypt data).length = data.length

/-- What is encrypted can be decrypted, when it consists of whole blocks. -/
def Aes.Inverts (aes : Aes) : Prop := ∀ data, 16 ∣ data.length → aes.decrypt (aes.encrypt data) = data

/-- `_CC_Table` -/
def ccTable : List UInt16 :=
    [0x0000, 0x1021, 0x2042, 0x3063, 0x4084, 0x50a5, 0x60c6, 0x70e7, 0x8108, 0x9129, 0xa14a, 0xb16b,
    0xc18c, 0xd1ad, 0xe1ce, 0xf1ef, 0x1231, 0x0210, 0x3273, 0x2252, 0x52b5, 0x4294, 0x72f7, 0x62d6,
    0x9339, 0x8318, 0xb37b, 0xa35a, 0xd3bd, 0xc39c, 0xf3ff, 0xe3de, 0x2462, 0x3443, 0x0420, 0x1401,
    0x64e6, 0x74c7, 0x44a4, 0x5485, 0xa56a, 0xb54b, 0x8528, 0x9509, 0xe5ee, 0xf5cf, 0xc5ac, 0xd58d,
    0x3653, 0x2672, 0x1611, 0x0630, 0x76d7, 0x66f6, 0x5695, 0x46b4, 0xb75b, 0xa77a, 0x9719, 0x8738,
    0xf7df, 0xe7fe, 0xd79d, 0xc7bc, 0x48c4, 0x58e5, 0x6886, 0x78a7, 0x0840, 0x1861, 0x2802, 0x3823,
    0xc9cc, 0xd9ed, 0xe98e, 0xf9af, 0x8948, 0x9969, 0xa90a, 0xb92b, 0x5af5, 0x4ad4, 0x7ab7, 0x6a96,
    0x1a71, 0x0a50, 0x3a33, 0x2a12, 0xdbfd, 0xcbdc, 0xfbbf, 0xeb9e, 0x9b79, 0x8b58, 0xbb3b, 0xab1a,
    0x6ca6, 0x7c87, 0x4ce4, 0x5cc5, 0x2c22, 0x3c03, 0x0c60, 0x1c41, 0xedae, 0xfd8f, 0xcdec, 0xddcd,
    0xad2a, 0xbd0b, 0x8d68, 0x9d49, 0x7e97, 0x6eb6, 0x5ed5, 0x4ef4, 0x3e13, 0x2e32, 0x1e51, 0x0e70,
    0xff9f, 0xefbe, 0xdfdd, 0xcffc, 0xbf1b, 0xaf3a, 0x9f59, 0x8f78, 0x9188, 0x81a9, 0xb1ca, 0xa1eb,
    0xd10c, 0xc12d, 0xf14e, 0xe16f, 0x1080, 0x00a1, 0x30c2, 0x20e3, 0x5004, 0x4025, 0x7046, 0x6067,
    0x83b9, 0x9398, 0xa3fb, 0xb3da, 0xc33d, 0xd31c, 0xe37f, 0xf35e, 0x02b1, 0x1290, 0x22f3, 0x32d2,
    0x4235, 0x5214, 0x6277, 0x7256, 0xb5ea, 0xa5cb, 0x95a8, 0x8589, 0xf56e, 0xe54f, 0xd52c, 0xc50d,
    0x34e2, 0x24c3, 0x14a0, 0x0481, 0x7466, 0x6447, 0x5424, 0x4405, 0xa7db, 0xb7fa, 0x8799, 0x97b8,
    0xe75f, 0xf77e, 0xc71d, 0xd73c, 0x26d3, 0x36f2, 0x0691, 0x16b0, 0x6657, 0x7676, 0x4615, 0x5634,
    0xd94c, 0xc96d, 0xf90e, 0xe92f, 0x99c8, 0x89e9, 0xb98a, 0xa9ab, 0x5844, 0x4865, 0x7806, 0x6827,
    0x18c0, 0x08e1, 0x3882, 0x28a3, 0xcb7d, 0xdb5c, 0xeb3f, 0xfb1e, 0x8bf9, 0x9bd8, 0xabbb, 0xbb9a,
    0x4a75, 0x5a54, 0x6a37, 0x7a16, 0x0af1, 0x1ad0, 0x2ab3, 0x3a92, 0xfd2e, 0xed0f, 0xdd6c, 0xcd4d,
    0xbdaa, 0xad8b, 0x9de8, 0x8dc9, 0x7c26, 0x6c07, 0x5c64, 0x4c45, 0x3ca2, 0x2c83, 0x1ce0, 0x0cc1,
    0xef1f, 0xff3e, 0xcf5d, 0xdf7c, 0xaf9b, 0xbfba, 0x8fd9, 0x9ff8, 0x6e17, 0x7e36, 0x4e55, 0x5e74,
    0x2e93, 0x3eb2, 0x0ed1, 0x1ef0]

/-- `CC_GetCrc16` -/
def ccGetCrc16 (pData : ℕ → UInt8) (ulLen : UInt32) : UInt16 :=
  (List.range ulLen.toNat).foldl
    (fun crc i => (crc <<< 8) ^^^ ccTable.getD (pData i ^^^ (crc >>> 8).toUInt8).toNat 0) 0

/-- `CC_BJDC_PRE` -/
def ccBjdcPre : UInt32 := 0x55AA55AA

/-- `CC_BJDC_EOM` -/
def ccBjdcEom : UInt32 := 0x16166868

/-- `CC_BJDC_BUF_SIZE` -/
def ccBjdcBufSize : ℕ := 2048

/-- `RT_ALIGN` to 16. -/
def rtAlign16 (size : ℕ) : ℕ := (size + 15) / 16 * 16

/-- The data of a frame: the string, filled up and encrypted. -/
def bjdcData (aes : Aes) (xml : List UInt8) : List UInt8 :=
  aes.encrypt (xml ++ List.replicate (rtAlign16 xml.length - xml.length) 0)

/-- `cc_bjdc_send_xmlpack`: the bytes that are sent for a string. -/
def ccBjdcSendXmlpack (aes : Aes) (xml : List UInt8) : List UInt8 :=
  let ulLen : UInt32 := 4 + (rtAlign16 xml.length).toUInt32
  let checked := uint32Bytes 0 ++ bjdcData aes xml
  uint32Bytes ccBjdcPre ++ (uint32Bytes ulLen ++ (checked ++
    (uint16Bytes (ccGetCrc16 (fun i => checked.getD i 0) ulLen) ++ uint32Bytes ccBjdcEom)))

/-- `eCC_BJDC_RcvState_t` -/
inductive EBjdcRcvState where
  | head | eom
  deriving DecidableEq

/-- `CC_BJDC_Package_t`; `pData` is the memory that the pointer leads to. -/
structure BjdcPackage where
  ulPre : UInt32
  ulLen : UInt32
  ulType : UInt32
  pData : ℕ → UInt8
  usCheck : UInt16
  ulEom : UInt32

/-- The state of the receiver, with the packages that `__CC_BJDC_ParsePack` was called with. -/
structure BjdcReceiver where
  pBuffer : ℕ → UInt8
  nPos : ℕ
  eRcvState : EBjdcRcvState
  parsed : List BjdcPackage

/-- The package that is taken from a buffer with `nPos` bytes. -/
def bjdcPackage (pBuffer : ℕ → UInt8) (nPos : ℕ) : BjdcPackage where
  ulPre := readUInt32 pBuffer 0
  ulLen := readUInt32 pBuffer 4
  ulType := readUInt32 pBuffer 8
  pData i := pBuffer (12 + i)
  usCheck := (pBuffer (nPos - 6)).toUInt16 + (pBuffer (nPos - 6 + 1)).toUInt16 * 0x100
  ulEom := readUInt32 pBuffer (nPos - 4)

/-- The test that a package has to pass. -/
def bjdcAccepted (pBuffer : ℕ → UInt8) (nPos : ℕ) : Bool :=
  let xPack := bjdcPackage pBuffer nPos
  xPack.ulLen + 14 = nPos.toUInt32 && ccGetCrc16 (fun i => pBuffer (8 + i)) xPack.ulLen = xPack.usCheck

/-- Bytes that are written over a memory from a place on. -/
def overwrite (memory : ℕ → UInt8) (place : ℕ) (bytes : List UInt8) : ℕ → UInt8 := fun i =>
  if place ≤ i then bytes.getD (i - place) (memory i) else memory i

/-- The buffer in which the data of an accepted package has been decrypted and terminated. -/
def bjdcDecrypted (aes : Aes) (pBuffer : ℕ → UInt8) (ulLen : UInt32) : ℕ → UInt8 :=
  let nDataLen := (ulLen - 4).toNat
  Function.update (overwrite pBuffer 12
    (aes.decrypt ((List.range nDataLen).map fun i => pBuffer (12 + i))))
    (12 + nDataLen) 0

/-- The package that the parser is called with. -/
def bjdcDelivered (aes : Aes) (pBuffer : ℕ → UInt8) (nPos : ℕ) : BjdcPackage :=
  let xPack := bjdcPackage pBuffer nPos
  { xPack with pData := fun i => bjdcDecrypted aes pBuffer xPack.ulLen (12 + i) }

/-- One byte in `CC_BJDC_PutBytes`. -/
def ccBjdcPutByte (aes : Aes) (r : BjdcReceiver) (byte : UInt8) : BjdcReceiver :=
  let pBuffer := Function.update r.pBuffer r.nPos byte
  let nPos := if ccBjdcBufSize ≤ r.nPos + 1 then 0 else r.nPos + 1
  match r.eRcvState with
  | .head =>
    if nPos = 4 then
      if readUInt32 pBuffer 0 = ccBjdcPre then ⟨pBuffer, nPos, .eom, r.parsed⟩
        else ⟨pBuffer, 2, .head, r.parsed⟩
    else ⟨pBuffer, nPos, .head, r.parsed⟩
  | .eom =>
    if 8 ≤ nPos ∧ readUInt32 pBuffer (nPos - 4) = ccBjdcEom ∧ 18 ≤ nPos then
      if bjdcAccepted pBuffer nPos then
        ⟨bjdcDecrypted aes pBuffer (bjdcPackage pBuffer nPos).ulLen, 0, .head,
          r.parsed ++ [bjdcDelivered aes pBuffer nPos]⟩
      else ⟨pBuffer, 0, .head, r.parsed⟩
    else ⟨pBuffer, nPos, .eom, r.parsed⟩

/-- `CC_BJDC_PutBytes` -/
def ccBjdcPutBytes (aes : Aes) (r : BjdcReceiver) (pBytes : List UInt8) : BjdcReceiver :=
  pBytes.foldl (ccBjdcPutByte aes) r

/-- The receiver waits for the first byte of a frame. -/
def BjdcReceiver.Idle (r : BjdcReceiver) : Prop := r.eRcvState = .head ∧ r.nPos = 0

end DasEdge.Sdccp
