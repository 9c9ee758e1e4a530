import Mathlib.Logic.Function.Iterate

/-!
# HJ/T 212 packets

The encoder `Hjt212Encode` and the byte receiver `HJT212_PutBytes` of `hjt212.c`. A packet is the prefix
`##`, the length of the data segment in four decimal digits, the data segment, its check value in four
hexadecimal digits, and CR LF. The receiver collects bytes in a buffer until it sees CR LF, and then
works out the places of the length, the data segment and the check value from the end. What the packet
parser does with a packet is left out: the receiver only notes the packets that it is called with.
-/

namespace DasEdge.Sdccp

/-- The bytes of a text. -/
def ascii (text : List Char) : List UInt8 := text.map fun c => c.toNat.toUInt8

/-- One bit of a byte in `hjt212_GetCrc16`. -/
def hjt212CrcBit (lwrdCrc : UInt16) : UInt16 :=
  if lwrdCrc &&& 1 = 1 then (lwrdCrc >>> 1) ^^^ 0xA001 else lwrdCrc >>> 1

/-- `hjt212_GetCrc16`, where `char` is unsigned. -/
def hjt212GetCrc16 (ptr : ℕ → UInt8) (count : UInt32) : UInt16 :=
  (List.range count.toInt32.toInt.toNat).foldl
    (fun lwrdCrc i => hjt212CrcBit^[8] ((ptr i).toUInt16 ^^^ (lwrdCrc >>> 8))) 0xFFFF

/-- A digit of `%02x`. -/
def hexDigit (digit : UInt8) : UInt8 := if digit < 10 then 48 + digit else 97 + (digit - 10)

/-- A character as `Hex2Str` leaves it. -/
def upperCase (c : UInt8) : UInt8 := if 97 ≤ c ∧ c ≤ 122 then c - 32 else c

/-- `Hex2Str` -/
def hex2Str (hex : UInt8) : List UInt8 :=
  [upperCase (hexDigit (hex >>> 4)), upperCase (hexDigit (hex &&& 15))]

/-- The four digits of a check value. -/
def hjt212Check (usCrc16 : UInt16) : List UInt8 :=
  hex2Str (usCrc16 >>> 8).toUInt8 ++ hex2Str usCrc16.toUInt8

/-- The arguments of `Hjt212Encode`: null pointers, or texts up to the end of their memory. -/
structure Hjt212Fields where
  QN : Option (List UInt8)
  ST : Option (List UInt8)
  CN : Option (List UInt8)
  PW : Option (List UInt8)
  MN : Option (List UInt8)
  Flag : Option (List UInt8)
  CP : Option (List UInt8)

/-- The characters of a C string. -/
def cString (s : List UInt8) : List UInt8 := s.takeWhile fun c => c ≠ 0

/-- The group that is written for a field, unless its pointer is null. -/
def encodeGroup (name : List UInt8) (value : List UInt8 → List UInt8) (stop : List UInt8) :
    Option (List UInt8) → List UInt8
  | none => []
  | some s => name ++ value s ++ stop

/-- The data segment that `Hjt212Encode` writes. -/
def hjt212DataSegment (fields : Hjt212Fields) : List UInt8 :=
  encodeGroup (ascii ['Q', 'N', '=']) (fun s => (cString s).take 20) (ascii [';']) fields.QN ++
  (encodeGroup (ascii ['S', 'T', '=']) (fun s => (cString s).take 5) (ascii [';']) fields.ST ++
  (encodeGroup (ascii ['C', 'N', '=']) (fun s => (cString s).take 7) (ascii [';']) fields.CN ++
  (encodeGroup (ascii ['P', 'W', '=']) (fun s => (cString s).take 9) (ascii [';']) fields.PW ++
  (encodeGroup (ascii ['M', 'N', '=']) (fun s => (cString s).take 27) (ascii [';']) fields.MN ++
  (encodeGroup (ascii ['F', 'l', 'a', 'g', '=']) (fun s => [s.headD 0]) (ascii [';']) fields.Flag ++
  encodeGroup (ascii ['C', 'P', '=', '&', '&']) cString (ascii ['&', '&']) fields.CP)))))

/-- The four decimal digits of a length. -/
def hjt212Length (length : ℕ) : List UInt8 :=
  [48 + (length / 1000 % 10).toUInt8, 48 + (length / 100 % 10).toUInt8, 48 + (length / 10 % 10).toUInt8,
    48 + (length % 10).toUInt8]

/-- `Hjt212Encode` -/
def hjt212Encode (fields : Hjt212Fields) : List UInt8 :=
  let segment := hjt212DataSegment fields
  ascii ['#', '#'] ++ (hjt212Length segment.length ++ (segment ++
    (hjt212Check (hjt212GetCrc16 (fun i => segment.getD i 0) segment.length.toUInt32) ++ [0x0d, 0x0a])))

/-- `eHJT212_RcvState_t` -/
inductive EHjt212RcvState where
  | head | eom
  deriving DecidableEq

/-- `HJT212_Package_t`; `pData` is the memory that the pointer leads to. -/
structure Hjt212Package where
  usPre : UInt16
  btLen : Fin 4 → UInt8
  pData : ℕ → UInt8
  btCheck : Fin 4 → UInt8
  usEom : UInt16

/-- The state of the receiver, with the packets that `__HJT212_ParsePack` was called with. -/
structure Hjt212Receiver where
  pBuffer : ℕ → UInt8
  nPos : ℕ
  eRcvState : EHjt212RcvState
  parsed : List Hjt212Package

/-- `HJT212_BUF_SIZE` -/
def hjt212BufSize : ℕ := 2048

/-- The 16-bit number at a place in the buffer. -/
def readUInt16 (pBuffer : ℕ → UInt8) (pos : ℕ) : UInt16 :=
  (pBuffer pos).toUInt16 + (pBuffer (pos + 1)).toUInt16 * 256

/-- The package that is taken from a buffer with `nPos` bytes. -/
def hjt212Package (pBuffer : ℕ → UInt8) (nPos : ℕ) : Hjt212Package where
  usPre := readUInt16 pBuffer 0
  btLen i := pBuffer (2 + i)
  pData i := pBuffer (6 + i)
  btCheck i := pBuffer (nPos - 6 + i)
  usEom := readUInt16 pBuffer (nPos - 2)

/-- `ulLen`: the length that the package states. -/
def Hjt212Package.ulLen (xPack : Hjt212Package) : UInt32 :=
  let digit i := (xPack.btLen i).toUInt32 - 48
  digit 0 * 1000 + digit 1 * 100 + digit 2 * 10 + digit 3

/-- `strncmp` finds no difference. -/
def strncmpEqual : List UInt8 → List UInt8 → Bool
  | a :: as, b :: bs => a = b && (a = 0 || strncmpEqual as bs)
  | _, _ => true

/-- The test that a package has to pass. -/
def Hjt212Package.accepted (xPack : Hjt212Package) (nPos : ℕ) : Bool :=
  xPack.ulLen + 12 = nPos.toUInt32 &&
    strncmpEqual (List.ofFn xPack.btCheck) (hjt212Check (hjt212GetCrc16 xPack.pData xPack.ulLen))

/-- One byte in `HJT212_PutBytes`. -/
def hjt212PutByte (r : Hjt212Receiver) (byte : UInt8) : Hjt212Receiver :=
  let pBuffer := Function.update r.pBuffer r.nPos byte
  let nPos := if hjt212BufSize ≤ r.nPos + 1 then 0 else r.nPos + 1
  match r.eRcvState with
  | .head =>
    if nPos = 2 then
      if readUInt16 pBuffer 0 = 0x2323 then ⟨pBuffer, nPos, .eom, r.parsed⟩
        else ⟨pBuffer, 1, .head, r.parsed⟩
    else ⟨pBuffer, nPos, .head, r.parsed⟩
  | .eom =>
    if 4 ≤ nPos ∧ readUInt16 pBuffer (nPos - 2) = 0x0A0d ∧ 18 ≤ nPos then
      let xPack := hjt212Package pBuffer nPos
      ⟨pBuffer, 0, .head, if xPack.accepted nPos then r.parsed ++ [xPack] else r.parsed⟩
    else ⟨pBuffer, nPos, .eom, r.parsed⟩

/-- `HJT212_PutBytes` -/
def hjt212PutBytes (r : Hjt212Receiver) (pBytes : List UInt8) : Hjt212Receiver :=
  pBytes.foldl hjt212PutByte r

/-- The receiver waits for the first byte of a packet. -/
def Hjt212Receiver.Idle (r : Hjt212Receiver) : Prop := r.eRcvState = .head ∧ r.nPos = 0

end DasEdge.Sdccp
