import DasEdge.Library.Feistel
import Mathlib.Algebra.Order.Ring.Int
import Mathlib.Data.List.GetD

/-!
# DES

`rtu_des.c`, with the tables that join the boxes with the permutation behind them. The two words of a
round key stand one after the other in the schedule, and the schedule of the decryption has them in
the opposite order, pair by pair.
-/

namespace DasEdge.Reg

open DasEdge.Library

/-- A word of DES. -/
abbrev DesWord := BitVec 32

/-- `SB1` -/
def desSB1 : List DesWord :=
  [0x01010400, 0x00000000, 0x00010000, 0x01010404, 0x01010004, 0x00010404, 0x00000004, 0x00010000,
    0x00000400, 0x01010400, 0x01010404, 0x00000400, 0x01000404, 0x01010004, 0x01000000,
    0x00000004, 0x00000404, 0x01000400, 0x01000400, 0x00010400, 0x00010400, 0x01010000,
    0x01010000, 0x01000404, 0x00010004, 0x01000004, 0x01000004, 0x00010004, 0x00000000,
    0x00000404, 0x00010404, 0x01000000, 0x00010000, 0x01010404, 0x00000004, 0x01010000,
    0x01010400, 0x01000000, 0x01000000, 0x00000400, 0x01010004, 0x00010000, 0x00010400,
    0x01000004, 0x00000400, 0x00000004, 0x01000404, 0x00010404, 0x01010404, 0x00010004,
    0x01010000, 0x01000404, 0x01000004, 0x00000404, 0x00010404, 0x01010400, 0x00000404,
    0x01000400, 0x01000400, 0x00000000, 0x00010004, 0x00010400, 0x00000000, 0x01010004]

/-- `SB2` -/
def desSB2 : List DesWord :=
  [0x80108020, 0x80008000, 0x00008000, 0x00108020, 0x00100000, 0x00000020, 0x80100020, 0x80008020,
    0x80000020, 0x80108020, 0x80108000, 0x80000000, 0x80008000, 0x00100000, 0x00000020,
    0x80100020, 0x00108000, 0x00100020, 0x80008020, 0x00000000, 0x80000000, 0x00008000,
    0x00108020, 0x80100000, 0x00100020, 0x80000020, 0x00000000, 0x00108000, 0x00008020,
    0x80108000, 0x80100000, 0x00008020, 0x00000000, 0x00108020, 0x80100020, 0x00100000,
    0x80008020, 0x80100000, 0x80108000, 0x00008000, 0x80100000, 0x80008000, 0x00000020,
    0x80108020, 0x00108020, 0x00000020, 0x00008000, 0x80000000, 0x00008020, 0x80108000,
    0x00100000, 0x80000020, 0x00100020, 0x80008020, 0x80000020, 0x00100020, 0x00108000,
    0x00000000, 0x80008000, 0x00008020, 0x80000000, 0x80100020, 0x80108020, 0x00108000]

/-- `SB3` -/
def desSB3 : List DesWord :=
  [0x00000208, 0x08020200, 0x00000000, 0x08020008, 0x08000200, 0x00000000, 0x00020208, 0x08000200,
    0x00020008, 0x08000008, 0x08000008, 0x00020000, 0x08020208, 0x00020008, 0x08020000,
    0x00000208, 0x08000000, 0x00000008, 0x08020200, 0x00000200, 0x00020200, 0x08020000,
    0x08020008, 0x00020208, 0x08000208, 0x00020200, 0x00020000, 0x08000208, 0x00000008,
    0x08020208, 0x00000200, 0x08000000, 0x08020200, 0x08000000, 0x00020008, 0x00000208,
    0x00020000, 0x08020200, 0x08000200, 0x00000000, 0x00000200, 0x00020008, 0x08020208,
    0x08000200, 0x08000008, 0x00000200, 0x00000000, 0x08020008, 0x08000208, 0x00020000,
    0x08000000, 0x08020208, 0x00000008, 0x00020208, 0x00020200, 0x08000008, 0x08020000,
    0x08000208, 0x00000208, 0x08020000, 0x00020208, 0x00000008, 0x08020008, 0x00020200]

/-- `SB4` -/
def desSB4 : List DesWord :=
  [0x00802001, 0x00002081, 0x00002081, 0x00000080, 0x00802080, 0x00800081, 0x00800001, 0x00002001,
    0x00000000, 0x00802000, 0x00802000, 0x00802081, 0x00000081, 0x00000000, 0x00800080,
    0x00800001, 0x00000001, 0x00002000, 0x00800000, 0x00802001, 0x00000080, 0x00800000,
    0x00002001, 0x00002080, 0x00800081, 0x00000001, 0x00002080, 0x00800080, 0x00002000,
    0x00802080, 0x00802081, 0x00000081, 0x00800080, 0x00800001, 0x00802000, 0x00802081,
    0x00000081, 0x00000000, 0x00000000, 0x00802000, 0x00002080, 0x00800080, 0x00800081,
    0x00000001, 0x00802001, 0x00002081, 0x00002081, 0x00000080, 0x00802081, 0x00000081,
    0x00000001, 0x00002000, 0x00800001, 0x00002001, 0x00802080, 0x00800081, 0x00002001,
    0x00002080, 0x00800000, 0x00802001, 0x00000080, 0x00800000, 0x00002000, 0x00802080]

/-- `SB5` -/
def desSB5 : List DesWord :=
  [0x00000100, 0x02080100, 0x02080000, 0x42000100, 0x00080000, 0x00000100, 0x40000000, 0x02080000,
    0x40080100, 0x00080000, 0x02000100, 0x40080100, 0x42000100, 0x42080000, 0x00080100,
    0x40000000, 0x02000000, 0x40080000, 0x40080000, 0x00000000, 0x40000100, 0x42080100,
    0x42080100, 0x02000100, 0x42080000, 0x40000100, 0x00000000, 0x42000000, 0x02080100,
    0x02000000, 0x42000000, 0x00080100, 0x00080000, 0x42000100, 0x00000100, 0x02000000,
    0x40000000, 0x02080000, 0x42000100, 0x40080100, 0x02000100, 0x40000000, 0x42080000,
    0x02080100, 0x40080100, 0x00000100, 0x02000000, 0x42080000, 0x42080100, 0x00080100,
    0x42000000, 0x42080100, 0x02080000, 0x00000000, 0x40080000, 0x42000000, 0x00080100,
    0x02000100, 0x40000100, 0x00080000, 0x00000000, 0x40080000, 0x02080100, 0x40000100]

/-- `SB6` -/
def desSB6 : List DesWord :=
  [0x20000010, 0x20400000, 0x00004000, 0x20404010, 0x20400000, 0x00000010, 0x20404010, 0x00400000,
    0x20004000, 0x00404010, 0x00400000, 0x20000010, 0x00400010, 0x20004000, 0x20000000,
    0x00004010, 0x00000000, 0x00400010, 0x20004010, 0x00004000, 0x00404000, 0x20004010,
    0x00000010, 0x20400010, 0x20400010, 0x00000000, 0x00404010, 0x20404000, 0x00004010,
    0x00404000, 0x20404000, 0x20000000, 0x20004000, 0x00000010, 0x20400010, 0x00404000,
    0x20404010, 0x00400000, 0x00004010, 0x20000010, 0x00400000, 0x20004000, 0x20000000,
    0x00004010, 0x20000010, 0x20404010, 0x00404000, 0x20400000, 0x00404010, 0x20404000,
    0x00000000, 0x20400010, 0x00000010, 0x00004000, 0x20400000, 0x00404010, 0x00004000,
    0x00400010, 0x20004010, 0x00000000, 0x20404000, 0x20000000, 0x00400010, 0x20004010]

/-- `SB7` -/
def desSB7 : List DesWord :=
  [0x00200000, 0x04200002, 0x04000802, 0x00000000, 0x00000800, 0x04000802, 0x00200802, 0x04200800,
    0x04200802, 0x00200000, 0x00000000, 0x04000002, 0x00000002, 0x04000000, 0x04200002,
    0x00000802, 0x04000800, 0x00200802, 0x00200002, 0x04000800, 0x04000002, 0x04200000,
    0x04200800, 0x00200002, 0x04200000, 0x00000800, 0x00000802, 0x04200802, 0x00200800,
    0x00000002, 0x04000000, 0x00200800, 0x04000000, 0x00200800, 0x00200000, 0x04000802,
    0x04000802, 0x04200002, 0x04200002, 0x00000002, 0x00200002, 0x04000000, 0x04000800,
    0x00200000, 0x04200800, 0x00000802, 0x00200802, 0x04200800, 0x00000802, 0x04000002,
    0x04200802, 0x04200000, 0x00200800, 0x00000000, 0x00000002, 0x04200802, 0x00000000,
    0x00200802, 0x04200000, 0x00000800, 0x04000002, 0x04000800, 0x00000800, 0x00200002]

/-- `SB8` -/
def desSB8 : List DesWord :=
  [0x10001040, 0x00001000, 0x00040000, 0x10041040, 0x10000000, 0x10001040, 0x00000040, 0x10000000,
    0x00040040, 0x10040000, 0x10041040, 0x00041000, 0x10041000, 0x00041040, 0x00001000,
    0x00000040, 0x10040000, 0x10000040, 0x10001000, 0x00001040, 0x00041000, 0x00040040,
    0x10040040, 0x10041000, 0x00001040, 0x00000000, 0x00000000, 0x10040040, 0x10000040,
    0x10001000, 0x00041040, 0x00040000, 0x00041040, 0x00040000, 0x10041000, 0x00001000,
    0x00000040, 0x10040040, 0x00001000, 0x00041040, 0x10001000, 0x00000040, 0x10000040,
    0x10040000, 0x10040040, 0x10000000, 0x00040000, 0x10001040, 0x00000000, 0x10041040,
    0x00040040, 0x10000040, 0x10040000, 0x10001000, 0x10001040, 0x00000000, 0x10041040,
    0x00041000, 0x00041000, 0x00001040, 0x00001040, 0x00040040, 0x10000000, 0x10041000]

/-- `LHs` -/
def desLHs : List DesWord :=
  [0x00000000, 0x00000001, 0x00000100, 0x00000101, 0x00010000, 0x00010001, 0x00010100, 0x00010101,
    0x01000000, 0x01000001, 0x01000100, 0x01000101, 0x01010000, 0x01010001, 0x01010100, 0x01010101]

/-- `RHs` -/
def desRHs : List DesWord :=
  [0x00000000, 0x01000000, 0x00010000, 0x01010000, 0x00000100, 0x01000100, 0x00010100, 0x01010100,
    0x00000001, 0x01000001, 0x00010001, 0x01010001, 0x00000101, 0x01000101, 0x00010101, 0x01010101]

/-- `GET_UINT32_BE` -/
def getUint32Be (b0 b1 b2 b3 : UInt8) : DesWord :=
  (b0.toBitVec.setWidth 32 <<< 24) ||| (b1.toBitVec.setWidth 32 <<< 16) |||
    (b2.toBitVec.setWidth 32 <<< 8) ||| b3.toBitVec.setWidth 32

/-- `PUT_UINT32_BE` -/
def putUint32Be (n : DesWord) : List UInt8 :=
  [.ofBitVec ((n >>> 24).setWidth 8), .ofBitVec ((n >>> 16).setWidth 8),
    .ofBitVec ((n >>> 8).setWidth 8),
    .ofBitVec (n.setWidth 8)]

/-- A rotation to the left by one. -/
def rotateLeftOne (x : DesWord) : DesWord := (x <<< 1) ||| (x >>> 31)

/-- A rotation to the right by one. -/
def rotateRightOne (x : DesWord) : DesWord := (x <<< 31) ||| (x >>> 1)

/-- Steps of `DES_IP` and `DES_FP` on the words in the opposite order. -/
def onSwap (step : DesWord × DesWord → DesWord × DesWord) (words : DesWord × DesWord) :
    DesWord × DesWord :=
  (step words.swap).swap

/-- `DES_IP` -/
def desIP (words : DesWord × DesWord) : DesWord × DesWord :=
  let words := exchangeBits 0x0F0F0F0F 4 words
  let words := exchangeBits 0x0000FFFF 16 words
  let words := onSwap (exchangeBits 0x33333333 2) words
  let words := onSwap (exchangeBits 0x00FF00FF 8) words
  let words := (words.1, rotateLeftOne words.2)
  let words := exchangeBits 0xAAAAAAAA 0 words
  (rotateLeftOne words.1, words.2)

/-- `DES_FP` -/
def desFP (words : DesWord × DesWord) : DesWord × DesWord :=
  let words := (rotateRightOne words.1, words.2)
  let words := exchangeBits 0xAAAAAAAA 0 words
  let words := (words.1, rotateRightOne words.2)
  let words := onSwap (exchangeBits 0x00FF00FF 8) words
  let words := onSwap (exchangeBits 0x33333333 2) words
  let words := exchangeBits 0x0000FFFF 16 words
  exchangeBits 0x0F0F0F0F 4 words

/-- An entry of a table, by six bits of a word. -/
def desBox (box : List DesWord) (t : DesWord) (shift : ℕ) : DesWord :=
  box.getD ((t >>> shift) &&& 0x3F).toNat 0

/-- What `DES_ROUND` adds to a word, with its two words of the schedule. -/
def desRoundValue (sk : DesWord × DesWord) (x : DesWord) : DesWord :=
  let t := sk.1 ^^^ x
  let t' := sk.2 ^^^ ((x <<< 28) ||| (x >>> 4))
  (desBox desSB8 t 0 ^^^ desBox desSB6 t 8 ^^^ desBox desSB4 t 16 ^^^ desBox desSB2 t 24) ^^^
    (desBox desSB7 t' 0 ^^^ desBox desSB5 t' 8 ^^^ desBox desSB3 t' 16 ^^^ desBox desSB1 t' 24)

/-- Two rounds in `_des_crypt`, `DES_ROUND( Y, X ); DES_ROUND( X, Y );`. -/
def desTwoRounds (words : DesWord × DesWord) (sk sk' : DesWord × DesWord) : DesWord × DesWord :=
  let x := words.1 ^^^ desRoundValue sk words.2
  (x, words.2 ^^^ desRoundValue sk' x)

/-- The schedule of sixteen rounds, with two words for each. -/
abbrev DesSchedule := Vector DesWord 32

/-- The two words of a round. -/
def DesSchedule.round (sk : DesSchedule) (i : Fin 16) : DesWord × DesWord :=
  (sk[2 * i.val], sk[2 * i.val + 1])

/-- `_des_crypt` on the two words of a block. -/
def desCrypt (sk : DesSchedule) (words : DesWord × DesWord) : DesWord × DesWord :=
  let words := desIP words
  let words := desTwoRounds words (sk.round 0) (sk.round 1)
  let words := desTwoRounds words (sk.round 2) (sk.round 3)
  let words := desTwoRounds words (sk.round 4) (sk.round 5)
  let words := desTwoRounds words (sk.round 6) (sk.round 7)
  let words := desTwoRounds words (sk.round 8) (sk.round 9)
  let words := desTwoRounds words (sk.round 10) (sk.round 11)
  let words := desTwoRounds words (sk.round 12) (sk.round 13)
  let words := desTwoRounds words (sk.round 14) (sk.round 15)
  desFP words.swap

/-- An entry of `LHs` or `RHs`, by four bits of a word. -/
def desHalf (table : List DesWord) (x : DesWord) (shift : ℕ) : DesWord :=
  table.getD ((x >>> shift) &&& 0xF).toNat 0

/-- A turn of the loop in `_des_main_ks`: the two halves of the key are rotated, and their bits make two
words of the schedule. -/
def desKsTurn (halves : DesWord × DesWord) (i : ℕ) : (DesWord × DesWord) × List DesWord :=
  let rotate := fun x : DesWord =>
    if i < 2 ∨ i = 8 ∨ i = 15 then ((x <<< 1) ||| (x >>> 27)) &&& 0x0FFFFFFF
    else ((x <<< 2) ||| (x >>> 26)) &&& 0x0FFFFFFF
  let x := rotate halves.1
  let y := rotate halves.2
  let even :=
    ((x <<< 4) &&& 0x24000000) ||| ((x <<< 28) &&& 0x10000000) ||| ((x <<< 14) &&& 0x08000000) |||
    ((x <<< 18) &&& 0x02080000) ||| ((x <<< 6) &&& 0x01000000) ||| ((x <<< 9) &&& 0x00200000) |||
    ((x >>> 1) &&& 0x00100000) ||| ((x <<< 10) &&& 0x00040000) ||| ((x <<< 2) &&& 0x00020000) |||
    ((x >>> 10) &&& 0x00010000) ||| ((y >>> 13) &&& 0x00002000) ||| ((y >>> 4) &&& 0x00001000) |||
    ((y <<< 6) &&& 0x00000800) ||| ((y >>> 1) &&& 0x00000400) ||| ((y >>> 14) &&& 0x00000200) |||
    (y &&& 0x00000100) ||| ((y >>> 5) &&& 0x00000020) ||| ((y >>> 10) &&& 0x00000010) |||
    ((y >>> 3) &&& 0x00000008) ||| ((y >>> 18) &&& 0x00000004) ||| ((y >>> 26) &&& 0x00000002) |||
    ((y >>> 24) &&& 0x00000001)
  let odd := ((x <<< 15) &&& 0x20000000) ||| ((x <<< 17) &&& 0x10000000) |||
    ((x <<< 10) &&& 0x08000000) ||| ((x <<< 22) &&& 0x04000000) ||| ((x >>> 2) &&& 0x02000000) |||
    ((x <<< 1) &&& 0x01000000) ||| ((x <<< 16) &&& 0x00200000) ||| ((x <<< 11) &&& 0x00100000) |||
    ((x <<< 3) &&& 0x00080000) ||| ((x >>> 6) &&& 0x00040000) ||| ((x <<< 15) &&& 0x00020000) |||
    ((x >>> 4) &&& 0x00010000) ||| ((y >>> 2) &&& 0x00002000) ||| ((y <<< 8) &&& 0x00001000) |||
    ((y >>> 14) &&& 0x00000808) ||| ((y >>> 9) &&& 0x00000400) ||| (y &&& 0x00000200) |||
    ((y <<< 7) &&& 0x00000100) ||| ((y >>> 7) &&& 0x00000020) ||| ((y >>> 3) &&& 0x00000011) |||
    ((y <<< 2) &&& 0x00000004) ||| ((y >>> 21) &&& 0x00000002)
  ((x, y), [even, odd])

/-- `_des_main_ks` -/
def desMainKs (key : Vector UInt8 8) : DesSchedule :=
  let words := (getUint32Be key[0] key[1] key[2] key[3], getUint32Be key[4] key[5] key[6] key[7])
  let words := (exchangeBits 0x0F0F0F0F 4 words.swap).swap
  let words := (exchangeBits 0x10101010 0 words.swap).swap
  let x := words.1
  let y := words.2
  let left :=
    (desHalf desLHs x 0 <<< 3) ||| (desHalf desLHs x 8 <<< 2) ||| (desHalf desLHs x 16 <<< 1) |||
    desHalf desLHs x 24 ||| (desHalf desLHs x 5 <<< 7) ||| (desHalf desLHs x 13 <<< 6) |||
    (desHalf desLHs x 21 <<< 5) ||| (desHalf desLHs x 29 <<< 4)
  let right :=
    (desHalf desRHs y 1 <<< 3) ||| (desHalf desRHs y 9 <<< 2) ||| (desHalf desRHs y 17 <<< 1) |||
    desHalf desRHs y 25 ||| (desHalf desRHs y 4 <<< 7) ||| (desHalf desRHs y 12 <<< 6) |||
    (desHalf desRHs y 20 <<< 5) ||| (desHalf desRHs y 28 <<< 4)
  let turns := (List.range 16).foldl (fun s i =>
    let turn := desKsTurn s.1 i
    (turn.1, s.2 ++ turn.2)) ((left &&& 0x0FFFFFFF, right &&& 0x0FFFFFFF), ([] : List DesWord))
  Vector.ofFn fun i => turns.2.getD i.val 0

/-- `dsk` in `_des_set_key`. -/
def desDsk (esk : DesSchedule) : DesSchedule :=
  Vector.ofFn fun i => if i.val % 2 = 0 then esk[30 - i.val] else esk[31 - (i.val - 1)]

/-- The loop of `rtu_des_encrypt` and `rtu_des_decrypt` on a memory, with what is written and the length
that is left. A block is read whole. -/
def desLoop (sk : DesSchedule) : ℤ → List UInt8 → Option (List UInt8 × ℤ)
  | datalen, b0 :: b1 :: b2 :: b3 :: b4 :: b5 :: b6 :: b7 :: rest =>
    if 0 < datalen then
      let words := desCrypt sk (getUint32Be b0 b1 b2 b3, getUint32Be b4 b5 b6 b7)
      (desLoop sk (datalen - 8) rest).map fun (out, datalen) =>
        (putUint32Be words.1 ++ putUint32Be words.2 ++ out, datalen)
    else some ([], datalen)
  | datalen, _ => if 0 < datalen then none else some ([], datalen)

/-- `rtu_des_encrypt` -/
def rtuDesEncrypt (memory : List UInt8) (datalen : ℤ) (key : Vector UInt8 8) :
    Option (List UInt8 × ℤ) :=
  desLoop (desMainKs key) datalen memory

/-- `rtu_des_decrypt` -/
def rtuDesDecrypt (memory : List UInt8) (datalen : ℤ) (key : Vector UInt8 8) :
    Option (List UInt8 × ℤ) :=
  desLoop (desDsk (desMainKs key)) datalen memory

/-- A block of a published example. -/
example : rtuDesEncrypt [0x01, 0x23, 0x45, 0x67, 0x89, 0xAB, 0xCD, 0xEF] 8
    #v[0x13, 0x34, 0x57, 0x79, 0x9B, 0xBC, 0xDF, 0xF1] =
      some ([0x85, 0xE8, 0x13, 0x54, 0x0F, 0x0A, 0xB4, 0x05], 0) := by decide +kernel

/-- A rotated word is rotated back. -/
theorem rotateRightOne_rotateLeftOne (x : DesWord) : rotateRightOne (rotateLeftOne x) = x := by
  refine BitVec.eq_of_getLsbD_eq fun i hi => ?_
  simp only [rotateRightOne, rotateLeftOne, BitVec.getLsbD_or, BitVec.getLsbD_shiftLeft,
    BitVec.getLsbD_ushiftRight]
  rcases Nat.lt_or_ge i 31 with hlt | hge
  · simp [hlt, BitVec.getLsbD_of_ge x (31 + (1 + i)) (by omega), show 1 + i < 32 by omega]
  · obtain rfl : i = 31 := by omega
    simp

/-- A word that was rotated back is rotated again. -/
theorem rotateLeftOne_rotateRightOne (x : DesWord) : rotateLeftOne (rotateRightOne x) = x := by
  refine BitVec.eq_of_getLsbD_eq fun i hi => ?_
  simp only [rotateRightOne, rotateLeftOne, BitVec.getLsbD_or, BitVec.getLsbD_shiftLeft,
    BitVec.getLsbD_ushiftRight]
  rcases Nat.eq_zero_or_pos i with rfl | hpos
  · simp
  · have hlow : i - 1 < 31 := by omega
    simp [hi, hlow, show ¬ i < 1 by omega, show 1 + (i - 1) = i by omega,
      BitVec.getLsbD_of_ge x (1 + (31 + i)) (by omega)]

/-- Steps on exchanged words are taken back as on the words themselves. -/
theorem onSwap_onSwap {step : DesWord × DesWord → DesWord × DesWord}
    (h : ∀ words, step (step words) = words)
    (words : DesWord × DesWord) : onSwap step (onSwap step words) = words := by
  rw [onSwap, onSwap, Prod.swap_swap, h, Prod.swap_swap]

section Exchanges

variable (words : DesWord × DesWord)

/-- Half bytes are exchanged back. -/
theorem exchange_halfBytes : exchangeBits 0x0F0F0F0F 4 (exchangeBits 0x0F0F0F0F 4 words) = words :=
  exchangeBits_exchangeBits (by decide) words

/-- Half words are exchanged back. -/
theorem exchange_halfWords : exchangeBits 0x0000FFFF 16 (exchangeBits 0x0000FFFF 16 words) = words :=
  exchangeBits_exchangeBits (by decide) words

/-- Pairs of bits are exchanged back. -/
theorem exchange_pairs :
    onSwap (exchangeBits 0x33333333 2) (onSwap (exchangeBits 0x33333333 2) words) = words :=
  onSwap_onSwap (exchangeBits_exchangeBits (by decide)) words

/-- Bytes are exchanged back. -/
theorem exchange_bytes :
    onSwap (exchangeBits 0x00FF00FF 8) (onSwap (exchangeBits 0x00FF00FF 8) words) = words :=
  onSwap_onSwap (exchangeBits_exchangeBits (by decide)) words

/-- Bits in the same places are exchanged back. -/
theorem exchange_bits : exchangeBits 0xAAAAAAAA 0 (exchangeBits 0xAAAAAAAA 0 words) = words :=
  exchangeBits_exchangeBits (by decide) words

/-- The last permutation takes the first one back. -/
theorem desFP_desIP : desFP (desIP words) = words := by
  simp only [desFP, desIP, rotateRightOne_rotateLeftOne, Prod.mk.eta, exchange_bits, exchange_bytes,
    exchange_pairs, exchange_halfWords, exchange_halfBytes]

/-- The first permutation takes the last one back. -/
theorem desIP_desFP : desIP (desFP words) = words := by
  simp only [desFP, desIP, exchange_halfBytes, exchange_halfWords, exchange_pairs, exchange_bytes,
    rotateLeftOne_rotateRightOne, Prod.mk.eta, exchange_bits]

end Exchanges

/-- The rounds with their words of the schedule. -/
def desRounds (sk : DesSchedule) : List (DesWord × DesWord) := List.ofFn sk.round

/-- A block goes through a Feistel network between the permutations. -/
theorem desCrypt_eq (sk : DesSchedule) (words : DesWord × DesWord) :
    desCrypt sk words = desFP (feistel (· ^^^ ·) desRoundValue (desRounds sk) (desIP words)).swap := rfl

/-- The schedule of the decryption has the rounds in the opposite order. -/
theorem desRounds_desDsk (esk : DesSchedule) : desRounds (desDsk esk) = (desRounds esk).reverse := by
  have hword : ∀ a b (ha : a < 32) (hb : b < 32), a = b → esk[a] = esk[b] := by
    rintro a _ _ _ rfl
    rfl
  have hround : ∀ i : Fin 16, (desDsk esk).round i = esk.round ⟨15 - i.val, by omega⟩ := by
    intro i
    have heven : (desDsk esk)[2 * i.val] = esk[2 * (15 - i.val)] := by
      simp only [desDsk, Vector.getElem_ofFn]
      rw [if_pos (by omega)]
      exact hword _ _ _ _ (by omega)
    have hodd : (desDsk esk)[2 * i.val + 1] = esk[2 * (15 - i.val) + 1] := by
      simp only [desDsk, Vector.getElem_ofFn]
      rw [if_neg (by omega)]
      exact hword _ _ _ _ (by omega)
    rw [DesSchedule.round, heven, hodd]
    rfl
  refine List.ext_getElem (by rw [List.length_reverse, desRounds, desRounds, List.length_ofFn,
    List.length_ofFn]) ?_
  intro i hi _
  rw [List.getElem_reverse]
  simp only [desRounds, List.getElem_ofFn, List.length_ofFn, hround]

/-- A block is decrypted with the rounds in the opposite order. -/
theorem desCrypt_reverse {sk sk' : DesSchedule} (h : desRounds sk' = (desRounds sk).reverse)
    (words : DesWord × DesWord) : desCrypt sk' (desCrypt sk words) = words := by
  have hadd : ∀ a b : DesWord, a ^^^ b ^^^ b = a := fun a b => by
    rw [BitVec.xor_assoc, BitVec.xor_self, BitVec.xor_zero]
  rw [desCrypt_eq, desCrypt_eq, desIP_desFP, h, feistel_reverse_swap desRoundValue hadd, Prod.swap_swap,
    desFP_desIP]

/-- The schedule of the encryption has the rounds of the decryption in the opposite order. -/
theorem desRounds_reverse_desDsk (esk : DesSchedule) :
    desRounds esk = (desRounds (desDsk esk)).reverse := by
  rw [desRounds_desDsk, List.reverse_reverse]

/-- A word is read as it was written. -/
theorem getUint32Be_putUint32Be (n : DesWord) : ∃ b0 b1 b2 b3, putUint32Be n = [b0, b1, b2, b3] ∧
    getUint32Be b0 b1 b2 b3 = n := by
  refine ⟨_, _, _, _, rfl, BitVec.eq_of_getLsbD_eq fun i hi => ?_⟩
  simp only [getUint32Be, BitVec.getLsbD_or, BitVec.getLsbD_shiftLeft, BitVec.getLsbD_setWidth,
    BitVec.getLsbD_ushiftRight]
  rcases Nat.lt_or_ge i 8 with h8 | h8
  · simp [hi, h8, show i < 16 by omega, show i < 24 by omega]
  rcases Nat.lt_or_ge i 16 with h16 | h16
  · simp [hi, h16, show ¬ i < 8 by omega, show i - 8 < 8 by omega, show i - 8 < 32 by omega,
      show i < 24 by omega, show 8 + (i - 8) = i by omega]
  rcases Nat.lt_or_ge i 24 with h24 | h24
  · simp [hi, h24, show ¬ i < 8 by omega, show ¬ i < 16 by omega, show ¬ i - 8 < 8 by omega,
      show i - 16 < 8 by omega, show i - 16 < 32 by omega, show 16 + (i - 16) = i by omega]
  · simp [hi, show ¬ i < 8 by omega, show ¬ i < 16 by omega, show ¬ i < 24 by omega,
      show ¬ i - 8 < 8 by omega,
      show ¬ i - 16 < 8 by omega, show i - 24 < 8 by omega, show i - 24 < 32 by omega,
      show 24 + (i - 24) = i by omega]

/-- Four bytes are written as they were read. -/
theorem putUint32Be_getUint32Be (b0 b1 b2 b3 : UInt8) : putUint32Be (getUint32Be b0 b1 b2 b3) =
    [b0, b1, b2, b3] := by
  have hbyte : ∀ (b : UInt8) (word : BitVec 32) (k : ℕ),
      (∀ i < 8, (word >>> k).getLsbD i = b.toBitVec.getLsbD i) →
      UInt8.ofBitVec ((word >>> k).setWidth 8) = b := by
    intro b word k h
    refine UInt8.toBitVec_inj.mp (BitVec.eq_of_getLsbD_eq fun i hi => ?_)
    rw [BitVec.getLsbD_setWidth, h i hi]
    simp [hi]
  have hzero : ∀ word : BitVec 32, word = word >>> 0 := fun word => (BitVec.ushiftRight_zero word).symm
  have hout : ∀ (b : UInt8) (j : ℕ), 8 ≤ j → b.toBitVec.getLsbD j = false :=
    fun b j hj => BitVec.getLsbD_of_ge _ _ hj
  have hbits : ∀ k i, (getUint32Be b0 b1 b2 b3 >>> k).getLsbD i =
      ((decide (k + i < 32) && !decide (k + i < 24) && (decide (k + i - 24 < 32) &&
        b0.toBitVec.getLsbD (k + i - 24)) ||
      decide (k + i < 32) && !decide (k + i < 16) && (decide (k + i - 16 < 32) &&
        b1.toBitVec.getLsbD (k + i - 16)) ||
      decide (k + i < 32) && !decide (k + i < 8) && (decide (k + i - 8 < 32) &&
        b2.toBitVec.getLsbD (k + i - 8))) ||
      decide (k + i < 32) && b3.toBitVec.getLsbD (k + i)) := fun k i => by
    simp only [getUint32Be, BitVec.getLsbD_or, BitVec.getLsbD_shiftLeft, BitVec.getLsbD_setWidth,
      BitVec.getLsbD_ushiftRight]
  rw [putUint32Be, hbyte b0 _ 24, hbyte b1 _ 16, hbyte b2 _ 8, hzero (getUint32Be b0 b1 b2 b3),
    hbyte b3 _ 0]
  · intro i hi
    rw [hbits]
    simp [hi, show i < 24 by omega, show i < 16 by omega, show i < 32 by omega]
  · intro i hi
    rw [hbits]
    simp [show 8 + i < 32 by omega, show i < 32 by omega, show 8 + i < 24 by omega,
      show 8 + i < 16 by omega]
  · intro i hi
    rw [hbits]
    simp [hout b3 (16 + i) (by omega), hout b2 (16 + i - 8) (by omega), show 16 + i < 32 by omega,
      show i < 32 by omega, show 16 + i < 24 by omega]
  · intro i hi
    rw [hbits]
    simp [hout b3 (24 + i) (by omega), hout b2 (24 + i - 8) (by omega),
      hout b1 (24 + i - 16) (by omega),
      show 24 + i < 32 by omega, show i < 32 by omega]

/-- Whole blocks are taken back when each one is. -/
theorem desLoop_inverts {sk sk' : DesSchedule}
    (hcrypt : ∀ words, desCrypt sk' (desCrypt sk words) = words)
    (n : ℕ) {data : List UInt8} (hlength : data.length = 8 * n) :
    ∃ out, desLoop sk (8 * n) data = some (out, 0) ∧ out.length = 8 * n ∧
      desLoop sk' (8 * n) out = some (data, 0) := by
  induction n generalizing data with
  | zero =>
    obtain rfl := List.length_eq_zero_iff.mp hlength
    exact ⟨[], rfl, rfl, rfl⟩
  | succ n ih =>
    match data, hlength with
    | b0 :: b1 :: b2 :: b3 :: b4 :: b5 :: b6 :: b7 :: rest, hlength =>
      have hrest : rest.length = 8 * n := by
        simp only [List.length_cons] at hlength
        omega
      obtain ⟨out, hout, houtlen, hback⟩ := ih hrest
      have hleft : (8 * (n + 1 : ℕ) : ℤ) - 8 = 8 * n := by omega
      have hpos : (0 : ℤ) < 8 * (n + 1 : ℕ) := by omega
      generalize hwords : desCrypt sk (getUint32Be b0 b1 b2 b3, getUint32Be b4 b5 b6 b7) = words
      obtain ⟨c0, c1, c2, c3, hleftBytes, hleftWord⟩ := getUint32Be_putUint32Be words.1
      obtain ⟨c4, c5, c6, c7, hrightBytes, hrightWord⟩ := getUint32Be_putUint32Be words.2
      refine ⟨putUint32Be words.1 ++ putUint32Be words.2 ++ out, ?_, ?_, ?_⟩
      · rw [desLoop, if_pos hpos, hleft, hout, hwords]
        rfl
      · rw [List.length_append, List.length_append, houtlen, hleftBytes, hrightBytes]
        simp only [List.length_cons, List.length_nil]
        omega
      · rw [hleftBytes, hrightBytes]
        simp only [List.cons_append, List.nil_append]
        rw [desLoop, if_pos hpos, hleft, hback, hleftWord, hrightWord, Prod.mk.eta, ← hwords, hcrypt,
          Option.map_some]
        simp only [putUint32Be_getUint32Be, List.cons_append, List.nil_append]

/-- Data of whole blocks come back from `rtu_des_decrypt` behind `rtu_des_encrypt` and from
`rtu_des_encrypt` behind `rtu_des_decrypt`, with every key. -/
theorem rtuDes_inverts (key : Vector UInt8 8) (n : ℕ) {data : List UInt8}
    (hlength : data.length = 8 * n) :
    (∃ out, rtuDesEncrypt data (8 * n) key = some (out, 0) ∧ out.length = 8 * n ∧
      rtuDesDecrypt out (8 * n) key = some (data, 0)) ∧
    ∃ out, rtuDesDecrypt data (8 * n) key = some (out, 0) ∧ out.length = 8 * n ∧
      rtuDesEncrypt out (8 * n) key = some (data, 0) :=
  ⟨desLoop_inverts (desCrypt_reverse (desRounds_desDsk _)) n hlength,
    desLoop_inverts (desCrypt_reverse (desRounds_reverse_desDsk _)) n hlength⟩

/-- Two blocks. -/
theorem rtuDes_inverts_two :
    (∃ out, rtuDesEncrypt (List.replicate 16 90) (8 * (2 : ℕ)) #v[1, 2, 3, 4, 5, 6, 7, 8] =
      some (out, 0) ∧
      out.length = 8 * 2 ∧
      rtuDesDecrypt out (8 * (2 : ℕ)) #v[1, 2, 3, 4, 5, 6, 7, 8] = some (List.replicate 16 90, 0)) ∧
    ∃ out, rtuDesDecrypt (List.replicate 16 90) (8 * (2 : ℕ)) #v[1, 2, 3, 4, 5, 6, 7, 8] =
      some (out, 0) ∧
      out.length = 8 * 2 ∧
      rtuDesEncrypt out (8 * (2 : ℕ)) #v[1, 2, 3, 4, 5, 6, 7, 8] = some (List.replicate 16 90, 0) :=
  rtuDes_inverts _ 2 (by decide)

end DasEdge.Reg
