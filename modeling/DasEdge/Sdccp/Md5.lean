import DasEdge.Library.BlockDigest
import Mathlib.Data.List.GetD
import Mathlib.Tactic.Ring

/-!
# The message digest

`dm_md5.c` and `cc_md5.c` have one transform, and `CC_MD5Update` feeds it byte by byte. A digest is taken
of pieces that come one after the other, and what it is of is what the pieces are together.
-/

namespace DasEdge.Sdccp

open DasEdge.Library

/-- `state`, `buf` -/
structure Md5Registers where
  a : UInt32
  b : UInt32
  c : UInt32
  d : UInt32
deriving DecidableEq

/-- `FF`, `GG`, `HH`, `II` -/
inductive Md5Round
  | ff
  | gg
  | hh
  | ii

/-- `F`, `G`, `H`, `I` -/
def Md5Round.mix (x y z : UInt32) : Md5Round → UInt32
  | ff => (x &&& y) ||| (~~~ x &&& z)
  | gg => (x &&& z) ||| (y &&& ~~~ z)
  | hh => x ^^^ y ^^^ z
  | ii => y ^^^ (x ||| ~~~ z)

/-- The words of a block are numbered from zero on. -/
local instance (priority := 1100) neZeroWords : NeZero 16 := ⟨by decide⟩

/-- The round of a step, its word, its rotation and its constant. -/
abbrev Md5Step := Md5Round × Fin 16 × UInt32 × UInt32

/-- The steps of `DM_MD5_Transform`. -/
def dmMd5Steps : List Md5Step :=
  [(.ff, 0, 7, 0xd76aa478), (.ff, 1, 12, 0xe8c7b756), (.ff, 2, 17, 0x242070db),
    (.ff, 3, 22, 0xc1bdceee), (.ff, 4, 7, 0xf57c0faf), (.ff, 5, 12, 0x4787c62a),
    (.ff, 6, 17, 0xa8304613), (.ff, 7, 22, 0xfd469501), (.ff, 8, 7, 0x698098d8),
    (.ff, 9, 12, 0x8b44f7af), (.ff, 10, 17, 0xffff5bb1), (.ff, 11, 22, 0x895cd7be),
    (.ff, 12, 7, 0x6b901122), (.ff, 13, 12, 0xfd987193), (.ff, 14, 17, 0xa679438e),
    (.ff, 15, 22, 0x49b40821), (.gg, 1, 5, 0xf61e2562), (.gg, 6, 9, 0xc040b340),
    (.gg, 11, 14, 0x265e5a51), (.gg, 0, 20, 0xe9b6c7aa), (.gg, 5, 5, 0xd62f105d),
    (.gg, 10, 9, 0x2441453), (.gg, 15, 14, 0xd8a1e681), (.gg, 4, 20, 0xe7d3fbc8),
    (.gg, 9, 5, 0x21e1cde6), (.gg, 14, 9, 0xc33707d6), (.gg, 3, 14, 0xf4d50d87),
    (.gg, 8, 20, 0x455a14ed), (.gg, 13, 5, 0xa9e3e905), (.gg, 2, 9, 0xfcefa3f8),
    (.gg, 7, 14, 0x676f02d9), (.gg, 12, 20, 0x8d2a4c8a), (.hh, 5, 4, 0xfffa3942),
    (.hh, 8, 11, 0x8771f681), (.hh, 11, 16, 0x6d9d6122), (.hh, 14, 23, 0xfde5380c),
    (.hh, 1, 4, 0xa4beea44), (.hh, 4, 11, 0x4bdecfa9), (.hh, 7, 16, 0xf6bb4b60),
    (.hh, 10, 23, 0xbebfbc70), (.hh, 13, 4, 0x289b7ec6), (.hh, 0, 11, 0xeaa127fa),
    (.hh, 3, 16, 0xd4ef3085), (.hh, 6, 23, 0x4881d05), (.hh, 9, 4, 0xd9d4d039),
    (.hh, 12, 11, 0xe6db99e5), (.hh, 15, 16, 0x1fa27cf8), (.hh, 2, 23, 0xc4ac5665),
    (.ii, 0, 6, 0xf4292244), (.ii, 7, 10, 0x432aff97), (.ii, 14, 15, 0xab9423a7),
    (.ii, 5, 21, 0xfc93a039), (.ii, 12, 6, 0x655b59c3), (.ii, 3, 10, 0x8f0ccc92),
    (.ii, 10, 15, 0xffeff47d), (.ii, 1, 21, 0x85845dd1), (.ii, 8, 6, 0x6fa87e4f),
    (.ii, 15, 10, 0xfe2ce6e0), (.ii, 6, 15, 0xa3014314), (.ii, 13, 21, 0x4e0811a1),
    (.ii, 4, 6, 0xf7537e82), (.ii, 11, 10, 0xbd3af235), (.ii, 2, 15, 0x2ad7d2bb),
    (.ii, 9, 21, 0xeb86d391)]

/-- The steps of `Transform` in `cc_md5.c`. -/
def ccMd5Steps : List Md5Step :=
  [(.ff, 0, 7, 3614090360), (.ff, 1, 12, 3905402710), (.ff, 2, 17, 606105819),
    (.ff, 3, 22, 3250441966), (.ff, 4, 7, 4118548399), (.ff, 5, 12, 1200080426),
    (.ff, 6, 17, 2821735955), (.ff, 7, 22, 4249261313), (.ff, 8, 7, 1770035416),
    (.ff, 9, 12, 2336552879), (.ff, 10, 17, 4294925233), (.ff, 11, 22, 2304563134),
    (.ff, 12, 7, 1804603682), (.ff, 13, 12, 4254626195), (.ff, 14, 17, 2792965006),
    (.ff, 15, 22, 1236535329), (.gg, 1, 5, 4129170786), (.gg, 6, 9, 3225465664),
    (.gg, 11, 14, 643717713), (.gg, 0, 20, 3921069994), (.gg, 5, 5, 3593408605),
    (.gg, 10, 9, 38016083), (.gg, 15, 14, 3634488961), (.gg, 4, 20, 3889429448),
    (.gg, 9, 5, 568446438), (.gg, 14, 9, 3275163606), (.gg, 3, 14, 4107603335),
    (.gg, 8, 20, 1163531501), (.gg, 13, 5, 2850285829), (.gg, 2, 9, 4243563512),
    (.gg, 7, 14, 1735328473), (.gg, 12, 20, 2368359562), (.hh, 5, 4, 4294588738),
    (.hh, 8, 11, 2272392833), (.hh, 11, 16, 1839030562), (.hh, 14, 23, 4259657740),
    (.hh, 1, 4, 2763975236), (.hh, 4, 11, 1272893353), (.hh, 7, 16, 4139469664),
    (.hh, 10, 23, 3200236656), (.hh, 13, 4, 681279174), (.hh, 0, 11, 3936430074),
    (.hh, 3, 16, 3572445317), (.hh, 6, 23, 76029189), (.hh, 9, 4, 3654602809),
    (.hh, 12, 11, 3873151461), (.hh, 15, 16, 530742520), (.hh, 2, 23, 3299628645),
    (.ii, 0, 6, 4096336452), (.ii, 7, 10, 1126891415), (.ii, 14, 15, 2878612391),
    (.ii, 5, 21, 4237533241), (.ii, 12, 6, 1700485571), (.ii, 3, 10, 2399980690),
    (.ii, 10, 15, 4293915773), (.ii, 1, 21, 2240044497), (.ii, 8, 6, 1873313359),
    (.ii, 15, 10, 4264355552), (.ii, 6, 15, 2734768916), (.ii, 13, 21, 1309151649),
    (.ii, 4, 6, 4149444226), (.ii, 11, 10, 3174756917), (.ii, 2, 15, 718787259),
    (.ii, 9, 21, 3951481745)]

/-- Both texts have the same steps. -/
theorem ccMd5Steps_eq : ccMd5Steps = dmMd5Steps := rfl

/-- `ROTATE_LEFT` -/
def md5RotateLeft (x n : UInt32) : UInt32 := (x <<< n) ||| (x >>> (32 - n))

/-- A step with what it adds to the word; the registers are then named anew, as the next step does. -/
def md5Step (registers : Md5Registers) (round : Md5Round) (x s ac : UInt32) : Md5Registers where
  a := registers.d
  b := md5RotateLeft (registers.a + (round.mix registers.b registers.c registers.d + x + ac)) s +
    registers.b
  c := registers.b
  d := registers.c

/-- The words of a block. -/
abbrev Md5Words := Vector UInt32 16

/-- What a transform adds to its registers. -/
def Md5Registers.add (left right : Md5Registers) : Md5Registers where
  a := left.a + right.a
  b := left.b + right.b
  c := left.c + right.c
  d := left.d + right.d

/-- A transform with its steps. -/
def md5Transform (steps : List Md5Step) (state : Md5Registers) (x : Md5Words) : Md5Registers :=
  state.add (steps.foldl (fun registers step =>
    md5Step registers step.1 x[step.2.1] step.2.2.1 step.2.2.2) state)

/-- A word in `DM_MD5_Decode`. -/
def dmMd5Word (b0 b1 b2 b3 : UInt8) : UInt32 :=
  b0.toUInt32 ||| (b1.toUInt32 <<< 8) ||| (b2.toUInt32 <<< 16) ||| (b3.toUInt32 <<< 24)

/-- A word in `CC_MD5Update` and `CC_MD5Final`. -/
def ccMd5Word (b0 b1 b2 b3 : UInt8) : UInt32 :=
  (b3.toUInt32 <<< 24) ||| (b2.toUInt32 <<< 16) ||| (b1.toUInt32 <<< 8) ||| b0.toUInt32

/-- The two ways to read a word. -/
theorem ccMd5Word_eq : ccMd5Word = dmMd5Word := by
  funext b0 b1 b2 b3
  rw [ccMd5Word, dmMd5Word]
  generalize b0.toUInt32 = w0, b1.toUInt32 <<< 8 = w1, b2.toUInt32 <<< 16 = w2, b3.toUInt32 <<< 24 = w3
  rw [UInt32.or_comm, UInt32.or_comm _ w1, UInt32.or_comm w3, ← UInt32.or_assoc, ← UInt32.or_assoc]

/-- The words of a block, read with one of the two. -/
def md5Decode (word : UInt8 → UInt8 → UInt8 → UInt8 → UInt32) (block : List UInt8) : Md5Words :=
  Vector.ofFn fun i => word (block.getD (4 * i.val) 0) (block.getD (4 * i.val + 1) 0)
    (block.getD (4 * i.val + 2) 0) (block.getD (4 * i.val + 3) 0)

/-- The bytes of a word in `DM_MD5_Encode`. -/
def md5Bytes (word : UInt32) : List UInt8 :=
  [(word &&& 0xff).toUInt8, ((word >>> 8) &&& 0xff).toUInt8, ((word >>> 16) &&& 0xff).toUInt8,
    ((word >>> 24) &&& 0xff).toUInt8]

/-- The bytes of the registers. -/
def md5Encode (state : Md5Registers) : List UInt8 :=
  md5Bytes state.a ++ md5Bytes state.b ++ md5Bytes state.c ++ md5Bytes state.d

/-- The registers at the beginning. -/
def md5Init : Md5Registers := ⟨0x67452301, 0xefcdab89, 0x98badcfe, 0x10325476⟩

/-- `PADDING` -/
def md5Padding : List UInt8 := 0x80 :: List.replicate 63 0

/-- The bytes that wait, by the count of bits. -/
def md5Index (count : UInt32) : ℕ := ((count >>> 3) &&& 0x3F).toNat

/-- `padLen` -/
def md5PadLen (index : ℕ) : ℕ := if index < 56 then 56 - index else 120 - index

/-- `buffer`, `in` -/
abbrev Md5Buffer := Vector UInt8 64

/-- `DM_MD5_Transform` -/
def dmMd5Transform (state : Md5Registers) (block : List UInt8) : Md5Registers :=
  md5Transform dmMd5Steps state (md5Decode dmMd5Word block)

section Cc

/-- `CC_MD5_CTX`, `RTU_MD5_CTX` -/
structure CcMd5Ctx where
  i : UInt32 × UInt32
  buf : Md5Registers
  input : Md5Buffer
  digest : List UInt8

/-- `CC_MD5Init`, `rtu_MD5Init` -/
def ccMd5Init (mdContext : CcMd5Ctx) : CcMd5Ctx := { mdContext with i := (0, 0), buf := md5Init }

/-- The count of bits in `CC_MD5Update`, whose carry is seen from what was there. -/
def ccMd5Count (i : UInt32 × UInt32) (inLen : UInt32) : UInt32 × UInt32 :=
  (i.1 + (inLen <<< 3), (if i.1 + (inLen <<< 3) < i.1 then i.2 + 1 else i.2) + (inLen >>> 29))

variable (transform : Md5Registers → Md5Words → Option Md5Registers)

/-- The loop of `CC_MD5Update`, which writes a byte more at `mdi`; nothing when it writes outside the
buffer. -/
def ccMd5Loop : List UInt8 → ℕ → Md5Registers → Md5Buffer → Option (Md5Registers × Md5Buffer)
  | [], _, buf, input => some (buf, input)
  | byte :: inBuf, mdi, buf, input =>
    if h : mdi < 64 then
      let written := input.set mdi byte
      if mdi + 1 = 64 then
        (transform buf (md5Decode ccMd5Word written.toList)).bind fun buf =>
          ccMd5Loop inBuf 0 buf written
      else ccMd5Loop inBuf (mdi + 1) buf written
    else none

/-- `CC_MD5Update`, `rtu_MD5Update` -/
def ccMd5UpdateWith (mdContext : CcMd5Ctx) (inBuf : List UInt8) : Option CcMd5Ctx :=
  (ccMd5Loop transform inBuf (md5Index mdContext.i.1) mdContext.buf mdContext.input).map fun taken =>
    { mdContext with
      i := ccMd5Count mdContext.i (UInt32.ofNat inBuf.length)
      buf := taken.1
      input := taken.2 }

/-- The words of the last block: the two counts, which were saved, are behind the words of the
buffer. -/
def ccMd5LastWords (i : UInt32 × UInt32) (input : Md5Buffer) : Md5Words :=
  Vector.ofFn fun k => if k.val = 14 then i.1 else if k.val = 15 then i.2
    else (md5Decode ccMd5Word input.toList).get k

/-- `CC_MD5Final`, `rtu_MD5Final` -/
def ccMd5FinalWith (mdContext : CcMd5Ctx) : Option CcMd5Ctx :=
  let padLen := md5PadLen (md5Index mdContext.i.1)
  (ccMd5UpdateWith transform mdContext (md5Padding.take padLen)).bind fun padded =>
    (transform padded.buf (ccMd5LastWords mdContext.i padded.input)).map fun buf =>
      { padded with buf := buf, digest := md5Encode buf }

/-- A digest of pieces with one of the transforms. -/
def ccMd5PiecesWith (mdContext : CcMd5Ctx) (pieces : List (List UInt8)) : Option (List UInt8) :=
  (pieces.foldlM (ccMd5UpdateWith transform) (ccMd5Init mdContext)).bind fun taken =>
    (ccMd5FinalWith transform taken).map CcMd5Ctx.digest

/-- `Transform` in `cc_md5.c` -/
def ccMd5Transform (buf : Md5Registers) (words : Md5Words) : Option Md5Registers :=
  some (md5Transform ccMd5Steps buf words)

/-- A digest of pieces in `cc_md5.c`. -/
def ccMd5Pieces : CcMd5Ctx → List (List UInt8) → Option (List UInt8) := ccMd5PiecesWith ccMd5Transform

end Cc

section Digest

/-- The length in bits, of which 64 bits are kept. -/
def md5LengthBytes (bits : ℕ) : List UInt8 :=
  List.ofFn fun k : Fin 8 => UInt8.ofNat (bits / 256 ^ k.val)

/-- What is behind a message: a mark, zeros up to eight bytes before the end of a block, and the
length. -/
def md5Tail (length : ℕ) : List UInt8 :=
  0x80 :: List.replicate ((119 - length % 64) % 64) 0 ++ md5LengthBytes (8 * length)

/-- The digest of a message. -/
def md5 (message : List UInt8) : List UInt8 :=
  md5Encode (absorb 64 dmMd5Transform (md5Init, []) (message ++ md5Tail message.length)).1

example : md5 ("abc".toList.map fun c => UInt8.ofNat c.toNat) =
    [0x90, 0x01, 0x50, 0x98, 0x3c, 0xd2, 0x4f, 0xb0, 0xd6, 0x96, 0x3f, 0x7d, 0x28, 0xe1, 0x7f,
    0x72] := by
  decide +kernel

end Digest


section Counts

/-- The count of bits in its two words. -/
def md5Count (bits : ℕ) : UInt32 × UInt32 := (UInt32.ofNat bits, UInt32.ofNat (bits / 2 ^ 32))

/-- The count of bits in `CC_MD5Update`. -/
theorem ccMd5Count_eq (k : ℕ) {n : ℕ} (hn : n < 2 ^ 32) :
    ccMd5Count (md5Count (8 * k)) (UInt32.ofNat n) = md5Count (8 * (k + n)) := by
  have hshift : (UInt32.ofNat n <<< 3).toNat = 8 * n % 2 ^ 32 := by
    rw [UInt32.toNat_shiftLeft, UInt32.toNat_ofNat_of_lt' hn, Nat.shiftLeft_eq,
      show (3 : UInt32).toNat % 32 = 3 from rfl]
    omega
  have hhigh : (UInt32.ofNat n >>> 29).toNat = n / 2 ^ 29 := by
    rw [UInt32.toNat_shiftRight, UInt32.toNat_ofNat_of_lt' hn, Nat.shiftRight_eq_div_pow,
      show (29 : UInt32).toNat % 32 = 29 from rfl]
  have hlow : (UInt32.ofNat (8 * k) + (UInt32.ofNat n <<< 3)).toNat = 8 * (k + n) % 2 ^ 32 := by
    rw [UInt32.toNat_add, hshift, UInt32.toNat_ofNat']
    omega
  refine Prod.ext (UInt32.toNat_inj.mp ?_) (UInt32.toNat_inj.mp ?_)
  · rw [ccMd5Count, md5Count, md5Count, hlow, UInt32.toNat_ofNat']
  · show ((if UInt32.ofNat (8 * k) + (UInt32.ofNat n <<< 3) < UInt32.ofNat (8 * k) then
        UInt32.ofNat (8 * k / 2 ^ 32) + 1 else UInt32.ofNat (8 * k / 2 ^ 32)) + (UInt32.ofNat n >>>
        29)).toNat =
      (UInt32.ofNat (8 * (k + n) / 2 ^ 32)).toNat
    by_cases hcarry : UInt32.ofNat (8 * k) + (UInt32.ofNat n <<< 3) < UInt32.ofNat (8 * k)
    · rw [if_pos hcarry, UInt32.toNat_add, UInt32.toNat_add, hhigh, UInt32.toNat_ofNat',
        UInt32.toNat_ofNat', UInt32.toNat_one]
      rw [UInt32.lt_iff_toNat_lt, hlow, UInt32.toNat_ofNat'] at hcarry
      omega
    · rw [if_neg hcarry, UInt32.toNat_add, hhigh, UInt32.toNat_ofNat', UInt32.toNat_ofNat']
      rw [UInt32.lt_iff_toNat_lt, hlow, UInt32.toNat_ofNat'] at hcarry
      omega

/-- The bytes that wait. -/
theorem md5Index_md5Count (k : ℕ) : md5Index (md5Count (8 * k)).1 = k % 64 := by
  have hmask : (0x3F : UInt32).toNat = 2 ^ 6 - 1 := rfl
  rw [md5Index, md5Count, UInt32.toNat_and, hmask, Nat.and_two_pow_sub_one_eq_mod,
    UInt32.toNat_shiftRight, UInt32.toNat_ofNat', Nat.shiftRight_eq_div_pow,
    show (3 : UInt32).toNat % 32 = 3 from rfl]
  omega

/-- A word is the number that its bytes are the digits of. -/
theorem toNat_dmMd5Word (b0 b1 b2 b3 : UInt8) : (dmMd5Word b0 b1 b2 b3).toNat =
    2 ^ 24 * b3.toNat + (2 ^ 16 * b2.toNat + (2 ^ 8 * b1.toNat + b0.toNat)) := by
  have hshift : ∀ (b : UInt8) (s : UInt32), s.toNat ≤ 24 →
      (b.toUInt32 <<< s).toNat = b.toNat <<< s.toNat := by
    intro b s hs
    have hlt : b.toNat * 2 ^ s.toNat < 2 ^ 8 * 2 ^ 24 :=
      Nat.mul_lt_mul_of_lt_of_le b.toNat_lt (Nat.pow_le_pow_right (by decide) hs) (by decide)
    rw [UInt32.toNat_shiftLeft, Nat.mod_eq_of_lt (show s.toNat < 32 by omega), UInt8.toNat_toUInt32,
      Nat.shiftLeft_eq]
    exact Nat.mod_eq_of_lt hlt
  have h0 := b0.toNat_lt
  have h1 := b1.toNat_lt
  have h2 := b2.toNat_lt
  rw [dmMd5Word, UInt32.toNat_or, UInt32.toNat_or, UInt32.toNat_or, UInt8.toNat_toUInt32,
    hshift b1 8 (by decide), hshift b2 16 (by decide), hshift b3 24 (by decide),
    show (8 : UInt32).toNat = 8 from rfl, show (16 : UInt32).toNat = 16 from rfl,
    show (24 : UInt32).toNat = 24 from rfl, Nat.or_comm b0.toNat,
    ← Nat.shiftLeft_add_eq_or_of_lt (by omega),
    Nat.or_comm _ (b2.toNat <<< 16),
    ← Nat.shiftLeft_add_eq_or_of_lt (by rw [Nat.shiftLeft_eq]; omega), Nat.or_comm _ (b3.toNat <<< 24),
    ← Nat.shiftLeft_add_eq_or_of_lt (by rw [Nat.shiftLeft_eq, Nat.shiftLeft_eq]; omega),
    Nat.shiftLeft_eq,
    Nat.shiftLeft_eq, Nat.shiftLeft_eq, Nat.mul_comm, Nat.mul_comm b2.toNat, Nat.mul_comm b1.toNat]

/-- A word comes back from the digits of a number. -/
theorem dmMd5Word_ofNat (n : ℕ) : dmMd5Word (UInt8.ofNat n) (UInt8.ofNat (n / 256))
    (UInt8.ofNat (n / 256 ^ 2)) (UInt8.ofNat (n / 256 ^ 3)) = UInt32.ofNat n := by
  refine UInt32.toNat_inj.mp ?_
  rw [toNat_dmMd5Word, UInt32.toNat_ofNat', UInt8.toNat_ofNat', UInt8.toNat_ofNat', UInt8.toNat_ofNat',
    UInt8.toNat_ofNat']
  omega

end Counts


section Taking

/-- What a context has taken up. -/
def md5Absorb (message : List UInt8) : Md5Registers × List UInt8 :=
  absorb 64 dmMd5Transform (md5Init, []) message

/-- As many bytes wait as the whole blocks leave. -/
theorem length_md5Absorb (message : List UInt8) :
    (md5Absorb message).2.length = message.length % 64 := by
  refine (length_absorb 64 dmMd5Transform (s := (md5Init, []))
    (show [].length < 64 by decide) message).trans ?_
  rw [List.length_nil, Nat.zero_add]

/-- A piece more. -/
theorem md5Absorb_append (message piece : List UInt8) :
    md5Absorb (message ++ piece) = absorb 64 dmMd5Transform (md5Absorb message) piece :=
  absorb_append 64 dmMd5Transform _ message piece

/-- The registers, the buffer and the count of a context that has taken up a message. -/
structure Md5Holds (message : List UInt8) (state : Md5Registers) (buffer : Md5Buffer)
    (count : UInt32 × UInt32) : Prop where
  state : state = (md5Absorb message).1
  waiting : buffer.toList.take (message.length % 64) = (md5Absorb message).2
  count : count = md5Count (8 * message.length)

/-- The bytes that wait. -/
theorem Md5Holds.index {message : List UInt8} {state : Md5Registers} {buffer : Md5Buffer}
    {count : UInt32 × UInt32} (h : Md5Holds message state buffer count) :
    md5Index count.1 = message.length % 64 := by
  rw [h.count, md5Index_md5Count]

/-- Nothing is taken up at the beginning. -/
theorem Md5Holds.nil (buffer : Md5Buffer) : Md5Holds [] md5Init buffer (0, 0) := ⟨rfl, rfl, rfl⟩

end Taking


section Final

/-- The padding of a message and its length are its tail. -/
theorem md5Padding_append (length : ℕ) :
    md5Padding.take (md5PadLen (length % 64)) ++ md5LengthBytes (8 * length) = md5Tail length := by
  have hlt := Nat.mod_lt length (show 0 < 64 by decide)
  obtain ⟨zeros, hzeros, hpad⟩ : ∃ zeros, md5PadLen (length % 64) = zeros + 1 ∧
      min zeros 63 = (119 - length % 64) % 64 := by
    rw [md5PadLen]
    split
    · exact ⟨55 - length % 64, by omega, by omega⟩
    · exact ⟨119 - length % 64, by omega, by omega⟩
  rw [hzeros, md5Padding, List.take_succ_cons, List.take_replicate, hpad, md5Tail]

/-- How long the padding is. -/
theorem length_md5Padding_take (length : ℕ) :
    (md5Padding.take (md5PadLen (length % 64))).length = md5PadLen (length % 64) := by
  rw [List.length_take, md5Padding, List.length_cons, List.length_replicate, md5PadLen]
  split <;> omega

/-- The padding leaves place for the length. -/
theorem md5PadLen_mod (length : ℕ) : (length + md5PadLen (length % 64)) % 64 = 56 := by
  rw [md5PadLen]
  split <;> omega

/-- The digest of what a context has taken up. -/
theorem md5_eq (message : List UInt8) :
    md5 message = md5Encode (md5Absorb (message ++ (md5Padding.take (md5PadLen (message.length % 64)) ++
      md5LengthBytes (8 * message.length)))).1 := by
  rw [md5, md5Padding_append, md5Absorb]

end Final

section Bytewise

variable {transform : Md5Registers → Md5Words → Option Md5Registers}

/-- The loop of `CC_MD5Update` takes bytes up. -/
theorem ccMd5Loop_holds
    (htransform : ∀ state x, transform state x = some (md5Transform dmMd5Steps state x))
    (inBuf : List UInt8) {mdi : ℕ} (hmdi : mdi < 64) (buf : Md5Registers) (input : Md5Buffer) :
    ∃ input', ccMd5Loop transform inBuf mdi buf input =
        some ((absorb 64 dmMd5Transform (buf, input.toList.take mdi) inBuf).1, input') ∧
      input'.toList.take ((mdi + inBuf.length) % 64) =
        (absorb 64 dmMd5Transform (buf, input.toList.take mdi) inBuf).2 := by
  induction inBuf generalizing mdi buf input with
  | nil => exact ⟨input, rfl, by rw [List.length_nil, Nat.add_zero, Nat.mod_eq_of_lt hmdi]; rfl⟩
  | cons byte inBuf ih =>
    have htake : (input.toList.take mdi).length = mdi := by
      rw [List.length_take, Vector.length_toList]
      omega
    have hwritten : (input.set mdi byte).toList.take (mdi + 1) = input.toList.take mdi ++ [byte] := by
      rw [Vector.toList_set, List.take_add_one, List.take_set_of_le (Nat.le_refl _),
        List.getElem?_set_self (by rw [Vector.length_toList]; exact hmdi)]
      rfl
    rw [ccMd5Loop, dif_pos hmdi]
    show ∃ input', (if mdi + 1 = 64 then
        (transform buf (md5Decode ccMd5Word (input.set mdi byte).toList)).bind fun buf =>
          ccMd5Loop transform inBuf 0 buf (input.set mdi byte)
      else ccMd5Loop transform inBuf (mdi + 1) buf (input.set mdi byte)) =
        some ((absorb 64 dmMd5Transform
        (feed 64 dmMd5Transform (buf, input.toList.take mdi) byte) inBuf).1,
          input') ∧ input'.toList.take ((mdi + (inBuf.length + 1)) % 64) =
        (absorb 64 dmMd5Transform (feed 64 dmMd5Transform (buf, input.toList.take mdi) byte) inBuf).2
    rw [feed, htake]
    by_cases hfull : mdi + 1 = 64
    · have hblock : (input.set mdi byte).toList = input.toList.take mdi ++ [byte] := by
        rw [← hwritten, hfull, List.take_of_length_le (by rw [Vector.length_toList])]
      obtain ⟨input', hloop, hwaiting⟩ := ih (show 0 < 64 by decide)
        (dmMd5Transform buf (input.toList.take mdi ++ [byte])) (input.set mdi byte)
      rw [List.take_zero] at hloop hwaiting
      rw [if_pos hfull, if_pos hfull, htransform, Option.bind_some, ccMd5Word_eq, hblock]
      refine ⟨input', hloop, ?_⟩
      rw [← hwaiting]
      congr 1
      omega
    · obtain ⟨input', hloop, hwaiting⟩ := ih (show mdi + 1 < 64 by omega) buf (input.set mdi byte)
      rw [hwritten] at hloop hwaiting
      rw [if_neg hfull, if_neg hfull]
      refine ⟨input', hloop, ?_⟩
      rw [← hwaiting]
      congr 1
      omega

/-- `CC_MD5Update` takes up a piece. -/
theorem ccMd5Update_holds
    (htransform : ∀ state x, transform state x = some (md5Transform dmMd5Steps state x))
    {message inBuf : List UInt8} {mdContext : CcMd5Ctx}
    (h : Md5Holds message mdContext.buf mdContext.input mdContext.i) (hlength : inBuf.length < 2 ^ 32) :
    ∃ taken, ccMd5UpdateWith transform mdContext inBuf = some taken ∧
      Md5Holds (message ++ inBuf) taken.buf taken.input taken.i := by
  have hlt := Nat.mod_lt message.length (show 0 < 64 by decide)
  obtain ⟨input, hloop, hwaiting⟩ := ccMd5Loop_holds htransform inBuf hlt mdContext.buf mdContext.input
  have htaken : absorb 64 dmMd5Transform (mdContext.buf,
    mdContext.input.toList.take (message.length % 64))
      inBuf = md5Absorb (message ++ inBuf) := by
    rw [md5Absorb_append, h.waiting, h.state]
  rw [htaken] at hloop hwaiting
  refine ⟨{ mdContext with
      i := ccMd5Count mdContext.i (UInt32.ofNat inBuf.length)
      buf := (md5Absorb (message ++ inBuf)).1
      input := input }, ?_, rfl, ?_, ?_⟩
  · rw [ccMd5UpdateWith, h.index, hloop]
    rfl
  · rw [← hwaiting, List.length_append, Nat.mod_add_mod]
  · rw [h.count, ccMd5Count_eq _ hlength, List.length_append]

/-- The words of the last block are those of what waits and the length. -/
theorem ccMd5LastWords_eq {input : Md5Buffer} {waiting : List UInt8} {bits : ℕ}
    (h : input.toList.take 56 = waiting) :
    ccMd5LastWords (md5Count bits) input = md5Decode dmMd5Word (waiting ++ md5LengthBytes bits) := by
  have hlength : waiting.length = 56 := by
    rw [← h, List.length_take, Vector.length_toList]
    rfl
  have hfront : ∀ k < 56, (waiting ++ md5LengthBytes bits).getD k 0 = input.toList.getD k 0 := by
    intro k hk
    rw [List.getD_append _ _ _ _ (by omega), ← h, List.getD_eq_getElem?_getD,
      List.getD_eq_getElem?_getD,
      List.getElem?_take_of_lt hk]
  have hback : ∀ place k, place = 56 + k → k < 8 →
      (waiting ++ md5LengthBytes bits).getD place 0 = UInt8.ofNat (bits / 256 ^ k) := by
    rintro _ k rfl hk
    rw [List.getD_append_right _ _ _ _ (by omega), hlength, Nat.add_sub_cancel_left, md5LengthBytes,
      List.getD_eq_getElem _ _ (by rw [List.length_ofFn]; exact hk), List.getElem_ofFn]
  refine Vector.ext fun k hk => ?_
  rw [ccMd5LastWords, ccMd5Word_eq, md5Decode, md5Decode, Vector.getElem_ofFn, Vector.getElem_ofFn]
  by_cases h14 : k = 14
  · subst h14
    rw [if_pos rfl]
    show UInt32.ofNat bits = dmMd5Word ((waiting ++ md5LengthBytes bits).getD 56 0)
      ((waiting ++ md5LengthBytes bits).getD 57 0) ((waiting ++ md5LengthBytes bits).getD 58 0)
      ((waiting ++ md5LengthBytes bits).getD 59 0)
    rw [hback 56 0 rfl (by decide), hback 57 1 rfl (by decide), hback 58 2 rfl (by decide),
      hback 59 3 rfl (by decide), Nat.pow_zero, Nat.div_one, Nat.pow_one, dmMd5Word_ofNat]
  by_cases h15 : k = 15
  · subst h15
    have hdiv : ∀ j, bits / 256 ^ (4 + j) = bits / 2 ^ 32 / 256 ^ j := fun j => by
      rw [Nat.div_div_eq_div_mul, Nat.pow_add]
      norm_num
    rw [if_neg h14, if_pos rfl]
    show UInt32.ofNat (bits / 2 ^ 32) = dmMd5Word ((waiting ++ md5LengthBytes bits).getD 60 0)
      ((waiting ++ md5LengthBytes bits).getD 61 0) ((waiting ++ md5LengthBytes bits).getD 62 0)
      ((waiting ++ md5LengthBytes bits).getD 63 0)
    rw [hback 60 (4 + 0) rfl (by decide), hback 61 (4 + 1) rfl (by decide),
      hback 62 (4 + 2) rfl (by decide),
      hback 63 (4 + 3) rfl (by decide), hdiv, hdiv, hdiv, hdiv, Nat.pow_zero, Nat.div_one, Nat.pow_one,
      dmMd5Word_ofNat]
  · rw [if_neg h14, if_neg h15]
    have hk14 : 4 * k + 3 < 56 := by omega
    rw [hfront _ (show 4 * k < 56 by omega), hfront _ (show 4 * k + 1 < 56 by omega),
      hfront _ (show 4 * k + 2 < 56 by omega), hfront _ hk14]
    exact (Vector.getElem_ofFn _).trans rfl

/-- `CC_MD5Final` gives the digest. -/
theorem ccMd5Final_holds
    (htransform : ∀ state x, transform state x = some (md5Transform dmMd5Steps state x))
    {message : List UInt8} {mdContext : CcMd5Ctx}
    (h : Md5Holds message mdContext.buf mdContext.input mdContext.i) :
    (ccMd5FinalWith transform mdContext).map CcMd5Ctx.digest = some (md5 message) := by
  have hpad := length_md5Padding_take message.length
  have hpadlt : md5PadLen (message.length % 64) < 2 ^ 32 := by
    rw [md5PadLen]
    split <;> omega
  obtain ⟨padded, hpadded, hholds⟩ := ccMd5Update_holds htransform h
    (show (md5Padding.take (md5PadLen (message.length % 64))).length < 2 ^ 32 by
      rw [hpad]; exact hpadlt)
  have hwaiting := hholds.waiting
  have hwaits := length_md5Absorb (message ++ md5Padding.take (md5PadLen (message.length % 64)))
  rw [List.length_append, hpad, md5PadLen_mod] at hwaiting hwaits
  have hfill : absorb 64 dmMd5Transform
    (md5Absorb (message ++ md5Padding.take (md5PadLen (message.length % 64))))
      (md5LengthBytes (8 * message.length)) =
      (md5Transform dmMd5Steps padded.buf (ccMd5LastWords mdContext.i padded.input), []) := by
    have hbits : (md5LengthBytes (8 * message.length)).length = 8 := by
      rw [md5LengthBytes, List.length_ofFn]
    rw [absorb_fill 64 dmMd5Transform (by rw [hwaits]; decide) (by rw [hwaits, hbits]), h.count,
      ccMd5LastWords_eq hwaiting, hholds.state, dmMd5Transform]
  rw [ccMd5FinalWith, h.index, hpadded, Option.bind_some, htransform, Option.map_some,
    Option.map_some, md5_eq,
    ← List.append_assoc, md5Absorb_append _ (md5LengthBytes _), hfill]

/-- Pieces one after the other. -/
theorem ccMd5Updates_hold
    (htransform : ∀ state x, transform state x = some (md5Transform dmMd5Steps state x))
    {pieces : List (List UInt8)} (hpieces : ∀ piece ∈ pieces, piece.length < 2 ^ 32)
    {message : List UInt8} {mdContext : CcMd5Ctx}
    (h : Md5Holds message mdContext.buf mdContext.input mdContext.i) :
    ∃ taken, pieces.foldlM (ccMd5UpdateWith transform) mdContext = some taken ∧
      Md5Holds (message ++ pieces.flatten) taken.buf taken.input taken.i := by
  induction pieces generalizing message mdContext with
  | nil => exact ⟨mdContext, rfl, by rw [List.flatten_nil, List.append_nil]; exact h⟩
  | cons piece pieces ih =>
    obtain ⟨next, hnext, hholds⟩ := ccMd5Update_holds htransform h (hpieces piece List.mem_cons_self)
    obtain ⟨taken, hrest, hlast⟩ := ih (fun p hp => hpieces p (List.mem_cons_of_mem _ hp)) hholds
    refine ⟨taken, ?_, ?_⟩
    · rw [List.foldlM_cons, hnext]
      exact hrest
    · rw [List.flatten_cons, ← List.append_assoc]
      exact hlast

/-- The digest of pieces, whichever transform does the steps. -/
theorem ccMd5PiecesWith_eq
    (htransform : ∀ state x, transform state x = some (md5Transform dmMd5Steps state x))
    (mdContext : CcMd5Ctx) {pieces : List (List UInt8)}
    (hpieces : ∀ piece ∈ pieces, piece.length < 2 ^ 32) :
    ccMd5PiecesWith transform mdContext pieces = some (md5 pieces.flatten) := by
  obtain ⟨taken, hrun, hholds⟩ := @ccMd5Updates_hold transform htransform pieces hpieces []
    (ccMd5Init mdContext) (Md5Holds.nil _)
  rw [ccMd5PiecesWith, hrun]
  exact ccMd5Final_holds htransform hholds

end Bytewise

/-- However a message is cut, `CC_MD5Update` and `CC_MD5Final` give its digest and write nothing outside
the buffer. -/
theorem ccMd5Pieces_eq_md5 (mdContext : CcMd5Ctx) {pieces : List (List UInt8)}
    (hpieces : ∀ piece ∈ pieces, piece.length < 2 ^ 32) :
    ccMd5Pieces mdContext pieces = some (md5 pieces.flatten) :=
  ccMd5PiecesWith_eq (fun state x => by rw [ccMd5Transform, ccMd5Steps_eq]) mdContext hpieces

/-- Two pieces, the second longer than a block. -/
theorem ccMd5Pieces_eq_md5_two :
    (∀ piece ∈ [[1, 2, 3], List.replicate 70 (7 : UInt8)], piece.length < 2 ^ 32) ∧
      ccMd5Pieces ⟨(5, 6), md5Init, Vector.replicate 64 9, []⟩ [[1, 2, 3], List.replicate 70 7] =
        some (md5 [[1, 2, 3], List.replicate 70 7].flatten) :=
  ⟨by decide, ccMd5Pieces_eq_md5 _ (by decide)⟩

end DasEdge.Sdccp
