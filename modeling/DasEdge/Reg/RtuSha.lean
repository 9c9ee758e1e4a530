import DasEdge.Library.BlockDigest
import Mathlib.Data.List.GetD
import Mathlib.Tactic.Ring

/-!
# The secure hash of the registration

`rtu_sha.c` has the steps of SHA-1 with its own beginning and its own constants. A block that is full
stays in the buffer until the next bytes come, or the end.
-/

namespace DasEdge.Reg

open DasEdge.Library

/-- `h0` to `h4` -/
structure ShaRegisters where
  a : UInt32
  b : UInt32
  c : UInt32
  d : UInt32
  e : UInt32
deriving DecidableEq

/-- `x` in `transform`, which is written over. -/
abbrev ShaWords := Vector UInt32 16

/-- `buf` -/
abbrev ShaBuffer := Vector UInt8 64

/-- `rol` -/
def rol (x n : UInt32) : UInt32 := (x <<< n) ||| (x >>> (32 - n))

/-- `F1`, `F2`, `F3`, `F4` with `K1`, `K2`, `K3`, `K4` in the steps that have them. -/
def shaMix (i : ℕ) (x y z : UInt32) : UInt32 :=
  if i < 20 then (z ^^^ (x &&& (y ^^^ z))) + 0x15fc7893
  else if i < 40 then (x ^^^ y ^^^ z) + 0x7182fcae
  else if i < 60 then ((x &&& y) ||| (z &&& (x ||| y))) + 0x97fceda0
  else (x ^^^ y ^^^ z) + 0xfb7450ca

/-- `M`, which only the steps behind the first sixteen have. -/
def shaSchedule (i : ℕ) (x : ShaWords) : ShaWords :=
  if i < 16 then x
  else
    let tm := x[i % 16] ^^^ x[(i + 2) % 16] ^^^ x[(i + 8) % 16] ^^^ x[(i + 13) % 16]
    x.set (i % 16) (rol tm 1)

/-- `R`; the registers are then named anew, as the next step does. -/
def shaStep (s : ShaRegisters × ShaWords) (i : ℕ) : ShaRegisters × ShaWords :=
  let x := shaSchedule i s.2
  (⟨s.1.e + (rol s.1.a 5 + shaMix i s.1.b s.1.c s.1.d + x[i % 16]), s.1.a, rol s.1.b 30,
    s.1.c, s.1.d⟩, x)

/-- The words of a block, whose first byte is the high one. -/
def shaDecode (data : List UInt8) : ShaWords :=
  Vector.ofFn fun i => ((data.getD (4 * i.val) 0).toUInt32 <<< 24) |||
    ((data.getD (4 * i.val + 1) 0).toUInt32 <<< 16) |||
    ((data.getD (4 * i.val + 2) 0).toUInt32 <<< 8) ||| (data.getD (4 * i.val + 3) 0).toUInt32

/-- What `transform` adds to the registers. -/
def ShaRegisters.add (left right : ShaRegisters) : ShaRegisters :=
  ⟨left.a + right.a, left.b + right.b, left.c + right.c, left.d + right.d, left.e + right.e⟩

/-- `transform` -/
def shaTransform (h : ShaRegisters) (data : List UInt8) : ShaRegisters :=
  h.add ((List.range 80).foldl shaStep (h, shaDecode data)).1

/-- `RTU_SHA1_CONTEXT` -/
structure RtuSha1Context where
  h : ShaRegisters
  nblocks : UInt32
  buf : ShaBuffer
  count : ℕ

/-- The registers at the beginning. -/
def shaInit : ShaRegisters := ⟨0x124a5cbf, 0x36edb5fc, 0xf5d7810a, 0x25864753, 0xadcfedbe⟩

/-- `rtu_sha1_init`, which leaves the buffer as it is. -/
def rtuSha1Init (hd : RtuSha1Context) : RtuSha1Context :=
  { hd with h := shaInit, nblocks := 0, count := 0 }

/-- A block and its number. -/
def shaBlock (s : ShaRegisters × UInt32) (data : List UInt8) : ShaRegisters × UInt32 :=
  (shaTransform s.1 data, s.2 + 1)

/-- `rtu_sha1_write` without bytes. -/
def shaFlush (hd : RtuSha1Context) : RtuSha1Context :=
  if hd.count = 64 then
    { hd with h := shaTransform hd.h hd.buf.toList, count := 0, nblocks := hd.nblocks + 1 }
  else hd

/-- `for( ; inlen && hd->count < 64; inlen-- ) hd->buf[hd->count++] = *inbuf++`, and the bytes that are
left. -/
def shaFill : List UInt8 → RtuSha1Context → RtuSha1Context × List UInt8
  | [], hd => (hd, [])
  | byte :: inbuf, hd =>
    if h : hd.count < 64 then
      shaFill inbuf { hd with buf := hd.buf.set hd.count byte, count := hd.count + 1 }
    else (hd, byte :: inbuf)

/-- The blocks that are taken from where they are, and what waits behind them. -/
def shaWhole (hd : RtuSha1Context) (inbuf : List UInt8) : RtuSha1Context :=
  let taken := compressBlocks 64 shaBlock inbuf.length (hd.h, hd.nblocks) inbuf
  (shaFill taken.2 { hd with
    h := taken.1.1
    nblocks := taken.1.2
    count := if 64 ≤ inbuf.length then 0 else hd.count }).1

/-- `rtu_sha1_write` -/
def rtuSha1Write (hd : RtuSha1Context) (inbuf : List UInt8) : RtuSha1Context :=
  let hd := shaFlush hd
  if hd.count ≠ 0 then
    let filled := shaFill inbuf hd
    if filled.2 = [] then shaFlush filled.1 else shaWhole (shaFlush filled.1) filled.2
  else shaWhole hd inbuf

/-- `msb` and `lsb` in `rtu_sha1_final`. -/
def shaLength (nblocks : UInt32) (count : ℕ) : UInt32 × UInt32 :=
  let t := nblocks <<< 6
  let msb := nblocks >>> 26
  let lsb := t + UInt32.ofNat count
  let msb := if lsb < t then msb + 1 else msb
  ((msb <<< 3) ||| (lsb >>> 29), lsb <<< 3)

/-- The bytes of a word, the high one first. -/
def shaBytes (word : UInt32) : List UInt8 :=
  [(word >>> 24).toUInt8, (word >>> 16).toUInt8, (word >>> 8).toUInt8, word.toUInt8]

/-- The mark and zeros up to a place of the buffer. -/
def shaPad (hd : RtuSha1Context) (limit : ℕ) : RtuSha1Context :=
  (shaFill (0x80 :: List.replicate (limit - (hd.count + 1)) 0) hd).1

/-- The last block of `rtu_sha1_final`: the padding, behind a block more when there is no place for the
length, and the length over the last eight bytes. -/
def shaLastBlock (hd : RtuSha1Context) : RtuSha1Context :=
  let length := shaLength hd.nblocks hd.count
  let padded :=
    if hd.count < 56 then shaPad hd 56
    else
      let flushed := shaFlush (shaPad hd 64)
      { flushed with buf := Vector.ofFn fun i => if i.val < 56 then 0 else flushed.buf[i] }
  { padded with buf := Vector.ofFn fun i =>
      if i.val < 56 then padded.buf[i]
      else (shaBytes length.1 ++ shaBytes length.2).getD (i.val - 56) 0 }

/-- `rtu_sha1_final`: the twenty bytes of the digest. -/
def rtuSha1Final (hd : RtuSha1Context) : List UInt8 :=
  let last := shaLastBlock (shaFlush hd)
  let h := shaTransform last.h last.buf.toList
  shaBytes h.a ++ shaBytes h.b ++ shaBytes h.c ++ shaBytes h.d ++ shaBytes h.e

/-- A digest of pieces, in a context that was used for anything before. -/
def rtuSha1Pieces (hd : RtuSha1Context) (pieces : List (List UInt8)) : List UInt8 :=
  rtuSha1Final (pieces.foldl rtuSha1Write (rtuSha1Init hd))


section Digest

/-- The length in bits, the high byte first. -/
def shaLengthBytes (bits : ℕ) : List UInt8 :=
  List.ofFn fun k : Fin 8 => UInt8.ofNat (bits / 256 ^ (7 - k.val))

/-- What is behind a message: a mark, zeros up to eight bytes before the end of a block, and the
length. -/
def shaTail (length : ℕ) : List UInt8 :=
  0x80 :: List.replicate ((119 - length % 64) % 64) 0 ++ shaLengthBytes (8 * length)

/-- The digest of a message. -/
def rtuSha1 (message : List UInt8) : List UInt8 :=
  let h := (absorb 64 shaTransform (shaInit, []) (message ++ shaTail message.length)).1
  shaBytes h.a ++ shaBytes h.b ++ shaBytes h.c ++ shaBytes h.d ++ shaBytes h.e

end Digest

section Taking

/-- What is copied into the buffer, and what is left. -/
theorem shaFill_eq (inbuf : List UInt8) (hd : RtuSha1Context) (hcount : hd.count ≤ 64) :
    ∃ buf : ShaBuffer, shaFill inbuf hd =
        ({ hd with buf := buf, count := hd.count + (inbuf.take (64 - hd.count)).length },
          inbuf.drop (64 - hd.count)) ∧
      buf.toList.take (hd.count + (inbuf.take (64 - hd.count)).length) =
        hd.buf.toList.take hd.count ++ inbuf.take (64 - hd.count) := by
  induction inbuf generalizing hd with
  | nil =>
    refine ⟨hd.buf, ?_, ?_⟩
    · rw [List.take_nil, List.drop_nil, List.length_nil, Nat.add_zero, shaFill]
    · rw [List.take_nil, List.length_nil, Nat.add_zero, List.append_nil]
  | cons byte inbuf ih =>
    rw [shaFill]
    split
    · next hlt =>
      obtain ⟨buf, hfill, htake⟩ := ih
        { hd with buf := hd.buf.set hd.count byte, count := hd.count + 1 } hlt
      obtain ⟨room, hroom⟩ : ∃ room, 64 - hd.count = room + 1 := ⟨63 - hd.count, by omega⟩
      have hrest : 64 - (hd.count + 1) = room := by omega
      have hwritten : (hd.buf.set hd.count byte).toList.take (hd.count + 1) =
          hd.buf.toList.take hd.count ++ [byte] := by
        rw [Vector.toList_set, List.take_add_one, List.take_set_of_le (Nat.le_refl _),
          List.getElem?_set_self (by rw [Vector.length_toList]; exact hlt)]
        rfl
      dsimp only at hfill htake
      rw [hrest] at hfill htake
      rw [hwritten] at htake
      rw [hroom, List.take_succ_cons, List.drop_succ_cons, List.length_cons,
        show hd.count + ((inbuf.take room).length + 1) = hd.count + 1 + (inbuf.take room).length by
        omega]
      refine ⟨buf, hfill, ?_⟩
      rw [htake, List.append_assoc, List.singleton_append]
    · next hge =>
      have hroom : 64 - hd.count = 0 := by omega
      refine ⟨hd.buf, ?_, ?_⟩
      · rw [hroom, List.take_zero, List.drop_zero, List.length_nil, Nat.add_zero]
      · rw [hroom, List.take_zero, List.length_nil, Nat.add_zero, List.append_nil]

/-- What a context has taken up. -/
def shaAbsorb (message : List UInt8) : (ShaRegisters × UInt32) × List UInt8 :=
  absorb 64 shaBlock ((shaInit, 0), []) message

/-- A piece more. -/
theorem shaAbsorb_append (message piece : List UInt8) :
    shaAbsorb (message ++ piece) = absorb 64 shaBlock (shaAbsorb message) piece :=
  absorb_append 64 shaBlock _ message piece

/-- As many bytes wait as the whole blocks leave. -/
theorem length_shaAbsorb (message : List UInt8) :
    (shaAbsorb message).2.length = message.length % 64 := by
  refine (length_absorb 64 shaBlock (s := ((shaInit, 0), []))
    (show [].length < 64 by decide) message).trans ?_
  rw [List.length_nil, Nat.zero_add]

/-- The numbers of the blocks do not change what becomes of the registers. -/
theorem absorb_shaBlock (message : List UInt8) {h : ShaRegisters} {k : ℕ} {waiting : List UInt8}
    (hwaiting : waiting.length < 64) :
    absorb 64 shaBlock ((h, UInt32.ofNat k), waiting) message =
      (((absorb 64 shaTransform (h, waiting) message).1,
        UInt32.ofNat (k + (waiting.length + message.length) / 64)),
        (absorb 64 shaTransform (h, waiting) message).2) := by
  induction message generalizing h k waiting with
  | nil =>
    rw [List.length_nil, Nat.add_zero, Nat.div_eq_of_lt hwaiting, Nat.add_zero]
    rfl
  | cons byte message ih =>
    rw [absorb, List.foldl_cons, absorb, List.foldl_cons, feed, feed, List.length_cons]
    by_cases hfull : waiting.length + 1 = 64
    · rw [if_pos hfull, if_pos hfull]
      have hnext : UInt32.ofNat (k + 1) = UInt32.ofNat k + 1 := UInt32.ofNat_add k 1
      have hblocks : k + 1 + (([] : List UInt8).length + message.length) / 64 =
          k + (waiting.length + (message.length + 1)) / 64 := by
        rw [List.length_nil]
        omega
      have hrest := @ih (shaTransform h (waiting ++ [byte])) (k + 1) [] (by decide)
      rw [hblocks, hnext] at hrest
      exact hrest
    · rw [if_neg hfull, if_neg hfull]
      refine (@ih h k (waiting ++ [byte]) ?_).trans ?_
      · rw [List.length_append, List.length_singleton]
        omega
      · rw [List.length_append, List.length_singleton, Nat.add_assoc waiting.length, Nat.add_comm 1]
        rfl

/-- A context that has taken up a message. -/
structure ShaHolds (message : List UInt8) (hd : RtuSha1Context) : Prop where
  taken : (hd.h, hd.nblocks) = (shaAbsorb message).1
  count : hd.count = message.length % 64
  waiting : hd.buf.toList.take hd.count = (shaAbsorb message).2

/-- Nothing is taken up at the beginning. -/
theorem ShaHolds.nil (hd : RtuSha1Context) : ShaHolds [] (rtuSha1Init hd) := ⟨rfl, rfl, rfl⟩

/-- Less than a block waits. -/
theorem ShaHolds.count_lt {message : List UInt8} {hd : RtuSha1Context} (h : ShaHolds message hd) :
    hd.count < 64 := by
  rw [h.count]
  exact Nat.mod_lt _ (by decide)

/-- A block that is not full stays. -/
theorem shaFlush_of_lt {hd : RtuSha1Context} (h : hd.count < 64) : shaFlush hd = hd := if_neg h.ne

/-- Bytes that go on with the blocks when none waits. -/
theorem shaWhole_holds {message inbuf : List UInt8} {hd : RtuSha1Context} (h : ShaHolds message hd)
    (hcount : hd.count = 0) : ShaHolds (message ++ inbuf) (shaWhole hd inbuf) := by
  have hnone : (shaAbsorb message).2 = [] := by rw [← h.waiting, hcount, List.take_zero]
  have htaken : compressBlocks 64 shaBlock inbuf.length (hd.h, hd.nblocks) inbuf =
      shaAbsorb (message ++ inbuf) := by
    rw [compressBlocks_eq 64 shaBlock (by decide) le_rfl, shaAbsorb_append, h.taken, ← hnone]
  have hlength := length_shaAbsorb (message ++ inbuf)
  have hlt := Nat.mod_lt (message ++ inbuf).length (show 0 < 64 by decide)
  have hzero : (if 64 ≤ inbuf.length then 0 else hd.count) = 0 := by rw [hcount, ite_self]
  have hall : (shaAbsorb (message ++ inbuf)).2.take 64 = (shaAbsorb (message ++ inbuf)).2 :=
    List.take_of_length_le (by omega)
  rw [shaWhole, htaken, hzero]
  obtain ⟨buf, hfill, hwaiting⟩ := shaFill_eq (shaAbsorb (message ++ inbuf)).2
    { hd with h := (shaAbsorb (message ++ inbuf)).1.1
              nblocks := (shaAbsorb (message ++ inbuf)).1.2
              count := 0 } (Nat.zero_le _)
  rw [Nat.sub_zero, hall, List.take_zero, List.nil_append] at hwaiting
  rw [hfill]
  refine ⟨rfl, ?_, ?_⟩
  · dsimp only
    rw [Nat.zero_add, Nat.sub_zero, hall, hlength]
  · dsimp only
    rw [Nat.sub_zero, hall]
    exact hwaiting

/-- `rtu_sha1_write` takes up a piece. -/
theorem rtuSha1Write_holds {message inbuf : List UInt8} {hd : RtuSha1Context}
    (h : ShaHolds message hd) :
    ShaHolds (message ++ inbuf) (rtuSha1Write hd inbuf) := by
  rw [rtuSha1Write, shaFlush_of_lt h.count_lt]
  by_cases hcount : hd.count = 0
  · rw [if_neg (not_not.mpr hcount)]
    exact shaWhole_holds h hcount
  rw [if_pos hcount]
  obtain ⟨buf, hfill, hwaiting⟩ := shaFill_eq inbuf hd h.count_lt.le
  have hwaits := length_shaAbsorb message
  have hcounted := h.count
  have hlt := h.count_lt
  rw [h.waiting] at hwaiting
  rw [hfill]
  dsimp only
  by_cases hfits : inbuf.length < 64 - hd.count
  · -- The bytes wait with the others.
    have htake : inbuf.take (64 - hd.count) = inbuf := List.take_of_length_le hfits.le
    have hdrop : inbuf.drop (64 - hd.count) = [] := List.drop_of_length_le hfits.le
    rw [htake] at hwaiting
    have hshort : shaAbsorb (message ++ inbuf) =
        ((shaAbsorb message).1, (shaAbsorb message).2 ++ inbuf) := by
      rw [shaAbsorb_append, absorb_short 64 shaBlock (by rw [hwaits]; omega)]
    rw [if_pos hdrop, htake, shaFlush_of_lt (show hd.count + inbuf.length < 64 by omega)]
    refine ⟨?_, ?_, ?_⟩
    · rw [hshort]
      exact h.taken
    · rw [List.length_append]
      dsimp only
      omega
    · rw [hshort]
      exact hwaiting
  · -- The block is full; what is left goes on without it.
    have hlength : (inbuf.take (64 - hd.count)).length = 64 - hd.count :=
      List.length_take_of_le (Nat.not_lt.mp hfits)
    have hfull : hd.count + (inbuf.take (64 - hd.count)).length = 64 := by omega
    have hblock : buf.toList = (shaAbsorb message).2 ++ inbuf.take (64 - hd.count) := by
      rw [← hwaiting, hfull, List.take_of_length_le (by rw [Vector.length_toList])]
    have hcompressed : shaAbsorb (message ++ inbuf.take (64 - hd.count)) =
        (shaBlock (hd.h, hd.nblocks) buf.toList, []) := by
      rw [shaAbsorb_append,
        absorb_fill 64 shaBlock (by rw [hwaits]; omega) (by rw [hwaits]; omega), hblock,
        h.taken]
    have hflush : ShaHolds (message ++ inbuf.take (64 - hd.count))
        (shaFlush { hd with buf := buf, count := hd.count + (inbuf.take (64 - hd.count)).length }) := by
      rw [shaFlush, if_pos hfull]
      refine ⟨by rw [hcompressed, shaBlock], ?_, by rw [hcompressed, List.take_zero]⟩
      rw [List.length_append, hlength]
      dsimp only
      omega
    have hnone : (shaFlush
        { hd with buf := buf, count := hd.count + (inbuf.take (64 - hd.count)).length }).count = 0 := by
      rw [shaFlush, if_pos hfull]
    have hwhole := @shaWhole_holds _ (inbuf.drop (64 - hd.count)) _ hflush hnone
    rw [List.append_assoc, List.take_append_drop] at hwhole
    by_cases hdrop : inbuf.drop (64 - hd.count) = []
    · have hall := List.take_append_drop (64 - hd.count) inbuf
      rw [hdrop, List.append_nil] at hall
      rw [if_pos hdrop, hall]
      rw [hall] at hflush
      exact hflush
    · rw [if_neg hdrop]
      exact hwhole

/-- Pieces one after the other. -/
theorem rtuSha1Writes_hold {pieces : List (List UInt8)} {message : List UInt8} {hd : RtuSha1Context}
    (h : ShaHolds message hd) :
    ShaHolds (message ++ pieces.flatten) (pieces.foldl rtuSha1Write hd) := by
  induction pieces generalizing message hd with
  | nil =>
    rw [List.flatten_nil, List.append_nil]
    exact h
  | cons piece pieces ih =>
    rw [List.flatten_cons, ← List.append_assoc]
    exact ih (rtuSha1Write_holds h)

end Taking


section Final

/-- The bytes of a word are the digits of a number with the same rest. -/
theorem shaBytes_eq {word : UInt32} {n : ℕ} (h : word.toNat = n % 2 ^ 32) : shaBytes word =
    [UInt8.ofNat (n / 256 ^ 3), UInt8.ofNat (n / 256 ^ 2), UInt8.ofNat (n / 256), UInt8.ofNat n] := by
  have hbyte : ∀ (s : UInt32) (m : ℕ), s.toNat < 32 → n % 2 ^ 32 / 2 ^ s.toNat % 256 = m % 256 →
      (word >>> s).toUInt8 = UInt8.ofNat m := by
    intro s m hs hm
    refine UInt8.toNat_inj.mp ?_
    rw [UInt32.toNat_toUInt8, UInt32.toNat_shiftRight, Nat.mod_eq_of_lt hs,
      Nat.shiftRight_eq_div_pow, h,
      UInt8.toNat_ofNat', hm]
  have hlow : word.toUInt8 = UInt8.ofNat n := by
    refine UInt8.toNat_inj.mp ?_
    rw [UInt32.toNat_toUInt8, h, UInt8.toNat_ofNat']
    omega
  rw [shaBytes, hlow,
    hbyte 24 (n / 256 ^ 3) (by decide) (by rw [show (24 : UInt32).toNat = 24 from rfl]; omega),
    hbyte 16 (n / 256 ^ 2) (by decide) (by rw [show (16 : UInt32).toNat = 16 from rfl]; omega),
    hbyte 8 (n / 256) (by decide) (by rw [show (8 : UInt32).toNat = 8 from rfl]; omega)]

/-- The two words of the length, while the number of the blocks fits a word. -/
theorem shaLength_eq {length : ℕ} (h : length < 2 ^ 38) :
    (shaLength (UInt32.ofNat (length / 64)) (length % 64)).1.toNat = 8 * length / 2 ^ 32 % 2 ^ 32 ∧
      (shaLength (UInt32.ofNat (length / 64)) (length % 64)).2.toNat = 8 * length % 2 ^ 32 := by
  have hblocks : (UInt32.ofNat (length / 64)).toNat = length / 64 :=
    UInt32.toNat_ofNat_of_lt' (show length / 64 < 2 ^ 32 by omega)
  have ht : (UInt32.ofNat (length / 64) <<< 6).toNat = length / 64 * 64 % 2 ^ 32 := by
    rw [UInt32.toNat_shiftLeft, hblocks, show (6 : UInt32).toNat % 32 = 6 from rfl, Nat.shiftLeft_eq]
  have hcount : (UInt32.ofNat (length % 64)).toNat = length % 64 :=
    UInt32.toNat_ofNat_of_lt' (show length % 64 < 2 ^ 32 by omega)
  have hlsb : (UInt32.ofNat (length / 64) <<< 6 + UInt32.ofNat (length % 64)).toNat =
      length % 2 ^ 32 := by
    rw [UInt32.toNat_add, ht, hcount]
    omega
  -- A multiple of 64 and less than 64 more do not go over a multiple of `2 ^ 32`.
  have hcarry : ¬ UInt32.ofNat (length / 64) <<< 6 + UInt32.ofNat (length % 64) <
      UInt32.ofNat (length / 64) <<< 6 := by
    rw [UInt32.lt_iff_toNat_lt, hlsb, ht]
    omega
  have hmsb : (UInt32.ofNat (length / 64) >>> 26).toNat = length / 2 ^ 32 := by
    rw [UInt32.toNat_shiftRight, hblocks, show (26 : UInt32).toNat % 32 = 26 from rfl,
      Nat.shiftRight_eq_div_pow]
    omega
  have hthree : (3 : UInt32).toNat % 32 = 3 := rfl
  have hlow : length % 2 ^ 32 / 2 ^ 29 < 2 ^ 3 := by omega
  have hroom : length / 2 ^ 32 * 2 ^ 3 < 2 ^ 32 := by omega
  rw [shaLength]
  dsimp only
  rw [if_neg hcarry]
  refine ⟨?_, ?_⟩
  · rw [UInt32.toNat_or, UInt32.toNat_shiftLeft, hmsb, UInt32.toNat_shiftRight, hlsb, hthree,
      show (29 : UInt32).toNat % 32 = 29 from rfl, Nat.shiftRight_eq_div_pow,
      Nat.mod_eq_of_lt (by rw [Nat.shiftLeft_eq]; exact hroom), ← Nat.shiftLeft_add_eq_or_of_lt hlow,
      Nat.shiftLeft_eq]
    omega
  · rw [UInt32.toNat_shiftLeft, hlsb, hthree, Nat.shiftLeft_eq]
    omega

/-- The bytes of the length. -/
theorem shaBytes_shaLength {length : ℕ} (h : length < 2 ^ 38) :
    shaBytes (shaLength (UInt32.ofNat (length / 64)) (length % 64)).1 ++
        shaBytes (shaLength (UInt32.ofNat (length / 64)) (length % 64)).2 =
      shaLengthBytes (8 * length) := by
  obtain ⟨hhigh, hlow⟩ := shaLength_eq h
  rw [shaBytes_eq hhigh, shaBytes_eq hlow, shaLengthBytes]
  simp only [List.ofFn_succ, List.ofFn_zero, Nat.div_div_eq_div_mul, List.cons_append, List.nil_append]
  norm_num

/-- The registers and the number of the blocks apart. -/
theorem shaAbsorb_eq (message : List UInt8) : shaAbsorb message =
    (((absorb 64 shaTransform (shaInit, []) message).1, UInt32.ofNat (message.length / 64)),
      (absorb 64 shaTransform (shaInit, []) message).2) := by
  have h := @absorb_shaBlock message shaInit 0 [] (by decide)
  rw [List.length_nil, Nat.zero_add, Nat.zero_add] at h
  exact h

/-- What a buffer is whose last eight bytes are written over. -/
theorem toList_lengthOver (buf : ShaBuffer) {bytes : List UInt8} (h : bytes.length = 8) :
    (Vector.ofFn fun i : Fin 64 => if i.val < 56 then buf[i] else bytes.getD (i.val - 56) 0).toList =
      buf.toList.take 56 ++ bytes := by
  have htake : (buf.toList.take 56).length = 56 := by
    rw [List.length_take, Vector.length_toList]
    rfl
  refine List.ext_getElem ?_ fun i hi _ => ?_
  · rw [Vector.length_toList, List.length_append, htake, h]
  · rw [Vector.length_toList] at hi
    rw [Vector.getElem_toList, Vector.getElem_ofFn]
    rcases Nat.lt_or_ge i 56 with hlt | hge
    · rw [if_pos hlt, List.getElem_append_left (by rw [htake]; exact hlt), List.getElem_take,
        Vector.getElem_toList]
      rfl
    · rw [if_neg (Nat.not_lt.mpr hge), List.getElem_append_right (by rw [htake]; exact hge),
        List.getD_eq_getElem _ _ (show i - 56 < bytes.length by omega)]
      simp only [htake]

/-- The mark and zeros that fit the buffer. -/
theorem shaPad_eq {hd : RtuSha1Context} {limit : ℕ} (h : hd.count < limit) (hlimit : limit ≤ 64) :
    ∃ buf : ShaBuffer, shaPad hd limit = { hd with buf := buf, count := limit } ∧
      buf.toList.take limit =
        hd.buf.toList.take hd.count ++ 0x80 :: List.replicate (limit - (hd.count + 1)) 0 := by
  obtain ⟨buf, hfill, htake⟩ :=
    shaFill_eq (0x80 :: List.replicate (limit - (hd.count + 1)) 0) hd (by omega)
  have hlength : (0x80 :: List.replicate (limit - (hd.count + 1)) (0 : UInt8)).length =
      limit - hd.count := by
    rw [List.length_cons, List.length_replicate]
    omega
  have hall : (0x80 :: List.replicate (limit - (hd.count + 1)) (0 : UInt8)).take (64 - hd.count) =
      0x80 :: List.replicate (limit - (hd.count + 1)) 0 := List.take_of_length_le (by omega)
  have hcount : hd.count + (limit - hd.count) = limit := by omega
  rw [hall, hlength, hcount] at hfill htake
  exact ⟨buf, by rw [shaPad, hfill], htake⟩

/-- The last block goes into the registers as the tail of the message does. -/
theorem shaLastBlock_holds {message : List UInt8} {hd : RtuSha1Context} (h : ShaHolds message hd)
    (hlength : message.length < 2 ^ 38) :
    shaTransform (shaLastBlock hd).h (shaLastBlock hd).buf.toList =
      (absorb 64 shaTransform (shaInit, []) (message ++ shaTail message.length)).1 := by
  have htaken := h.taken
  have hwaiting := h.waiting
  have hcount := h.count
  have hwaits := length_shaAbsorb message
  rw [shaAbsorb_eq] at htaken hwaiting hwaits
  obtain ⟨hregisters, hblocks⟩ := Prod.ext_iff.mp htaken
  dsimp only at hregisters hblocks hwaiting hwaits
  generalize hplain : absorb 64 shaTransform (shaInit, []) message = plain at hregisters hwaiting hwaits
  have hbits : (shaLengthBytes (8 * message.length)).length = 8 := by
    rw [shaLengthBytes, List.length_ofFn]
  have hbytes : shaBytes (shaLength hd.nblocks hd.count).1 ++
    shaBytes (shaLength hd.nblocks hd.count).2 =
      shaLengthBytes (8 * message.length) := by
    rw [hblocks, hcount, shaBytes_shaLength hlength]
  have hlt := h.count_lt
  rw [absorb_append, hplain, shaTail, ← hcount, shaLastBlock, hbytes]
  dsimp only
  rw [toList_lengthOver _ hbits]
  by_cases hroom : hd.count < 56
  · obtain ⟨buf, hpad, htake⟩ := shaPad_eq hroom (by decide)
    have hzeros : (119 - hd.count) % 64 = 56 - (hd.count + 1) := by omega
    rw [if_pos hroom, hpad, htake, hwaiting, hzeros, absorb_fill 64 shaTransform (by omega) ?_,
      hregisters,
      List.append_assoc]
    simp only [List.length_append, List.length_cons, List.length_replicate, hbits]
    omega
  · obtain ⟨buf, hpad, htake⟩ := shaPad_eq hlt le_rfl
    have hblock : buf.toList = plain.2 ++ 0x80 :: List.replicate (63 - hd.count) 0 := by
      have hall : buf.toList.take 64 = buf.toList :=
        List.take_of_length_le (by rw [Vector.length_toList])
      rw [← hall, htake, hwaiting, show 64 - (hd.count + 1) = 63 - hd.count by omega]
    have hzeros : (119 - hd.count) % 64 = 63 - hd.count + 56 := by omega
    have hcleared : (Vector.ofFn fun i : Fin 64 => if i.val < 56 then 0 else buf[i]).toList.take 56 =
        List.replicate 56 0 := by
      have hlengths : ((Vector.ofFn fun i : Fin 64 => if i.val < 56 then 0 else buf[i]).toList.take
        56).length =
          (List.replicate 56 (0 : UInt8)).length := by
        rw [List.length_take, Vector.length_toList, List.length_replicate]
        rfl
      refine List.ext_getElem hlengths fun i hi _ => ?_
      rw [List.length_take, Vector.length_toList] at hi
      rw [List.getElem_take, Vector.getElem_toList, Vector.getElem_ofFn, List.getElem_replicate,
        if_pos (show i < 56 by omega)]
    have hfirst : absorb 64 shaTransform plain (0x80 :: List.replicate (63 - hd.count) 0) =
        (shaTransform hd.h buf.toList, []) := by
      rw [absorb_fill 64 shaTransform (by omega) ?_, hblock, hregisters]
      rw [List.length_cons, List.length_replicate]
      omega
    rw [if_neg hroom, hpad, shaFlush, if_pos rfl]
    dsimp only
    rw [hcleared, hzeros, List.replicate_add, ← List.cons_append, List.append_assoc,
      absorb_append, hfirst,
      absorb_fill 64 shaTransform (show [].length < 64 by decide) ?_, List.nil_append]
    rw [List.length_nil, List.length_append, List.length_replicate, hbits]

/-- `rtu_sha1_final` gives the digest. -/
theorem rtuSha1Final_holds {message : List UInt8} {hd : RtuSha1Context} (h : ShaHolds message hd)
    (hlength : message.length < 2 ^ 38) : rtuSha1Final hd = rtuSha1 message := by
  rw [rtuSha1Final, shaFlush_of_lt h.count_lt, shaLastBlock_holds h hlength, rtuSha1]

/-- However a message is cut, `rtu_sha1_write` and `rtu_sha1_final` give its digest, as long as the
number of its blocks fits the context. -/
theorem rtuSha1Pieces_eq_rtuSha1 (hd : RtuSha1Context) {pieces : List (List UInt8)}
    (hlength : pieces.flatten.length < 2 ^ 38) : rtuSha1Pieces hd pieces = rtuSha1 pieces.flatten :=
  rtuSha1Final_holds (rtuSha1Writes_hold (ShaHolds.nil hd)) hlength

/-- Two pieces, the second longer than a block. -/
theorem rtuSha1Pieces_eq_rtuSha1_two :
    [[1, 2, 3], List.replicate 70 (7 : UInt8)].flatten.length < 2 ^ 38 ∧
      rtuSha1Pieces ⟨shaInit, 5, Vector.replicate 64 9, 6⟩ [[1, 2, 3], List.replicate 70 7] =
        rtuSha1 [[1, 2, 3], List.replicate 70 7].flatten :=
  ⟨by decide, rtuSha1Pieces_eq_rtuSha1 _ (by decide)⟩

end Final

end DasEdge.Reg
