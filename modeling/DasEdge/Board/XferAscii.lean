import DasEdge.Board.XferNet
import DasEdge.Library.ChunkReads
import DasEdge.Library.NetworkBytes
import Mathlib.Algebra.BigOperators.Group.List.Basic

/-!
# The filter for Modbus ASCII

The test of a gateway on a frame in Modbus ASCII: its characters are taken in pairs as bytes whose
sum must be zero. A character that is no digit counts as zero, so that the test does not see it in
the place of a `0`.
-/

namespace DasEdge.Board

open DasEdge.Library

/-- The loop of `ucMBAsciiLRC`, with the length as it is passed on. -/
def ucMBAsciiLRCLoop (frame : List UInt8) (usLen i : ℕ) (ucLRC : UInt8) : Option UInt8 :=
  if i + 3 ≤ usLen then
    frame[i]?.bind fun ucByte0 => frame[i + 1]?.bind fun ucByte1 =>
      ucMBAsciiLRCLoop frame usLen (i + 2) (ucLRC + (ascToInt ucByte0 <<< 4 ||| ascToInt ucByte1))
  else some (-ucLRC)
termination_by usLen - i

/-- `ucMBAsciiAddr`, as it reads the frame. -/
def ucMBAsciiAddrRead (frame : List UInt8) : Option UInt8 :=
  frame[1]?.bind fun ucByte0 => frame[2]?.bind fun ucByte1 =>
    some (ascToInt ucByte0 <<< 4 ||| ascToInt ucByte1)

/-- The bytes that the first pairs of characters behind the colon stand for. -/
def pairBytes (frame : List UInt8) (n : ℕ) : List UInt8 :=
  (List.range n).map fun k => ascByte frame (2 * k + 1)

/-- The checksum is taken over the pairs in front of the last two characters. -/
theorem ucMBAsciiLRC_eq (frame : List UInt8) (len : ℕ) :
    ucMBAsciiLRC frame len = -(pairBytes frame ((len % 2 ^ 16 - 2) / 2)).sum := rfl

/-- The loop adds up the pairs that are left, and reads them inside the frame. -/
theorem ucMBAsciiLRCLoop_eq {frame : List UInt8} {usLen : ℕ} (h : usLen ≤ frame.length) (n k : ℕ)
    (ucLRC : UInt8)
    (hn : (usLen - 2) / 2 = k + n) :
    ucMBAsciiLRCLoop frame usLen (2 * k + 1) ucLRC =
      some (-(ucLRC + ((List.range n).map fun j => ascByte frame (2 * (k + j) + 1)).sum)) := by
  induction n generalizing k ucLRC with
  | zero =>
    rw [ucMBAsciiLRCLoop, if_neg (by omega)]
    simp
  | succ n ih =>
    rw [ucMBAsciiLRCLoop, if_pos (by omega),
      getElem?_eq_some_getD (show 2 * k + 1 < frame.length by omega) 0, Option.bind_some,
      getElem?_eq_some_getD (show 2 * k + 1 + 1 < frame.length by omega) 0, Option.bind_some,
      show 2 * k + 1 + 2 = 2 * (k + 1) + 1 by omega, ih _ _ (by omega), List.range_succ_eq_map,
      List.map_cons, List.sum_cons,
      List.map_map, add_assoc]
    simp only [Function.comp_def, Nat.succ_eq_add_one, Nat.add_assoc, Nat.add_comm 1, Nat.add_zero]
    rfl

/-- For every length the checksum and the address are read inside the frame. -/
theorem xferAscii_reads (frame : List UInt8) :
    ucMBAsciiLRCLoop frame (frame.length % 2 ^ 16) 1 0 = some (ucMBAsciiLRC frame frame.length) ∧
      (7 ≤ frame.length → ucMBAsciiAddrRead frame = some (ucMBAsciiAddr frame)) := by
  constructor
  · have hloop :=
      ucMBAsciiLRCLoop_eq (Nat.mod_le frame.length (2 ^ 16)) ((frame.length % 2 ^ 16 - 2) / 2) 0 0
      (Nat.zero_add _).symm
    simpa [ucMBAsciiLRC] using hloop
  · intro h
    rw [ucMBAsciiAddrRead, getElem?_eq_some_getD (show 1 < frame.length by omega) 0, Option.bind_some,
      getElem?_eq_some_getD (show 2 < frame.length by omega) 0, Option.bind_some]
    rfl

/-- An upper-case hexadecimal digit. -/
def IsAscDigit (b : UInt8) : Prop := (0x30 ≤ b ∧ b ≤ 0x39) ∨ (0x41 ≤ b ∧ b ≤ 0x46)

instance (b : UInt8) : Decidable (IsAscDigit b) := inferInstanceAs (Decidable (_ ∨ _))

/-- The digit of a number below 16. -/
def ascDigit (n : ℕ) : UInt8 := if n < 10 then UInt8.ofNat (0x30 + n) else UInt8.ofNat (0x37 + n)

/-- The two digits of a byte. -/
def ascPair (b : UInt8) : List UInt8 := [ascDigit (b.toNat / 16), ascDigit (b.toNat % 16)]

/-- A colon, the digits of some bytes, carriage return and line feed. -/
def asciiText (bytes : List UInt8) : List UInt8 := 0x3a :: (bytes.flatMap ascPair ++ [0x0d, 0x0a])

/-- The frame of some data: the checksum behind it makes the sum zero. -/
def asciiFrame (d : List UInt8) : List UInt8 := asciiText (d ++ [-d.sum])

/-- A digit is read as its number. -/
theorem ascToInt_ascDigit {n : ℕ} (h : n < 16) : (ascToInt (ascDigit n)).toNat = n := by
  revert h n
  decide

/-- A decimal digit is read by its distance from `0`. -/
theorem ascToInt_decimal {b : UInt8} (h : 0x30 ≤ b ∧ b ≤ 0x39) :
    48 ≤ b.toNat ∧ b.toNat ≤ 57 ∧ (ascToInt b).toNat = b.toNat - 48 := by
  refine ⟨UInt8.le_iff_toNat_le.mp h.1, UInt8.le_iff_toNat_le.mp h.2, ?_⟩
  rw [ascToInt, if_pos h, UInt8.toNat_sub_of_le _ _ h.1]
  rfl

/-- A letter is read by its distance from `A`, and ten more. -/
theorem ascToInt_letter {b : UInt8} (h : 0x41 ≤ b ∧ b ≤ 0x46) :
    65 ≤ b.toNat ∧ b.toNat ≤ 70 ∧ (ascToInt b).toNat = b.toNat - 55 := by
  have hlow : 65 ≤ b.toNat := UInt8.le_iff_toNat_le.mp h.1
  have hhigh : b.toNat ≤ 70 := UInt8.le_iff_toNat_le.mp h.2
  have hnot : ¬ (0x30 ≤ b ∧ b ≤ 0x39) := fun hdecimal => by
    have := UInt8.le_iff_toNat_le.mp hdecimal.2
    simp at this
    omega
  refine ⟨hlow, hhigh, ?_⟩
  rw [ascToInt, if_neg hnot, if_pos h, UInt8.toNat_add, UInt8.toNat_sub_of_le _ _ h.1]
  simp
  omega

/-- What is no digit is read as zero. -/
theorem ascToInt_of_not {b : UInt8} (h : ¬ IsAscDigit b) : ascToInt b = 0 := by
  rw [ascToInt, if_neg fun hdecimal => h (.inl hdecimal), if_neg fun hletter => h (.inr hletter)]

/-- What is read is below 16. -/
theorem ascToInt_lt (b : UInt8) : (ascToInt b).toNat < 16 := by
  by_cases h : IsAscDigit b
  · rcases h with hdecimal | hletter
    · have := ascToInt_decimal hdecimal
      omega
    · have := ascToInt_letter hletter
      omega
  · rw [ascToInt_of_not h]
    decide

/-- A digit is the digit of what is read of it. -/
theorem ascDigit_ascToInt {b : UInt8} (h : IsAscDigit b) : ascDigit (ascToInt b).toNat = b := by
  refine UInt8.toNat.inj ?_
  rcases h with hdecimal | hletter
  · obtain ⟨hlow, hhigh, hread⟩ := ascToInt_decimal hdecimal
    rw [ascDigit, hread, if_pos (by omega), UInt8.toNat_ofNat']
    omega
  · obtain ⟨hlow, hhigh, hread⟩ := ascToInt_letter hletter
    rw [ascDigit, hread, if_neg (by omega), UInt8.toNat_ofNat']
    omega

/-- Another byte is read as a digit is exactly when the digit is zero and the byte is no digit. -/
theorem ascToInt_eq_iff {b : UInt8} {n : ℕ} (hn : n < 16) (hne : b ≠ ascDigit n) :
    ascToInt b = ascToInt (ascDigit n) ↔ ascDigit n = 0x30 ∧ ¬ IsAscDigit b := by
  constructor
  · intro heq
    have hnot : ¬ IsAscDigit b := fun hdigit => hne (by
      rw [← ascDigit_ascToInt hdigit, heq, ascToInt_ascDigit hn])
    rw [ascToInt_of_not hnot] at heq
    have hzero : n = 0 := by rw [← ascToInt_ascDigit hn, ← heq]; rfl
    exact ⟨by rw [hzero]; rfl, hnot⟩
  · rintro ⟨hzero, hnot⟩
    rw [ascToInt_of_not hnot, hzero]
    rfl

/-- A pair is the byte of its two numbers. -/
theorem ascByte_toNat (frame : List UInt8) (i : ℕ) :
    (ascByte frame i).toNat = (ascToInt (frame.getD i 0)).toNat * 16 +
      (ascToInt (frame.getD (i + 1) 0)).toNat := by
  have hhigh := ascToInt_lt (frame.getD i 0)
  have hlow := ascToInt_lt (frame.getD (i + 1) 0)
  rw [ascByte, UInt8.toNat_or, UInt8.toNat_shiftLeft, show (4 : UInt8).toNat % 8 = 4 from rfl,
    Nat.shiftLeft_eq,
    Nat.mod_eq_of_lt (by omega), or_eq_add (k := 4) (Nat.dvd_mul_left _ _) (by omega)]
  rfl

/-- Two digits for each byte lie behind the colon. -/
theorem flatMap_ascPair_getD {bytes : List UInt8} {k : ℕ} (hk : k < bytes.length) (tail : List UInt8) :
    (bytes.flatMap ascPair ++ tail).getD (2 * k) 0 = ascDigit (bytes[k].toNat / 16) ∧
      (bytes.flatMap ascPair ++ tail).getD (2 * k + 1) 0 = ascDigit (bytes[k].toNat % 16) := by
  induction bytes generalizing k with
  | nil => exact absurd hk (Nat.not_lt_zero k)
  | cons b bytes ih =>
    cases k with
    | zero => exact ⟨rfl, rfl⟩
    | succ k => exact ih (Nat.lt_of_succ_lt_succ hk)

/-- There are as many pairs as are asked for. -/
@[simp] theorem pairBytes_length (frame : List UInt8) (n : ℕ) : (pairBytes frame n).length = n := by
  rw [pairBytes, List.length_map, List.length_range]

/-- A pair. -/
theorem pairBytes_getElem {frame : List UInt8} {n k : ℕ} (hk : k < (pairBytes frame n).length) :
    (pairBytes frame n)[k] = ascByte frame (2 * k + 1) := by
  simp only [pairBytes, List.getElem_map, List.getElem_range]

/-- The pairs of a text are its bytes. -/
theorem pairBytes_asciiText (bytes : List UInt8) :
    pairBytes (asciiText bytes) bytes.length = bytes := by
  refine List.ext_getElem (pairBytes_length _ _) fun k hpair hk => ?_
  have hdigits := flatMap_ascPair_getD hk [0x0d, 0x0a]
  have hlt := bytes[k].toNat_lt
  refine UInt8.toNat.inj ?_
  rw [pairBytes_getElem, ascByte_toNat, asciiText, List.getD_cons_succ, List.getD_cons_succ,
    hdigits.1, hdigits.2, ascToInt_ascDigit (by omega), ascToInt_ascDigit (Nat.mod_lt _ (by decide))]
  omega

/-- A text has a colon, two characters for each byte, and its end. -/
theorem asciiText_length (bytes : List UInt8) : (asciiText bytes).length = 2 * bytes.length + 3 := by
  have hdigits : (bytes.flatMap ascPair).length = 2 * bytes.length := by
    induction bytes with
    | nil => rfl
    | cons b bytes ih =>
      rw [List.flatMap_cons, List.length_append, ih, List.length_cons]
      exact (Nat.add_comm _ _).trans (Nat.mul_succ 2 _).symm
  rw [asciiText, List.length_cons, List.length_append, hdigits]
  rfl

/-- A place between the colon and the end is the first or the second one of a pair. -/
theorem exists_pair {bytes : List UInt8} {p : ℕ} (hp : 1 ≤ p) (hlt : p + 2 < (asciiText bytes).length) :
    ∃ k < bytes.length, p = 2 * k + 1 ∨ p = 2 * k + 1 + 1 := by
  rw [asciiText_length] at hlt
  exact ⟨(p - 1) / 2, by omega, by omega⟩

/-- Each character between the colon and the end is the digit of a number. -/
theorem asciiText_digit {bytes : List UInt8} {p : ℕ} (hp : 1 ≤ p)
    (hlt : p + 2 < (asciiText bytes).length) :
    ∃ n < 16, (asciiText bytes).getD p 0 = ascDigit n := by
  obtain ⟨k, hk, hpair⟩ := exists_pair hp hlt
  have hdigits := flatMap_ascPair_getD hk [0x0d, 0x0a]
  have hbyte := bytes[k].toNat_lt
  rcases hpair with rfl | rfl
  · exact ⟨bytes[k].toNat / 16, by omega, hdigits.1⟩
  · exact ⟨bytes[k].toNat % 16, Nat.mod_lt _ (by decide), hdigits.2⟩

/-- A character that is replaced. -/
theorem getD_set_of_ne (frame : List UInt8) (b : UInt8) {p i : ℕ} (hne : i ≠ p) :
    (frame.set p b).getD i 0 = frame.getD i 0 := by
  rw [List.getD_eq_getElem?_getD, List.getElem?_set_ne hne.symm, List.getD_eq_getElem?_getD]

/-- It stands in its place. -/
theorem getD_set_self {frame : List UInt8} (b : UInt8) {p : ℕ} (h : p < frame.length) :
    (frame.set p b).getD p 0 = b := by
  rw [List.getD_eq_getElem?_getD, List.getElem?_set_self h, Option.getD_some]

/-- Pairs without the replaced character stay as they are. -/
theorem ascByte_set_of_ne (frame : List UInt8) (b : UInt8) {p i : ℕ} (hne : i ≠ p) (hne' : i + 1 ≠ p) :
    ascByte (frame.set p b) i = ascByte frame i := by
  rw [ascByte, ascByte, getD_set_of_ne frame b hne, getD_set_of_ne frame b hne']

/-- The pair of the replaced character stays as it is exactly when that character reads as before. -/
theorem ascByte_set_eq_iff {frame : List UInt8} (b : UInt8) {p i : ℕ} (h : p < frame.length)
    (hp : p = i ∨ p = i + 1) :
    ascByte (frame.set p b) i = ascByte frame i ↔ ascToInt b = ascToInt (frame.getD p 0) := by
  have hb := ascToInt_lt b
  rcases hp with rfl | rfl
  · have hlow := ascToInt_lt (frame.getD (p + 1) 0)
    rw [← UInt8.toNat_inj, ascByte_toNat, ascByte_toNat, getD_set_self b h,
      getD_set_of_ne frame b (show p + 1 ≠ p by omega),
      ← UInt8.toNat_inj]
    omega
  · have hhigh := ascToInt_lt (frame.getD i 0)
    rw [← UInt8.toNat_inj, ascByte_toNat, ascByte_toNat, getD_set_self b h,
      getD_set_of_ne frame b (show i ≠ i + 1 by omega),
      ← UInt8.toNat_inj]
    omega

/-- A replaced character changes the byte of its pair only. -/
theorem pairBytes_set (frame : List UInt8) (b : UInt8) {p k n : ℕ}
    (hp : p = 2 * k + 1 ∨ p = 2 * k + 1 + 1) :
    pairBytes (frame.set p b) n = (pairBytes frame n).set k (ascByte (frame.set p b) (2 * k + 1)) := by
  refine List.ext_getElem (by simp) fun j hj hj' => ?_
  rw [pairBytes_getElem, List.getElem_set]
  split
  · next hkj => rw [hkj]
  · next hkj =>
    rw [pairBytes_getElem]
    exact ascByte_set_of_ne frame b (by omega) (by omega)

/-- A sum that is zero stays zero exactly when the entry that is replaced stays the same. -/
theorem sum_set_eq_zero_iff {bytes : List UInt8} (hsum : bytes.sum = 0) {k : ℕ}
    (hk : k < bytes.length) (b : UInt8) :
    (bytes.set k b).sum = 0 ↔ b = bytes[k] := by
  rw [List.sum_set', dif_pos hk, hsum, zero_add, neg_add_eq_zero]
  exact eq_comm

/-- The filter of a gateway for Modbus ASCII lets a frame through. -/
def AsciiAccepts (frame : List UInt8) : Prop :=
  (xferGwAddr { protoType := xferProtoModbusAscii, dstType := 0, idx := 0 } frame).isSome = true

instance (frame : List UInt8) : Decidable (AsciiAccepts frame) := inferInstanceAs (Decidable (_ = _))

/-- The filter accepts the frame of some data, and rejects it with any character between the colon
and the end replaced. -/
def AsciiFilters (d : List UInt8) : Prop :=
  AsciiAccepts (asciiFrame d) ∧ ∀ p b, 1 ≤ p → p + 2 < (asciiFrame d).length →
    b ≠ (asciiFrame d).getD p 0 →
    ¬ AsciiAccepts ((asciiFrame d).set p b)

/-- The filter looks at the length and the sum of the pairs. -/
theorem asciiAccepts_iff (frame : List UInt8) :
    AsciiAccepts frame ↔ 7 ≤ frame.length ∧
      (pairBytes frame ((frame.length % 2 ^ 16 - 2) / 2)).sum = 0 := by
  rw [AsciiAccepts, xferGwAddr, if_neg (by decide), if_pos rfl, ucMBAsciiLRC_eq]
  split
  · next h => exact iff_of_true rfl ⟨h.1, neg_eq_zero.mp h.2⟩
  · next h => exact iff_of_false Bool.false_ne_true fun hsum => h ⟨hsum.1, neg_eq_zero.mpr hsum.2⟩

/-- The length of a frame. -/
theorem asciiFrame_length (d : List UInt8) : (asciiFrame d).length = 2 * d.length + 5 := by
  rw [asciiFrame, asciiText_length, List.length_append, List.length_singleton]
  omega

section Short
variable {d : List UInt8} (hne : d ≠ []) (hlt : d.length ≤ 32765)
include hne hlt

/-- Of a frame that is not too long the filter looks at all pairs. -/
theorem asciiAccepts_short {frame : List UInt8} (hlength : frame.length = (asciiFrame d).length) :
    AsciiAccepts frame ↔ (pairBytes frame (d.length + 1)).sum = 0 := by
  have hpos := List.length_pos_iff.mpr hne
  rw [asciiAccepts_iff, hlength, asciiFrame_length, Nat.mod_eq_of_lt (by omega),
    show (2 * d.length + 5 - 2) / 2 = d.length + 1 by omega]
  exact and_iff_right (by omega)

/-- The frame is accepted. -/
theorem asciiAccepts_asciiFrame : AsciiAccepts (asciiFrame d) := by
  have hpairs := pairBytes_asciiText (d ++ [-d.sum])
  rw [List.length_append, List.length_singleton] at hpairs
  rw [asciiAccepts_short hne hlt rfl, asciiFrame, hpairs, List.sum_append, List.sum_singleton,
    add_neg_cancel]

/-- With a character replaced it is accepted exactly when that was a zero and is no digit. -/
theorem asciiAccepts_set_iff {p : ℕ} {b : UInt8} (hp : 1 ≤ p) (hend : p + 2 < (asciiFrame d).length)
    (hb : b ≠ (asciiFrame d).getD p 0) :
    AsciiAccepts ((asciiFrame d).set p b) ↔ (asciiFrame d).getD p 0 = 0x30 ∧ ¬ IsAscDigit b := by
  obtain ⟨k, hk, hpair⟩ := exists_pair hp hend
  obtain ⟨n, hn, hdigit⟩ := asciiText_digit hp hend
  have hsum := (asciiAccepts_short hne hlt rfl).mp (asciiAccepts_asciiFrame hne hlt)
  rw [List.length_append, List.length_singleton] at hk
  rw [asciiAccepts_short hne hlt (List.length_set ..), pairBytes_set _ b hpair,
    sum_set_eq_zero_iff hsum (by rwa [pairBytes_length]), pairBytes_getElem,
    ascByte_set_eq_iff b (by omega) hpair]
  rw [show (asciiFrame d).getD p 0 = ascDigit n from hdigit] at hb ⊢
  exact ascToInt_eq_iff hn hb

end Short

/-- Of a frame that is too long the last character is not looked at. -/
theorem asciiAccepts_long {d : List UInt8} (h : 32765 < d.length) (b : UInt8) :
    AsciiAccepts ((asciiFrame d).set (2 * d.length + 2) b) ↔ AsciiAccepts (asciiFrame d) := by
  rw [asciiAccepts_iff, asciiAccepts_iff, List.length_set,
    pairBytes_set _ b (k := d.length) (.inr rfl), asciiFrame_length,
    List.set_eq_of_length_le]
  rw [pairBytes_length]
  omega

/-- A zero of a text stands between the colon and the end. -/
theorem exists_place_of_zero {bytes : List UInt8} (h : (0x30 : UInt8) ∈ asciiText bytes) :
    ∃ p, 1 ≤ p ∧ p + 2 < (asciiText bytes).length ∧ (asciiText bytes).getD p 0 = 0x30 := by
  obtain ⟨p, hp, hzero⟩ := List.getElem_of_mem h
  have hget : (asciiText bytes)[p]? = some 0x30 := by rw [List.getElem?_eq_getElem hp, hzero]
  have hlast := getElem?_last_two (0x3a :: bytes.flatMap ascPair) (0x0d : UInt8) 0x0a
  refine ⟨p, Nat.one_le_iff_ne_zero.mpr ?_,
    ?_, by rw [List.getD_eq_getElem?_getD, hget, Option.getD_some]⟩
  · rintro rfl
    exact absurd (Option.some.inj hget) (by decide)
  · by_contra hend
    have hlength := asciiText_length bytes
    obtain rfl | rfl : p = (asciiText bytes).length - 2 ∨ p = (asciiText bytes).length - 1 := by omega
    · exact absurd (Option.some.inj (hlast.1.symm.trans hget)) (by decide)
    · exact absurd (Option.some.inj (hlast.2.symm.trans hget)) (by decide)

/-- The filter does its work on the frame of some data exactly when there are data, not more than
32765 bytes of them, and no zero is among the digits. -/
theorem asciiFilters_iff (d : List UInt8) :
    AsciiFilters d ↔ d ≠ [] ∧ d.length ≤ 32765 ∧ (0x30 : UInt8) ∉ asciiFrame d := by
  constructor
  · rintro ⟨haccepts, hrejects⟩
    have hne : d ≠ [] := by
      rintro rfl
      exact absurd haccepts (by decide)
    have hlt : d.length ≤ 32765 := by
      by_contra hlong
      have hother : (asciiFrame d).getD (2 * d.length + 2) 0 + 1 ≠
        (asciiFrame d).getD (2 * d.length + 2) 0 := by simp
      refine hrejects (2 * d.length + 2) _ (Nat.le_add_left 1 _) ?_ hother
        ((asciiAccepts_long (by omega) _).mpr haccepts)
      rw [asciiFrame_length]
      exact Nat.lt_succ_self _
    refine ⟨hne, hlt, fun hzero => ?_⟩
    obtain ⟨p, hp, hend, hdigit⟩ := exists_place_of_zero hzero
    have hother : (0x47 : UInt8) ≠ (asciiFrame d).getD p 0 := by
      rw [show (asciiFrame d).getD p 0 = 0x30 from hdigit]
      decide
    exact hrejects p 0x47 hp hend hother
      ((asciiAccepts_set_iff hne hlt hp hend hother).mpr ⟨hdigit, by decide⟩)
  · rintro ⟨hne, hlt, hzero⟩
    refine ⟨asciiAccepts_asciiFrame hne hlt, fun p b hp hend hb haccepts => hzero ?_⟩
    obtain ⟨hdigit, -⟩ := (asciiAccepts_set_iff hne hlt hp hend hb).mp haccepts
    rw [← hdigit]
    exact List.mem_of_getElem? (getElem?_eq_some_getD (by omega) 0)

/-- The filter does its work exactly on frames without a zero that are neither empty nor too long,
overlooks exactly what is put in the place of a zero without being a digit, and reads inside every
frame. -/
theorem xferAscii_filters (d : List UInt8) :
    (AsciiFilters d ↔ d ≠ [] ∧ d.length ≤ 32765 ∧ (0x30 : UInt8) ∉ asciiFrame d) ∧
      (∀ p b, d ≠ [] → d.length ≤ 32765 → 1 ≤ p → p + 2 < (asciiFrame d).length →
        b ≠ (asciiFrame d).getD p 0 →
        (¬ AsciiAccepts ((asciiFrame d).set p b) ↔ (asciiFrame d).getD p 0 = 0x30 → IsAscDigit b)) ∧
      ∀ frame : List UInt8, ucMBAsciiLRCLoop frame (frame.length % 2 ^ 16) 1 0 =
        some (ucMBAsciiLRC frame frame.length) ∧
        (7 ≤ frame.length → ucMBAsciiAddrRead frame = some (ucMBAsciiAddr frame)) := by
  refine ⟨asciiFilters_iff d, fun p b hne hlt hp hend hb => ?_, xferAscii_reads⟩
  rw [asciiAccepts_set_iff hne hlt hp hend hb, not_and, not_not]

/-- In the frame of the byte 1 a `G` for the first digit, which is a zero, is overlooked. -/
theorem not_asciiFilters_one : ¬ ∀ d, AsciiFilters d := by
  intro h
  refine (h [1]).2 1 0x47 ?_ ?_ ?_ ?_
  · decide
  · decide
  · decide
  · decide

end DasEdge.Board
