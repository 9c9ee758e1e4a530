import DasEdge.Sdccp.Dlt645
import Mathlib.Algebra.Order.Ring.Rat
import Mathlib.Tactic.Positivity
import Mathlib.Tactic.Linarith

/-!
# Signed values of DL/T 645

The top bit of a signed quantity is its sign. The code takes a number for a negative one as soon as
its top byte is not zero, since it tests `pData[3] && 0x80`. It does not look for a sign at all in
the second combined reactive energy, whose bounds it compares the wrong way round, in the combined
reactive energies of the phases, and in the power factor.
-/

namespace DasEdge.Sdccp

open DasEdge.Library

/-- What a data marker stands for, apart from the demands. -/
inductive Dlt645Quantity where
  | combinedEnergy
  | energy
  | voltage
  | current
  | power
  | powerFactor
  | angle
  deriving DecidableEq

/-- The markers of the combined reactive energies of the phases. -/
def phaseCombinedMarks : List UInt32 :=
  [0x00170000, 0x00180000, 0x002B0000, 0x002C0000, 0x003F0000, 0x00400000]

/-- The quantity of a data marker. -/
def quantityOf (dataMark : UInt32) : Option Dlt645Quantity :=
  if dataMark ≤ 0x00440000 then
    if dataMark ≤ 0x00000400 ∨ (0x00030000 ≤ dataMark ∧ dataMark ≤ 0x00030400) ∨
        (0x00040000 ≤ dataMark ∧ dataMark ≤ 0x00040400) ∨ dataMark ∈ phaseCombinedMarks then
      some .combinedEnergy
    else some .energy
  else if 0x02010100 ≤ dataMark ∧ dataMark ≤ 0x0201FF00 then some .voltage
  else if 0x02020100 ≤ dataMark ∧ dataMark ≤ 0x0202FF00 then some .current
  else if 0x02030000 ≤ dataMark ∧ dataMark ≤ 0x0205FF00 then some .power
  else if 0x02060000 ≤ dataMark ∧ dataMark ≤ 0x0206FF00 then some .powerFactor
  else if 0x02070100 ≤ dataMark ∧ dataMark ≤ 0x02070400 then some .angle
  else none

namespace Dlt645Quantity

/-- The comments declare a sign. -/
def signed : Dlt645Quantity → Bool
  | .combinedEnergy | .current | .power | .powerFactor => true
  | .energy | .voltage | .angle => false

/-- The bytes of its data field. -/
def len : Dlt645Quantity → ℕ
  | .combinedEnergy | .energy => 4
  | .current | .power => 3
  | .voltage | .powerFactor | .angle => 2

/-- What its digits are divided by. -/
def scale : Dlt645Quantity → ℚ
  | .combinedEnergy | .energy => 100
  | .current | .powerFactor => 1000
  | .power => 10000
  | .voltage | .angle => 10

end Dlt645Quantity

/-- The top byte of a data field. -/
def topByte (pData : List UInt8) : UInt8 := (minus33 pData).getLast?.getD 0

/-- The bytes of a data field that are digits: all of them, or all but the sign. -/
def digitBytes (signed : Bool) (pData : List UInt8) : List UInt8 :=
  if signed then (minus33 pData).dropLast ++ [topByte pData &&& 0x7f] else minus33 pData

/-- The value of a data field: its digits, with the sign if there is one, and divided by the scale. -/
def fieldValue (q : Dlt645Quantity) (pData : List UInt8) : ℚ :=
  (if q.signed ∧ 0x80 ≤ topByte pData then -1 else 1) * bcdValue (digitBytes q.signed pData) / q.scale

/-- The quantities whose sign the code looks for. -/
def signSought (dataMark : UInt32) : Dlt645Quantity → Bool
  | .combinedEnergy => decide (dataMark ≤ 0x00000400 ∨ (0x00030000 ≤ dataMark ∧ dataMark ≤ 0x00030400))
  | .current | .power => true
  | .energy | .voltage | .powerFactor | .angle => false

/-- The top bytes of signed quantities that the code reads right. -/
def SignRead (dataMark : UInt32) (q : Dlt645Quantity) (top : UInt8) : Prop :=
  q.signed → if signSought dataMark q then top = 0 ∨ 0x80 ≤ top else top < 0x80

section Convert

variable {bytes : List UInt8}

/-- Texts of digits have no sign and no exponent. -/
theorem atofHex_bcd (h : ∀ b ∈ bytes, IsBcd b) :
    atofHex (bytes.reverse.flatMap hexByteText) = bcdValue bytes := by
  have hall := hexByteText_digits fun b hb => h b (List.mem_reverse.mp hb)
  have hsign : (bytes.reverse.flatMap hexByteText).head? ≠ some 45 := by
    intro hhead
    have hdigit := hall 45 (List.mem_of_mem_head? hhead)
    exact absurd hdigit (by decide)
  have hbehind : (bytes.reverse.flatMap hexByteText).dropWhile isDigitByte = [] :=
    List.dropWhile_eq_nil_iff.mpr hall
  rw [atofHex, if_neg hsign, if_neg hsign, hbehind, digitsValue_bcd h]
  simp

/-- A sign in front of digits. -/
theorem atofHex_minus (h : ∀ b ∈ bytes, IsBcd b) :
    atofHex (45 :: bytes.reverse.flatMap hexByteText) = -bcdValue bytes := by
  have hall := hexByteText_digits fun b hb => h b (List.mem_reverse.mp hb)
  have hbehind : (bytes.reverse.flatMap hexByteText).dropWhile isDigitByte = [] :=
    List.dropWhile_eq_nil_iff.mpr hall
  rw [atofHex, List.head?_cons, if_pos rfl, if_pos rfl, List.tail_cons, hbehind, digitsValue_bcd h]
  simp

/-- What `%02x` writes is read as no negative number. -/
theorem atofHex_nonneg (bytes : List UInt8) : 0 ≤ atofHex (bytes.flatMap hexByteText) := by
  have hsign : (bytes.flatMap hexByteText).head? ≠ some 45 := by
    intro hhead
    obtain ⟨b, -, hb⟩ := List.mem_flatMap.mp (List.mem_of_mem_head? hhead)
    have hne : ∀ n < 16, hexDigit n ≠ 45 := by decide
    have hlt := b.toNat_lt
    rcases List.mem_cons.mp hb with hb | hb
    · exact hne _ (by omega) hb.symm
    · exact hne _ (by omega) (List.mem_singleton.mp hb).symm
  rw [atofHex, if_neg hsign, if_neg hsign]
  positivity

end Convert

section Field

variable {pData : List UInt8} {dataMark : UInt32} {q : Dlt645Quantity}

/-- A data field has a length that the converters know. -/
theorem Dlt645Quantity.len_mem (q : Dlt645Quantity) : q.len ∈ [1, 2, 3, 4] ∧ q.len ≠ 0 ∧ q.len ≠ 8 := by
  cases q <;> decide

/-- What the code does with a data field, by its quantity. -/
theorem vPraseData_eq (hq : quantityOf dataMark = some q) (hlen : pData.length = q.len) :
    vPraseData pData dataMark =
      some ((if signSought dataMark q then dataToDoubleSigned pData else dataToDouble pData) /
      q.scale) := by
  have hpos : pData.length ≠ 0 := hlen ▸ q.len_mem.2.1
  have hzero : (0x00000000 : UInt32) ≤ dataMark := UInt32.zero_le
  have hswapped : ¬ (dataMark ≤ 0x00040000 ∧ 0x00040400 ≤ dataMark) := by
    rintro ⟨hle, hge⟩
    exact absurd (UInt32.le_trans hge hle) (by decide)
  rw [quantityOf] at hq
  rw [vPraseData, if_neg hpos]
  by_cases henergy : dataMark ≤ 0x00440000
  · rw [if_pos henergy] at hq
    rw [if_pos ⟨hzero, henergy⟩]
    split at hq
    · cases hq
      have hfour : pData.length = 4 := hlen
      rw [if_pos hfour]
      simp only [hzero, true_and, hswapped, or_false, signSought, decide_eq_true_eq,
        Dlt645Quantity.scale]
    · next hcombined =>
      cases hq
      have hfour : pData.length = 4 := hlen
      have hplain : ¬ (dataMark ≤ 0x00000400 ∨ 0x00030000 ≤ dataMark ∧ dataMark ≤ 0x00030400) :=
        fun h =>
        hcombined (h.imp_right Or.inl)
      rw [if_pos hfour]
      simp only [hzero, true_and, hswapped, or_false, if_neg hplain, signSought, Bool.false_eq_true,
        if_false, Dlt645Quantity.scale]
  · rw [if_neg henergy] at hq
    rw [if_neg fun h => henergy h.2]
    split_ifs at hq with hvoltage hcurrent hpower hfactor hangle
    · cases hq
      have htwo : pData.length = 2 := hlen
      rw [if_pos hvoltage, if_pos htwo]
      rfl
    · cases hq
      have hthree : pData.length = 3 := hlen
      rw [if_neg hvoltage, if_pos hcurrent, if_pos hthree]
      rfl
    · cases hq
      have hthree : pData.length = 3 := hlen
      rw [if_neg hvoltage, if_neg hcurrent, if_pos hpower, if_pos hthree]
      rfl
    · cases hq
      have htwo : pData.length = 2 := hlen
      rw [if_neg hvoltage, if_neg hcurrent, if_neg hpower, if_pos hfactor, if_pos htwo]
      rfl
    · cases hq
      have htwo : pData.length = 2 := hlen
      rw [if_neg hvoltage, if_neg hcurrent, if_neg hpower, if_neg hfactor, if_pos hangle, if_pos htwo]
      rfl

/-- A field that is read without a sign. -/
theorem dataToDouble_eq (hlen : pData.length ∈ [1, 2, 3, 4]) :
    dataToDouble pData = atofHex ((minus33 pData).reverse.flatMap hexByteText) := by
  have hsame : (minus33 pData).length = pData.length := List.length_map _
  have hshort : pData.length ≠ 8 := by
    rintro heq
    rw [heq] at hlen
    exact absurd hlen (by decide)
  simp only [dataToDouble, hsame, if_neg hshort, if_pos hlen]

/-- A field that is read with a sign is negative when its top byte is not zero. -/
theorem dataToDoubleSigned_eq (hlen : pData.length ∈ [1, 2, 3, 4])
    (hdigits : ∀ b ∈ digitBytes true pData, IsBcd b) :
    dataToDoubleSigned pData = (if topByte pData ≠ 0 then -1 else 1) *
      bcdValue (digitBytes true pData) := by
  have hsame : (minus33 pData).length = pData.length := List.length_map _
  rw [digitBytes, if_pos rfl] at hdigits ⊢
  have hvalue := atofHex_bcd hdigits
  have hminus := atofHex_minus hdigits
  simp only [dataToDoubleSigned, hsame, if_pos hlen]
  change atofHex (if topByte pData ≠ 0 then 45 :: _ else _) = _
  split
  · rw [neg_one_mul]
    exact hminus
  · rw [one_mul]
    exact hvalue

/-- The top byte is the last one of a field. -/
theorem minus33_eq (hlen : pData.length ≠ 0) :
    minus33 pData = (minus33 pData).dropLast ++ [topByte pData] := by
  have hne : minus33 pData ≠ [] := by
    rw [minus33, Ne, List.map_eq_nil_iff]
    exact fun hnil => hlen (congrArg List.length hnil)
  rw [topByte, List.getLast?_eq_some_getLast hne, Option.getD_some, List.dropLast_concat_getLast]

/-- The digits of a byte with a sign. -/
theorem and_7f_toNat (b : UInt8) : (b &&& 0x7f).toNat = b.toNat % 128 := by
  rw [UInt8.toNat_and]
  exact Nat.and_two_pow_sub_one_eq_mod b.toNat 7

/-- Without a sign all is digits. -/
theorem digitBytes_positive (signed : Bool) (hlen : pData.length ≠ 0) (htop : topByte pData < 0x80) :
    digitBytes signed pData = minus33 pData := by
  cases signed with
  | false => rfl
  | true =>
    have hlt : (topByte pData).toNat < 128 := UInt8.lt_iff_toNat_lt.mp htop
    have hsame : topByte pData &&& 0x7f = topByte pData :=
      UInt8.toNat.inj (by rw [and_7f_toNat, Nat.mod_eq_of_lt hlt])
    rw [digitBytes, if_pos rfl, hsame]
    exact (minus33_eq hlen).symm

/-- A number whose top byte has digits is not zero. -/
theorem bcdValue_pos {bytes : List UInt8} {top : UInt8} (htop : top ≠ 0) :
    0 < bcdValue (bytes ++ [top]) := by
  have hne : top.toNat ≠ 0 := fun hzero => htop (UInt8.toNat.inj hzero)
  have hbyte : 0 < bcdByte top := by
    rw [bcdByte]
    omega
  rw [bcdValue_append_singleton]
  positivity

/-- The sign is looked for in signed quantities only. -/
theorem signSought_signed (h : q.signed = false) : signSought dataMark q = false := by
  cases q <;> first | rfl | cases h

/-- A data field is decoded as its value if and only if its sign is read right. -/
theorem vPraseData_iff (hq : quantityOf dataMark = some q) (hlen : pData.length = q.len)
    (hdigits : ∀ b ∈ digitBytes q.signed pData, IsBcd b) :
    vPraseData pData dataMark = some (fieldValue q pData) ↔ SignRead dataMark q (topByte pData) := by
  have hscale : q.scale ≠ 0 := by cases q <;> norm_num [Dlt645Quantity.scale]
  have hshort : pData.length ∈ [1, 2, 3, 4] := hlen ▸ q.len_mem.1
  have hpos : pData.length ≠ 0 := hlen ▸ q.len_mem.2.1
  rw [vPraseData_eq hq hlen, Option.some_inj, fieldValue, div_left_inj' hscale, SignRead]
  cases hsigned : q.signed with
  | false =>
    rw [hsigned] at hdigits
    simp only [signSought_signed hsigned, Bool.false_eq_true, if_false, false_and, one_mul,
      false_implies, iff_true]
    rw [dataToDouble_eq hshort]
    exact atofHex_bcd hdigits
  | true =>
    rw [hsigned] at hdigits
    simp only [true_and, true_implies]
    set value : ℚ := (bcdValue (digitBytes true pData) : ℚ) with hvalue
    have hnonneg : 0 ≤ value := Nat.cast_nonneg _
    by_cases hsought : signSought dataMark q = true
    · rw [if_pos hsought, if_pos hsought, dataToDoubleSigned_eq hshort hdigits, ← hvalue]
      by_cases hzero : topByte pData = 0
      · simp [hzero]
      · by_cases hminus : 0x80 ≤ topByte pData
        · simp [hzero, hminus]
        · have hdigit : topByte pData &&& 0x7f ≠ 0 := by
            intro hand
            have hmod := and_7f_toNat (topByte pData)
            have hlt : (topByte pData).toNat < 128 := UInt8.lt_iff_toNat_lt.mp (UInt8.not_le.mp hminus)
            rw [hand, Nat.mod_eq_of_lt hlt] at hmod
            exact hzero (UInt8.toNat.inj hmod.symm)
          have hvaluePos : 0 < value := by
            rw [hvalue, digitBytes, if_pos rfl, Nat.cast_pos]
            exact bcdValue_pos hdigit
          simp only [ne_eq, hzero, not_false_eq_true, if_true, hminus, if_false, or_self, iff_false]
          intro heq
          linarith
    · rw [if_neg hsought, if_neg hsought, dataToDouble_eq hshort]
      by_cases hplus : topByte pData < 0x80
      · have hbytes := digitBytes_positive true hpos hplus
        have hnot : ¬ 0x80 ≤ topByte pData := UInt8.not_le.mpr hplus
        rw [hbytes] at hdigits hvalue
        rw [if_neg hnot, one_mul, atofHex_bcd hdigits, hvalue]
        exact iff_of_true rfl hplus
      · have hminus : 0x80 ≤ topByte pData := UInt8.not_lt.mp hplus
        rw [if_pos hminus]
        refine iff_of_false (fun heq => ?_) hplus
        have hread := atofHex_nonneg (minus33 pData).reverse
        have hzeroValue : value = 0 := by linarith
        -- no digits but the sign, which is read as a digit
        have hnoDigit : topByte pData &&& 0x7f = 0 := by
          by_contra hdigit
          have hvaluePos : 0 < bcdValue ((minus33 pData).dropLast ++ [topByte pData &&& 0x7f]) :=
            bcdValue_pos hdigit
          rw [hvalue, digitBytes, if_pos rfl, Nat.cast_eq_zero] at hzeroValue
          omega
        have htop : topByte pData = 0x80 := by
          have hmod := and_7f_toNat (topByte pData)
          have hge : 128 ≤ (topByte pData).toNat := UInt8.le_iff_toNat_le.mp hminus
          have hlt := (topByte pData).toNat_lt
          rw [hnoDigit] at hmod
          have hzero : 0 = (topByte pData).toNat % 128 := hmod
          exact UInt8.toNat.inj (show (topByte pData).toNat = 128 by omega)
        have hall : ∀ b ∈ minus33 pData, IsBcd b := by
          rw [minus33_eq hpos, htop]
          rw [digitBytes, if_pos rfl] at hdigits
          intro b hb
          rcases List.mem_append.mp hb with hb | hb
          · exact hdigits b (List.mem_append_left _ hb)
          · rw [List.mem_singleton.mp hb]
            decide
        have hreadPos : 0 < bcdValue (minus33 pData) := by
          rw [minus33_eq hpos, htop]
          exact bcdValue_pos (by decide)
        rw [atofHex_bcd hall, hzeroValue, mul_zero, Nat.cast_eq_zero] at heq
        omega

end Field

local instance (priority := 1100) decidableDigits (p : UInt8 → Prop) [DecidablePred p]
  (bytes : List UInt8) :
    Decidable (∀ a ∈ bytes, p a) :=
  List.decidableBAll p bytes

/-- A current of -12.345 A. -/
theorem vPraseData_negative_current :
    vPraseData [0x78, 0x56, 0xB4] 0x02020100 = some (fieldValue .current [0x78, 0x56, 0xB4]) :=
  (vPraseData_iff (by decide) (by decide) (by decide)).mpr fun _ => .inr (by decide)

/-- A current of 12.345 A is decoded as -12.345 A. -/
theorem not_vPraseData_positive_current :
    ¬ ∀ (dataMark : UInt32) (q : Dlt645Quantity) (pData : List UInt8),
    quantityOf dataMark = some q → pData.length = q.len → (∀ b ∈ digitBytes q.signed pData, IsBcd b) →
      vPraseData pData dataMark = some (fieldValue q pData) := by
  intro h
  have hdecoded := h 0x02020100 .current [0x78, 0x56, 0x34] (by decide) (by decide) (by decide)
  revert hdecoded
  decide +kernel

end DasEdge.Sdccp
