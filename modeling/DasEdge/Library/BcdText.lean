import DasEdge.Library.CString
import Mathlib.Algebra.BigOperators.Group.List.Basic
import Mathlib.Algebra.Order.Ring.Nat
import Mathlib.Data.Nat.Digits.Defs
import Mathlib.Tactic.Ring

/-!
# Binary coded decimals

A byte holds two decimal digits, the higher one in its upper half, and the first byte of a number is
its lowest one. Written in hexadecimal with the highest byte first, such a number is its decimal
text.
-/

namespace DasEdge.Library

/-- The digit that `%x` writes for a number below 16. -/
def hexDigit (n : ℕ) : UInt8 := if n < 10 then UInt8.ofNat (48 + n) else UInt8.ofNat (87 + n)

/-- `%02x` -/
def hexByteText (b : UInt8) : List UInt8 := [hexDigit (b.toNat / 16), hexDigit (b.toNat % 16)]

/-- Both halves are decimal digits. -/
def IsBcd (b : UInt8) : Prop := b.toNat / 16 < 10 ∧ b.toNat % 16 < 10

instance (b : UInt8) : Decidable (IsBcd b) := inferInstanceAs (Decidable (_ ∧ _))

/-- The number of a byte. -/
def bcdByte (b : UInt8) : ℕ := 10 * (b.toNat / 16) + b.toNat % 16

/-- The number of some bytes, the lowest one first. -/
def bcdValue (bytes : List UInt8) : ℕ := Nat.ofDigits 100 (bytes.map bcdByte)

/-- The digit of a decimal digit. -/
theorem hexDigit_decimal {n : ℕ} (h : n < 10) : isDigitByte (hexDigit n) = true ∧
    (hexDigit n).toNat - 48 = n := by
  revert h n
  decide

/-- The text of decimal bytes consists of digits. -/
theorem hexByteText_digits {bytes : List UInt8} (h : ∀ b ∈ bytes, IsBcd b) :
    ∀ c ∈ bytes.flatMap hexByteText, isDigitByte c = true := by
  intro c hc
  obtain ⟨b, hb, hc⟩ := List.mem_flatMap.mp hc
  obtain ⟨hupper, hlower⟩ := h b hb
  rcases List.mem_cons.mp hc with rfl | hc
  · exact (hexDigit_decimal hupper).1
  · rw [List.mem_singleton.mp hc]
    exact (hexDigit_decimal hlower).1

/-- Decimal bytes, written with the highest one first, are read as their number. -/
theorem digitsValue_bcd {bytes : List UInt8} (h : ∀ b ∈ bytes, IsBcd b) :
    digitsValue (bytes.reverse.flatMap hexByteText) = bcdValue bytes := by
  have hall := hexByteText_digits fun b hb => h b (List.mem_reverse.mp hb)
  rw [digitsValue, List.takeWhile_eq_self_iff.mpr hall]
  clear hall
  induction bytes with
  | nil => rfl
  | cons b bytes ih =>
    obtain ⟨hb, hbytes⟩ := List.forall_mem_cons.mp h
    rw [List.reverse_cons, List.flatMap_append, List.foldl_append, ih hbytes,
      List.flatMap_singleton, bcdValue, bcdValue,
      List.map_cons, Nat.ofDigits_cons, bcdByte, hexByteText, List.foldl_cons, List.foldl_cons,
      List.foldl_nil,
      (hexDigit_decimal hb.1).2, (hexDigit_decimal hb.2).2]
    ring

/-- A byte at the top of a number. -/
theorem bcdValue_append_singleton (bytes : List UInt8) (top : UInt8) :
    bcdValue (bytes ++ [top]) = bcdValue bytes + 100 ^ bytes.length * bcdByte top := by
  rw [bcdValue, bcdValue, List.map_append, Nat.ofDigits_append, List.length_map, List.map_singleton,
    Nat.ofDigits_singleton]

end DasEdge.Library

/-!
# Digits of numbers

The number that the lowest digits of a sequence make, in any base. The digits that a number has in
the base are the only ones that make it.
-/

namespace DasEdge.Library

/-- The number that the first `n` digits make, the lowest first. -/
def digitSum (base : ℕ) (digit : ℕ → ℕ) (n : ℕ) : ℕ :=
  ((List.range n).map fun i => digit i * base ^ i).sum

/-- One digit more. -/
theorem digitSum_succ (base : ℕ) (digit : ℕ → ℕ) (n : ℕ) :
    digitSum base digit (n + 1) = digitSum base digit n + digit n * base ^ n := by
  simp [digitSum, List.range_succ]

/-- The digits of a number make what is left of it below them. -/
theorem digitSum_of_digits {base x : ℕ} {digit : ℕ → ℕ} {n : ℕ}
    (h : ∀ i < n, digit i = x / base ^ i % base) :
    digitSum base digit n = x % base ^ n := by
  induction n with
  | zero => simp [digitSum, Nat.mod_one]
  | succ n ih =>
    rw [digitSum_succ, ih fun i hi => h i (by omega), h n (by omega), pow_succ, Nat.mod_mul,
      mul_comm (base ^ n)]

/-- Digits below the base make a number below its power. -/
theorem digitSum_lt {base : ℕ} {digit : ℕ → ℕ} {n : ℕ} (h : ∀ i < n, digit i < base) :
    digitSum base digit n < base ^ n := by
  induction n with
  | zero => simp [digitSum]
  | succ n ih =>
    have hlow := ih fun i hi => h i (by omega)
    have hdigit : (digit n + 1) * base ^ n ≤ base * base ^ n := Nat.mul_le_mul_right _ (h n (by omega))
    rw [digitSum_succ, pow_succ, mul_comm (base ^ n)]
    rw [add_mul, one_mul] at hdigit
    omega

/-- Digits below the base are those of the number that they make. -/
theorem digitSum_digit {base : ℕ} {digit : ℕ → ℕ} {n : ℕ} (h : ∀ i < n, digit i < base) {i : ℕ}
    (hi : i < n) :
    digitSum base digit n / base ^ i % base = digit i := by
  induction n with
  | zero => omega
  | succ n ih =>
    have hbase : 0 < base := (Nat.zero_le _).trans_lt (h i hi)
    have hlow : ∀ j < n, digit j < base := fun j hj => h j (by omega)
    rw [digitSum_succ]
    by_cases hlast : i = n
    · subst hlast
      rw [Nat.add_mul_div_right _ _ (Nat.pow_pos hbase), Nat.div_eq_of_lt (digitSum_lt hlow),
        Nat.zero_add]
      exact Nat.mod_eq_of_lt (h i hi)
    · have hpow : digit n * base ^ n = digit n * base ^ (n - i - 1) * base * base ^ i := by
        rw [mul_assoc, mul_assoc, ← pow_succ', ← pow_add]
        congr 2
        omega
      rw [hpow, Nat.add_mul_div_right _ _ (Nat.pow_pos hbase), Nat.add_mul_mod_self_right]
      exact ih hlow (by omega)

/-- A number below the power is made by its own digits only. -/
theorem digitSum_eq_iff {base : ℕ} {digit : ℕ → ℕ} {n x : ℕ} (h : ∀ i < n, digit i < base)
    (hx : x < base ^ n) :
    digitSum base digit n = x ↔ ∀ i < n, digit i = x / base ^ i % base := by
  constructor
  · rintro rfl i hi
    exact (digitSum_digit h hi).symm
  · intro hdigits
    rw [digitSum_of_digits hdigits, Nat.mod_eq_of_lt hx]

end DasEdge.Library
