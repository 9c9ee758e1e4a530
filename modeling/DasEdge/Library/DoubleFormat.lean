import Mathlib.Algebra.Order.Group.Unbundled.Abs
import Mathlib.Algebra.Order.Ring.Int
import Mathlib.Data.Nat.Log

/-!
# Integers as double precision numbers

The bit patterns of the integers that double precision represents exactly, and the way back. Single
precision patterns are widened by moving the fields, which is right for zero and for normal numbers.
-/

namespace DasEdge.Library

/-- The pattern of a magnitude: the exponent of its highest bit, and the bits below. -/
def encodeMagnitude (n : ℕ) : ℕ :=
  if n = 0 then 0 else (1023 + n.log2) * 2 ^ 52 + (n - 2 ^ n.log2) * 2 ^ (52 - n.log2)

/-- The magnitude of a pattern, without what is behind the binary point. -/
def decodeMagnitude (x : ℕ) : ℕ :=
  if x = 0 then 0 else (2 ^ 52 + x % 2 ^ 52) * 2 ^ (x / 2 ^ 52 - 1023) / 2 ^ 52

/-- The exponent and the fraction of a pattern. -/
theorem encodeMagnitude_fields {n : ℕ} (h : n ≠ 0) (hlt : n < 2 ^ 53) :
    encodeMagnitude n / 2 ^ 52 = 1023 + n.log2 ∧
      encodeMagnitude n % 2 ^ 52 = (n - 2 ^ n.log2) * 2 ^ (52 - n.log2) := by
  have hlog : n.log2 ≤ 52 := Nat.lt_succ_iff.mp ((Nat.log2_lt h).mpr hlt)
  have hlow := Nat.log2_self_le h
  have hhigh := Nat.lt_log2_self (n := n)
  have hfraction : (n - 2 ^ n.log2) * 2 ^ (52 - n.log2) < 2 ^ 52 := by
    calc (n - 2 ^ n.log2) * 2 ^ (52 - n.log2) < 2 ^ n.log2 * 2 ^ (52 - n.log2) := by
          apply Nat.mul_lt_mul_of_pos_right _ (Nat.pow_pos (by decide))
          rw [pow_succ] at hhigh
          omega
      _ = 2 ^ 52 := by rw [← pow_add, Nat.add_sub_cancel' hlog]
  rw [encodeMagnitude, if_neg h]
  constructor
  · omega
  · omega

/-- Decoding gives a magnitude of at most 53 bits back. -/
theorem decodeMagnitude_encode {n : ℕ} (hlt : n < 2 ^ 53) :
    decodeMagnitude (encodeMagnitude n) = n := by
  by_cases h : n = 0
  · subst h
    rfl
  obtain ⟨hexponent, hfraction⟩ := encodeMagnitude_fields h hlt
  have hlog : n.log2 ≤ 52 := Nat.lt_succ_iff.mp ((Nat.log2_lt h).mpr hlt)
  have hlow := Nat.log2_self_le h
  have hne : encodeMagnitude n ≠ 0 := by
    intro hzero
    rw [hzero] at hexponent
    omega
  have hsum : 2 ^ 52 + (n - 2 ^ n.log2) * 2 ^ (52 - n.log2) = n * 2 ^ (52 - n.log2) := by
    have hpow : 2 ^ 52 = 2 ^ n.log2 * 2 ^ (52 - n.log2) := by rw [← pow_add, Nat.add_sub_cancel' hlog]
    rw [hpow, ← add_mul, Nat.add_sub_cancel' hlow]
  rw [decodeMagnitude, if_neg hne, hexponent, hfraction, hsum, Nat.add_sub_cancel_left,
    mul_assoc, ← pow_add,
    Nat.sub_add_cancel hlog]
  exact Nat.mul_div_cancel n (by decide)

/-- The pattern of a magnitude leaves the sign bit free. -/
theorem encodeMagnitude_lt {n : ℕ} (hlt : n < 2 ^ 53) : encodeMagnitude n < 2 ^ 63 := by
  by_cases h : n = 0
  · subst h
    decide
  obtain ⟨hexponent, -⟩ := encodeMagnitude_fields h hlt
  have hlog : n.log2 ≤ 52 := Nat.lt_succ_iff.mp ((Nat.log2_lt h).mpr hlt)
  omega

/-- The pattern of an integer. -/
def encodeInt (n : ℤ) : UInt64 := (encodeMagnitude n.natAbs + if n < 0 then 2 ^ 63 else 0).toUInt64

/-- The integer of a pattern. -/
def decodeInt (x : UInt64) : ℤ :=
  if x.toNat < 2 ^ 63 then decodeMagnitude x.toNat else -decodeMagnitude (x.toNat - 2 ^ 63)

/-- The pattern of an integer of at most 53 bits as a number. -/
theorem encodeInt_toNat {n : ℤ} (h : n.natAbs < 2 ^ 53) :
    (encodeInt n).toNat = encodeMagnitude n.natAbs + if n < 0 then 2 ^ 63 else 0 := by
  have hlt := encodeMagnitude_lt h
  unfold encodeInt
  have hmod : ∀ x : ℕ, x < 2 ^ 64 → x.toUInt64.toNat = x := fun x hx => by
    simpa using Nat.mod_eq_of_lt hx
  apply hmod
  split
  · omega
  · omega

/-- Decoding gives an integer of at most 53 bits back. -/
theorem decodeInt_encode {n : ℤ} (h : n.natAbs < 2 ^ 53) : decodeInt (encodeInt n) = n := by
  have hlt := encodeMagnitude_lt h
  unfold decodeInt
  rw [encodeInt_toNat h]
  split
  · next hneg =>
    rw [if_neg (by omega), Nat.add_sub_cancel, decodeMagnitude_encode h]
    omega
  · next hpos =>
    rw [if_pos (by omega), Nat.add_zero, decodeMagnitude_encode h]
    omega

/-- The double precision pattern of a single precision one. -/
def widen (x : UInt32) : UInt64 :=
  if x = 0 then 0 else ((x.toNat / 2 ^ 23 + 896) * 2 ^ 52 + x.toNat % 2 ^ 23 * 2 ^ 29).toUInt64

/-- The single precision pattern of a double precision one. -/
def narrow (x : UInt64) : UInt32 :=
  if x = 0 then 0 else ((x.toNat / 2 ^ 52 - 896) * 2 ^ 23 + x.toNat % 2 ^ 52 / 2 ^ 29).toUInt32

/-- Narrowing undoes widening. -/
theorem narrow_widen (x : UInt32) : narrow (widen x) = x := by
  have hx := x.toNat_lt
  unfold widen
  split
  · next hzero => rw [hzero]; rfl
  · have hnat : ((x.toNat / 2 ^ 23 + 896) * 2 ^ 52 + x.toNat % 2 ^ 23 * 2 ^ 29).toUInt64.toNat =
        (x.toNat / 2 ^ 23 + 896) * 2 ^ 52 + x.toNat % 2 ^ 23 * 2 ^ 29 := by
      simpa using Nat.mod_eq_of_lt (by omega : (x.toNat / 2 ^ 23 + 896) * 2 ^ 52 + x.toNat %
        2 ^ 23 * 2 ^ 29 < 2 ^ 64)
    unfold narrow
    rw [if_neg]
    · apply UInt32.toNat_inj.mp
      rw [hnat]
      have hfields : ((x.toNat / 2 ^ 23 + 896) * 2 ^ 52 + x.toNat % 2 ^ 23 * 2 ^ 29) / 2 ^ 52 -
        896 = x.toNat / 2 ^ 23 ∧
          ((x.toNat / 2 ^ 23 + 896) * 2 ^ 52 + x.toNat % 2 ^ 23 * 2 ^ 29) % 2 ^ 52 / 2 ^ 29 =
          x.toNat % 2 ^ 23 := by
        constructor
        · omega
        · omega
      rw [hfields.1, hfields.2, Nat.div_add_mod']
      simp
    · intro hzero
      rw [hzero] at hnat
      have hsum := hnat.symm
      simp at hsum

end DasEdge.Library
