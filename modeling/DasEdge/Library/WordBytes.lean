import DasEdge.Library.MemoryText
import Mathlib.Data.Nat.Notation

/-!
# Numbers in memory

Numbers of 16 and 32 bits as bytes in memory, the lowest byte first.
-/

namespace DasEdge.Library

/-- The bytes of a 32-bit number. -/
def uint32Bytes (n : UInt32) : List UInt8 :=
  [n.toUInt8, (n >>> 8).toUInt8, (n >>> 16).toUInt8, (n >>> 24).toUInt8]

/-- The bytes of a 16-bit number. -/
def uint16Bytes (n : UInt16) : List UInt8 := [n.toUInt8, (n >>> 8).toUInt8]

/-- The 32-bit number at a place. -/
def readUInt32 (memory : ℕ → UInt8) (pos : ℕ) : UInt32 :=
  (memory pos).toUInt32 + (memory (pos + 1)).toUInt32 * 0x100 + (memory (pos + 2)).toUInt32 * 0x10000 +
    (memory (pos + 3)).toUInt32 * 0x1000000

/-- A 32-bit number is made of its bytes. -/
theorem uint32Bytes_toNat (n : UInt32) :
    n.toNat = n.toUInt8.toNat + (n >>> 8).toUInt8.toNat * 0x100 + (n >>> 16).toUInt8.toNat * 0x10000 +
      (n >>> 24).toUInt8.toNat * 0x1000000 := by
  have := n.toNat_lt
  simp [Nat.shiftRight_eq_div_pow]
  omega

/-- A number that is read is made of the bytes in memory. -/
theorem readUInt32_toNat (memory : ℕ → UInt8) (pos : ℕ) :
    (readUInt32 memory pos).toNat = (memory pos).toNat + (memory (pos + 1)).toNat * 0x100 +
      (memory (pos + 2)).toNat * 0x10000 + (memory (pos + 3)).toNat * 0x1000000 := by
  have h0 := (memory pos).toNat_lt
  have h1 := (memory (pos + 1)).toNat_lt
  have h2 := (memory (pos + 2)).toNat_lt
  have h3 := (memory (pos + 3)).toNat_lt
  simp [readUInt32]
  omega

/-- A number is read where its bytes are. -/
theorem readUInt32_eq_iff (memory : ℕ → UInt8) (pos : ℕ) (n : UInt32) :
    readUInt32 memory pos = n ↔ ShowsAt memory pos (uint32Bytes n) := by
  have hread := readUInt32_toNat memory pos
  have hbytes := uint32Bytes_toNat n
  have hall : ShowsAt memory pos (uint32Bytes n) ↔
      memory pos = n.toUInt8 ∧ memory (pos + 1) = (n >>> 8).toUInt8 ∧
      memory (pos + 2) = (n >>> 16).toUInt8 ∧
        memory (pos + 3) = (n >>> 24).toUInt8 := by
    have hlength : (uint32Bytes n).length = 4 := rfl
    refine ⟨fun h => ⟨h 0 (by omega), h 1 (by omega), h 2 (by omega), h 3 (by omega)⟩, ?_⟩
    rintro ⟨h0, h1, h2, h3⟩ i hi
    match i, hi with
    | 0, _ => exact h0
    | 1, _ => exact h1
    | 2, _ => exact h2
    | 3, _ => exact h3
  rw [hall]
  constructor
  · rintro rfl
    have h0 := (memory pos).toNat_lt
    have h1 := (memory (pos + 1)).toNat_lt
    have h2 := (memory (pos + 2)).toNat_lt
    have h3 := (memory (pos + 3)).toNat_lt
    have h4 := (readUInt32 memory pos).toUInt8.toNat_lt
    have h5 := (readUInt32 memory pos >>> 8).toUInt8.toNat_lt
    have h6 := (readUInt32 memory pos >>> 16).toUInt8.toNat_lt
    have h7 := (readUInt32 memory pos >>> 24).toUInt8.toNat_lt
    refine ⟨UInt8.toNat.inj ?_, UInt8.toNat.inj ?_, UInt8.toNat.inj ?_, UInt8.toNat.inj ?_⟩
    all_goals omega
  · rintro ⟨h0, h1, h2, h3⟩
    rw [h0, h1, h2, h3, ← hbytes] at hread
    exact UInt32.toNat.inj hread

/-- A 16-bit number is read where its bytes are. -/
theorem uint16_eq_iff (memory : ℕ → UInt8) (pos : ℕ) (n : UInt16) :
    (memory pos).toUInt16 + (memory (pos + 1)).toUInt16 * 0x100 = n ↔
      ShowsAt memory pos (uint16Bytes n) := by
  have h0 := (memory pos).toNat_lt
  have h1 := (memory (pos + 1)).toNat_lt
  have hlt := n.toNat_lt
  constructor
  · rintro rfl i hi
    refine UInt8.toNat.inj ?_
    match i, hi with
    | 0, _ =>
      simp [uint16Bytes]
    | 1, _ =>
      simp [uint16Bytes, Nat.shiftRight_eq_div_pow]
      omega
  · intro h
    have hlow : memory pos = n.toUInt8 := h 0 Nat.zero_lt_two
    have hhigh : memory (pos + 1) = (n >>> 8).toUInt8 := h 1 Nat.one_lt_two
    refine UInt16.toNat.inj ?_
    rw [hlow, hhigh]
    simp [Nat.shiftRight_eq_div_pow]
    omega

end DasEdge.Library
