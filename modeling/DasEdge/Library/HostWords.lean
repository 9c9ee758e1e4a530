import DasEdge.Library.NetworkBytes
import DasEdge.Library.WordBytes
import Mathlib.Data.UInt

/-!
# Words in host order

Words of 16 and 32 bits as they are copied out of memory, the lowest byte first, and the exchange of
their bytes. A word that lies in memory in network order is read by a copy and an exchange.
-/

namespace DasEdge.Library

/-- The 16-bit number at a place. -/
def readUInt16 (memory : ℕ → UInt8) (pos : ℕ) : UInt16 :=
  (memory pos).toUInt16 + (memory (pos + 1)).toUInt16 * 0x100

/-- `htons` -/
def htons (n : UInt16) : UInt16 := n % 0x100 * 0x100 + n / 0x100

/-- `htonl` -/
def htonl (n : UInt32) : UInt32 :=
  n % 0x100 * 0x1000000 + n / 0x100 % 0x100 * 0x10000 + n / 0x10000 % 0x100 * 0x100 + n / 0x1000000

/-- A number that is read is made of the bytes in memory. -/
theorem readUInt16_toNat (memory : ℕ → UInt8) (pos : ℕ) :
    (readUInt16 memory pos).toNat = (memory pos).toNat + (memory (pos + 1)).toNat * 0x100 := by
  have h0 := (memory pos).toNat_lt
  have h1 := (memory (pos + 1)).toNat_lt
  simp [readUInt16]
  omega

/-- A copied word with its bytes exchanged is the number in network order. -/
theorem htons_readUInt16 (memory : ℕ → UInt8) (pos : ℕ) :
    (htons (readUInt16 memory pos)).toNat = readNetwork memory pos 2 := by
  have h0 := (memory pos).toNat_lt
  have h1 := (memory (pos + 1)).toNat_lt
  have hread := readUInt16_toNat memory pos
  have hlow : (readUInt16 memory pos).toNat % 256 = (memory pos).toNat := by omega
  have hhigh : (readUInt16 memory pos).toNat / 256 = (memory (pos + 1)).toNat := by omega
  simp [htons, hlow, hhigh, readNetwork]
  omega

/-- The same of four bytes. -/
theorem htonl_readUInt32 (memory : ℕ → UInt8) (pos : ℕ) :
    (htonl (readUInt32 memory pos)).toNat = readNetwork memory pos 4 := by
  have h0 := (memory pos).toNat_lt
  have h1 := (memory (pos + 1)).toNat_lt
  have h2 := (memory (pos + 2)).toNat_lt
  have h3 := (memory (pos + 3)).toNat_lt
  have hread := readUInt32_toNat memory pos
  have hb0 : (readUInt32 memory pos).toNat % 256 = (memory pos).toNat := by omega
  have hb1 : (readUInt32 memory pos).toNat / 256 % 256 = (memory (pos + 1)).toNat := by omega
  have hb2 : (readUInt32 memory pos).toNat / 65536 % 256 = (memory (pos + 2)).toNat := by omega
  have hb3 : (readUInt32 memory pos).toNat / 16777216 = (memory (pos + 3)).toNat := by omega
  simp [htonl, hb0, hb1, hb2, hb3, readNetwork, Nat.add_assoc]
  omega

end DasEdge.Library
