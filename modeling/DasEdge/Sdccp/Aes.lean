import DasEdge.Sdccp.Bjdc
import DasEdge.Sdccp.Dm101Aes
import Mathlib.Data.List.GetD

/-!
# The cipher on a block

`aes.c` and `dm_aes.c` are one text under two names, the one for the BJDC frames and the other for
DM101. The key has 128 bits, so that the branch of `AES_Init` for longer keys is never compiled. A
state is kept column by column.
-/

namespace DasEdge.Sdccp

open DasEdge.Library

/-- The state, which is written over. -/
abbrev AesState := Vector UInt8 16

/-- `Nr` -/
def aesNr : ℕ := 10

/-- `SBox` -/
def aesSBox : List UInt8 :=
  [0x63, 0x7c, 0x77, 0x7b, 0xf2, 0x6b, 0x6f, 0xc5, 0x30, 0x01, 0x67, 0x2b, 0xfe, 0xd7, 0xab, 0x76,
    0xca, 0x82, 0xc9, 0x7d, 0xfa, 0x59, 0x47, 0xf0, 0xad, 0xd4, 0xa2, 0xaf, 0x9c, 0xa4, 0x72, 0xc0,
    0xb7, 0xfd, 0x93, 0x26, 0x36, 0x3f, 0xf7, 0xcc, 0x34, 0xa5, 0xe5, 0xf1, 0x71, 0xd8, 0x31, 0x15,
    0x04, 0xc7, 0x23, 0xc3, 0x18, 0x96, 0x05, 0x9a, 0x07, 0x12, 0x80, 0xe2, 0xeb, 0x27, 0xb2, 0x75,
    0x09, 0x83, 0x2c, 0x1a, 0x1b, 0x6e, 0x5a, 0xa0, 0x52, 0x3b, 0xd6, 0xb3, 0x29, 0xe3, 0x2f, 0x84,
    0x53, 0xd1, 0x00, 0xed, 0x20, 0xfc, 0xb1, 0x5b, 0x6a, 0xcb, 0xbe, 0x39, 0x4a, 0x4c, 0x58, 0xcf,
    0xd0, 0xef, 0xaa, 0xfb, 0x43, 0x4d, 0x33, 0x85, 0x45, 0xf9, 0x02, 0x7f, 0x50, 0x3c, 0x9f, 0xa8,
    0x51, 0xa3, 0x40, 0x8f, 0x92, 0x9d, 0x38, 0xf5, 0xbc, 0xb6, 0xda, 0x21, 0x10, 0xff, 0xf3, 0xd2,
    0xcd, 0x0c, 0x13, 0xec, 0x5f, 0x97, 0x44, 0x17, 0xc4, 0xa7, 0x7e, 0x3d, 0x64, 0x5d, 0x19, 0x73,
    0x60, 0x81, 0x4f, 0xdc, 0x22, 0x2a, 0x90, 0x88, 0x46, 0xee, 0xb8, 0x14, 0xde, 0x5e, 0x0b, 0xdb,
    0xe0, 0x32, 0x3a, 0x0a, 0x49, 0x06, 0x24, 0x5c, 0xc2, 0xd3, 0xac, 0x62, 0x91, 0x95, 0xe4, 0x79,
    0xe7, 0xc8, 0x37, 0x6d, 0x8d, 0xd5, 0x4e, 0xa9, 0x6c, 0x56, 0xf4, 0xea, 0x65, 0x7a, 0xae, 0x08,
    0xba, 0x78, 0x25, 0x2e, 0x1c, 0xa6, 0xb4, 0xc6, 0xe8, 0xdd, 0x74, 0x1f, 0x4b, 0xbd, 0x8b, 0x8a,
    0x70, 0x3e, 0xb5, 0x66, 0x48, 0x03, 0xf6, 0x0e, 0x61, 0x35, 0x57, 0xb9, 0x86, 0xc1, 0x1d, 0x9e,
    0xe1, 0xf8, 0x98, 0x11, 0x69, 0xd9, 0x8e, 0x94, 0x9b, 0x1e, 0x87, 0xe9, 0xce, 0x55, 0x28, 0xdf,
    0x8c, 0xa1, 0x89, 0x0d, 0xbf, 0xe6, 0x42, 0x68, 0x41, 0x99, 0x2d, 0x0f, 0xb0, 0x54, 0xbb, 0x16]

/-- `InvSBox` -/
def aesInvSBox : List UInt8 :=
  [0x52, 0x09, 0x6a, 0xd5, 0x30, 0x36, 0xa5, 0x38, 0xbf, 0x40, 0xa3, 0x9e, 0x81, 0xf3, 0xd7, 0xfb,
    0x7c, 0xe3, 0x39, 0x82, 0x9b, 0x2f, 0xff, 0x87, 0x34, 0x8e, 0x43, 0x44, 0xc4, 0xde, 0xe9, 0xcb,
    0x54, 0x7b, 0x94, 0x32, 0xa6, 0xc2, 0x23, 0x3d, 0xee, 0x4c, 0x95, 0x0b, 0x42, 0xfa, 0xc3, 0x4e,
    0x08, 0x2e, 0xa1, 0x66, 0x28, 0xd9, 0x24, 0xb2, 0x76, 0x5b, 0xa2, 0x49, 0x6d, 0x8b, 0xd1, 0x25,
    0x72, 0xf8, 0xf6, 0x64, 0x86, 0x68, 0x98, 0x16, 0xd4, 0xa4, 0x5c, 0xcc, 0x5d, 0x65, 0xb6, 0x92,
    0x6c, 0x70, 0x48, 0x50, 0xfd, 0xed, 0xb9, 0xda, 0x5e, 0x15, 0x46, 0x57, 0xa7, 0x8d, 0x9d, 0x84,
    0x90, 0xd8, 0xab, 0x00, 0x8c, 0xbc, 0xd3, 0x0a, 0xf7, 0xe4, 0x58, 0x05, 0xb8, 0xb3, 0x45, 0x06,
    0xd0, 0x2c, 0x1e, 0x8f, 0xca, 0x3f, 0x0f, 0x02, 0xc1, 0xaf, 0xbd, 0x03, 0x01, 0x13, 0x8a, 0x6b,
    0x3a, 0x91, 0x11, 0x41, 0x4f, 0x67, 0xdc, 0xea, 0x97, 0xf2, 0xcf, 0xce, 0xf0, 0xb4, 0xe6, 0x73,
    0x96, 0xac, 0x74, 0x22, 0xe7, 0xad, 0x35, 0x85, 0xe2, 0xf9, 0x37, 0xe8, 0x1c, 0x75, 0xdf, 0x6e,
    0x47, 0xf1, 0x1a, 0x71, 0x1d, 0x29, 0xc5, 0x89, 0x6f, 0xb7, 0x62, 0x0e, 0xaa, 0x18, 0xbe, 0x1b,
    0xfc, 0x56, 0x3e, 0x4b, 0xc6, 0xd2, 0x79, 0x20, 0x9a, 0xdb, 0xc0, 0xfe, 0x78, 0xcd, 0x5a, 0xf4,
    0x1f, 0xdd, 0xa8, 0x33, 0x88, 0x07, 0xc7, 0x31, 0xb1, 0x12, 0x10, 0x59, 0x27, 0x80, 0xec, 0x5f,
    0x60, 0x51, 0x7f, 0xa9, 0x19, 0xb5, 0x4a, 0x0d, 0x2d, 0xe5, 0x7a, 0x9f, 0x93, 0xc9, 0x9c, 0xef,
    0xa0, 0xe0, 0x3b, 0x4d, 0xae, 0x2a, 0xf5, 0xb0, 0xc8, 0xeb, 0xbb, 0x3c, 0x83, 0x53, 0x99, 0x61,
    0x17, 0x2b, 0x04, 0x7e, 0xba, 0x77, 0xd6, 0x26, 0xe1, 0x69, 0x14, 0x63, 0x55, 0x21, 0x0c, 0x7d]

/-- `GfMultBy02` -/
def gfMultBy02 (num : UInt8) : UInt8 :=
  if num &&& 0x80 = 0 then num <<< 1 else (num <<< 1) ^^^ 0x1B

/-- `SubBytes` on a byte. -/
def subByte (bInvert : Bool) (byte : UInt8) : UInt8 :=
  (if bInvert then aesInvSBox else aesSBox).getD byte.toNat 0

/-- `SubBytes` -/
def subBytes (bInvert : Bool) (pState : AesState) : AesState := pState.map (subByte bInvert)

/-- `ShiftRows`; in the first row no byte is moved. -/
def shiftRows (bInvert : Bool) (pState : AesState) : AesState :=
  Vector.ofFn fun i =>
    let r := i.val % 4
    let temp := if bInvert then 4 - r else r
    pState[r + 4 * ((i.val / 4 + temp) % 4)]

/-- The rows of a column are numbered from zero on. -/
local instance (priority := 1100) neZeroRows : NeZero 4 := ⟨by decide⟩

/-- A column in `MixColumns`. -/
def mixColumn (bInvert : Bool) (pState : Fin 4 → UInt8) (r : Fin 4) : UInt8 :=
  let temp := pState 0 ^^^ pState 1 ^^^ pState 2 ^^^ pState 3
  let result := temp ^^^ pState r ^^^ gfMultBy02 (pState r ^^^ pState (r + 1))
  if bInvert then
    let a0Pa2_M4 := gfMultBy02 (gfMultBy02 (pState 0 ^^^ pState 2))
    let a1Pa3_M4 := gfMultBy02 (gfMultBy02 (pState 1 ^^^ pState 3))
    let temp := gfMultBy02 (a0Pa2_M4 ^^^ a1Pa3_M4)
    result ^^^ (temp ^^^ if r = 0 ∨ r = 2 then a0Pa2_M4 else a1Pa3_M4)
  else result

/-- `MixColumns` -/
def mixColumns (bInvert : Bool) (pState : AesState) : AesState :=
  Vector.ofFn fun i =>
    mixColumn bInvert (fun r => pState[4 * (i.val / 4) + r.val])
      ⟨i.val % 4, Nat.mod_lt _ (by decide)⟩

/-- `AddRoundKey` with the round key at a place of the table. -/
def addRoundKey (table : List UInt8) (i : ℕ) (pState : AesState) : AesState :=
  Vector.ofFn fun j => pState[j] ^^^ table.getD (16 * i + j.val) 0

/-- A round of `BlockEncrypt`. -/
def encryptRound (table : List UInt8) (pState : AesState) (i : ℕ) : AesState :=
  let pState := shiftRows false (subBytes false pState)
  addRoundKey table i (if i ≠ aesNr then mixColumns false pState else pState)

/-- `BlockEncrypt` -/
def blockEncrypt (table : List UInt8) (pState : AesState) : AesState :=
  (List.range' 1 aesNr).foldl (encryptRound table) (addRoundKey table 0 pState)

/-- A round of `BlockDecrypt`. -/
def decryptRound (table : List UInt8) (i : ℕ) (pState : AesState) : AesState :=
  let pState := addRoundKey table (i - 1) (subBytes true (shiftRows true pState))
  if i ≠ 1 then mixColumns true pState else pState

/-- `BlockDecrypt`, which counts down. -/
def blockDecrypt (table : List UInt8) (pState : AesState) : AesState :=
  (List.range' 1 aesNr).foldr (decryptRound table) (addRoundKey table aesNr pState)

/-- A word more in `AES_Init`: the table with the byte of `Rcon` that is not zero. -/
def aesInitWord (s : List UInt8 × UInt8) (i : ℕ) : List UInt8 × UInt8 :=
  let pRoundKey := s.1.drop (4 * (i - 1))
  let before := (s.1.drop (4 * (i - 4))).take 4
  if i % 4 = 0 then
    let rotated := (pRoundKey.rotate 1).map (subByte false)
    (s.1 ++ List.zipWith (· ^^^ ·) (List.zipWith (· ^^^ ·) rotated [s.2, 0, 0, 0]) before,
      gfMultBy02 s.2)
  else (s.1 ++ List.zipWith (· ^^^ ·) pRoundKey before, s.2)

/-- `AES_Init`: the table of the round keys. -/
def aesInit (pKey : List UInt8) : List UInt8 :=
  ((List.range' 4 (4 * (aesNr + 1) - 4)).foldl aesInitWord (pKey, 1)).1

section Inverse

variable (x y z : UInt8)

/-- Terms of a sum in another order. -/
theorem xor_xor_comm : x ^^^ (y ^^^ z) = y ^^^ (x ^^^ z) := by
  rw [← UInt8.xor_assoc, UInt8.xor_comm x y, UInt8.xor_assoc]

/-- A term that is added twice is gone. -/
theorem xor_xor_self : x ^^^ (x ^^^ y) = y := by
  rw [← UInt8.xor_assoc, UInt8.xor_self, UInt8.zero_xor]

/-- Whether the highest bit of a byte is set. -/
theorem and_128_eq : x &&& 0x80 = 0 ∨ x &&& 0x80 = 0x80 := by
  have hall : ∀ n < 256, UInt8.ofNat n &&& 0x80 = 0 ∨ UInt8.ofNat n &&& 0x80 = 0x80 := by
    decide +kernel
  have hx := hall x.toNat x.toNat_lt
  rwa [UInt8.ofNat_toNat] at hx

/-- Doubling is additive. -/
theorem gfMultBy02_xor : gfMultBy02 (x ^^^ y) = gfMultBy02 x ^^^ gfMultBy02 y := by
  have hshift : (x ^^^ y) <<< 1 = x <<< 1 ^^^ y <<< 1 := UInt8.shiftLeft_xor
  have hand : (x ^^^ y) &&& 0x80 = (x &&& 0x80) ^^^ (y &&& 0x80) := by
    rw [← UInt8.toBitVec_inj]
    ext i
    simp [Bool.and_xor_distrib_right]
  have hne : ¬ (0x80 : UInt8) = 0 := by decide
  unfold gfMultBy02
  rw [hshift, hand]
  rcases and_128_eq x with hx | hx <;> rcases and_128_eq y with hy | hy <;> rw [hx, hy]
  · rfl
  · exact UInt8.xor_assoc _ _ _
  · rw [UInt8.xor_zero, if_neg hne, if_neg hne, if_pos rfl, UInt8.xor_assoc, UInt8.xor_assoc,
      UInt8.xor_comm _ (0x1B : UInt8)]
  · rw [UInt8.xor_self, if_pos rfl, if_neg hne, if_neg hne, UInt8.xor_assoc,
      UInt8.xor_comm (y <<< 1), xor_xor_self]

/-- The second table gives the places of the bytes in the first one. -/
theorem aesSBox_map : aesSBox.map (subByte true) = (List.range 256).map UInt8.ofNat := by
  decide +kernel

/-- The bytes of the two tables are exchanged. -/
theorem subByte_subByte : subByte true (subByte false x) = x := by
  have hplace : (aesSBox.map (subByte true))[x.toNat]? = some x := by
    rw [aesSBox_map, List.getElem?_map, List.getElem?_range x.toNat_lt, Option.map_some,
      UInt8.ofNat_toNat]
  rw [List.getElem?_map] at hplace
  obtain ⟨byte, hbyte, hback⟩ := Option.map_eq_some_iff.mp hplace
  have hfirst : subByte false x = byte := by
    rw [subByte, if_neg Bool.false_ne_true, List.getD_eq_getElem?_getD, hbyte, Option.getD_some]
  rw [hfirst, hback]

/-- The sum of a column. -/
def columnSum (pState : Fin 4 → UInt8) : UInt8 := pState 0 ^^^ pState 1 ^^^ pState 2 ^^^ pState 3

/-- A mixed byte. -/
theorem mixColumn_false (pState : Fin 4 → UInt8) (r : Fin 4) :
    mixColumn false pState r =
      columnSum pState ^^^ (pState r ^^^ gfMultBy02 (pState r ^^^ pState (r + 1))) :=
  UInt8.xor_assoc _ _ _

/-- Two bytes of a mixed column. -/
theorem mixColumn_xor (pState : Fin 4 → UInt8) (i j : Fin 4) :
    mixColumn false pState i ^^^ mixColumn false pState j =
      (pState i ^^^ pState j) ^^^
        gfMultBy02 ((pState i ^^^ pState (i + 1)) ^^^ (pState j ^^^ pState (j + 1))) := by
  rw [mixColumn_false, mixColumn_false, gfMultBy02_xor (pState i ^^^ _)]
  generalize gfMultBy02 (pState i ^^^ pState (i + 1)) = u
  generalize gfMultBy02 (pState j ^^^ pState (j + 1)) = v
  simp only [UInt8.xor_assoc, xor_xor_comm _ (columnSum pState), xor_xor_self]
  rw [xor_xor_comm u]

/-- The sum of a column, from any of its bytes on. -/
theorem columnSum_eq (pState : Fin 4 → UInt8) (r : Fin 4) :
    columnSum pState = (pState r ^^^ pState (r + 2)) ^^^ (pState (r + 1) ^^^ pState (r + 3)) := by
  obtain rfl | rfl | rfl | rfl : r = 0 ∨ r = 1 ∨ r = 2 ∨ r = 3 := by revert r; decide
  all_goals simp [columnSum, UInt8.xor_assoc, UInt8.xor_comm, xor_xor_comm]

/-- The bytes across in a mixed column. -/
theorem mixColumn_across (pState : Fin 4 → UInt8) (r : Fin 4) :
    mixColumn false pState r ^^^ mixColumn false pState (r + 2) =
      (pState r ^^^ pState (r + 2)) ^^^ gfMultBy02 (columnSum pState) := by
  have hthree : r + 2 + 1 = r + 3 := by revert r; decide
  rw [mixColumn_xor, hthree, columnSum_eq pState r]
  congr 2
  simp only [UInt8.xor_assoc, xor_xor_comm (pState (r + 1))]

/-- Mixing keeps the sum of a column. -/
theorem columnSum_mixColumn (pState : Fin 4 → UInt8) :
    columnSum (mixColumn false pState) = columnSum pState := by
  have hodd := mixColumn_across pState 1
  rw [columnSum_eq (mixColumn false pState) 0, mixColumn_across]
  refine (congrArg _ hodd).trans ?_
  generalize gfMultBy02 (columnSum pState) = u
  rw [columnSum_eq pState 0, UInt8.xor_assoc, xor_xor_comm u, UInt8.xor_self, UInt8.xor_zero]
  rfl

/-- What the inverse adds to a mixed byte. -/
theorem mixColumn_true (pState : Fin 4 → UInt8) (r : Fin 4) :
    mixColumn true pState r = mixColumn false pState r ^^^
      (gfMultBy02 (gfMultBy02 (gfMultBy02 (columnSum pState))) ^^^
        gfMultBy02 (gfMultBy02 (pState r ^^^ pState (r + 2)))) := by
  have hsum : gfMultBy02 (gfMultBy02 (gfMultBy02 (columnSum pState))) =
      gfMultBy02 (gfMultBy02 (gfMultBy02 (pState 0 ^^^ pState 2)) ^^^
        gfMultBy02 (gfMultBy02 (pState 1 ^^^ pState 3))) := by
    rw [columnSum_eq pState 0, gfMultBy02_xor (pState 0 ^^^ _), gfMultBy02_xor (gfMultBy02 _)]
    rfl
  rw [hsum]
  obtain rfl | rfl | rfl | rfl : r = 0 ∨ r = 1 ∨ r = 2 ∨ r = 3 := by revert r; decide
  · rfl
  · rfl
  · rw [show (2 : Fin 4) + 2 = 0 from rfl, UInt8.xor_comm (pState 2)]
    rfl
  · rw [show (3 : Fin 4) + 2 = 1 from rfl, UInt8.xor_comm (pState 3)]
    rfl

/-- A column is mixed by a matrix over the bytes, and the other matrix is its inverse. -/
theorem mixColumn_mixColumn (pState : Fin 4 → UInt8) (r : Fin 4) :
    mixColumn true (mixColumn false pState) r = pState r := by
  have htwo : r + 1 + 1 = r + 2 := by revert r; decide
  have hnext : (pState r ^^^ pState (r + 1)) ^^^ (pState (r + 1) ^^^ pState (r + 2)) =
      pState r ^^^ pState (r + 2) := by rw [UInt8.xor_assoc, xor_xor_self]
  rw [mixColumn_true, mixColumn_false, columnSum_mixColumn, mixColumn_xor, mixColumn_across,
    mixColumn_false, htwo, hnext, gfMultBy02_xor (pState r ^^^ pState (r + 1)),
    gfMultBy02_xor (pState r ^^^ pState (r + 2)), gfMultBy02_xor (gfMultBy02 (pState r ^^^ _))]
  generalize columnSum pState = t
  generalize gfMultBy02 (gfMultBy02 (gfMultBy02 t)) = u
  generalize gfMultBy02 (gfMultBy02 (pState r ^^^ pState (r + 2))) = v
  generalize gfMultBy02 (pState r ^^^ pState (r + 1)) = w
  simp only [UInt8.xor_assoc, xor_xor_self]
  simp [UInt8.xor_comm v, xor_xor_self]

/-- The rows go back. -/
theorem shiftRows_shiftRows (pState : AesState) : shiftRows true (shiftRows false pState) = pState := by
  refine Vector.ext fun i hi => ?_
  simp only [shiftRows, Vector.getElem_ofFn, Bool.false_eq_true, ↓reduceIte]
  congr 1
  omega

/-- The bytes go back. -/
theorem subBytes_subBytes (pState : AesState) : subBytes true (subBytes false pState) = pState := by
  refine Vector.ext fun i hi => ?_
  rw [subBytes, subBytes, Vector.getElem_map, Vector.getElem_map, subByte_subByte]

/-- The columns go back. -/
theorem mixColumns_mixColumns (pState : AesState) :
    mixColumns true (mixColumns false pState) = pState := by
  refine Vector.ext fun i hi => ?_
  have hcolumn : (fun r : Fin 4 => (mixColumns false pState)[4 * (i / 4) + r.val]) =
      mixColumn false fun r => pState[4 * (i / 4) + r.val] := by
    funext r
    have hr := r.isLt
    have hdiv : (4 * (i / 4) + r.val) / 4 = i / 4 := by omega
    have hmod : (4 * (i / 4) + r.val) % 4 = r.val := by omega
    simp only [mixColumns, Vector.getElem_ofFn, hdiv, hmod]
  have hplace : 4 * (i / 4) + i % 4 = i := by omega
  rw [mixColumns, Vector.getElem_ofFn]
  refine (congrFun (congrArg _ hcolumn) _).trans ((mixColumn_mixColumn _ _).trans ?_)
  simp only [hplace]

/-- A round key that is added twice is gone. -/
theorem addRoundKey_addRoundKey (table : List UInt8) (i : ℕ) (pState : AesState) :
    addRoundKey table i (addRoundKey table i pState) = pState := by
  refine Vector.ext fun j hj => ?_
  simp [addRoundKey, UInt8.xor_assoc]

/-- The state that a round of decryption takes up, behind a number of rounds of encryption. -/
def takenUp (table : List UInt8) (n : ℕ) (pState : AesState) : AesState :=
  let pState := addRoundKey table n pState
  if n = 0 ∨ n = aesNr then pState else mixColumns true pState

/-- A round of decryption goes back to where the round before is taken up. -/
theorem decryptRound_takenUp (table : List UInt8) {n : ℕ} (hn : n < aesNr) (pState : AesState) :
    decryptRound table (n + 1) (takenUp table (n + 1) (encryptRound table pState (n + 1))) =
      takenUp table n pState := by
  have hshifted : takenUp table (n + 1) (encryptRound table pState (n + 1)) =
      shiftRows false (subBytes false pState) := by
    rw [takenUp, encryptRound, addRoundKey_addRoundKey]
    by_cases hlast : n + 1 = aesNr
    · rw [if_pos (.inr hlast), if_neg (not_not.mpr hlast)]
    · rw [if_neg (by omega), if_pos hlast, mixColumns_mixColumns]
  rw [hshifted, decryptRound, shiftRows_shiftRows, subBytes_subBytes, Nat.add_sub_cancel, takenUp]
  by_cases hzero : n = 0
  · rw [if_neg (by omega), if_pos (.inl hzero)]
  · rw [if_pos (by omega), if_neg (by omega)]

/-- The rounds of decryption undo those of encryption. -/
theorem decryptRounds_encryptRounds (table : List UInt8) {n : ℕ} (hn : n ≤ aesNr)
    (pState : AesState) :
    (List.range' 1 n).foldr (decryptRound table) (takenUp table n
      ((List.range' 1 n).foldl (encryptRound table) (addRoundKey table 0 pState))) = pState := by
  induction n with
  | zero => exact addRoundKey_addRoundKey table 0 pState
  | succ n ih =>
    have hround : (List.range' 1 (n + 1)) = List.range' 1 n ++ [n + 1] := by
      rw [List.range'_1_concat, Nat.add_comm 1]
    rw [hround, List.foldl_append, List.foldr_append, List.foldl_cons, List.foldl_nil, List.foldr_cons,
      List.foldr_nil, decryptRound_takenUp table hn]
    exact ih (Nat.le_of_lt hn)

/-- Whatever the round keys are, a block is decrypted to what was encrypted. -/
theorem blockDecrypt_blockEncrypt (table : List UInt8) (pState : AesState) :
    blockDecrypt table (blockEncrypt table pState) = pState :=
  decryptRounds_encryptRounds table (Nat.le_refl aesNr) pState

example : blockEncrypt (aesInit ((List.range 16).map (·.toUInt8)))
    (Vector.ofFn fun i => (i.val * 0x11).toUInt8) =
      Vector.ofFn fun i => [0x69, 0xC4, 0xE0, 0xD8, 0x6A, 0x7B, 0x04, 0x30, 0xD8, 0xCD, 0xB7, 0x80,
        0x70, 0xB4, 0xC5, 0x5A].getD i.val 0 := by decide +kernel

end Inverse

section InPlace

/-- The cipher of `dm_aes.c` with the round keys that `DM_AES_Init` makes of a key. -/
def dmAesCrypto (md5 : List UInt8 → AesBlock) : Dm101Crypto where
  blockEncrypt key block := fun i => (blockEncrypt (aesInit (List.ofFn key)) (Vector.ofFn block))[i]
  blockDecrypt key block := fun i => (blockDecrypt (aesInit (List.ofFn key)) (Vector.ofFn block))[i]
  md5 := md5

/-- The cipher of `dm_aes.c` decrypts what it encrypts. -/
theorem dmAesCrypto_inverts (md5 : List UInt8 → AesBlock) : (dmAesCrypto md5).Inverts := by
  intro key block
  funext i
  have hstate (pState : AesState) : (Vector.ofFn fun i : Fin 16 => pState[i]) = pState :=
    Vector.ext fun i hi => by rw [Vector.getElem_ofFn]; rfl
  simp only [dmAesCrypto, hstate, blockDecrypt_blockEncrypt]
  exact Vector.getElem_ofFn i.isLt

/-- The bytes of a buffer, and null bytes behind it. -/
def bufferBytes (data : List UInt8) : ℕ → UInt8 := fun i => data.getD i 0

/-- `AES_Encrypt` and `AES_Decrypt` of `aes.c` on a buffer in place, with the round keys that
`AES_Init` makes of a key; no digest is used. -/
def aesInPlace (pKey pIV : AesBlock) : Aes where
  encrypt data := (List.range data.length).map
    (dmAesEncryptFrom (dmAesCrypto fun _ _ => 0) pKey (data.length / 16) (bufferBytes data) 0 pIV)
  decrypt data := (List.range data.length).map
    (dmAesDecryptFrom (dmAesCrypto fun _ _ => 0) pKey pIV (data.length / 16) (bufferBytes data)
      (data.length - 16))
  encrypt_length data := by rw [List.length_map, List.length_range]
  decrypt_length data := by rw [List.length_map, List.length_range]

/-- A buffer of whole blocks that is encrypted in place is decrypted in place, from its last block on,
under every key and from every initialisation vector. -/
theorem aesInPlace_inverts (pKey pIV : AesBlock) : (aesInPlace pKey pIV).Inverts := by
  intro data hblocks
  obtain ⟨n, hn⟩ := hblocks
  have hdiv : data.length / 16 = n := by omega
  have hstart : data.length - 16 = 0 + 16 * n - 16 := by omega
  let crypto := dmAesCrypto fun _ _ => 0
  let encrypted := (aesInPlace pKey pIV).encrypt data
  have hlength : encrypted.length = data.length := (aesInPlace pKey pIV).encrypt_length data
  have hencrypted : aesBlocks (bufferBytes encrypted) 0 n =
      cbcEncrypt (crypto.blockEncrypt pKey) xorBytes pIV (aesBlocks (bufferBytes data) 0 n) := by
    rw [← (dmAesEncryptFrom_blocks crypto pKey n (bufferBytes data) 0 pIV).1]
    refine aesBlocks_eq_iff.mpr fun i hi => ?_
    have hi' : 0 + i < encrypted.length := by omega
    rw [bufferBytes, List.getD_eq_getElem _ _ hi']
    simp only [encrypted, aesInPlace, List.getElem_map, List.getElem_range, hdiv, crypto]
  have hxor (x v : AesBlock) : xorBytes (xorBytes x v) v = x := by
    funext i
    rw [xorBytes, xorBytes, UInt8.xor_assoc, UInt8.xor_self, UInt8.xor_zero]
  have hdecrypted : ∀ i < 16 * n,
      dmAesDecryptFrom crypto pKey pIV n (bufferBytes encrypted) (0 + 16 * n - 16) (0 + i) =
        bufferBytes data (0 + i) := by
    refine aesBlocks_eq_iff.mp ?_
    rw [(dmAesDecryptFrom_blocks crypto pKey pIV n (bufferBytes encrypted) 0).1, hencrypted]
    exact cbcDecrypt_cbcEncrypt (dmAesCrypto_inverts _ pKey) hxor pIV _
  refine List.ext_getElem (((aesInPlace pKey pIV).decrypt_length _).trans hlength) fun i hi hi' => ?_
  have hbyte := hdecrypted i (by omega)
  have hdata : bufferBytes data i = data[i] := List.getD_eq_getElem _ _ hi'
  rw [Nat.zero_add i, hdata] at hbyte
  have hread : ((aesInPlace pKey pIV).decrypt encrypted)[i] =
      dmAesDecryptFrom crypto pKey pIV (encrypted.length / 16) (bufferBytes encrypted)
        (encrypted.length - 16) i := by
    simp only [aesInPlace, List.getElem_map, List.getElem_range, crypto]
  rw [hlength, hdiv, hstart, hbyte] at hread
  exact hread

end InPlace

end DasEdge.Sdccp
