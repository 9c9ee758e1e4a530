import DasEdge.Library.CbcMode
import DasEdge.Library.NetworkBytes

/-!
# Encryption in DM101

`dm_aes.c` encrypts and decrypts a buffer in place, block by block, and `PKCS7_EnPadding` fills it
up before. The cipher on a single block, with the keys that `DM_AES_Init` makes of a key, is a
parameter, and so is the digest that the key is made with. Both loops together are cipher block
chaining. A `char` has no sign on the machine.
-/

namespace DasEdge.Sdccp

open DasEdge.Library

/-- A block of 16 bytes. -/
abbrev AesBlock := Fin 16 → UInt8

/-- `BlockEncrypt` and `BlockDecrypt` under a key, and the digest of `dm_md5.c`. -/
structure Dm101Crypto where
  blockEncrypt : AesBlock → AesBlock → AesBlock
  blockDecrypt : AesBlock → AesBlock → AesBlock
  md5 : List UInt8 → AesBlock

/-- A block that is encrypted under a key is decrypted under this key. -/
def Dm101Crypto.Inverts (crypto : Dm101Crypto) : Prop :=
  ∀ key block, crypto.blockDecrypt key (crypto.blockEncrypt key block) = block

/-- The block at a place. -/
def aesBlockAt (memory : ℕ → UInt8) (place : ℕ) : AesBlock := fun i => memory (place + i)

/-- `XorBytes` of two blocks. -/
def xorBytes (pData1 pData2 : AesBlock) : AesBlock := fun i => pData1 i ^^^ pData2 i

/-- The loop of `DM_AES_Encrypt` over a number of blocks. -/
def dmAesEncryptFrom (crypto : Dm101Crypto) (key : AesBlock) : ℕ → (ℕ → UInt8) → ℕ → AesBlock →
    (ℕ → UInt8)
  | 0, memory, _, _ => memory
  | i + 1, memory, place, pIV =>
    let block := crypto.blockEncrypt key (xorBytes (aesBlockAt memory place) pIV)
    dmAesEncryptFrom crypto key i (copyOver memory place (List.ofFn block)) (place + 16) block

/-- The loop of `DM_AES_Decrypt` over a number of blocks, from the last one on. -/
def dmAesDecryptFrom (crypto : Dm101Crypto) (key pIV : AesBlock) : ℕ → (ℕ → UInt8) → ℕ → (ℕ → UInt8)
  | 0, memory, _ => memory
  | i + 1, memory, place =>
    let before := if i = 0 then pIV else aesBlockAt memory (place - 16)
    let block := xorBytes (crypto.blockDecrypt key (aesBlockAt memory place)) before
    dmAesDecryptFrom crypto key pIV i (copyOver memory place (List.ofFn block)) (place - 16)

/-- The bytes that `PKCS7_EnPadding` adds. -/
def pkcs7PaddingSize (nDataLen : UInt32) : UInt32 := 16 - nDataLen % 16

/-- `PKCS7_EnPadding_totalsize` -/
def pkcs7EnPaddingTotalsize (nDataLen : UInt32) : UInt32 := pkcs7PaddingSize nDataLen + nDataLen

/-- `PKCS7_EnPadding`: the memory, and the length with the padding. -/
def pkcs7EnPadding (memory : ℕ → UInt8) (place : ℕ) (nDataLen : UInt32) : (ℕ → UInt8) × UInt32 :=
  let toalsize := nDataLen + pkcs7PaddingSize nDataLen
  (copyOver memory (place + nDataLen.toNat)
    (List.replicate (toalsize.toNat - nDataLen.toNat) (pkcs7PaddingSize nDataLen).toUInt8), toalsize)

/-- `PKCS7_DePadding`: the length without the padding. -/
def pkcs7DePadding (memory : ℕ → UInt8) (place : ℕ) (nDataLen : UInt32) : UInt32 :=
  let last := memory (place + (nDataLen - 1).toNat)
  if last ≤ 16 then nDataLen - last.toUInt32 else nDataLen

/-- `DM_AES_Encrypt_cjy` -/
def dmAesEncryptCjy (crypto : Dm101Crypto) (memory : ℕ → UInt8) (place : ℕ) (nDataLen : UInt32)
    (pIV : AesBlock) :
    (ℕ → UInt8) × UInt32 :=
  let (memory, nDataLen) := pkcs7EnPadding memory place nDataLen
  (dmAesEncryptFrom crypto pIV (nDataLen.toNat / 16) memory place pIV, nDataLen)

/-- `DM_AES_Decrypt_cjy` -/
def dmAesDecryptCjy (crypto : Dm101Crypto) (memory : ℕ → UInt8) (place : ℕ) (nDataLen : UInt32)
    (pIV : AesBlock) :
    (ℕ → UInt8) × UInt32 :=
  let memory :=
    dmAesDecryptFrom crypto pIV pIV (nDataLen.toNat / 16) memory (place + nDataLen.toNat - 16)
  (memory, pkcs7DePadding memory place nDataLen)

/-- The blocks from a place on. -/
def aesBlocks (memory : ℕ → UInt8) (place : ℕ) : ℕ → List AesBlock
  | 0 => []
  | n + 1 => aesBlockAt memory place :: aesBlocks memory (place + 16) n

/-- A block is copied to where it is read. -/
theorem aesBlockAt_copyOver (memory : ℕ → UInt8) (place : ℕ) (block : AesBlock) :
    aesBlockAt (copyOver memory place (List.ofFn block)) place = block := by
  funext i
  have hshows :=
    showsAt_copyOver memory place (List.ofFn block) i (by rw [List.length_ofFn]; exact i.isLt)
  rw [List.getElem_ofFn] at hshows
  exact hshows

/-- Memories with the same bytes have the same block. -/
theorem aesBlockAt_congr {memory memory' : ℕ → UInt8} {place place' : ℕ}
    (h : ∀ i < 16, memory (place + i) = memory' (place' + i)) :
    aesBlockAt memory place = aesBlockAt memory' place' :=
  funext fun i => h i i.isLt

/-- Memories with the same blocks have the same bytes. -/
theorem aesBlocks_eq_iff {memory memory' : ℕ → UInt8} {place place' n : ℕ} :
    aesBlocks memory place n = aesBlocks memory' place' n ↔
      ∀ i < 16 * n, memory (place + i) = memory' (place' + i) := by
  induction n generalizing place place' with
  | zero => exact iff_of_true rfl fun i hi => absurd hi (Nat.not_lt_zero i)
  | succ n ih =>
    rw [aesBlocks, aesBlocks, List.cons.injEq, ih]
    constructor
    · rintro ⟨hfirst, hrest⟩ i hi
      rcases Nat.lt_or_ge i 16 with hlt | hge
      · exact congrFun hfirst ⟨i, hlt⟩
      · have hat := hrest (i - 16) (by omega)
        rwa [Nat.add_assoc, Nat.add_assoc, Nat.add_sub_cancel' hge] at hat
    · intro h
      refine ⟨funext fun i => h i (by omega), fun i hi => ?_⟩
      rw [Nat.add_assoc, Nat.add_assoc]
      exact h (16 + i) (by omega)

/-- The last block of one more. -/
theorem aesBlocks_concat (memory : ℕ → UInt8) (place n : ℕ) :
    aesBlocks memory place (n + 1) = aesBlocks memory place n ++
      [aesBlockAt memory (place + 16 * n)] := by
  induction n generalizing place with
  | zero => rfl
  | succ n ih =>
    rw [aesBlocks, ih, aesBlocks, List.cons_append, Nat.add_assoc, Nat.mul_succ, Nat.add_comm 16]

/-- Encryption in place is cipher block chaining of the blocks, and leaves the rest of the memory. -/
theorem dmAesEncryptFrom_blocks (crypto : Dm101Crypto) (key : AesBlock) (n : ℕ) (memory : ℕ → UInt8)
    (place : ℕ) (pIV : AesBlock) :
    aesBlocks (dmAesEncryptFrom crypto key n memory place pIV) place n =
        cbcEncrypt (crypto.blockEncrypt key) xorBytes pIV (aesBlocks memory place n) ∧
      ∀ i, i < place ∨ place + 16 * n ≤ i → dmAesEncryptFrom crypto key n memory place pIV i =
        memory i := by
  induction n generalizing memory place pIV with
  | zero => exact ⟨rfl, fun i _ => rfl⟩
  | succ n ih =>
    let block := crypto.blockEncrypt key (xorBytes (aesBlockAt memory place) pIV)
    have hlength : (List.ofFn block).length = 16 := List.length_ofFn
    obtain ⟨hblocks, hkeep⟩ := ih (copyOver memory place (List.ofFn block)) (place + 16) block
    have hrest : aesBlocks (copyOver memory place (List.ofFn block)) (place + 16) n =
        aesBlocks memory (place + 16) n := by
      refine aesBlocks_eq_iff.mpr fun i _ => copyOver_outside memory (.inr ?_)
      rw [hlength]
      omega
    have hfirst : aesBlockAt (dmAesEncryptFrom crypto key (n + 1) memory place pIV) place = block := by
      rw [dmAesEncryptFrom, aesBlockAt_congr fun i hi => hkeep (place + i) (.inl (by omega)),
        aesBlockAt_copyOver]
    rw [hrest] at hblocks
    refine ⟨?_, fun i hi => ?_⟩
    · rw [aesBlocks, aesBlocks, cbcEncrypt, hfirst]
      exact congrArg _ hblocks
    · refine (hkeep i (by omega)).trans (copyOver_outside memory ?_)
      rw [hlength]
      omega

/-- Decryption in place undoes the chaining of the blocks, and leaves the rest of the memory. -/
theorem dmAesDecryptFrom_blocks (crypto : Dm101Crypto) (key pIV : AesBlock) (n : ℕ)
    (memory : ℕ → UInt8) (place : ℕ) :
    aesBlocks (dmAesDecryptFrom crypto key pIV n memory (place + 16 * n - 16)) place n =
        cbcDecrypt (crypto.blockDecrypt key) xorBytes pIV (aesBlocks memory place n) ∧
      ∀ i, i < place ∨ place + 16 * n ≤ i →
        dmAesDecryptFrom crypto key pIV n memory (place + 16 * n - 16) i = memory i := by
  induction n generalizing memory with
  | zero => exact ⟨rfl, fun i _ => rfl⟩
  | succ n ih =>
    have hat : place + 16 * (n + 1) - 16 = place + 16 * n := by omega
    rw [hat]
    -- the block before is the one that chaining takes
    have hbefore : (if n = 0 then pIV else aesBlockAt memory (place + 16 * n - 16)) =
        (aesBlocks memory place n).getLastD pIV := by
      cases n with
      | zero => rfl
      | succ n =>
        have hlast : place + 16 * (n + 1) - 16 = place + 16 * n := by omega
        rw [if_neg (Nat.succ_ne_zero n), aesBlocks_concat, List.getLastD_concat, hlast]
    let block :=
      xorBytes (crypto.blockDecrypt key (aesBlockAt memory (place + 16 * n)))
      ((aesBlocks memory place n).getLastD pIV)
    have hlength : (List.ofFn block).length = 16 := List.length_ofFn
    obtain ⟨hblocks, hkeep⟩ := ih (copyOver memory (place + 16 * n) (List.ofFn block))
    have hstep : dmAesDecryptFrom crypto key pIV (n + 1) memory (place + 16 * n) =
        dmAesDecryptFrom crypto key pIV n (copyOver memory (place + 16 * n) (List.ofFn block))
        (place + 16 * n - 16) := by
      rw [dmAesDecryptFrom, hbefore]
    rw [hstep]
    have hrest : aesBlocks (copyOver memory (place + 16 * n) (List.ofFn block)) place n =
        aesBlocks memory place n :=
      aesBlocks_eq_iff.mpr fun i hi => copyOver_outside memory (.inl (by omega))
    have hlast : aesBlockAt (dmAesDecryptFrom crypto key pIV n
      (copyOver memory (place + 16 * n) (List.ofFn block))
        (place + 16 * n - 16)) (place + 16 * n) = block := by
      rw [aesBlockAt_congr fun i _ => hkeep (place + 16 * n + i) (.inr (by omega)), aesBlockAt_copyOver]
    refine ⟨?_, fun i hi => ?_⟩
    · rw [aesBlocks_concat, hblocks, hrest, hlast, aesBlocks_concat, cbcDecrypt_concat]
    · refine (hkeep i (by omega)).trans (copyOver_outside memory ?_)
      rw [hlength]
      omega

/-- Between one and 16 bytes are added, up to whole blocks. -/
theorem pkcs7PaddingSize_toNat (nDataLen : UInt32) :
    (pkcs7PaddingSize nDataLen).toNat = 16 - nDataLen.toNat % 16 := by
  have hmod : (nDataLen % 16).toNat = nDataLen.toNat % 16 := UInt32.toNat_mod _ _
  have hlt : nDataLen.toNat % 16 < 16 := Nat.mod_lt _ (by decide)
  have hle : nDataLen % 16 ≤ 16 := by
    rw [UInt32.le_iff_toNat_le, hmod]
    exact Nat.le_of_lt hlt
  rw [pkcs7PaddingSize, UInt32.toNat_sub_of_le _ _ hle, hmod]
  rfl

/-- The length with the padding, when it fits. -/
theorem pkcs7EnPaddingTotalsize_toNat {nDataLen : UInt32} (hfits : nDataLen.toNat + 16 < 2 ^ 32) :
    (pkcs7EnPaddingTotalsize nDataLen).toNat = nDataLen.toNat / 16 * 16 + 16 := by
  have hpadding := pkcs7PaddingSize_toNat nDataLen
  rw [pkcs7EnPaddingTotalsize, UInt32.toNat_add, Nat.mod_eq_of_lt (by omega)]
  omega

/-- Both computations of the length agree. -/
theorem pkcs7EnPadding_length (memory : ℕ → UInt8) (place : ℕ) (nDataLen : UInt32) :
    (pkcs7EnPadding memory place nDataLen).2 = pkcs7EnPaddingTotalsize nDataLen := UInt32.add_comm _ _

/-- The bytes in front of the padding are left, and those of the padding are its length. -/
theorem pkcs7EnPadding_bytes (memory : ℕ → UInt8) (place : ℕ) {nDataLen : UInt32}
    (hfits : nDataLen.toNat + 16 < 2 ^ 32) :
    (∀ i, i < place + nDataLen.toNat ∨ place + (pkcs7EnPaddingTotalsize nDataLen).toNat ≤ i →
        (pkcs7EnPadding memory place nDataLen).1 i = memory i) ∧
      ∀ i, nDataLen.toNat ≤ i → i < (pkcs7EnPaddingTotalsize nDataLen).toNat →
        (pkcs7EnPadding memory place nDataLen).1 (place + i) = (pkcs7PaddingSize nDataLen).toUInt8 := by
  have htotal := pkcs7EnPaddingTotalsize_toNat hfits
  have hlength : (List.replicate ((nDataLen + pkcs7PaddingSize nDataLen).toNat - nDataLen.toNat)
      (pkcs7PaddingSize nDataLen).toUInt8).length = (pkcs7EnPaddingTotalsize nDataLen).toNat -
      nDataLen.toNat := by
    rw [List.length_replicate, UInt32.add_comm]
    rfl
  constructor
  · intro i hi
    refine copyOver_outside memory ?_
    rw [hlength]
    omega
  · intro i hge hlt
    have hshows := showsAt_copyOver memory (place + nDataLen.toNat) (List.replicate
      ((nDataLen + pkcs7PaddingSize nDataLen).toNat - nDataLen.toNat)
      (pkcs7PaddingSize nDataLen).toUInt8)
      (i - nDataLen.toNat) (by rw [hlength]; omega)
    rw [List.getElem_replicate, Nat.add_assoc, Nat.add_sub_cancel' hge] at hshows
    exact hshows

/-- Encryption changes only the bytes and their padding. -/
theorem dmAesEncryptCjy_outside (crypto : Dm101Crypto) (memory : ℕ → UInt8) (place : ℕ)
    {nDataLen : UInt32} (pIV : AesBlock)
    (hfits : nDataLen.toNat + 16 < 2 ^ 32) {i : ℕ}
    (hi : i < place ∨ place + (pkcs7EnPaddingTotalsize nDataLen).toNat ≤ i) :
    (dmAesEncryptCjy crypto memory place nDataLen pIV).1 i = memory i := by
  have htotal := pkcs7EnPaddingTotalsize_toNat hfits
  have hkeep := (dmAesEncryptFrom_blocks crypto pIV ((pkcs7EnPaddingTotalsize nDataLen).toNat / 16)
    (pkcs7EnPadding memory place nDataLen).1 place pIV).2 i (by omega)
  rw [← pkcs7EnPadding_length memory place] at hkeep
  exact hkeep.trans ((pkcs7EnPadding_bytes memory place hfits).1 i (by omega))

/-- Bytes that are encrypted, and carried over to some place, are decrypted there, without the
padding. -/
theorem dmAesDecryptCjy_of_encrypted {crypto : Dm101Crypto} (hcrypto : crypto.Inverts)
    (memory : ℕ → UInt8) (place : ℕ)
    {nDataLen : UInt32} (pIV : AesBlock) (hfits : nDataLen.toNat + 16 < 2 ^ 32)
    {received : ℕ → UInt8} {place' : ℕ}
    (hreceived : ∀ i < (pkcs7EnPaddingTotalsize nDataLen).toNat,
      received (place' + i) = (dmAesEncryptCjy crypto memory place nDataLen pIV).1 (place + i)) :
    (dmAesDecryptCjy crypto received place' (pkcs7EnPaddingTotalsize nDataLen) pIV).2 = nDataLen ∧
      ∀ i < nDataLen.toNat,
        (dmAesDecryptCjy crypto received place' (pkcs7EnPaddingTotalsize nDataLen) pIV).1
        (place' + i) = memory (place + i) := by
  have htotal := pkcs7EnPaddingTotalsize_toNat hfits
  obtain ⟨n, hn⟩ : ∃ n, (pkcs7EnPaddingTotalsize nDataLen).toNat = 16 * n :=
    ⟨nDataLen.toNat / 16 + 1, by omega⟩
  have hdiv : 16 * n / 16 = n := Nat.mul_div_cancel_left n (by decide)
  obtain ⟨hkeep, hpad⟩ := pkcs7EnPadding_bytes memory place hfits
  have hencrypted :=
    (dmAesEncryptFrom_blocks crypto pIV n (pkcs7EnPadding memory place nDataLen).1 place pIV).1
  have hblocks : aesBlocks received place' n =
      aesBlocks (dmAesEncryptFrom crypto pIV n (pkcs7EnPadding memory place nDataLen).1 place pIV)
      place n := by
    refine aesBlocks_eq_iff.mpr fun i hi => ?_
    rw [hreceived i (by omega), dmAesEncryptCjy]
    simp only [pkcs7EnPadding_length, hn, hdiv]
  -- the decrypted bytes are those with the padding
  have hdecrypted : ∀ i < 16 * n,
    (dmAesDecryptCjy crypto received place' (pkcs7EnPaddingTotalsize nDataLen) pIV).1 (place' + i) =
      (pkcs7EnPadding memory place nDataLen).1 (place + i) := by
    refine aesBlocks_eq_iff.mp ?_
    simp only [dmAesDecryptCjy, hn, hdiv]
    rw [(dmAesDecryptFrom_blocks crypto pIV pIV n received place').1, hblocks, hencrypted]
    refine cbcDecrypt_cbcEncrypt (hcrypto pIV) (fun x v => funext fun i => ?_) pIV _
    rw [xorBytes, xorBytes, UInt8.xor_assoc, UInt8.xor_self, UInt8.xor_zero]
  refine ⟨?_, fun i hi => ?_⟩
  · have hpadding := pkcs7PaddingSize_toNat nDataLen
    have hlast : (pkcs7EnPaddingTotalsize nDataLen - 1).toNat = 16 * n - 1 := by
      have hone : (1 : UInt32).toNat = 1 := rfl
      rw [UInt32.toNat_sub_of_le _ _ (by rw [UInt32.le_iff_toNat_le, hn, hone]; omega), hn, hone]
    have hbyte : (dmAesDecryptCjy crypto received place' (pkcs7EnPaddingTotalsize nDataLen) pIV).1
        (place' + (pkcs7EnPaddingTotalsize nDataLen - 1).toNat) =
          (pkcs7PaddingSize nDataLen).toUInt8 := by
      rw [hlast, hdecrypted _ (by omega)]
      exact hpad _ (by omega) (by omega)
    have hsize : (pkcs7PaddingSize nDataLen).toUInt8.toNat = (pkcs7PaddingSize nDataLen).toNat := by
      rw [UInt32.toNat_toUInt8]
      exact Nat.mod_eq_of_lt (by omega)
    have hle : (pkcs7PaddingSize nDataLen).toUInt8 ≤ 16 := by
      rw [UInt8.le_iff_toNat_le, hsize, hpadding]
      exact Nat.sub_le 16 _
    have hlength : pkcs7EnPaddingTotalsize nDataLen - (pkcs7PaddingSize nDataLen).toUInt8.toUInt32 =
        nDataLen := by
      refine UInt32.toNat.inj ?_
      have hpad : (pkcs7PaddingSize nDataLen).toUInt8.toUInt32.toNat = 16 - nDataLen.toNat % 16 := by
        rw [UInt8.toNat_toUInt32, hsize, hpadding]
      rw [UInt32.toNat_sub_of_le _ _ (by rw [UInt32.le_iff_toNat_le, hpad]; omega), hpad, htotal]
      omega
    have hunpadded : (dmAesDecryptCjy crypto received place' (pkcs7EnPaddingTotalsize nDataLen) pIV).2 =
        pkcs7DePadding (dmAesDecryptCjy crypto received place' (pkcs7EnPaddingTotalsize nDataLen)
        pIV).1 place'
          (pkcs7EnPaddingTotalsize nDataLen) := rfl
    rw [hunpadded, pkcs7DePadding]
    rw [hbyte, if_pos hle, hlength]
  · rw [hdecrypted i (by omega)]
    exact hkeep _ (.inl (by omega))

end DasEdge.Sdccp
