import DasEdge.Reg.RtuDes
import DasEdge.Sdccp.Md5

/-!
# The message digest of the registration

In `rtu_md5.c` a step adds to its word what an encryption of the word under a key of the word makes of
the constant. The encryption gives back the length that is left, which is never positive, so that the
constant stays as it is and the digest is the one that `cc_md5.c` gives.
-/

namespace DasEdge.Reg

open DasEdge.Sdccp

/-- A byte of a word that was shifted. -/
def wordByte (word shift : UInt32) : UInt8 := (word >>> shift).toUInt8

section Encryptions

variable (crc : UInt32 → List UInt8 → ℤ → UInt32)

/-- What the four encryptions do with their block, their key and their checksum. -/
def md5TransformEnc (inbuf : List UInt8) (key : Vector UInt8 8) (k word : UInt32) : Option UInt32 :=
  (rtuDesEncrypt inbuf 8 key).map fun out => if 0 < out.2 then crc word out.1 out.2 else k

/-- `__md5_transform_enc1` -/
def md5TransformEnc1 (k word : UInt32) : Option UInt32 :=
  md5TransformEnc crc
    [wordByte word 0, wordByte word 24, wordByte word 8, wordByte word 16, wordByte word 12,
      wordByte word 20,
      wordByte word 4, wordByte word 22]
    #v[wordByte word 0, 0x15, wordByte word 24, 0xAF, wordByte word 8, 0x5B, wordByte word 16,
      0x2C] k word

/-- `__md5_transform_enc2` -/
def md5TransformEnc2 (k word : UInt32) : Option UInt32 :=
  md5TransformEnc crc
    [wordByte word 20, wordByte word 4, wordByte word 24, wordByte word 12, wordByte word 22,
      wordByte word 8,
      wordByte word 0, wordByte word 16]
    #v[0x35, wordByte word 16, 0x47, wordByte word 8, 0xCC, wordByte word 24, wordByte word 0,
      0xAB] k word

/-- `__md5_transform_enc3` -/
def md5TransformEnc3 (k word : UInt32) : Option UInt32 :=
  md5TransformEnc crc
    [wordByte word 0, wordByte word 16, wordByte word 12, wordByte word 20, wordByte word 24,
      wordByte word 8,
      wordByte word 4, wordByte word 22]
    #v[wordByte word 0, 0x15, wordByte word 24, 0xAF, wordByte word 8, 0x5B, wordByte word 16,
      0x2C] k word

/-- `__md5_transform_enc4` -/
def md5TransformEnc4 (k word : UInt32) : Option UInt32 :=
  md5TransformEnc crc
    [wordByte word 8, wordByte word 20, wordByte word 0, wordByte word 24, wordByte word 4,
      wordByte word 16,
      wordByte word 12, wordByte word 22]
    #v[0x35, wordByte word 16, 0x47, wordByte word 8, 0xCC, wordByte word 24, wordByte word 0,
      0xAB] k word

/-- The encryption of a block leaves the constant as it is. -/
theorem md5TransformEnc_eq (inbuf : List UInt8) (hlength : inbuf.length = 8) (key : Vector UInt8 8)
    (k word : UInt32) : md5TransformEnc crc inbuf key k word = some k := by
  obtain ⟨out, hout, -, -⟩ :=
    desLoop_inverts (desCrypt_reverse (desRounds_desDsk (desMainKs key))) 1 hlength
  have hencrypt : rtuDesEncrypt inbuf 8 key = some (out, 0) := hout
  rw [md5TransformEnc, hencrypt]
  rfl

end Encryptions

section Transform

variable (rtuCrc32 rtuNcrc32 : UInt32 → List UInt8 → ℤ → UInt32)

/-- The encryption of a round. -/
def md5RoundEnc : Md5Round → UInt32 → UInt32 → Option UInt32
  | .ff => md5TransformEnc1 rtuCrc32
  | .gg => md5TransformEnc3 rtuNcrc32
  | .hh => md5TransformEnc4 rtuNcrc32
  | .ii => md5TransformEnc2 rtuCrc32

/-- `Transform` in `rtu_md5.c`, with the steps that `cc_md5.c` has. -/
def rtuMd5Transform (buf : Md5Registers) (words : Md5Words) : Option Md5Registers :=
  (ccMd5Steps.foldlM (fun registers step =>
    (md5RoundEnc rtuCrc32 rtuNcrc32 step.1 step.2.2.2 (words.get step.2.1)).map fun ac =>
      md5Step registers step.1 (words.get step.2.1) step.2.2.1 ac) buf).map buf.add

/-- A digest of pieces in `rtu_md5.c`. -/
def rtuMd5Pieces : CcMd5Ctx → List (List UInt8) → Option (List UInt8) :=
  ccMd5PiecesWith (rtuMd5Transform rtuCrc32 rtuNcrc32)

/-- No round changes a constant. -/
theorem md5RoundEnc_eq (round : Md5Round) (k word : UInt32) :
    md5RoundEnc rtuCrc32 rtuNcrc32 round k word = some k := by
  cases round with
  | ff => rw [md5RoundEnc, md5TransformEnc1, md5TransformEnc_eq _ _ rfl]
  | gg => rw [md5RoundEnc, md5TransformEnc3, md5TransformEnc_eq _ _ rfl]
  | hh => rw [md5RoundEnc, md5TransformEnc4, md5TransformEnc_eq _ _ rfl]
  | ii => rw [md5RoundEnc, md5TransformEnc2, md5TransformEnc_eq _ _ rfl]

/-- The transform has the plain steps. -/
theorem rtuMd5Transform_eq (buf : Md5Registers) (words : Md5Words) :
    rtuMd5Transform rtuCrc32 rtuNcrc32 buf words = some (md5Transform dmMd5Steps buf words) := by
  have hfold : ∀ (steps : List Md5Step) (registers : Md5Registers),
      steps.foldlM (fun registers step =>
        (md5RoundEnc rtuCrc32 rtuNcrc32 step.1 step.2.2.2 (words.get step.2.1)).map fun ac =>
          md5Step registers step.1 (words.get step.2.1) step.2.2.1 ac) registers =
      some (steps.foldl (fun registers step =>
        md5Step registers step.1 (words.get step.2.1) step.2.2.1 step.2.2.2) registers) := by
    intro steps
    induction steps with
    | nil => exact fun _ => rfl
    | cons step steps ih =>
      intro registers
      rw [List.foldlM_cons, md5RoundEnc_eq, List.foldl_cons]
      exact ih _
  rw [rtuMd5Transform, hfold, ccMd5Steps_eq]
  rfl

/-- The digest of the registration is the plain one, whatever the two checksums are. -/
theorem rtuMd5Pieces_eq_md5 (mdContext : CcMd5Ctx) {pieces : List (List UInt8)}
    (hpieces : ∀ piece ∈ pieces, piece.length < 2 ^ 32) :
    rtuMd5Pieces rtuCrc32 rtuNcrc32 mdContext pieces = some (md5 pieces.flatten) :=
  ccMd5PiecesWith_eq (rtuMd5Transform_eq rtuCrc32 rtuNcrc32) mdContext hpieces

end Transform

/-- A text of forty bytes. -/
theorem rtuMd5Pieces_eq_md5_forty :
    (∀ piece ∈ [List.replicate 40 (0x41 : UInt8)], piece.length < 2 ^ 32) ∧
      rtuMd5Pieces (fun crc _ _ => crc) (fun crc _ _ => crc) ⟨(0, 0), md5Init,
        Vector.replicate 64 0, []⟩
        [List.replicate 40 0x41] = some (md5 [List.replicate 40 0x41].flatten) :=
  ⟨by decide, rtuMd5Pieces_eq_md5 _ _ _ (by decide)⟩

end DasEdge.Reg
