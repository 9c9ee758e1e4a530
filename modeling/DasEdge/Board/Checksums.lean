import DasEdge.Board.UpdateSafety
import DasEdge.Board.XferNet
import DasEdge.Library.Crc

/-!
# What the checksums of the board are

`das_crc16` keeps its register in two bytes and looks up two tables, `ulRTCrc32` complements its register
when it comes in and when it goes out. Each takes a byte as the eight steps of its polynomial do, so that
each is the check of the whole string. That the check of a frame is zero means that the frame ends with
the check of what is before.
-/

namespace DasEdge.Board

open DasEdge.Library

/-- The polynomial of `das_crc16`, with the highest bit for the lowest power. -/
def dasCrc16Poly : BitVec 16 := 0xA001#16

/-- The polynomial of `ulRTCrc32`, with the highest bit for the lowest power. -/
def rtCrc32Poly : BitVec 32 := 0xEDB88320#32

/-- The register of `das_crc16`, with `ucCRCHi` and `ucCRCLo`. -/
def dasCrc16Word (crc : UInt8 × UInt8) : BitVec 16 :=
  crc.1.toBitVec.setWidth 16 <<< 8 ||| crc.2.toBitVec.setWidth 16

/-- A frame ends with the CRC-16 of what is before, low byte first. -/
def EndsWithCrc16 (frame : List UInt8) : Prop :=
  ∃ m, frame = m ++ [(dasCrc16 m).toUInt8, (dasCrc16 m >>> 8).toUInt8]

/-- What `das_crc16` gives is its register. -/
theorem dasCrc16_toBitVec (data : List UInt8) :
    (dasCrc16 data).toBitVec = dasCrc16Word (data.foldl dasCrc16Byte (0xFF, 0xFF)) := rfl

/-- The entries of both tables at a place are what eight steps make of the byte. -/
theorem aucCRC_eq :
    ∀ n < 256, dasCrc16Word (aucCRCLo.getD n 0, aucCRCHi.getD n 0) =
      crcReflectedByte dasCrc16Poly 0#16 (BitVec.ofNat 8 n) := by
  decide +kernel

/-- A byte in `das_crc16` is a byte in the check. -/
theorem dasCrc16Byte_eq (crc : UInt8 × UInt8) (byte : UInt8) :
    dasCrc16Word (dasCrc16Byte crc byte) =
      crcReflectedByte dasCrc16Poly (dasCrc16Word crc) byte.toBitVec := by
  obtain ⟨ucCRCHi, ucCRCLo⟩ := crc
  have hlow : (dasCrc16Word (ucCRCHi, ucCRCLo)).setWidth 8 = ucCRCLo.toBitVec := by
    apply BitVec.eq_of_getLsbD_eq
    intro i hi
    simp [dasCrc16Word, hi]
  have hhigh : dasCrc16Word (ucCRCHi, ucCRCLo) >>> 8 = ucCRCHi.toBitVec.setWidth 16 := by
    apply BitVec.eq_of_getLsbD_eq
    intro i hi
    by_cases hplace : i < 8
    · simp [dasCrc16Word, hi, show 8 + i < 16 by omega]
    · have hgone : ucCRCHi.toBitVec.getLsbD i = false := BitVec.getLsbD_of_ge _ _ (by omega)
      simp [dasCrc16Word, hgone]
  have hindex : BitVec.ofNat 8 (ucCRCLo ^^^ byte).toNat = ucCRCLo.toBitVec ^^^ byte.toBitVec :=
    BitVec.ofNat_toNat 8 (ucCRCLo ^^^ byte).toBitVec
  rw [crcReflectedByte_eq, hlow, hhigh, ← hindex, ← aucCRC_eq _ (ucCRCLo ^^^ byte).toNat_lt]
  -- the byte that stays goes to the lower one, where the table has its higher byte
  apply BitVec.eq_of_getLsbD_eq
  intro i hi
  simp only [dasCrc16Byte, dasCrc16Word, UInt8.toBitVec_xor, BitVec.setWidth_xor, BitVec.getLsbD_or,
    BitVec.getLsbD_xor]
  by_cases hplace : i < 8
  · simp [hplace, Bool.xor_comm]
  · have hgone : ucCRCHi.toBitVec.getLsbD i = false := BitVec.getLsbD_of_ge _ _ (by omega)
    simp [hgone]

/-- `das_crc16` is the reflected check with its polynomial. -/
theorem dasCrc16_eq (data : List UInt8) :
    (dasCrc16 data).toBitVec = crcReflected dasCrc16Poly 0xFFFF#16 data := by
  have hrun (crc : UInt8 × UInt8) :
      dasCrc16Word (data.foldl dasCrc16Byte crc) = crcReflected dasCrc16Poly (dasCrc16Word crc) data := by
    induction data generalizing crc with
    | nil => rfl
    | cons byte data ih => rw [List.foldl_cons, ih, dasCrc16Byte_eq]; rfl
  rw [dasCrc16_toBitVec]
  exact hrun (0xFF, 0xFF)

/-- A byte more in the check. -/
theorem dasCrc16_append_byte (m : List UInt8) (byte : UInt8) :
    (dasCrc16 (m ++ [byte])).toBitVec =
      crcReflectedByte dasCrc16Poly (dasCrc16 m).toBitVec byte.toBitVec := by
  rw [dasCrc16_eq, dasCrc16_eq, crcReflected, List.foldl_append]
  rfl

/-- The check with two more bytes is zero exactly when they are the check of the others. -/
theorem dasCrc16_append_pair (m : List UInt8) (low high : UInt8) :
    dasCrc16 (m ++ [low] ++ [high]) = 0 ↔
      low = (dasCrc16 m).toUInt8 ∧ high = (dasCrc16 m >>> 8).toUInt8 := by
  rw [← UInt16.toBitVec_inj, dasCrc16_append_byte, dasCrc16_append_byte]
  refine (crcReflectedByte_trailer (by decide) _ _ _).trans ?_
  rw [← UInt8.toBitVec_inj, ← UInt8.toBitVec_inj]
  rfl

/-- The check of a frame is zero exactly when it ends with the check of what is before. -/
theorem dasCrc16_eq_zero_iff (frame : List UInt8) : dasCrc16 frame = 0 ↔ EndsWithCrc16 frame := by
  constructor
  · intro hzero
    rcases List.eq_nil_or_concat frame with rfl | ⟨rest, high, rfl⟩
    · exact absurd hzero (by decide)
    rw [List.concat_eq_append] at hzero ⊢
    rcases List.eq_nil_or_concat rest with rfl | ⟨m, low, rfl⟩
    · -- one byte does not empty the register, as a zero behind it would not be its higher byte
      have hmore : dasCrc16 ([] ++ [high] ++ [0]) = 0 := by
        rw [← UInt16.toBitVec_inj, dasCrc16_append_byte, hzero]
        exact crcReflectedByte_zero dasCrc16Poly
      exact absurd ((dasCrc16_append_pair [] high 0).mp hmore).2 (by decide)
    · rw [List.concat_eq_append] at hzero ⊢
      obtain ⟨hlow, hhigh⟩ := (dasCrc16_append_pair m low high).mp hzero
      exact ⟨m, by rw [hlow, hhigh, List.append_assoc]; rfl⟩
  · rintro ⟨m, rfl⟩
    have hpair := (dasCrc16_append_pair m _ _).mpr ⟨rfl, rfl⟩
    rwa [List.append_assoc] at hpair

/-- `das_crc16` is the CRC-16 with the reflected polynomial 0xA001 from 0xFFFF on. With its low byte and
then its high byte appended a string has the check zero, and no other string does, so that a gateway for
Modbus RTU sends on exactly the frames of the least length and more that end with the check of what is
before. -/
theorem dasCrc16_modbus (m : List UInt8) :
    (dasCrc16 m).toBitVec = crcReflected 0xA001#16 0xFFFF#16 m ∧
      dasCrc16 (m ++ [(dasCrc16 m).toUInt8, (dasCrc16 m >>> 8).toUInt8]) = 0 ∧
      (dasCrc16 m = 0 ↔ EndsWithCrc16 m) ∧
      ∀ gw : XferGwCfg, (gw.protoType = xferProtoModbusRtu ∧ (xferGwAddr gw m).isSome = true) ↔
        gw.protoType = xferProtoModbusRtu ∧ 4 ≤ m.length ∧ EndsWithCrc16 m := by
  refine ⟨dasCrc16_eq m, (dasCrc16_eq_zero_iff _).mpr ⟨m, rfl⟩, dasCrc16_eq_zero_iff m, fun gw => ?_⟩
  refine and_congr_right fun hproto => ?_
  rw [xferGwAddr, if_pos hproto, ← dasCrc16_eq_zero_iff]
  split
  · next haccept => simp [haccept]
  · next hreject => simp [hreject]

/-- The entries of the table are what eight steps make of the byte. -/
theorem crc32Tab_eq :
    ∀ n < 256, (crc32Tab.getD n 0).toBitVec = crcReflectedByte rtCrc32Poly 0#32 (BitVec.ofNat 8 n) := by
  decide +kernel

/-- The step of `ulRTCrc32` is a byte in the check. -/
theorem ulRTCrc32_step (crc : UInt32) (byte : UInt8) :
    (crc32Tab.getD ((crc ^^^ byte.toUInt32) &&& 0xFF).toNat 0 ^^^ (crc >>> 8)).toBitVec =
      crcReflectedByte rtCrc32Poly crc.toBitVec byte.toBitVec := by
  have hindex : ((crc ^^^ byte.toUInt32) &&& 0xFF).toNat =
      (crc.toBitVec.setWidth 8 ^^^ byte.toBitVec).toNat := by
    have hmask : ((crc ^^^ byte.toUInt32) &&& 0xFF).toNat = (crc ^^^ byte.toUInt32).toNat % 2 ^ 8 := by
      rw [UInt32.toNat_and]
      exact Nat.and_two_pow_sub_one_eq_mod _ 8
    rw [hmask, UInt32.toNat_xor, BitVec.toNat_xor, Nat.xor_mod_two_pow, BitVec.toNat_setWidth]
    exact congrArg _ (Nat.mod_eq_of_lt byte.toNat_lt)
  have htable := crc32Tab_eq _ (crc.toBitVec.setWidth 8 ^^^ byte.toBitVec).isLt
  rw [crcReflectedByte_eq, UInt32.toBitVec_xor, hindex, htable, BitVec.ofNat_toNat, BitVec.setWidth_eq]
  rfl

/-- `ulRTCrc32` is the reflected check with its polynomial, between two complements. -/
theorem ulRTCrc32_eq (crc : UInt32) (bytes : List UInt8) :
    (ulRTCrc32 crc bytes).toBitVec = ~~~ crcReflected rtCrc32Poly (~~~ crc.toBitVec) bytes := by
  have hrun (crc : UInt32) : (bytes.foldl (fun (crc : UInt32) (byte : UInt8) =>
      crc32Tab.getD ((crc ^^^ byte.toUInt32) &&& 0xFF).toNat 0 ^^^ (crc >>> 8)) crc).toBitVec =
        crcReflected rtCrc32Poly crc.toBitVec bytes := by
    induction bytes generalizing crc with
    | nil => rfl
    | cons byte bytes ih => rw [List.foldl_cons, ih, ulRTCrc32_step]; rfl
  rw [ulRTCrc32, UInt32.toBitVec_not, hrun, UInt32.toBitVec_not]

/-- The checksum of the bytes of some blocks is what it comes to from block to block. -/
theorem ulRTCrc32_flatten (crc : UInt32) (blocks : List (List UInt8)) :
    blocks.foldl ulRTCrc32 crc = ulRTCrc32 crc blocks.flatten := by
  induction blocks generalizing crc with
  | nil => exact (ulRTCrc32_nil crc).symm
  | cons block blocks ih => rw [List.foldl_cons, ih, List.flatten_cons, ulRTCrc32_append]

/-- `ulRTCrc32` goes on over more bytes, it is the CRC-32 with the reflected polynomial 0xEDB88320 from
0xFFFFFFFF on, complemented, and it is the same in whatever blocks the bytes come, also in those of
`__update_check` and `__file_crc`. -/
theorem ulRTCrc32_blocks (a b : List UInt8) :
    ulRTCrc32 (ulRTCrc32 0 a) b = ulRTCrc32 0 (a ++ b) ∧
      (ulRTCrc32 0 a).toBitVec = crcReflected 0xEDB88320#32 0xFFFFFFFF#32 a ^^^ 0xFFFFFFFF#32 ∧
      (∀ blocks : List (List UInt8), blocks.foldl ulRTCrc32 0 = ulRTCrc32 0 blocks.flatten) ∧
      (∀ files : BoardFiles, ∀ path : List UInt8, ∀ remain pos : ℕ,
        (updateCheckBlocks files path remain remain pos 0).1 = ulRTCrc32 0 (files.read path pos remain)) ∧
      ∀ files : BoardFiles, ∀ path : List UInt8,
        fileCrc true files path = ulRTCrc32 0 ((files path).getD []) := by
  refine ⟨(ulRTCrc32_append 0 a b).symm, ?_, ulRTCrc32_flatten 0, fun files path remain pos => ?_,
    fun files path => fileCrc_eq true files path⟩
  · rw [ulRTCrc32_eq, ← BitVec.xor_allOnes]
    rfl
  · rw [updateCheckBlocks_eq files path (Nat.le_refl remain)]

end DasEdge.Board
