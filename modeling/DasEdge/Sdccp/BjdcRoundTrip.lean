import DasEdge.Library.Crc
import DasEdge.Sdccp.BjdcScan
import Mathlib.Data.UInt

/-!
# The BJDC round trip

A buffer that begins with a frame of `cc_bjdc_send_xmlpack` is accepted: the length that the frame
states is the one of type and data, and the check value is computed over the same bytes on both
sides. Decrypting the data in the buffer gives back the filled up string. The null character that
the receiver writes lies behind the data, so the string ends where it did, either there or at the
first character of the filling.
-/

namespace DasEdge.Sdccp

open DasEdge.Library

/-- The length of the data is a multiple of the block size. -/
theorem le_rtAlign16 (size : ℕ) : size ≤ rtAlign16 size := by
  unfold rtAlign16
  omega

/-- The filled up string. -/
def bjdcPadded (xml : List UInt8) : List UInt8 :=
  xml ++ List.replicate (rtAlign16 xml.length - xml.length) 0

/-- It fills whole blocks. -/
theorem bjdcPadded_length (xml : List UInt8) : (bjdcPadded xml).length = rtAlign16 xml.length := by
  rw [bjdcPadded, List.length_append, List.length_replicate, Nat.add_sub_cancel' (le_rtAlign16 _)]

/-- The data is as long as the filled up string. -/
theorem bjdcData_length (aes : Aes) (xml : List UInt8) :
    (bjdcData aes xml).length = rtAlign16 xml.length :=
  (aes.encrypt_length _).trans (bjdcPadded_length xml)

/-- The string is got back from the data. -/
theorem decrypt_bjdcData {aes : Aes} (haes : aes.Inverts) (xml : List UInt8) :
    aes.decrypt (bjdcData aes xml) = bjdcPadded xml :=
  haes (bjdcPadded xml) (by rw [bjdcPadded_length]; exact Nat.dvd_mul_left 16 _)

/-- A frame has 18 bytes besides the data. -/
theorem ccBjdcSendXmlpack_length (aes : Aes) (xml : List UInt8) :
    (ccBjdcSendXmlpack aes xml).length = rtAlign16 xml.length + 18 := by
  simp only [ccBjdcSendXmlpack, List.length_append, bjdcData_length, uint32Bytes, uint16Bytes,
    List.length_cons,
    List.length_nil]
  omega

/-- The length that a frame states. -/
def bjdcUlLen (xml : List UInt8) : UInt32 := 4 + (rtAlign16 xml.length).toUInt32

/-- It counts type and data. -/
theorem bjdcUlLen_toNat {aes : Aes} {xml : List UInt8}
    (hfits : (ccBjdcSendXmlpack aes xml).length < ccBjdcBufSize) :
    (bjdcUlLen xml).toNat = rtAlign16 xml.length + 4 := by
  rw [ccBjdcSendXmlpack_length, ccBjdcBufSize] at hfits
  have halign : (rtAlign16 xml.length).toUInt32.toNat = rtAlign16 xml.length :=
    Nat.mod_eq_of_lt (by omega)
  rw [bjdcUlLen, UInt32.toNat_add, halign]
  change (4 + _) % 2 ^ 32 = _
  omega

/-- The bytes that the check value is computed over. -/
def bjdcChecked (aes : Aes) (xml : List UInt8) : List UInt8 := uint32Bytes 0 ++ bjdcData aes xml

/-- What a buffer shows that begins with a frame. -/
theorem showsAt_frame {aes : Aes} {xml : List UInt8} {pBuffer : ℕ → UInt8}
    (h : ShowsAt pBuffer 0 (ccBjdcSendXmlpack aes xml)) :
    readUInt32 pBuffer 4 = bjdcUlLen xml ∧ ShowsAt pBuffer 8 (bjdcChecked aes xml) ∧
      ShowsAt pBuffer (rtAlign16 xml.length + 12)
        (uint16Bytes (ccGetCrc16 (fun i => (bjdcChecked aes xml).getD i 0) (bjdcUlLen xml))) := by
  obtain ⟨-, h⟩ := showsAt_append.mp h
  obtain ⟨hulLen, h⟩ := showsAt_append.mp h
  obtain ⟨hchecked, h⟩ := showsAt_append.mp h
  obtain ⟨hcheck, -⟩ := showsAt_append.mp h
  have hplace : 8 + (bjdcChecked aes xml).length = rtAlign16 xml.length + 12 := by
    rw [bjdcChecked, List.length_append, bjdcData_length]
    change 8 + (4 + _) = _
    omega
  refine ⟨(readUInt32_eq_iff pBuffer 4 _).mpr hulLen, hchecked, ?_⟩
  rw [← hplace]
  exact hcheck

/-- A buffer that begins with a frame passes the test. -/
theorem bjdcAccepted_frame {aes : Aes} {xml : List UInt8} {pBuffer : ℕ → UInt8}
    (hfits : (ccBjdcSendXmlpack aes xml).length < ccBjdcBufSize)
    (h : ShowsAt pBuffer 0 (ccBjdcSendXmlpack aes xml)) :
    bjdcAccepted pBuffer (ccBjdcSendXmlpack aes xml).length = true := by
  obtain ⟨hulLen, hchecked, hcheck⟩ := showsAt_frame h
  have hnat := bjdcUlLen_toNat hfits
  have hlength := ccBjdcSendXmlpack_length aes xml
  have hplace : (ccBjdcSendXmlpack aes xml).length - 6 = rtAlign16 xml.length + 12 := by omega
  have hstates : bjdcUlLen xml + 14 = (ccBjdcSendXmlpack aes xml).length.toUInt32 := by
    rw [ccBjdcBufSize] at hfits
    refine UInt32.toNat.inj ?_
    rw [UInt32.toNat_add, hnat, Nat.toUInt32_eq,
      UInt32.toNat_ofNat_of_lt' (by change _ < 2 ^ 32; omega)]
    change (_ + 14) % 2 ^ 32 = _
    omega
  have hcrc : ccGetCrc16 (fun i => pBuffer (8 + i)) (bjdcUlLen xml) =
      ccGetCrc16 (fun i => (bjdcChecked aes xml).getD i 0) (bjdcUlLen xml) := by
    refine ccGetCrc16_congr fun i hi => ?_
    have hi' : i < (bjdcChecked aes xml).length := by
      rw [bjdcChecked, List.length_append, bjdcData_length]
      change i < 4 + _
      omega
    rw [hchecked i hi', List.getD_eq_getElem _ _ hi']
  have husCheck : (bjdcPackage pBuffer (ccBjdcSendXmlpack aes xml).length).usCheck =
      ccGetCrc16 (fun i => (bjdcChecked aes xml).getD i 0) (bjdcUlLen xml) := by
    rw [← hplace] at hcheck
    exact (uint16_eq_iff pBuffer _ _).mpr hcheck
  unfold bjdcAccepted
  rw [Bool.and_eq_true, decide_eq_true_eq, decide_eq_true_eq]
  change readUInt32 pBuffer 4 + 14 = _ ∧ ccGetCrc16 _ (readUInt32 pBuffer 4) = _
  rw [hulLen, husCheck]
  exact ⟨hstates, hcrc⟩

/-- The parser is called with the string. -/
theorem textAt_bjdcDelivered {aes : Aes} (haes : aes.Inverts) {xml : List UInt8} (hxml : 0 ∉ xml)
    {pBuffer : ℕ → UInt8}
    (hfits : (ccBjdcSendXmlpack aes xml).length < ccBjdcBufSize) (h : ShowsAt pBuffer 0 (ccBjdcSendXmlpack aes xml)) :
    TextAt (bjdcDelivered aes pBuffer (ccBjdcSendXmlpack aes xml).length).pData xml := by
  obtain ⟨hulLen, hchecked, -⟩ := showsAt_frame h
  have hdata : ShowsAt pBuffer 12 (bjdcData aes xml) := (showsAt_append.mp hchecked).2
  have hle := le_rtAlign16 xml.length
  have hcount : (bjdcUlLen xml - 4).toNat = rtAlign16 xml.length := by
    have hnat := bjdcUlLen_toNat hfits
    rw [UInt32.toNat_sub_of_le _ _ (by rw [UInt32.le_iff_toNat_le, hnat]; exact Nat.le_add_left 4 _), hnat]
    exact Nat.add_sub_cancel _ 4
  have hread : ∀ i, (bjdcDelivered aes pBuffer (ccBjdcSendXmlpack aes xml).length).pData i =
      Function.update (overwrite pBuffer 12 (bjdcPadded xml)) (12 + rtAlign16 xml.length) 0
      (12 + i) := by
    intro i
    change bjdcDecrypted aes pBuffer (readUInt32 pBuffer 4) (12 + i) = _
    rw [hulLen]
    unfold bjdcDecrypted
    rw [hcount, ← bjdcData_length aes xml, hdata.map_range, decrypt_bjdcData haes]
  have hpadded : ∀ i < rtAlign16 xml.length,
      (bjdcDelivered aes pBuffer (ccBjdcSendXmlpack aes xml).length).pData i =
      (bjdcPadded xml).getD i 0 := by
    intro i hi
    have hlength := bjdcPadded_length xml
    rw [hread, Function.update_of_ne (by omega), overwrite, if_pos (Nat.le_add_right 12 i),
      Nat.add_sub_cancel_left,
      List.getD_eq_getElem _ _ (by omega), List.getD_eq_getElem _ _ (by omega)]
  refine ⟨fun i hi => ?_, ?_, hxml⟩
  · rw [hpadded i (by omega), bjdcPadded, List.getD_append _ _ _ _ hi, List.getD_eq_getElem _ _ hi]
  · rcases Nat.lt_or_eq_of_le hle with hlt | heq
    · rw [hpadded _ hlt, bjdcPadded, List.getD_append_right _ _ _ _ (Nat.le_refl _), Nat.sub_self,
        List.getD_eq_getElem _ _ (by rw [List.length_replicate]; omega), List.getElem_replicate]
    · rw [hread, ← heq, Function.update_self]

/-- A frame starts with the header. -/
theorem header_prefix_frame (aes : Aes) (xml : List UInt8) :
    bjdcFormat.half ++ bjdcFormat.half <+: ccBjdcSendXmlpack aes xml :=
      List.prefix_append (uint32Bytes ccBjdcPre) _

/-- A frame ends with the marker. -/
theorem marker_suffix_frame (aes : Aes) (xml : List UInt8) :
    bjdcFormat.marker <:+ ccBjdcSendXmlpack aes xml := by
  have hmarker : bjdcFormat.marker = uint32Bytes ccBjdcEom := rfl
  unfold ccBjdcSendXmlpack
  rw [hmarker]
  simp only [← List.append_assoc]
  exact List.suffix_append _ _

/-- A frame that was stored from the beginning of the buffer on lies there. -/
theorem BjdcCut.showsAt {left frame : List UInt8} {cut : (ℕ → UInt8) × ℕ}
    (h : BjdcCut (left ++ frame) cut)
    (hlength : (left ++ frame).length % ccBjdcBufSize = frame.length) :
    ShowsAt cut.1 0 frame ∧ cut.2 = frame.length := by
  refine ⟨fun i hi => ?_, h.2.trans hlength⟩
  rw [Nat.zero_add]
  exact h.1.tail (by decide) hlength i hi

/-- Chunks are received like the stream that they are cut from. -/
theorem ccBjdcPutBytes_flatten (aes : Aes) (r : BjdcReceiver) (chunks : List (List UInt8)) :
    chunks.foldl (ccBjdcPutBytes aes) r = ccBjdcPutBytes aes r chunks.flatten := List.foldl_flatten.symm

/-- A frame that fits the buffer and has the end marker at its end only, received by an idle
receiver in any chunks, makes it call the parser once, with the string that was sent, and leaves it
idle. -/
theorem bjdc_roundTrip (aes : Aes) (haes : aes.Inverts) (xml : List UInt8) (hxml : 0 ∉ xml)
    (r : BjdcReceiver)
    (hidle : r.Idle) (hfits : (ccBjdcSendXmlpack aes xml).length < ccBjdcBufSize)
    (honce : ∀ part, part <+: ccBjdcSendXmlpack aes xml → uint32Bytes ccBjdcEom <:+ part →
      part = ccBjdcSendXmlpack aes xml)
    (chunks : List (List UInt8)) (hchunks : chunks.flatten = ccBjdcSendXmlpack aes xml) :
    (chunks.foldl (ccBjdcPutBytes aes) r).Idle ∧
      ∃ xPack, (chunks.foldl (ccBjdcPutBytes aes) r).parsed = r.parsed ++ [xPack] ∧
        TextAt xPack.pData xml := by
  have hframe : bjdcFormat.IsFrame (ccBjdcSendXmlpack aes xml) :=
    ⟨header_prefix_frame aes xml, marker_suffix_frame aes xml, hfits, honce⟩
  have hleast : bjdcFormat.least ≤ (ccBjdcSendXmlpack aes xml).length := by
    rw [ccBjdcSendXmlpack_length]
    exact Nat.le_add_left 18 _
  obtain ⟨left, hscan, hlength⟩ := (bjdcFormat.scan_frame_whole hframe (s := .head []) rfl).1 hleast
  obtain ⟨hfollows, cuts, hcuts, hparsed⟩ := hidle.follows.run aes (ccBjdcSendXmlpack aes xml)
  rw [hscan] at hfollows hcuts
  rw [List.forall₂_cons_left_iff] at hcuts
  obtain ⟨⟨pBuffer, nPos⟩, rest, hcut, hrest, rfl⟩ := hcuts
  obtain rfl := List.forall₂_nil_left_iff.mp hrest
  obtain ⟨hshows, rfl⟩ := hcut.showsAt hlength
  rw [bjdcDeliveries_singleton, if_pos (bjdcAccepted_frame hfits hshows)] at hparsed
  rw [ccBjdcPutBytes_flatten, hchunks]
  exact ⟨⟨hfollows.2.2.1, hfollows.1⟩, _, hparsed, textAt_bjdcDelivered haes hxml hfits hshows⟩

/-- Whether a marker is complete before the end is decided for the first parts one by one. -/
theorem once_of_take {frame marker : List UInt8} (h : ∀ n < frame.length, ¬ marker <:+ frame.take n) :
    ∀ part, part <+: frame → marker <:+ part → part = frame := by
  intro part hpart hmarker
  by_contra hne
  have hlt : part.length < frame.length := by
    rcases Nat.lt_or_eq_of_le hpart.length_le with hlt | heq
    · exact hlt
    · exact absurd (hpart.eq_of_length heq) hne
  refine h part.length hlt ?_
  rwa [← List.prefix_iff_eq_take.mp hpart]

/-- A string. -/
def rootXml : List UInt8 := [60, 114, 111, 111, 116, 62, 60, 47, 114, 111, 111, 116, 62]

/-- The block that the string is encrypted to. -/
def rootCipher : List UInt8 :=
  [0xe6, 0x60, 0xc5, 0x96, 0xef, 0xdf, 0x38, 0x50, 0x6b, 0x39, 0xb8, 0xa4, 0x95, 0xcc, 0xa4, 0xd7]

/-- The two are exchanged. -/
def swapRoot (data : List UInt8) : List UInt8 :=
  if data = bjdcPadded rootXml then rootCipher else if data = rootCipher
    then bjdcPadded rootXml else data

theorem swapRoot_swapRoot (data : List UInt8) : swapRoot (swapRoot data) = data := by
  unfold swapRoot
  split
  · next h => rw [if_neg (by decide), if_pos rfl, h]
  · split
    · next h => rw [if_pos rfl, h]
    · rfl

theorem swapRoot_length (data : List UInt8) : (swapRoot data).length = data.length := by
  unfold swapRoot
  split
  · next h => rw [h]; rfl
  · split
    · next h => rw [h]; rfl
    · rfl

/-- A cipher that encrypts the string as the program does. -/
def rootAes : Aes := ⟨swapRoot, swapRoot, swapRoot_length, swapRoot_length⟩

theorem bjdc_roundTrip_root :
    ([(ccBjdcSendXmlpack rootAes rootXml).take 5, (ccBjdcSendXmlpack rootAes rootXml).drop 5].foldl
        (ccBjdcPutBytes rootAes) ⟨fun _ => 0, 0, .head, []⟩).Idle ∧
      ∃ xPack, ([(ccBjdcSendXmlpack rootAes rootXml).take 5,
      (ccBjdcSendXmlpack rootAes rootXml).drop 5].foldl
        (ccBjdcPutBytes rootAes) ⟨fun _ => 0, 0, .head, []⟩).parsed = [] ++ [xPack] ∧
          TextAt xPack.pData rootXml :=
  bjdc_roundTrip rootAes (fun data _ => swapRoot_swapRoot data) rootXml (by decide) ⟨fun _ => 0, 0,
    .head, []⟩ ⟨rfl, rfl⟩
    (by decide) (once_of_take (by decide +kernel))
    [(ccBjdcSendXmlpack rootAes rootXml).take 5, (ccBjdcSendXmlpack rootAes rootXml).drop 5]
    (by rw [List.flatten_cons, List.flatten_cons, List.flatten_nil, List.append_nil,
      List.take_append_drop])

end DasEdge.Sdccp

/-!
# What the check of a package is

`CC_GetCrc16` shifts its register by a byte and looks up what the byte that leaves adds. That is what the
eight steps of the polynomial do with the most significant bit first, so that it is the check of the whole
string.
-/

namespace DasEdge.Sdccp

open DasEdge.Library

/-- The polynomial of `CC_GetCrc16`. -/
def ccPoly : BitVec 16 := 0x1021#16

/-- The entries of the table are what eight steps make of the byte. -/
theorem ccTable_eq :
    ∀ n < 256, (ccTable.getD n 0).toBitVec = crcMsbByte ccPoly 0#16 (BitVec.ofNat 8 n) := by
  decide +kernel

/-- The step of `CC_GetCrc16` is a byte in the check. -/
theorem ccGetCrc16_step (crc : UInt16) (byte : UInt8) :
    ((crc <<< 8) ^^^ ccTable.getD (byte ^^^ (crc >>> 8).toUInt8).toNat 0).toBitVec =
      crcMsbByte ccPoly crc.toBitVec byte.toBitVec := by
  have htable := ccTable_eq _ (byte ^^^ (crc >>> 8).toUInt8).toNat_lt
  have hindex : BitVec.ofNat 8 (byte ^^^ (crc >>> 8).toUInt8).toNat =
      (crc.toBitVec >>> (16 - 8)).setWidth 8 ^^^ byte.toBitVec :=
    (BitVec.ofNat_toNat 8 (byte ^^^ (crc >>> 8).toUInt8).toBitVec).trans (BitVec.xor_comm _ _)
  rw [crcMsbByte_eq (by decide), UInt16.toBitVec_xor, htable, hindex, BitVec.xor_comm]
  rfl

/-- `CC_GetCrc16` is the check with its polynomial. -/
theorem ccGetCrc16_eq (pData : ℕ → UInt8) (ulLen : UInt32) :
    (ccGetCrc16 pData ulLen).toBitVec = crcMsb ccPoly 0#16 ((List.range ulLen.toNat).map pData) := by
  have hrun (places : List ℕ) (crc : UInt16) : (places.foldl (fun (crc : UInt16) i =>
      (crc <<< 8) ^^^ ccTable.getD (pData i ^^^ (crc >>> 8).toUInt8).toNat 0) crc).toBitVec =
        crcMsb ccPoly crc.toBitVec (places.map pData) := by
    induction places generalizing crc with
    | nil => rfl
    | cons i places ih => rw [List.foldl_cons, ih, ccGetCrc16_step]; rfl
  exact hrun (List.range ulLen.toNat) 0

/-- `CC_GetCrc16` over all bytes of a string. -/
def ccCrc16Of (m : List UInt8) : UInt16 := ccGetCrc16 (fun i => m.getD i 0) m.length.toUInt32

/-- It is the check of the string. -/
theorem ccCrc16Of_eq {m : List UInt8} (hlen : m.length < 2 ^ 32) :
    (ccCrc16Of m).toBitVec = crcMsb ccPoly 0#16 m := by
  have hbytes : (List.range m.length).map (fun i => m.getD i 0) = m := by
    apply List.ext_getElem
    · simp
    · intro i _ hi
      simp [hi]
  rw [ccCrc16Of, ccGetCrc16_eq, Nat.toUInt32_eq, UInt32.toNat_ofNat_of_lt' hlen, hbytes]

/-- `CC_GetCrc16` of a string whose length has 32 bits is the CRC-16 with the polynomial 0x1021 from zero
on, with the most significant bit first; with its high byte and then its low byte appended, while the
length still has 32 bits, the string has the check zero. -/
theorem ccGetCrc16_ccitt (m : List UInt8) (hlen : m.length < 2 ^ 32) :
    (ccCrc16Of m).toBitVec = crcMsb 0x1021#16 0#16 m ∧
      (m.length + 2 < 2 ^ 32 → ccCrc16Of (m ++ [(ccCrc16Of m >>> 8).toUInt8, (ccCrc16Of m).toUInt8]) = 0) := by
  refine ⟨ccCrc16Of_eq hlen, fun hmore => ?_⟩
  obtain ⟨crc, hcrc⟩ : ∃ crc, crc = ccCrc16Of m := ⟨_, rfl⟩
  have hregister : crcMsb ccPoly 0#16 m = crc.toBitVec := by rw [hcrc, ccCrc16Of_eq hlen]
  have happend : (m ++ [(crc >>> 8).toUInt8, crc.toUInt8]).length < 2 ^ 32 := by simpa using hmore
  rw [← hcrc, ← UInt16.toBitVec_inj, ccCrc16Of_eq happend, crcMsb, List.foldl_append]
  change crcMsb ccPoly (crcMsb ccPoly 0#16 m) _ = 0#16
  rw [hregister]
  exact crcMsbByte_trailer ccPoly crc.toBitVec

/-- The digits from 1 to 9. -/
theorem ccGetCrc16_ccitt_digits :
    (ccCrc16Of [0x31, 0x32, 0x33, 0x34, 0x35, 0x36, 0x37, 0x38, 0x39]).toBitVec =
        crcMsb 0x1021#16 0#16 [0x31, 0x32, 0x33, 0x34, 0x35, 0x36, 0x37, 0x38, 0x39] ∧
      ccCrc16Of ([0x31, 0x32, 0x33, 0x34, 0x35, 0x36, 0x37, 0x38, 0x39] ++ [0x31, 0xC3]) = 0 :=
  have hdigits := ccGetCrc16_ccitt [0x31, 0x32, 0x33, 0x34, 0x35, 0x36, 0x37, 0x38, 0x39] (by decide)
  ⟨hdigits.1, hdigits.2 (by decide)⟩

end DasEdge.Sdccp
