import DasEdge.Library.ChunkReads
import DasEdge.Sdccp.Dlt645

/-!
# Received chunks of DL/T 645

A chunk is searched for the first preamble, and what follows is looked at by fixed places and from
its end. Neither the length of the chunk nor the length byte of the frame is tested before that: a
chunk is read within its bounds, and passed on as a frame only, exactly when these two happen to
fit.
-/

namespace DasEdge.Sdccp

open DasEdge.Library

/-- The bit fields of a control byte. -/
def Dlt645C.ofByte (b : UInt8) : Dlt645C := ⟨b % 32, b / 32 % 2, b / 64 % 2, b / 128⟩

/-- The bit fields hold the whole byte. -/
theorem Dlt645C.byte_ofByte (b : UInt8) : (Dlt645C.ofByte b).byte = b := by
  have hlt := b.toNat_lt
  refine UInt8.toNat.inj ?_
  simp [Dlt645C.ofByte, Dlt645C.byte]
  omega

/-- `C_CODE_READ_ADDR` -/
def cCodeReadAddr : UInt8 := 0x13
/-- `C_CODE_SET_BAUD` -/
def cCodeSetBaud : UInt8 := 0x17
/-- `C_1997_CODE_SET_BAUD` -/
def c1997CodeSetBaud : UInt8 := 0x0c

/-- `S_DLT645_Package_t` as `Dlt645_PutBytes` fills it in, where `pData` is the chunk from the data
field on. -/
structure Dlt645Received where
  xAddr : Dlt645Addr
  xCon : Dlt645C
  btLen : UInt8
  pData : List UInt8

/-- What a package leads to: the address that is kept in `gDlt645Addr`, and the result that is sent. -/
structure Dlt645Parsed where
  gAddr : Option Dlt645Addr := none
  result : Option Dlt645Result := none

/-- `vPraseData` of a field that lies in a chunk. It looks at its bytes only where their number fits
the marker. -/
def vPraseDataAt (pData : List UInt8) (len : ℕ) (dataMark : UInt32) : Option (Option ℚ) :=
  if (vPraseData (List.replicate len 0) dataMark).isSome then
    (readSlice pData 0 len).map fun field => vPraseData field.1 dataMark
  else some none

/-- The same of `dlt645_1997.c`. -/
def vPraseData1997At (pData : List UInt8) (len : ℕ) (dataMark : UInt16) : Option (Option ℚ) :=
  if (vPraseData1997 (List.replicate len 0) dataMark).isSome then
    (readSlice pData 0 len).map fun field => vPraseData1997 field.1 dataMark
  else some none

/-- A byte that is copied and then printed only. -/
def readPrinted (pPack : Dlt645Received) : Option Dlt645Parsed :=
  if pPack.btLen = 1 then pPack.pData[0]?.map fun _ => {} else some {}

/-- `Dlt645_ParsePack` -/
def dlt645ParsePackAt (pPack : Dlt645Received) : Option Dlt645Parsed :=
  if pPack.xCon.dir ≠ cDirSlave ∨ pPack.xCon.ack ≠ cAckOk then readPrinted pPack
  else if pPack.xCon.cCode = cCodeReadAddr then
    if pPack.btLen = 6 then (readSlice pPack.pData 0 6).map fun addr => { gAddr := some addr }
      else some {}
  else if pPack.xCon.cCode = cCodeSetBaud then readPrinted pPack
  else if pPack.xCon.cCode = cCodeReadData ∧ 4 ≤ pPack.btLen then
    (readSlice pPack.pData 0 4).bind fun marker =>
      let dataMark := readUInt32 (fun i => marker.1.getD i 0) 0 - 0x33333333
      (vPraseDataAt (pPack.pData.drop 4) (pPack.btLen.toNat - 4) dataMark).map fun fdata =>
        { result := fdata.map fun val => ⟨pPack.xAddr, dataMark, val⟩ }
  else some {}

/-- `Dlt645_1997_ParsePack` -/
def dlt6451997ParsePackAt (pPack : Dlt645Received) : Option Dlt645Parsed :=
  if pPack.xCon.dir ≠ cDirSlave ∨ pPack.xCon.ack ≠ cAckOk then readPrinted pPack
  else if pPack.xCon.cCode = c1997CodeSetBaud then readPrinted pPack
  else if pPack.xCon.cCode = c1997CodeReadData ∧ 2 ≤ pPack.btLen then
    (readSlice pPack.pData 0 2).bind fun marker =>
      let dataMark := (marker.1.getD 0 0).toUInt16 + (marker.1.getD 1 0).toUInt16 * 0x100 - 0x3333
      (vPraseData1997At (pPack.pData.drop 2) (pPack.btLen.toNat - 2) dataMark).map fun fdata =>
        { result := fdata.map fun val => ⟨pPack.xAddr, dataMark.toUInt32, val⟩ }
  else some {}

/-- The chunk from the first preamble on. -/
def fromPre (pBytes : List UInt8) : List UInt8 := pBytes.dropWhile (· ≠ dlt645Pre)

/-- The package that ten bytes are copied into. -/
def receivedPack (pBytes : List UInt8) : Option Dlt645Received := do
  let xAddr ← readSlice pBytes 1 6
  let control ← pBytes[8]?
  let btLen ← pBytes[9]?
  return ⟨xAddr, Dlt645C.ofByte control, btLen, pBytes.drop 10⟩

/-- `PutBytes` of both variants, with the parser of the variant: the package that is passed on to
it, and what it leads to. -/
def dlt645PutBytesWith {β : Type} (parsePack : Dlt645Received → Option β) (pBytes : List UInt8) :
    Option (Option (Dlt645Received × β)) := do
  let pBytes := fromPre pBytes
  let first ← pBytes[0]?
  if first ≠ dlt645Pre then return none
  else
    let mid ← pBytes[7]?
    if mid ≠ dlt645Pre then return none
    else
      let last ← pBytes[pBytes.length - 1]?
      if last ≠ dlt645Eom then return none
      else
        let sum ← pBytes[pBytes.length - 2]?
        if checkSum (pBytes.take (pBytes.length - 2)) ≠ sum then return none
        else
          let pack ← receivedPack pBytes
          let parsed ← parsePack pack
          return some (pack, parsed)

/-- `Dlt645_PutBytes` -/
def dlt645PutBytes (pBytes : List UInt8) : Option (Option (Dlt645Received × Dlt645Parsed)) :=
  dlt645PutBytesWith dlt645ParsePackAt pBytes

/-- `Dlt645_1997_PutBytes` -/
def dlt6451997PutBytes (pBytes : List UInt8) : Option (Option (Dlt645Received × Dlt645Parsed)) :=
  dlt645PutBytesWith dlt6451997ParsePackAt pBytes

/-- The tests of `PutBytes` behind the preamble: the second mark, the end mark and the checksum. -/
def Dlt645Marked (bytes : List UInt8) : Prop :=
  bytes[7]? = some dlt645Pre ∧ bytes[bytes.length - 1]? = some dlt645Eom ∧
    bytes[bytes.length - 2]? = some (checkSum (bytes.take (bytes.length - 2)))

instance (bytes : List UInt8) : Decidable (Dlt645Marked bytes) :=
  inferInstanceAs (Decidable (_ ∧ _ ∧ _))

/-- A frame: its marks, its checksum, and as many data bytes as its length byte says. -/
def IsDlt645Frame (bytes : List UInt8) : Prop :=
  ∃ (xAddr : Dlt645Addr) (control : UInt8) (pData : List UInt8), pData.length < 256 ∧
    bytes = vCreatePaket xAddr (Dlt645C.ofByte control) pData

/-- There is a preamble with seven bytes behind it, and behind marks and a checksum that are right
the length byte tells the length. -/
def Dlt645Whole (pBytes : List UInt8) : Prop :=
  8 ≤ (fromPre pBytes).length ∧
    (Dlt645Marked (fromPre pBytes) → (fromPre pBytes).length = 12 + ((fromPre pBytes).getD 9 0).toNat)

instance (pBytes : List UInt8) : Decidable (Dlt645Whole pBytes) := inferInstanceAs (Decidable (_ ∧ _))

/-- What is found begins with the preamble. -/
theorem fromPre_head {pBytes : List UInt8} (h : fromPre pBytes ≠ []) :
    (fromPre pBytes)[0]? = some dlt645Pre := by
  have hhead := List.head_dropWhile_not (· ≠ dlt645Pre) h
  rw [← List.head?_eq_getElem?, List.head?_eq_some_head h]
  simpa [fromPre] using hhead

/-- Behind bytes that are no preamble a frame is found. -/
theorem fromPre_append {lead bytes : List UInt8} (hlead : ∀ b ∈ lead, b ≠ dlt645Pre)
    (hbytes : bytes[0]? = some dlt645Pre) :
    fromPre (lead ++ bytes) = bytes := by
  rw [fromPre, List.dropWhile_append_of_pos (by simpa using hlead)]
  obtain _ | ⟨first, bytes⟩ := bytes
  · rfl
  · obtain rfl : first = dlt645Pre := Option.some.inj hbytes
    exact List.dropWhile_cons_of_neg (by simp)

section PutBytes
variable {β : Type} (parsePack : Dlt645Received → Option β) {pBytes : List UInt8}

/-- With less than seven bytes behind the preamble, or without one, a read leaves the chunk. -/
theorem dlt645PutBytesWith_short (h : (fromPre pBytes).length < 8) :
    dlt645PutBytesWith parsePack pBytes = none := by
  rw [dlt645PutBytesWith]
  by_cases hempty : fromPre pBytes = []
  · rw [hempty]
    rfl
  · rw [fromPre_head hempty, List.getElem?_eq_none (Nat.le_of_lt_succ h)]
    rfl

/-- Wrong marks and a wrong checksum are turned down. -/
theorem dlt645PutBytesWith_unmarked (h : 8 ≤ (fromPre pBytes).length)
    (hmarked : ¬ Dlt645Marked (fromPre pBytes)) :
    dlt645PutBytesWith parsePack pBytes = some none := by
  have hempty : fromPre pBytes ≠ [] := List.length_pos_iff.mp (Nat.lt_of_lt_of_le (by decide) h)
  obtain ⟨mid, hmid⟩ := exists_getElem? (show 7 < (fromPre pBytes).length from h)
  obtain ⟨last, hlast⟩ :=
    exists_getElem? (show (fromPre pBytes).length - 1 < (fromPre pBytes).length by omega)
  obtain ⟨sum, hsum⟩ :=
    exists_getElem? (show (fromPre pBytes).length - 2 < (fromPre pBytes).length by omega)
  simp only [Dlt645Marked, hmid, hlast, hsum, Option.some.injEq] at hmarked
  simp only [dlt645PutBytesWith, fromPre_head hempty, hmid, hlast, hsum, Option.bind_eq_bind,
    Option.bind_some]
  rw [if_neg (not_not.mpr rfl)]
  split_ifs with h1 h2 h3
  · rfl
  · rfl
  · rfl
  · exact absurd ⟨not_not.mp h1, not_not.mp h2, (not_not.mp h3).symm⟩ hmarked

/-- Bytes that pass the tests are copied and passed on. -/
theorem dlt645PutBytesWith_marked (h : 8 ≤ (fromPre pBytes).length)
    (hmarked : Dlt645Marked (fromPre pBytes)) :
    dlt645PutBytesWith parsePack pBytes =
      (receivedPack (fromPre pBytes)).bind fun pack => (parsePack pack).map fun parsed =>
      some (pack, parsed) := by
  have hempty : fromPre pBytes ≠ [] := List.length_pos_iff.mp (Nat.lt_of_lt_of_le (by decide) h)
  obtain ⟨hmid, hlast, hsum⟩ := hmarked
  simp only [dlt645PutBytesWith, fromPre_head hempty, hmid, hlast, hsum, Option.bind_eq_bind,
    Option.bind_some]
  rw [if_neg (not_not.mpr rfl), if_neg (not_not.mpr rfl), if_neg (not_not.mpr rfl),
    if_neg (not_not.mpr rfl)]
  simp only [Option.pure_def, Option.map_eq_bind, Function.comp_def]

end PutBytes

/-- A packet has its preamble in front, passes the tests, and has the address, the control byte, the
length and the data in their places. -/
theorem vCreatePaket_received (xAddr : Dlt645Addr) (xCon : Dlt645C) (pData : List UInt8) :
    (vCreatePaket xAddr xCon pData)[0]? = some dlt645Pre ∧
      Dlt645Marked (vCreatePaket xAddr xCon pData) ∧
      (vCreatePaket xAddr xCon pData).length = 12 + pData.length ∧
      (vCreatePaket xAddr xCon pData)[9]? = some (UInt8.ofNat pData.length) ∧
      ∃ tail, receivedPack (vCreatePaket xAddr xCon pData) =
          some ⟨xAddr, Dlt645C.ofByte xCon.byte, UInt8.ofNat pData.length, pData ++ tail⟩ := by
  obtain ⟨addr, haddr⟩ := xAddr
  obtain ⟨a1, a2, a3, a4, a5, a6, rfl⟩ : ∃ a1 a2 a3 a4 a5 a6, addr = [a1, a2, a3, a4, a5, a6] := by
    match addr, haddr with
    | [a1, a2, a3, a4, a5, a6], _ => exact ⟨a1, a2, a3, a4, a5, a6, rfl⟩
  refine ⟨rfl, ⟨rfl, (getElem?_last_two _ _ _).2, ?_⟩, ?_, rfl, _, rfl⟩
  · rw [vCreatePaket, take_last_two]
    exact (getElem?_last_two _ _ _).1
  · simp [vCreatePaket]
    omega

/-- Bytes that pass the tests, and are as many as the length byte says, are a frame. -/
theorem isDlt645Frame_of_marked {bytes : List UInt8} (hpre : bytes[0]? = some dlt645Pre)
    (hmarked : Dlt645Marked bytes)
    (hlength : bytes.length = 12 + (bytes.getD 9 0).toNat) : IsDlt645Frame bytes := by
  obtain ⟨body, sum, eom, hbody, hbodyLength⟩ := exists_last_two (show 2 ≤ bytes.length by omega)
  obtain ⟨hmid, heom, hsum⟩ := hmarked
  rw [hbody, (getElem?_last_two _ _ _).2] at heom
  rw [hbody, take_last_two, (getElem?_last_two _ _ _).1] at hsum
  obtain rfl := Option.some.inj heom
  obtain rfl := Option.some.inj hsum
  have hten : 10 ≤ body.length := by omega
  have hget (i : ℕ) (hi : i < 10) : bytes[i]? = body[i]? := by
    rw [hbody, List.getElem?_append_left (by omega)]
  match body, hten with
  | p :: a1 :: a2 :: a3 :: a4 :: a5 :: a6 :: m :: control :: btLen :: pData, _ =>
    obtain rfl : p = dlt645Pre := Option.some.inj ((hget 0 (by decide)).symm.trans hpre)
    obtain rfl : m = dlt645Pre := Option.some.inj ((hget 7 (by decide)).symm.trans hmid)
    have hbtLen : bytes.getD 9 0 = btLen := by
      rw [List.getD_eq_getElem?_getD, hget 9 (by decide)]
      rfl
    have hpData : pData.length = btLen.toNat := by
      rw [hbtLen] at hlength
      simp only [List.length_cons] at hbodyLength
      omega
    refine ⟨⟨[a1, a2, a3, a4, a5, a6], rfl⟩, control, pData, ?_, ?_⟩
    · rw [hpData]
      exact btLen.toNat_lt
    · rw [hbody, vCreatePaket, Dlt645C.byte_ofByte, hpData, UInt8.ofNat_toNat]
      rfl

/-- Whether there is a value depends on the number of bytes only. -/
theorem vPraseData_isSome_congr {pData pData' : List UInt8} (h : pData.length = pData'.length)
    (dataMark : UInt32) :
    (vPraseData pData dataMark).isSome = (vPraseData pData' dataMark).isSome := by
  simp only [vPraseData, h, apply_ite Option.isSome, Option.isSome_some, Option.isSome_none]

/-- The same of the variant of 1997. -/
theorem vPraseData1997_isSome_congr {pData pData' : List UInt8} (h : pData.length = pData'.length)
    (dataMark : UInt16) :
    (vPraseData1997 pData dataMark).isSome = (vPraseData1997 pData' dataMark).isSome := by
  simp only [vPraseData1997, h, apply_ite Option.isSome, Option.isSome_some, Option.isSome_none]

/-- A field that lies in the chunk gives the value of its bytes. -/
theorem vPraseDataAt_eq {pData : List UInt8} {len : ℕ} (h : len ≤ pData.length) (dataMark : UInt32) :
    vPraseDataAt pData len dataMark = some (vPraseData (pData.take len) dataMark) := by
  obtain ⟨field, hfield, hbytes⟩ := readSlice_of_le (show 0 + len ≤ pData.length by omega)
  have hlength : (List.replicate len (0 : UInt8)).length = (pData.take len).length := by simp [h]
  rw [vPraseDataAt, hfield, vPraseData_isSome_congr hlength, Option.map_some, hbytes, List.drop_zero]
  split
  · rfl
  · next hnone => rw [Option.not_isSome_iff_eq_none.mp hnone]

/-- The same of the variant of 1997. -/
theorem vPraseData1997At_eq {pData : List UInt8} {len : ℕ} (h : len ≤ pData.length)
    (dataMark : UInt16) :
    vPraseData1997At pData len dataMark = some (vPraseData1997 (pData.take len) dataMark) := by
  obtain ⟨field, hfield, hbytes⟩ := readSlice_of_le (show 0 + len ≤ pData.length by omega)
  have hlength : (List.replicate len (0 : UInt8)).length = (pData.take len).length := by simp [h]
  rw [vPraseData1997At, hfield, vPraseData1997_isSome_congr hlength, Option.map_some, hbytes,
    List.drop_zero]
  split
  · rfl
  · next hnone => rw [Option.not_isSome_iff_eq_none.mp hnone]

/-- A byte is printed where there is one. -/
theorem readPrinted_eq {pPack : Dlt645Received} (h : pPack.btLen.toNat ≤ pPack.pData.length) :
    readPrinted pPack = some {} := by
  rw [readPrinted]
  split
  · next hone =>
    rw [hone] at h
    obtain ⟨b, hb⟩ := exists_getElem? h
    rw [hb, Option.map_some]
  · rfl

/-- The package of the data bytes that the length byte tells. -/
def Dlt645Received.package (pPack : Dlt645Received) : Dlt645Package :=
  ⟨pPack.xAddr, pPack.xCon, pPack.pData.take pPack.btLen.toNat⟩

@[simp] theorem Dlt645Received.package_xCon (pPack : Dlt645Received) :
    pPack.package.xCon = pPack.xCon := rfl

/-- Without a code and bytes to read there is no result. -/
theorem dlt645ParsePack_eq_none {pPack : Dlt645Package}
    (h : ¬ (pPack.xCon.cCode = cCodeReadData ∧ 4 ≤ pPack.pData.length)) :
    dlt645ParsePack pPack = none := by
  rw [dlt645ParsePack, if_neg h, ite_self]

/-- The same of the variant of 1997. -/
theorem dlt6451997ParsePack_eq_none {pPack : Dlt645Package}
    (h : ¬ (pPack.xCon.cCode = c1997CodeReadData ∧ 2 ≤ pPack.pData.length)) :
    dlt6451997ParsePack pPack = none := by
  rw [dlt6451997ParsePack, if_neg h, ite_self]

/-- A package that has all bytes of its data field is parsed inside them, and sends the result of
these bytes. -/
theorem dlt645ParsePackAt_result {pPack : Dlt645Received} (h : pPack.btLen.toNat ≤ pPack.pData.length) :
    ∃ parsed, dlt645ParsePackAt pPack = some parsed ∧
      parsed.result = (dlt645ParsePack pPack.package).bind Prod.snd := by
  have hlength : pPack.package.pData.length = pPack.btLen.toNat := by
    rw [Dlt645Received.package, List.length_take, Nat.min_eq_left h]
  have hnone (hcode : pPack.xCon.cCode ≠ cCodeReadData) : dlt645ParsePack pPack.package = none :=
    dlt645ParsePack_eq_none fun hread => hcode hread.1
  rw [dlt645ParsePackAt]
  by_cases hslave : pPack.xCon.dir ≠ cDirSlave ∨ pPack.xCon.ack ≠ cAckOk
  · rw [if_pos hslave, dlt645ParsePack, pPack.package_xCon, if_pos hslave]
    exact ⟨{}, readPrinted_eq h, rfl⟩
  rw [if_neg hslave]
  by_cases haddr : pPack.xCon.cCode = cCodeReadAddr
  · rw [if_pos haddr, hnone (by rw [haddr]; decide)]
    split
    · next hsix =>
      rw [hsix] at h
      obtain ⟨addr, hread, -⟩ := readSlice_of_le (show 0 + 6 ≤ pPack.pData.length from h)
      exact ⟨_, by rw [hread, Option.map_some], rfl⟩
    · exact ⟨{}, rfl, rfl⟩
  rw [if_neg haddr]
  by_cases hbaud : pPack.xCon.cCode = cCodeSetBaud
  · rw [if_pos hbaud, hnone (by rw [hbaud]; decide)]
    exact ⟨{}, readPrinted_eq h, rfl⟩
  rw [if_neg hbaud]
  have hfour : (4 : UInt8) ≤ pPack.btLen ↔ 4 ≤ pPack.package.pData.length := by
    rw [hlength, UInt8.le_iff_toNat_le]
    rfl
  by_cases hread : pPack.xCon.cCode = cCodeReadData ∧ 4 ≤ pPack.btLen
  · have hle : 4 ≤ pPack.btLen.toNat := hlength ▸ hfour.mp hread.2
    rw [if_pos hread, dlt645ParsePack, pPack.package_xCon, if_neg hslave,
      if_pos ⟨hread.1, hfour.mp hread.2⟩]
    obtain ⟨k, hk⟩ := Nat.exists_eq_add_of_le' hle
    match hdata : pPack.pData, (hle.trans h : 4 ≤ pPack.pData.length) with
    | m0 :: m1 :: m2 :: m3 :: rest, _ =>
      have hrest : k ≤ rest.length := by
        rw [hk, hdata] at h
        exact Nat.le_of_add_le_add_right h
      have hmarker := readSlice_middle [] rest ⟨[m0, m1, m2, m3], rfl⟩
      rw [Dlt645Received.package, hdata, hk, Nat.add_sub_cancel,
        show readSlice (m0 :: m1 :: m2 :: m3 :: rest) 0 4 = _ from hmarker,
        Option.bind_some]
      simp only [List.drop_succ_cons, List.drop_zero, vPraseDataAt_eq hrest]
      exact ⟨_, rfl, rfl⟩
  · rw [if_neg hread, dlt645ParsePack_eq_none (by rwa [hfour] at hread)]
    exact ⟨{}, rfl, rfl⟩

/-- The same of the variant of 1997. -/
theorem dlt6451997ParsePackAt_result {pPack : Dlt645Received}
    (h : pPack.btLen.toNat ≤ pPack.pData.length) :
    ∃ parsed, dlt6451997ParsePackAt pPack = some parsed ∧
      parsed.result = (dlt6451997ParsePack pPack.package).bind Prod.snd := by
  have hlength : pPack.package.pData.length = pPack.btLen.toNat := by
    rw [Dlt645Received.package, List.length_take, Nat.min_eq_left h]
  rw [dlt6451997ParsePackAt]
  by_cases hslave : pPack.xCon.dir ≠ cDirSlave ∨ pPack.xCon.ack ≠ cAckOk
  · rw [if_pos hslave, dlt6451997ParsePack, pPack.package_xCon, if_pos hslave]
    exact ⟨{}, readPrinted_eq h, rfl⟩
  rw [if_neg hslave]
  by_cases hbaud : pPack.xCon.cCode = c1997CodeSetBaud
  · rw [if_pos hbaud, dlt6451997ParsePack_eq_none fun hread => absurd (hbaud.symm.trans hread.1)
      (by decide)]
    exact ⟨{}, readPrinted_eq h, rfl⟩
  rw [if_neg hbaud]
  have htwo : (2 : UInt8) ≤ pPack.btLen ↔ 2 ≤ pPack.package.pData.length := by
    rw [hlength, UInt8.le_iff_toNat_le]
    rfl
  by_cases hread : pPack.xCon.cCode = c1997CodeReadData ∧ 2 ≤ pPack.btLen
  · have hle : 2 ≤ pPack.btLen.toNat := hlength ▸ htwo.mp hread.2
    rw [if_pos hread, dlt6451997ParsePack, pPack.package_xCon, if_neg hslave,
      if_pos ⟨hread.1, htwo.mp hread.2⟩]
    obtain ⟨k, hk⟩ := Nat.exists_eq_add_of_le' hle
    match hdata : pPack.pData, (hle.trans h : 2 ≤ pPack.pData.length) with
    | m0 :: m1 :: rest, _ =>
      have hrest : k ≤ rest.length := by
        rw [hk, hdata] at h
        exact Nat.le_of_add_le_add_right h
      have hmarker : readSlice (m0 :: m1 :: rest) 0 2 = _ := readSlice_middle [] rest ⟨[m0, m1], rfl⟩
      rw [Dlt645Received.package, hdata, hk, Nat.add_sub_cancel, hmarker, Option.bind_some]
      simp only [List.drop_succ_cons, List.drop_zero, vPraseData1997At_eq hrest]
      exact ⟨_, rfl, rfl⟩
  · rw [if_neg hread, dlt6451997ParsePack_eq_none (by rwa [htwo] at hread)]
    exact ⟨{}, rfl, rfl⟩

/-- A chunk is read within its bounds, and what is passed on is a frame from the first preamble to
the end. -/
def ReadAsFrame {β : Type} (putBytes : List UInt8 → Option (Option (Dlt645Received × β)))
    (pBytes : List UInt8) : Prop :=
  ∃ passed, putBytes pBytes = some passed ∧ (passed.isSome → IsDlt645Frame (fromPre pBytes))

/-- A packet with at most 50 data bytes, behind bytes that are no preamble, is accepted with its
address, control byte and data. -/
def AcceptsPackets {β : Type} (putBytes : List UInt8 → Option (Option (Dlt645Received × β))) : Prop :=
  ∀ (lead : List UInt8) (xAddr : Dlt645Addr) (xCon : Dlt645C) (pData : List UInt8),
    (∀ b ∈ lead, b ≠ dlt645Pre) →
    pData.length ≤ 50 → ∃ pack parsed, putBytes (lead ++ vCreatePaket xAddr xCon pData) =
      some (some (pack, parsed)) ∧
      pack.xAddr = xAddr ∧ pack.xCon.byte = xCon.byte ∧ pack.package.pData = pData

/-- A frame has its preamble in front, passes the tests, and is as long as its length byte tells. -/
theorem IsDlt645Frame.length_eq {bytes : List UInt8} (h : IsDlt645Frame bytes) :
    bytes.length = 12 + (bytes.getD 9 0).toNat := by
  obtain ⟨xAddr, control, pData, hlt, rfl⟩ := h
  obtain ⟨-, -, hlength, hbtLen, -⟩ := vCreatePaket_received xAddr (Dlt645C.ofByte control) pData
  rw [hlength, List.getD_eq_getElem?_getD, hbtLen, Option.getD_some, UInt8.toNat_ofNat',
    Nat.mod_eq_of_lt hlt]

section PutBytes
variable {β : Type} {parsePack : Dlt645Received → Option β}
  (hparse : ∀ pPack : Dlt645Received, pPack.btLen.toNat ≤ pPack.pData.length →
    ∃ parsed, parsePack pPack = some parsed)
include hparse

/-- With a parser that stays in the data field, a packet behind bytes that are no preamble is passed
on with what it was made of. -/
theorem dlt645PutBytesWith_packet {lead : List UInt8} (hlead : ∀ b ∈ lead, b ≠ dlt645Pre)
    (xAddr : Dlt645Addr) (xCon : Dlt645C)
    {pData : List UInt8} (hlt : pData.length < 256) :
    ∃ pack parsed, dlt645PutBytesWith parsePack (lead ++ vCreatePaket xAddr xCon pData) =
      some (some (pack, parsed)) ∧
      pack.xAddr = xAddr ∧ pack.xCon.byte = xCon.byte ∧ pack.package.pData = pData := by
  obtain ⟨hpre, hmarked, hlength, -, tail, hreceived⟩ := vCreatePaket_received xAddr xCon pData
  have hfrom := fromPre_append hlead hpre
  have hbtLen : (UInt8.ofNat pData.length).toNat = pData.length := by
    rw [UInt8.toNat_ofNat', Nat.mod_eq_of_lt hlt]
  let pack : Dlt645Received :=
    ⟨xAddr, Dlt645C.ofByte xCon.byte, UInt8.ofNat pData.length, pData ++ tail⟩
  obtain ⟨parsed, hparsed⟩ := hparse pack (by
    rw [hbtLen, List.length_append]
    exact Nat.le_add_right _ _)
  refine ⟨pack, parsed, ?_, rfl, Dlt645C.byte_ofByte _, ?_⟩
  · rw [dlt645PutBytesWith_marked parsePack (by rw [hfrom, hlength]; omega) (by rwa [hfrom]), hfrom,
      hreceived, Option.bind_some,
      hparsed, Option.map_some]
  · rw [Dlt645Received.package, hbtLen]
    exact List.take_left

/-- With a parser that stays in the data field, chunks are read as frames exactly when they are
whole. -/
theorem readAsFrame_iff (pBytes : List UInt8) : ReadAsFrame (dlt645PutBytesWith parsePack) pBytes ↔
    Dlt645Whole pBytes := by
  constructor
  · rintro ⟨passed, hpassed, hframe⟩
    have hlong : 8 ≤ (fromPre pBytes).length := by
      by_contra hshort
      rw [dlt645PutBytesWith_short parsePack (Nat.lt_of_not_le hshort)] at hpassed
      exact absurd hpassed.symm (Option.some_ne_none passed)
    refine ⟨hlong, fun hmarked => (hframe ?_).length_eq⟩
    rw [dlt645PutBytesWith_marked parsePack hlong hmarked] at hpassed
    obtain ⟨pack, -, hparsed⟩ := Option.bind_eq_some_iff.mp hpassed
    obtain ⟨parsed, -, rfl⟩ := Option.map_eq_some_iff.mp hparsed
    rfl
  · rintro ⟨hlong, hlength⟩
    by_cases hmarked : Dlt645Marked (fromPre pBytes)
    · have hempty : fromPre pBytes ≠ [] := List.length_pos_iff.mp (Nat.lt_of_lt_of_le (by decide) hlong)
      have hframe := isDlt645Frame_of_marked (fromPre_head hempty) hmarked (hlength hmarked)
      refine Exists.imp (fun passed hpassed => ⟨hpassed, fun _ => hframe⟩) ?_
      obtain ⟨xAddr, control, pData, hlt, hbytes⟩ := hframe
      have hlead : ∀ b ∈ pBytes.takeWhile (· ≠ dlt645Pre), b ≠ dlt645Pre := fun b hb => by
        simpa using List.mem_takeWhile_imp hb
      obtain ⟨pack, parsed, hpassed, -⟩ :=
        dlt645PutBytesWith_packet hparse hlead xAddr (Dlt645C.ofByte control) hlt
      rw [← hbytes, fromPre, List.takeWhile_append_dropWhile] at hpassed
      exact ⟨some (pack, parsed), hpassed⟩
    · exact ⟨none, dlt645PutBytesWith_unmarked parsePack hlong hmarked, fun h => nomatch h⟩

end PutBytes

/-- The parser stays in the data field. -/
theorem dlt645ParsePackAt_exists (pPack : Dlt645Received) (h : pPack.btLen.toNat ≤ pPack.pData.length) :
    ∃ parsed, dlt645ParsePackAt pPack = some parsed :=
  (dlt645ParsePackAt_result h).imp fun _ => And.left

/-- The same of the variant of 1997. -/
theorem dlt6451997ParsePackAt_exists (pPack : Dlt645Received)
    (h : pPack.btLen.toNat ≤ pPack.pData.length) :
    ∃ parsed, dlt6451997ParsePackAt pPack = some parsed :=
  (dlt6451997ParsePackAt_result h).imp fun _ => And.left

/-- Both variants read chunks as frames exactly when they are whole, and accept all packets. -/
theorem dlt645PutBytes_readAsFrame_iff (pBytes : List UInt8) :
    (ReadAsFrame dlt645PutBytes pBytes ↔ Dlt645Whole pBytes) ∧
      (ReadAsFrame dlt6451997PutBytes pBytes ↔ Dlt645Whole pBytes) ∧
      AcceptsPackets dlt645PutBytes ∧ AcceptsPackets dlt6451997PutBytes := by
  refine ⟨?_, ?_, fun lead xAddr xCon pData hlead hle => ?_, fun lead xAddr xCon pData hlead hle => ?_⟩
  · exact readAsFrame_iff dlt645ParsePackAt_exists pBytes
  · exact readAsFrame_iff dlt6451997ParsePackAt_exists pBytes
  · exact dlt645PutBytesWith_packet dlt645ParsePackAt_exists hlead xAddr xCon (by omega)
  · exact dlt645PutBytesWith_packet dlt6451997ParsePackAt_exists hlead xAddr xCon (by omega)

/-- A chunk with its marks and its checksum right, whose length byte tells eight data bytes where
there are four, is passed on. -/
theorem not_readAsFrame_shortData : ¬ ∀ pBytes, ReadAsFrame dlt645PutBytes pBytes := by
  intro h
  have hwhole := (readAsFrame_iff dlt645ParsePackAt_exists _).mp
    (h [0xfe, 0x68, 0x96, 0x58, 0x72, 0x10, 0x16, 0x04, 0x68, 0x91, 0x08, 0x33, 0x34, 0x34, 0x35,
      0xc3, 0x16])
  revert hwhole
  decide

end DasEdge.Sdccp

/-!
# Data markers on the wire

The protocol adds `0x33` to each byte of a marker. The code adds it to the whole word, so that a
byte that overflows carries into the next one, when it sends as well as when it receives. A marker
is sent and recovered as the protocol demands exactly when none of its lower bytes overflows.
-/

namespace DasEdge.Sdccp

open DasEdge.Library

/-- The bytes of a marker on the wire. -/
def plus33 (bytes : List UInt8) : List UInt8 := bytes.map (· + 0x33)

/-- A reply with data: it comes from the slave, and is no error. -/
def IsReply (pPack : Dlt645Package) (cCode : UInt8) : Prop :=
  pPack.xCon.dir = cDirSlave ∧ pPack.xCon.ack = cAckOk ∧ pPack.xCon.cCode = cCode

/-- The request carries the bytes of the marker, and a reply that carries them is read as one for
the marker. -/
def MarkerOnWire (marker : UInt32) : Prop :=
  (∀ xaddr, ((bDlt645ReadData xaddr marker).drop 10).take 4 = plus33 (uint32Bytes marker)) ∧
    ∀ (pPack : Dlt645Package) (rest : List UInt8), IsReply pPack cCodeReadData →
      pPack.pData = plus33 (uint32Bytes marker) ++ rest →
      (dlt645ParsePack pPack).map Prod.fst = some marker

/-- The same of the variant of 1997. -/
def MarkerOnWire1997 (marker : UInt16) : Prop :=
  (∀ xaddr, ((bDlt6451997ReadData xaddr marker).drop 10).take 2 = plus33 (uint16Bytes marker)) ∧
    ∀ (pPack : Dlt645Package) (rest : List UInt8), IsReply pPack c1997CodeReadData →
      pPack.pData = plus33 (uint16Bytes marker) ++ rest → (dlt6451997ParsePack pPack).map Prod.fst =
      some marker

/-- The data field of a packet. -/
theorem vCreatePaket_data (xAddr : Dlt645Addr) (xCon : Dlt645C) (pData : List UInt8) :
    ((vCreatePaket xAddr xCon pData).drop 10).take pData.length = pData := by
  obtain ⟨addr, haddr⟩ := xAddr
  have hhead : ([dlt645Pre] ++ addr ++ [dlt645Pre, xCon.byte, UInt8.ofNat pData.length]).length =
    10 := by simp [haddr]
  rw [vCreatePaket]
  simp only [List.append_assoc _ pData]
  rw [List.drop_left' hhead, List.take_left' rfl]

/-- The word is added byte by byte if and only if no lower byte carries. -/
theorem uint32Bytes_plus33_iff (marker : UInt32) :
    uint32Bytes (marker + 0x33333333) = plus33 (uint32Bytes marker) ↔
      ∀ b ∈ (uint32Bytes marker).take 3, b ≤ 0xCC := by
  have hlt := marker.toNat_lt
  simp only [uint32Bytes, plus33, List.map_cons, List.map_nil, List.cons.injEq, and_true,
    List.take_succ_cons, List.take_zero,
    List.forall_mem_cons, List.not_mem_nil, false_implies, implies_true, ← UInt8.toNat_inj,
    UInt8.le_iff_toNat_le]
  simp [Nat.shiftRight_eq_div_pow]
  omega

/-- The same of a word of 16 bits. -/
theorem uint16Bytes_plus33_iff (marker : UInt16) :
    uint16Bytes (marker + 0x3333) = plus33 (uint16Bytes marker) ↔ ∀ b ∈ (uint16Bytes marker).take 1,
      b ≤ 0xCC := by
  have hlt := marker.toNat_lt
  simp only [uint16Bytes, plus33, List.map_cons, List.map_nil, List.cons.injEq, and_true,
    List.take_succ_cons, List.take_zero,
    List.forall_mem_cons, List.not_mem_nil, false_implies, implies_true, ← UInt8.toNat_inj,
    UInt8.le_iff_toNat_le]
  simp [Nat.shiftRight_eq_div_pow]
  omega

/-- A list shows its bytes from its start on. -/
theorem showsAt_append_getD (bytes rest : List UInt8) :
    ShowsAt (fun i => (bytes ++ rest).getD i 0) 0 bytes := by
  intro i hi
  rw [Nat.zero_add]
  change (bytes ++ rest).getD i 0 = bytes[i]
  rw [List.getD_eq_getElem?_getD, List.getElem?_append_left hi, List.getElem?_eq_getElem hi,
    Option.getD_some]

/-- A marker is on the wire as the protocol demands exactly when adding to the word is adding to the
bytes. -/
theorem markerOnWire_iff_bytes (marker : UInt32) :
    MarkerOnWire marker ↔ uint32Bytes (marker + 0x33333333) = plus33 (uint32Bytes marker) := by
  have hrequest (xaddr : Dlt645Addr) : ((bDlt645ReadData xaddr marker).drop 10).take 4 =
      uint32Bytes (marker + 0x33333333) :=
    vCreatePaket_data xaddr _ (uint32Bytes (marker + 0x33333333))
  constructor
  · rintro ⟨hsent, -⟩
    rw [← hrequest ⟨List.replicate 6 0, rfl⟩, hsent]
  · intro hbytes
    refine ⟨fun xaddr => (hrequest xaddr).trans hbytes, fun pPack rest hreply hdata => ?_⟩
    obtain ⟨hdir, hack, hcode⟩ := hreply
    have hlen : 4 ≤ pPack.pData.length := by
      rw [hdata, List.length_append]
      exact Nat.le_add_right 4 _
    have hread : readUInt32 (fun i => pPack.pData.getD i 0) 0 = marker + 0x33333333 := by
      rw [readUInt32_eq_iff, hbytes, hdata]
      exact showsAt_append_getD _ rest
    rw [dlt645ParsePack, if_neg (by simp [hdir, hack]), if_pos ⟨hcode, hlen⟩, Option.map_some,
      hread, UInt32.add_sub_cancel]

/-- The same of the variant of 1997. -/
theorem markerOnWire1997_iff_bytes (marker : UInt16) :
    MarkerOnWire1997 marker ↔ uint16Bytes (marker + 0x3333) = plus33 (uint16Bytes marker) := by
  have hlow : (uint32Bytes (marker.toUInt32 + 0x3333)).take 2 = uint16Bytes (marker + 0x3333) := by
    have hlt := marker.toNat_lt
    simp only [uint32Bytes, uint16Bytes, List.take_succ_cons, List.take_zero, List.cons.injEq,
      and_true, ← UInt8.toNat_inj]
    simp [Nat.shiftRight_eq_div_pow]
    omega
  have hrequest (xaddr : Dlt645Addr) : ((bDlt6451997ReadData xaddr marker).drop 10).take 2 =
      uint16Bytes (marker + 0x3333) := by
    rw [bDlt6451997ReadData, hlow]
    exact vCreatePaket_data xaddr _ (uint16Bytes (marker + 0x3333))
  constructor
  · rintro ⟨hsent, -⟩
    rw [← hrequest ⟨List.replicate 6 0, rfl⟩, hsent]
  · intro hbytes
    refine ⟨fun xaddr => (hrequest xaddr).trans hbytes, fun pPack rest hreply hdata => ?_⟩
    obtain ⟨hdir, hack, hcode⟩ := hreply
    have hlen : 2 ≤ pPack.pData.length := by
      rw [hdata, List.length_append]
      exact Nat.le_add_right 2 _
    have hread : (pPack.pData.getD 0 0).toUInt16 + (pPack.pData.getD 1 0).toUInt16 * 0x100 =
        marker + 0x3333 := by
      refine (uint16_eq_iff (fun i => pPack.pData.getD i 0) 0 _).mpr ?_
      rw [hbytes, hdata]
      exact showsAt_append_getD _ rest
    rw [dlt6451997ParsePack, if_neg (by simp [hdir, hack]), if_pos ⟨hcode, hlen⟩, Option.map_some,
      hread, UInt16.add_sub_cancel]

/-- Markers are sent and recovered byte by byte if and only if their lower bytes do not overflow. -/
theorem markerOnWire_iff (marker : UInt32) (marker1997 : UInt16) :
    (MarkerOnWire marker ↔ ∀ b ∈ (uint32Bytes marker).take 3, b ≤ 0xCC) ∧
      (MarkerOnWire1997 marker1997 ↔ ∀ b ∈ (uint16Bytes marker1997).take 1, b ≤ 0xCC) :=
  ⟨(markerOnWire_iff_bytes marker).trans (uint32Bytes_plus33_iff marker),
    (markerOnWire1997_iff_bytes marker1997).trans (uint16Bytes_plus33_iff marker1997)⟩

/-- The block of the voltages, whose second byte is `0xFF`, is asked for with another byte in its
place. -/
theorem not_markerOnWire_block : ¬ ∀ marker, MarkerOnWire marker := by
  intro h
  have hsent := (h 0x0201FF00).1 ⟨List.replicate 6 0, rfl⟩
  revert hsent
  decide +kernel

end DasEdge.Sdccp
