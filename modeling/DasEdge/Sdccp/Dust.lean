import DasEdge.Library.ChunkReads
import DasEdge.Library.HostWords
import DasEdge.Sdccp.Dlt645

/-!
# The dust meter

The replies of `sdccp_dust.c`. A chunk is searched for the two bytes of the header, its checksum is
taken over all bytes up to the last one, and the kind of the reply is told by the length byte alone.
-/

namespace DasEdge.Sdccp

open DasEdge.Library

/-- `DUST_PRE1` -/
def dustPre1 : UInt8 := 0xff
/-- `DUST_PRE2` -/
def dustPre2 : UInt8 := 0x43

/-- `Dust_ResultData_t` -/
structure DustResultData where
  pm25 : UInt16 := 0
  pm10 : UInt16 := 0
  pm25Sum : UInt32 := 0
  pm10Sum : UInt32 := 0
  pm25Num : UInt16 := 0
  pm10Num : UInt16 := 0
  t : UInt8 := 0
  h : UInt8 := 0
  deriving DecidableEq

/-- `S_Dust_Result_t`, by its code. -/
inductive DustResult
  | ok
  | devNo (ulDevNo : UInt32)
  | data (data : DustResultData)
  deriving DecidableEq

/-- `sizeof(s_Dust_Data_t)` -/
def sizeofDustData : ℕ := 27

/-- The fields of `s_Dust_Data_t` that are copied to the result. `PM25Sum`, at the fifth byte, is
not among them. -/
def dustResultData (data : ℕ → UInt8) : DustResultData where
  pm25 := htons (readUInt16 data 1)
  pm10 := htons (readUInt16 data 3)
  pm10Sum := htonl (readUInt32 data 9)
  pm25Num := htons (readUInt16 data 13)
  pm10Num := htons (readUInt16 data 15)
  t := data 17
  h := data 18

/-- `Dust_ParsePack`: the result that is sent, from the chunk behind the length byte. -/
def dustParsePack (btLen : UInt8) (pData : List UInt8) : Option (Option DustResult) :=
  if btLen = 0 then some (some .ok)
  else if btLen = 4 then
    (readSlice pData 0 4).map fun devNo =>
      some (.devNo (htonl (readUInt32 (fun i => devNo.1.getD i 0) 0)))
  else if btLen.toNat = sizeofDustData then
    (readSlice pData 0 sizeofDustData).map fun data =>
      some (.data (dustResultData fun i => data.1.getD i 0))
  else some none

/-- The search of `Dust_PutBytes`: the chunk from the first header on. The byte behind a first
header byte is looked at. -/
def dustSearch : List UInt8 → Option (List UInt8)
  | [] => some []
  | [first] => if first = dustPre1 then none else some []
  | first :: second :: rest =>
    if first = dustPre1 ∧ second = dustPre2 then some (first :: second :: rest)
      else dustSearch (second :: rest)

/-- `Dust_PutBytes`: what an accepted chunk sends. -/
def dustPutBytes (pBytes : List UInt8) : Option (Option (Option DustResult)) := do
  let pBytes ← dustSearch pBytes
  let first ← pBytes[0]?
  if first ≠ dustPre1 then return none
  else
    let second ← pBytes[1]?
    if second ≠ dustPre2 then return none
    else
      let sum ← pBytes[pBytes.length - 1]?
      if checkSum ((pBytes.drop 2).take (pBytes.length - 3)) ≠ sum then return none
      else
        let head ← readSlice pBytes 0 3
        let result ← dustParsePack (head.1.getD 2 0) (pBytes.drop 3)
        return some result

/-- A frame with its length byte, its data and its checksum. -/
def dustFrame (data : List UInt8) : List UInt8 :=
  [dustPre1, dustPre2, UInt8.ofNat data.length] ++ data ++ [checkSum (UInt8.ofNat data.length :: data)]

/-- A chunk that is a frame. -/
def IsDustFrame (bytes : List UInt8) : Prop := ∃ data : List UInt8, data.length < 256 ∧
    bytes = dustFrame data

/-- A memory as a place in a chunk shows it. -/
def dustMemory (bytes : List UInt8) : ℕ → UInt8 := fun i => bytes.getD i 0

/-- The values of a data reply in host order, each from its own field of `s_Dust_Data_t`. -/
structure DustFields (reply : ℕ → UInt8) (data : DustResultData) : Prop where
  pm25 : data.pm25.toNat = readNetwork reply 1 2
  pm10 : data.pm10.toNat = readNetwork reply 3 2
  pm25Sum : data.pm25Sum.toNat = readNetwork reply 5 4
  pm10Sum : data.pm10Sum.toNat = readNetwork reply 9 4
  pm25Num : data.pm25Num.toNat = readNetwork reply 13 2
  pm10Num : data.pm10Num.toNat = readNetwork reply 15 2
  t : data.t = reply 17
  h : data.h = reply 18

/-- The chunk from its first header on, if the search finds one. -/
def fromDustHeader (pBytes : List UInt8) : List UInt8 := (dustSearch pBytes).getD []

/-- A chunk is read within its bounds, accepted only as a frame, and a data reply in it sends all of
its values. -/
def DustRead (pBytes : List UInt8) : Prop :=
  ∃ accepted, dustPutBytes pBytes = some accepted ∧
    (accepted.isSome → IsDustFrame (fromDustHeader pBytes)) ∧
    ∀ reply : List UInt8, reply.length = sizeofDustData → fromDustHeader pBytes = dustFrame reply →
      ∃ data, accepted = some (some (.data data)) ∧ DustFields (dustMemory reply) data

/-- The checksum of the code fits. -/
def DustChecked (bytes : List UInt8) : Prop :=
  bytes[bytes.length - 1]? = some (checkSum ((bytes.drop 2).take (bytes.length - 3)))

instance (bytes : List UInt8) : Decidable (DustChecked bytes) := inferInstanceAs (Decidable (_ = _))

/-- There is a header, and behind a checksum that fits the length byte tells the length, and the sum
of PM2.5 in a data reply is zero. -/
def DustWhole (pBytes : List UInt8) : Prop :=
  [dustPre1, dustPre2] <:+: pBytes ∧
    (DustChecked (fromDustHeader pBytes) →
      (fromDustHeader pBytes).length = 4 + ((fromDustHeader pBytes).getD 2 0).toNat ∧
        ((fromDustHeader pBytes).getD 2 0 = 27 →
        readNetwork (dustMemory ((fromDustHeader pBytes).drop 3)) 5 4 = 0))

instance (pBytes : List UInt8) : Decidable (DustWhole pBytes) :=
  inferInstanceAs (Decidable (_ ∧ (_ → _ ∧ (_ → _))))

/-- A header that occurs is found. -/
theorem dustSearch_of_infix {pBytes : List UInt8} (h : [dustPre1, dustPre2] <:+: pBytes) :
    ∃ tail, dustSearch pBytes = some (dustPre1 :: dustPre2 :: tail) := by
  induction pBytes using dustSearch.induct with
  | case1 => exact absurd h (by simp)
  | case2 => exact absurd h.length_le (by simp)
  | case3 first hne => exact absurd h.length_le (by simp)
  | case4 first second rest hhead =>
    obtain ⟨rfl, rfl⟩ := hhead
    exact ⟨rest, by rw [dustSearch, if_pos ⟨rfl, rfl⟩]⟩
  | case5 first second rest hhead ih =>
    rw [dustSearch, if_neg hhead]
    refine ih ((List.infix_cons_iff.mp h).resolve_left fun hprefix => hhead ?_)
    simpa [eq_comm] using hprefix

/-- Without a header nothing is found. -/
theorem dustSearch_of_not_infix {pBytes : List UInt8} (h : ¬ [dustPre1, dustPre2] <:+: pBytes) :
    dustSearch pBytes = none ∨ dustSearch pBytes = some [] := by
  induction pBytes using dustSearch.induct with
  | case1 => exact .inr rfl
  | case2 => exact .inl rfl
  | case3 first hne => exact .inr (if_neg hne)
  | case4 first second rest hhead =>
    obtain ⟨rfl, rfl⟩ := hhead
    exact absurd (List.prefix_append [dustPre1, dustPre2] rest).isInfix h
  | case5 first second rest hhead ih =>
    rw [dustSearch, if_neg hhead]
    exact ih fun hinfix => h (List.infix_cons hinfix)

/-- Without a header a read leaves the chunk. -/
theorem dustPutBytes_of_no_header {pBytes : List UInt8} (h : ¬ [dustPre1, dustPre2] <:+: pBytes) :
    dustPutBytes pBytes = none := by
  rcases dustSearch_of_not_infix h with hsearch | hsearch
  · rw [dustPutBytes, hsearch]
    rfl
  · rw [dustPutBytes, hsearch]
    rfl

section Found
variable {pBytes tail : List UInt8} (hsearch : dustSearch pBytes = some (dustPre1 :: dustPre2 :: tail))
include hsearch

/-- What is found. -/
theorem fromDustHeader_eq : fromDustHeader pBytes = dustPre1 :: dustPre2 :: tail := by
  rw [fromDustHeader, hsearch, Option.getD_some]

/-- Behind a header the checksum decides. -/
theorem dustPutBytes_unchecked (hchecked : ¬ DustChecked (dustPre1 :: dustPre2 :: tail)) :
    dustPutBytes pBytes = some none := by
  have hlast : (dustPre1 :: dustPre2 :: tail).length - 1 < (dustPre1 :: dustPre2 :: tail).length :=
    Nat.sub_one_lt (by simp)
  obtain ⟨sum, hsum⟩ := exists_getElem? hlast
  simp only [DustChecked, hsum, Option.some.injEq] at hchecked
  simp only [dustPutBytes, hsearch, List.getElem?_cons_zero, List.getElem?_cons_succ, hsum,
    Option.bind_eq_bind, Option.bind_some]
  rw [if_neg (not_not.mpr rfl), if_neg (not_not.mpr rfl), if_pos (Ne.symm hchecked)]
  rfl

/-- Behind a checksum that fits the length byte is read and the reply is parsed. -/
theorem dustPutBytes_checked {btLen : UInt8} {pData : List UInt8} (htail : tail = btLen :: pData)
    (hchecked : DustChecked (dustPre1 :: dustPre2 :: tail)) :
    dustPutBytes pBytes = (dustParsePack btLen pData).map some := by
  have hhead : readSlice (dustPre1 :: dustPre2 :: btLen :: pData) 0 3 = _ :=
    readSlice_middle [] pData ⟨[dustPre1, dustPre2, btLen], rfl⟩
  rw [DustChecked] at hchecked
  simp only [dustPutBytes, hsearch, List.getElem?_cons_zero, List.getElem?_cons_succ, hchecked,
    Option.bind_eq_bind, Option.bind_some]
  rw [if_neg (not_not.mpr rfl), if_neg (not_not.mpr rfl), if_neg (not_not.mpr rfl), htail, hhead,
    Option.bind_some,
    Option.map_eq_bind]
  rfl

end Found

/-- A header alone does not fit its checksum. -/
theorem not_dustChecked_header : ¬ DustChecked [dustPre1, dustPre2] := by decide

/-- Behind the header the checksum is taken over the length byte and the data in front of the last
byte. -/
theorem dustChecked_iff (btLen : UInt8) (data : List UInt8) (sum : UInt8) :
    DustChecked (dustPre1 :: dustPre2 :: btLen :: (data ++ [sum])) ↔
      sum = checkSum (btLen :: data) := by
  have hlength : (dustPre1 :: dustPre2 :: btLen :: (data ++ [sum])).length = data.length + 4 := by simp
  have hlast : (dustPre1 :: dustPre2 :: btLen :: (data ++ [sum]))[data.length + 4 - 1]? =
    some sum := by simp
  have hcovered : (((dustPre1 :: dustPre2 :: btLen :: (data ++ [sum])).drop 2).take
    (data.length + 4 - 3)) = btLen :: data := by simp
  rw [DustChecked, hlength, hlast, hcovered, Option.some.injEq]

/-- A frame fits its checksum. -/
theorem dustChecked_dustFrame (data : List UInt8) : DustChecked (dustFrame data) :=
  (dustChecked_iff _ data _).mpr rfl

/-- A frame is as long as its length byte tells. -/
theorem dustFrame_length (data : List UInt8) : (dustFrame data).length = 4 + data.length := by
  simp [dustFrame]
  omega

/-- Behind a header and a checksum that fits there is a frame exactly when the length byte tells the
length. -/
theorem isDustFrame_iff {btLen : UInt8} {pData : List UInt8}
    (hchecked : DustChecked (dustPre1 :: dustPre2 :: btLen :: pData)) :
    IsDustFrame (dustPre1 :: dustPre2 :: btLen :: pData) ↔
      (dustPre1 :: dustPre2 :: btLen :: pData).length = 4 + btLen.toNat := by
  constructor
  · rintro ⟨data, hlt, hbytes⟩
    have hbtLen : btLen = UInt8.ofNat data.length := congrArg (fun bytes => bytes.getD 2 0) hbytes
    rw [hbytes, dustFrame_length, hbtLen, UInt8.toNat_ofNat', Nat.mod_eq_of_lt hlt]
  · intro hlength
    obtain ⟨data, sum, rfl⟩ : ∃ data sum, pData = data ++ [sum] :=
      ⟨pData.dropLast, pData.getLast (by rintro rfl; simp at hlength; omega),
        (List.dropLast_append_getLast _).symm⟩
    have hdata : data.length = btLen.toNat := by
      simp only [List.length_cons, List.length_append, List.length_nil] at hlength
      omega
    refine ⟨data, hdata ▸ btLen.toNat_lt, ?_⟩
    rw [(dustChecked_iff btLen data sum).mp hchecked, dustFrame, hdata, UInt8.ofNat_toNat]
    rfl

/-- Of a data reply all values are copied but the sum of PM2.5. -/
theorem dustFields_dustResultData_iff (reply : ℕ → UInt8) :
    DustFields reply (dustResultData reply) ↔ readNetwork reply 5 4 = 0 := by
  constructor
  · exact fun h => h.pm25Sum.symm
  · intro hzero
    exact ⟨htons_readUInt16 reply 1, htons_readUInt16 reply 3, hzero.symm, htonl_readUInt32 reply 9,
      htons_readUInt16 reply 13,
      htons_readUInt16 reply 15, rfl, rfl⟩

/-- A reply that has all bytes of its kind is parsed inside them. -/
theorem dustParsePack_isSome {btLen : UInt8} {pData : List UInt8} (h : btLen.toNat ≤ pData.length) :
    ∃ result, dustParsePack btLen pData = some result := by
  rw [dustParsePack]
  split_ifs with hack hdevNo hdata
  · exact ⟨_, rfl⟩
  · rw [hdevNo] at h
    obtain ⟨devNo, hread, -⟩ := readSlice_of_le (show 0 + 4 ≤ pData.length from h)
    exact ⟨_, by rw [hread, Option.map_some]⟩
  · obtain ⟨data, hread, -⟩ := readSlice_of_le (show 0 + sizeofDustData ≤ pData.length by omega)
    exact ⟨_, by rw [hread, Option.map_some]⟩
  · exact ⟨_, rfl⟩

/-- A data reply sends what is copied of its bytes. -/
theorem dustParsePack_reply {reply : List UInt8} (h : reply.length = sizeofDustData)
    (tail : List UInt8) :
    dustParsePack 27 (reply ++ tail) = some (some (.data (dustResultData (dustMemory reply)))) := by
  have hread : readSlice (reply ++ tail) 0 sizeofDustData = _ := readSlice_middle [] tail ⟨reply, h⟩
  rw [dustParsePack, if_neg (by decide), if_neg (by decide),
    if_pos (show (27 : UInt8).toNat = sizeofDustData from rfl), hread,
    Option.map_some]
  rfl

/-- The sum of PM2.5 does not depend on what follows the reply. -/
theorem readNetwork_pm25Sum_append {reply : List UInt8} (h : reply.length = sizeofDustData)
    (tail : List UInt8) :
    readNetwork (dustMemory (reply ++ tail)) 5 4 = readNetwork (dustMemory reply) 5 4 := by
  refine readNetwork_congr fun i hi => ?_
  have hlt : 5 + i < reply.length := by
    rw [h, sizeofDustData]
    omega
  change (reply ++ tail).getD (5 + i) 0 = reply.getD (5 + i) 0
  rw [List.getD_eq_getElem?_getD, List.getElem?_append_left hlt, List.getD_eq_getElem?_getD]

/-- Behind a header and a checksum that fits, a chunk is read as it should be exactly when it is as
long as its length byte tells and the sum of PM2.5 in a data reply is zero. -/
theorem dustRead_iff_of_checked {pBytes pData : List UInt8} {btLen : UInt8}
    (hsearch : dustSearch pBytes = some (dustPre1 :: dustPre2 :: btLen :: pData))
    (hchecked : DustChecked (dustPre1 :: dustPre2 :: btLen :: pData)) :
    DustRead pBytes ↔ (dustPre1 :: dustPre2 :: btLen :: pData).length = 4 + btLen.toNat ∧
      (btLen = 27 → readNetwork (dustMemory pData) 5 4 = 0) := by
  rw [DustRead, fromDustHeader_eq hsearch, dustPutBytes_checked hsearch rfl hchecked]
  constructor
  · rintro ⟨accepted, haccepted, hframe, hreply⟩
    obtain ⟨result, hresult, rfl⟩ := Option.map_eq_some_iff.mp haccepted
    have hisFrame := hframe rfl
    refine ⟨(isDustFrame_iff hchecked).mp hisFrame, ?_⟩
    rintro rfl
    obtain ⟨reply, -, hbytes⟩ := hisFrame
    have hlength : reply.length = sizeofDustData := by
      have hframeLength := (isDustFrame_iff hchecked).mp (hframe rfl)
      rw [hbytes, dustFrame_length] at hframeLength
      exact Nat.add_left_cancel hframeLength
    obtain rfl : pData = reply ++ [checkSum (UInt8.ofNat reply.length :: reply)] :=
      congrArg (List.drop 3) hbytes
    obtain ⟨data, hdata, hfields⟩ := hreply reply hlength hbytes
    rw [dustParsePack_reply hlength] at hresult
    obtain rfl : dustResultData (dustMemory reply) = data := by
      simpa [← Option.some.inj hresult] using hdata
    rw [readNetwork_pm25Sum_append hlength]
    exact (dustFields_dustResultData_iff _).mp hfields
  · rintro ⟨hlength, hzero⟩
    have hlong : btLen.toNat ≤ pData.length := by
      simp only [List.length_cons] at hlength
      omega
    obtain ⟨result, hresult⟩ := dustParsePack_isSome hlong
    refine ⟨some result, by rw [hresult, Option.map_some],
      fun _ => (isDustFrame_iff hchecked).mpr hlength, ?_⟩
    intro reply hreply hbytes
    obtain rfl : pData = reply ++ [checkSum (UInt8.ofNat reply.length :: reply)] :=
      congrArg (List.drop 3) hbytes
    obtain rfl : btLen = 27 := by
      have hbtLen : btLen = UInt8.ofNat reply.length := congrArg (fun bytes => bytes.getD 2 0) hbytes
      rw [hbtLen, hreply]
      rfl
    rw [dustParsePack_reply hreply] at hresult
    refine ⟨_, congrArg some (Option.some.inj hresult).symm, (dustFields_dustResultData_iff _).mpr ?_⟩
    rw [← readNetwork_pm25Sum_append hreply]
    exact hzero rfl

/-- Chunks are read within their bounds, accepted as frames and sent with all of their values
exactly when they are whole. -/
theorem dustRead_iff (pBytes : List UInt8) : DustRead pBytes ↔ DustWhole pBytes := by
  by_cases hinfix : [dustPre1, dustPre2] <:+: pBytes
  · obtain ⟨tail, hsearch⟩ := dustSearch_of_infix hinfix
    rw [DustWhole, fromDustHeader_eq hsearch, and_iff_right hinfix]
    by_cases hchecked : DustChecked (dustPre1 :: dustPre2 :: tail)
    · obtain _ | ⟨btLen, pData⟩ := tail
      · exact absurd hchecked not_dustChecked_header
      · rw [forall_prop_of_true hchecked]
        exact dustRead_iff_of_checked hsearch hchecked
    · refine iff_of_true ⟨none, dustPutBytes_unchecked hsearch hchecked, Bool.noConfusion,
        fun reply _ hreply => ?_⟩
        fun h => absurd h hchecked
      rw [fromDustHeader_eq hsearch] at hreply
      exact absurd (hreply ▸ dustChecked_dustFrame reply) hchecked
  · refine iff_of_false ?_ fun h => hinfix h.1
    rintro ⟨accepted, haccepted, -⟩
    rw [dustPutBytes_of_no_header hinfix] at haccepted
    exact absurd haccepted.symm (Option.some_ne_none accepted)

/-- The data field of a reply with a sum of 300 for PM2.5, and its checksum. -/
def pm25SumReply : List UInt8 :=
  [3, 0, 0x0c, 0, 0x12, 0, 0, 1, 0x2c, 0, 0, 0, 0xc8, 0, 0x0a, 0, 0x10, 0x19, 0x28, 0x17, 1, 1, 7,
    0x0c, 0x1e, 0, 0x3c, 0x12]

/-- The sum is not sent. -/
theorem not_dustRead_pm25Sum : ¬ ∀ pBytes, DustRead pBytes := by
  intro h
  have hsearch : dustSearch (dustPre1 :: dustPre2 :: 27 :: pm25SumReply) =
    some (dustPre1 :: dustPre2 :: 27 :: pm25SumReply) := rfl
  have hread :=
    (dustRead_iff_of_checked hsearch (by decide)).mp
    (h (dustPre1 :: dustPre2 :: 27 :: pm25SumReply))
  revert hread
  decide

end DasEdge.Sdccp
