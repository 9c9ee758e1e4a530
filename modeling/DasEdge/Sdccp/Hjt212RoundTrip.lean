import DasEdge.Sdccp.Hjt212
import Mathlib.Data.List.Chain
import Mathlib.Data.List.GetD

/-!
# The HJ/T 212 round trip

Until the first CR LF the receiver only collects. An encoded packet has its first CR LF at its end,
when the values that are encoded have none, because the groups of the data segment end in other
characters. At the end the package that is cut out of the buffer has the length, the data segment
and the check value of the encoder, so it is accepted.
-/

namespace DasEdge.Sdccp

/-- The bytes hold no CR LF. -/
def NoCrLf (bytes : List UInt8) : Prop := bytes.IsChain fun a b => ¬ (a = 0x0d ∧ b = 0x0a)

/-- The buffer after bytes were collected in it from its start on. -/
def collected (pBuffer : ℕ → UInt8) (bytes : List UInt8) : ℕ → UInt8 :=
  fun i => bytes.getD i (pBuffer i)

/-- Chunks are received like the stream that they are cut from. -/
theorem hjt212PutBytes_flatten (r : Hjt212Receiver) (chunks : List (List UInt8)) :
    chunks.foldl hjt212PutBytes r = hjt212PutBytes r chunks.flatten := List.foldl_flatten.symm

/-- A collected byte lies behind those before it. -/
theorem collected_append (pBuffer : ℕ → UInt8) (bytes : List UInt8) (byte : UInt8) :
    Function.update (collected pBuffer bytes) bytes.length byte =
      collected pBuffer (bytes ++ [byte]) := by
  funext i
  unfold collected
  rcases Nat.lt_trichotomy i bytes.length with hlt | rfl | hgt
  · rw [Function.update_of_ne (by omega), List.getD_append _ _ _ _ hlt]
  · rw [Function.update_self, List.getD_append_right _ _ _ _ le_rfl, Nat.sub_self]
    rfl
  · rw [Function.update_of_ne (by omega), List.getD_eq_default _ _ (by omega),
      List.getD_eq_default _ _ (by simp only [List.length_append, List.length_singleton]; omega)]

/-- A 16-bit number in the buffer is made of its two bytes. -/
theorem readUInt16_eq_iff (pBuffer : ℕ → UInt8) (pos : ℕ) (low high : UInt8) :
    readUInt16 pBuffer pos = low.toUInt16 + high.toUInt16 * 256 ↔
      pBuffer pos = low ∧ pBuffer (pos + 1) = high := by
  constructor
  · intro h
    have hnat := congrArg UInt16.toNat h
    have hread := (pBuffer pos).toNat_lt
    have hread' := (pBuffer (pos + 1)).toNat_lt
    have hlow := low.toNat_lt
    have hhigh := high.toNat_lt
    simp only [readUInt16, UInt16.toNat_add, UInt16.toNat_mul, UInt8.toNat_toUInt16,
      UInt16.toNat_ofNat] at hnat
    exact ⟨UInt8.toNat.inj (by omega), UInt8.toNat.inj (by omega)⟩
  · rintro ⟨rfl, rfl⟩
    rfl

/-- Bytes without CR LF behind the prefix are collected by a receiver that is at the start of its
buffer. -/
theorem hjt212PutBytes_collects {r : Hjt212Receiver} (hstart : r.nPos = 0) (bytes : List UInt8)
    (hnone : NoCrLf (35 :: 35 :: bytes)) (hlength : bytes.length + 2 < hjt212BufSize) :
    hjt212PutBytes r (35 :: 35 :: bytes) =
      ⟨collected r.pBuffer (35 :: 35 :: bytes), bytes.length + 2, .eom, r.parsed⟩ := by
  obtain ⟨pBuffer, nPos, eRcvState, parsed⟩ := r
  obtain rfl : nPos = 0 := hstart
  induction bytes using List.reverseRecOn with
  | nil =>
    have hfirst : Function.update pBuffer 0 35 = collected pBuffer [35] :=
      collected_append pBuffer [] 35
    have hsecond : Function.update (collected pBuffer [35]) 1 35 = collected pBuffer [35, 35] :=
      collected_append pBuffer [35] 35
    have hpre : readUInt16 (collected pBuffer [35, 35]) 0 = 0x2323 :=
      (readUInt16_eq_iff (collected pBuffer [35, 35]) 0 35 35).mpr ⟨rfl, rfl⟩
    cases eRcvState with
    | head => simp [hjt212PutBytes, hjt212PutByte, hjt212BufSize, hfirst, hsecond, hpre]
    | eom => simp [hjt212PutBytes, hjt212PutByte, hjt212BufSize, hfirst, hsecond]
  | append_singleton bytes byte ih =>
    rw [List.length_append, List.length_singleton] at hlength
    have hbytes : NoCrLf (35 :: 35 :: bytes) :=
      hnone.prefix (List.prefix_append (35 :: 35 :: bytes) [byte])
    have hprefix := ih hbytes (by omega)
    have hbuffer : Function.update (collected pBuffer (35 :: 35 :: bytes)) (bytes.length + 2) byte =
        collected pBuffer (35 :: 35 :: (bytes ++ [byte])) :=
        collected_append pBuffer (35 :: 35 :: bytes) byte
    have heom : ¬ (4 ≤ bytes.length + 3 ∧ readUInt16 (collected pBuffer (35 :: 35 :: (bytes ++ [byte])))
        (bytes.length + 3 - 2) = 0x0A0d ∧ 18 ≤ bytes.length + 3) := by
      rintro ⟨-, hread, -⟩
      obtain ⟨hcr, hlf⟩ := (readUInt16_eq_iff _ _ 0x0d 0x0a).mp hread
      have hpair := List.isChain_iff_getElem.mp hnone (bytes.length + 1)
        (by simp only [List.length_cons, List.length_append]; omega)
      have hindex : bytes.length + 3 - 2 = bytes.length + 1 := by omega
      rw [hindex] at hcr hlf
      unfold collected at hcr hlf
      rw [List.getD_eq_getElem _ _ (by simp)] at hcr hlf
      exact hpair ⟨hcr, hlf⟩
    have hsplit : hjt212PutBytes ⟨pBuffer, 0, eRcvState, parsed⟩ (35 :: 35 :: (bytes ++ [byte])) =
        hjt212PutByte (hjt212PutBytes ⟨pBuffer, 0, eRcvState, parsed⟩ (35 :: 35 :: bytes)) byte :=
      List.foldl_append (l := 35 :: 35 :: bytes)
    rw [hsplit, hprefix]
    unfold hjt212PutByte
    simp only [hbuffer]
    rw [if_neg (by omega : ¬ hjt212BufSize ≤ bytes.length + 2 + 1), if_neg heom, List.length_append]
    rfl

/-- The first CR LF behind the prefix ends the packet, and the package is cut out of the buffer. -/
theorem hjt212PutBytes_frame {r : Hjt212Receiver} (hstart : r.nPos = 0) (bytes : List UInt8)
    (hnone : NoCrLf (35 :: 35 :: (bytes ++ [0x0d]))) (hlower : 18 ≤ bytes.length + 4)
    (hupper : bytes.length + 4 < hjt212BufSize) :
    hjt212PutBytes r (35 :: 35 :: (bytes ++ [0x0d, 0x0a])) =
      ⟨collected r.pBuffer (35 :: 35 :: (bytes ++ [0x0d, 0x0a])), 0, .head,
        if (hjt212Package (collected r.pBuffer (35 :: 35 :: (bytes ++ [0x0d, 0x0a])))
        (bytes.length + 4)).accepted
          (bytes.length + 4)
        then r.parsed ++
          [hjt212Package (collected r.pBuffer (35 :: 35 :: (bytes ++ [0x0d, 0x0a]))) (bytes.length + 4)]
        else r.parsed⟩ := by
  have hcollects := hjt212PutBytes_collects hstart (bytes ++ [0x0d]) hnone
    (by simp only [List.length_append, List.length_singleton]; omega)
  have happend : bytes ++ [0x0d, 0x0a] = bytes ++ [0x0d] ++ [0x0a] := by simp
  have hsplit : hjt212PutBytes r (35 :: 35 :: (bytes ++ [0x0d] ++ [0x0a])) =
      hjt212PutByte (hjt212PutBytes r (35 :: 35 :: (bytes ++ [0x0d]))) 0x0a :=
    List.foldl_append (l := 35 :: 35 :: (bytes ++ [0x0d]))
  have hbuffer : Function.update (collected r.pBuffer (35 :: 35 :: (bytes ++ [0x0d])))
    (bytes.length + 3) 0x0a =
      collected r.pBuffer (35 :: 35 :: (bytes ++ [0x0d] ++ [0x0a])) := by
    have hlength : (35 :: 35 :: (bytes ++ [0x0d])).length = bytes.length + 3 := by simp
    rw [← hlength]
    exact collected_append r.pBuffer (35 :: 35 :: (bytes ++ [0x0d])) 0x0a
  have hread : readUInt16 (collected r.pBuffer (35 :: 35 :: (bytes ++ [0x0d] ++ [0x0a])))
    (bytes.length + 4 - 2) =
      0x0A0d := by
    refine (readUInt16_eq_iff _ _ 0x0d 0x0a).mpr ?_
    rw [← happend, show bytes.length + 4 - 2 = bytes.length + 2 by omega]
    unfold collected
    constructor
    · simp
    · simp
  rw [happend, hsplit, hcollects]
  unfold hjt212PutByte
  simp only [List.length_append, List.length_singleton, Nat.add_assoc, Nat.reduceAdd, hbuffer]
  rw [if_neg (by omega : ¬ hjt212BufSize ≤ bytes.length + 4), if_pos ⟨by omega, hread, hlower⟩]

/-- Bytes without CR LF whose last one is no CR. -/
def CleanEnd (bytes : List UInt8) : Prop := NoCrLf bytes ∧ bytes.getLast? ≠ some 0x0d

/-- Bytes behind a clean end bring no CR LF of their own. -/
theorem CleanEnd.noCrLf_append {left right : List UInt8} (hleft : CleanEnd left)
    (hright : NoCrLf right) :
    NoCrLf (left ++ right) := by
  refine List.isChain_append.mpr ⟨hleft.1, hright, fun a ha b _ hpair => ?_⟩
  rw [hpair.1] at ha
  exact hleft.2 ha

/-- Clean ends stay clean behind each other. -/
theorem CleanEnd.append {left right : List UInt8} (hleft : CleanEnd left) (hright : CleanEnd right) :
    CleanEnd (left ++ right) := by
  refine ⟨hleft.noCrLf_append hright.1, fun hlast => ?_⟩
  rw [List.getLast?_append] at hlast
  cases hcase : right.getLast? with
  | none =>
    rw [hcase] at hlast
    exact hleft.2 hlast
  | some last =>
    rw [hcase] at hlast
    exact hright.2 (hcase.trans hlast)

/-- Bytes without CR are clean. -/
theorem cleanEnd_of_forall {bytes : List UInt8} (h : ∀ b ∈ bytes, b ≠ 0x0d) : CleanEnd bytes := by
  refine ⟨List.isChain_iff_getElem.mpr fun i hi hpair => ?_, fun hlast => ?_⟩
  · exact h _ (List.getElem_mem (by omega)) hpair.1
  · exact h _ (List.mem_of_getLast? hlast) rfl

/-- A group is clean when its value has no CR LF. -/
theorem cleanEnd_encodeGroup {name stop : List UInt8} {value : List UInt8 → List UInt8}
    (hstop : ∀ b ∈ stop, b ≠ 0x0d) (hhead : stop.head? ≠ some 0x0a) (hstopNil : stop ≠ [])
    (hname : ∀ b ∈ name, b ≠ 0x0d) (field : Option (List UInt8))
    (hvalue : ∀ s, field = some s → NoCrLf (value s)) :
    CleanEnd (encodeGroup name value stop field) := by
  cases field with
  | none => exact cleanEnd_of_forall (fun b hb => absurd hb List.not_mem_nil)
  | some s =>
    have hclean := cleanEnd_of_forall hstop
    refine ⟨?_, ?_⟩
    · change NoCrLf (name ++ value s ++ stop)
      refine List.isChain_append.mpr ⟨(cleanEnd_of_forall hname).noCrLf_append (hvalue s rfl),
        hclean.1, ?_⟩
      intro a _ b hb hpair
      rw [hpair.2] at hb
      exact hhead hb
    · change (name ++ value s ++ stop).getLast? ≠ some 0x0d
      rw [List.getLast?_append_of_ne_nil _ hstopNil]
      exact hclean.2

/-- No value that is encoded has a CR LF. -/
structure Hjt212Fields.NoCrLf (fields : Hjt212Fields) : Prop where
  QN : ∀ s, fields.QN = some s → Sdccp.NoCrLf s
  ST : ∀ s, fields.ST = some s → Sdccp.NoCrLf s
  CN : ∀ s, fields.CN = some s → Sdccp.NoCrLf s
  PW : ∀ s, fields.PW = some s → Sdccp.NoCrLf s
  MN : ∀ s, fields.MN = some s → Sdccp.NoCrLf s
  Flag : ∀ s, fields.Flag = some s → Sdccp.NoCrLf s
  CP : ∀ s, fields.CP = some s → Sdccp.NoCrLf s

/-- The arguments that are no null pointers. -/
def Hjt212Fields.values (fields : Hjt212Fields) : List (List UInt8) :=
  [fields.QN, fields.ST, fields.CN, fields.PW, fields.MN, fields.Flag, fields.CP].flatMap Option.toList

/-- Values without CR have no CR LF. -/
theorem Hjt212Fields.noCrLf_of_forall {fields : Hjt212Fields} (h : ∀ s ∈ fields.values, 0x0d ∉ s) :
    fields.NoCrLf := by
  have hclean : ∀ {field : Option (List UInt8)} {s : List UInt8},
      field ∈ [fields.QN, fields.ST, fields.CN, fields.PW, fields.MN, fields.Flag, fields.CP] →
      field = some s →
        Sdccp.NoCrLf s := by
    rintro field s hfield rfl
    have hnone := h s (List.mem_flatMap.mpr ⟨some s, hfield, List.mem_singleton_self s⟩)
    exact (cleanEnd_of_forall fun b hb heq => hnone (heq ▸ hb)).1
  exact ⟨fun _ => hclean (by simp), fun _ => hclean (by simp), fun _ => hclean (by simp),
    fun _ => hclean (by simp),
    fun _ => hclean (by simp), fun _ => hclean (by simp), fun _ => hclean (by simp)⟩

/-- The characters of a C string are a part of its memory. -/
theorem noCrLf_cString {s : List UInt8} (h : NoCrLf s) : NoCrLf (cString s) :=
  h.prefix (List.takeWhile_prefix _)

/-- The data segment of values without CR LF is clean. -/
theorem cleanEnd_hjt212DataSegment {fields : Hjt212Fields} (h : fields.NoCrLf) :
    CleanEnd (hjt212DataSegment fields) := by
  have htake : ∀ n s, NoCrLf s → NoCrLf ((cString s).take n) := fun n s hs => (noCrLf_cString hs).take n
  have hgroup : ∀ (name : List UInt8) (value : List UInt8 → List UInt8), (∀ b ∈ name, b ≠ 0x0d) →
      ∀ field, (∀ s, field = some s → NoCrLf (value s)) →
        CleanEnd (encodeGroup name value (ascii [';']) field) := fun _ _ =>
    cleanEnd_encodeGroup (by simp [ascii]) (by simp [ascii]) (by simp [ascii])
  unfold hjt212DataSegment
  refine .append ?_ (.append ?_ (.append ?_ (.append ?_ (.append ?_ (.append ?_ ?_)))))
  · exact hgroup _ _ (by simp [ascii]) _ fun s hs => htake 20 s (h.QN s hs)
  · exact hgroup _ _ (by simp [ascii]) _ fun s hs => htake 5 s (h.ST s hs)
  · exact hgroup _ _ (by simp [ascii]) _ fun s hs => htake 7 s (h.CN s hs)
  · exact hgroup _ _ (by simp [ascii]) _ fun s hs => htake 9 s (h.PW s hs)
  · exact hgroup _ _ (by simp [ascii]) _ fun s hs => htake 27 s (h.MN s hs)
  · exact hgroup _ _ (by simp [ascii]) _ fun s _ => List.isChain_singleton _
  · exact cleanEnd_encodeGroup (by simp [ascii]) (by simp [ascii]) (by simp [ascii]) (by simp [ascii]) _
      fun s hs => noCrLf_cString (h.CP s hs)

/-- A hexadecimal digit is no CR. -/
theorem upperCase_hexDigit_ne {digit : UInt8} (h : digit.toNat < 16) :
    upperCase (hexDigit digit) ≠ 0x0d := by
  have hdigits : ∀ d : Fin 16, upperCase (hexDigit (UInt8.ofNat d.val)) ≠ 0x0d := by decide
  have heq : digit = UInt8.ofNat digit.toNat := UInt8.ofNat_toNat.symm
  rw [heq]
  exact hdigits ⟨digit.toNat, h⟩

/-- A check value is clean. -/
theorem cleanEnd_hjt212Check (usCrc16 : UInt16) : CleanEnd (hjt212Check usCrc16) := by
  have hhigh : ∀ hex : UInt8, (hex >>> 4).toNat < 16 := by
    intro hex
    have := hex.toNat_lt
    rw [UInt8.toNat_shiftRight, UInt8.toNat_ofNat, Nat.shiftRight_eq_div_pow]
    change hex.toNat / 16 < 16
    omega
  have hlow : ∀ hex : UInt8, (hex &&& 15).toNat < 16 := by
    intro hex
    rw [UInt8.toNat_and, UInt8.toNat_ofNat]
    exact @Nat.and_lt_two_pow hex.toNat 15 4 (by decide)
  have hhex : ∀ hex, ∀ b ∈ hex2Str hex, b ≠ 0x0d := by
    intro hex b hb
    rw [hex2Str, List.mem_pair] at hb
    cases hb with
    | inl h => rw [h]; exact upperCase_hexDigit_ne (hhigh hex)
    | inr h => rw [h]; exact upperCase_hexDigit_ne (hlow hex)
  exact (cleanEnd_of_forall (hhex _)).append (cleanEnd_of_forall (hhex _))

/-- The number behind a decimal digit's character. -/
theorem decimalDigit_toNat {d : ℕ} (hd : d < 10) :
    ((48 + d.toUInt8).toUInt32 - 48).toNat = d ∧ 48 + d.toUInt8 ≠ 0x0d := by
  have hdigits : ∀ d : Fin 10, ((48 + (d.val).toUInt8).toUInt32 - 48).toNat = d.val ∧
      48 + (d.val).toUInt8 ≠ 0x0d := by
    decide
  exact hdigits ⟨d, hd⟩

/-- A written length is clean. -/
theorem cleanEnd_hjt212Length (length : ℕ) : CleanEnd (hjt212Length length) := by
  refine cleanEnd_of_forall fun b hb => ?_
  unfold hjt212Length at hb
  simp only [List.mem_cons, List.not_mem_nil, or_false] at hb
  rcases hb with rfl | rfl | rfl | rfl
  · exact (decimalDigit_toNat (by omega)).2
  · exact (decimalDigit_toNat (by omega)).2
  · exact (decimalDigit_toNat (by omega)).2
  · exact (decimalDigit_toNat (by omega)).2

/-- A package states the length that was written in it. -/
theorem ulLen_of_hjt212Length {xPack : Hjt212Package} {length : ℕ} (hlength : length < 10000)
    (hdigits : ∀ i : Fin 4, xPack.btLen i = (hjt212Length length).getD i 0) :
    xPack.ulLen.toNat = length := by
  have hthousands := (decimalDigit_toNat (d := length / 1000 % 10) (by omega)).1
  have hhundreds := (decimalDigit_toNat (d := length / 100 % 10) (by omega)).1
  have htens := (decimalDigit_toNat (d := length / 10 % 10) (by omega)).1
  have hones := (decimalDigit_toNat (d := length % 10) (by omega)).1
  unfold Hjt212Package.ulLen
  simp only [hdigits]
  simp only [UInt32.toNat_add, UInt32.toNat_mul, UInt32.toNat_ofNat]
  change ((((((48 + (length / 1000 % 10).toUInt8).toUInt32 - 48).toNat * 1000) % 2 ^ 32 +
    (((48 + (length / 100 % 10).toUInt8).toUInt32 - 48).toNat * 100) % 2 ^ 32) % 2 ^ 32 +
    (((48 + (length / 10 % 10).toUInt8).toUInt32 - 48).toNat * 10) % 2 ^ 32) % 2 ^ 32 +
    ((48 + (length % 10).toUInt8).toUInt32 - 48).toNat) % 2 ^ 32 = length
  have hsum : length / 1000 % 10 * 1000 + length / 100 % 10 * 100 + length / 10 % 10 * 10 + length %
      10 = length := by
    have hdiv : length / 100 = length / 10 / 10 := by omega
    have hdiv' : length / 1000 = length / 10 / 10 / 10 := by omega
    rw [hdiv, hdiv']
    omega
  rw [hthousands, hhundreds, htens, hones]
  simp only [Nat.mod_add_mod, Nat.add_mod_mod]
  rw [hsum, Nat.mod_eq_of_lt (by omega)]

/-- Equal texts are equal for `strncmp`. -/
theorem strncmpEqual_refl (text : List UInt8) : strncmpEqual text text = true := by
  induction text with
  | nil => rfl
  | cons c text ih => simp [strncmpEqual, ih]

/-- The check value depends on the bytes that are checked only. -/
theorem hjt212GetCrc16_congr {ptr ptr' : ℕ → UInt8} {count : UInt32}
    (h : ∀ i < count.toNat, ptr i = ptr' i) :
    hjt212GetCrc16 ptr count = hjt212GetCrc16 ptr' count := by
  refine List.foldl_ext _ _ _ fun lwrdCrc i hi => ?_
  have hle : count.toInt32.toInt ≤ count.toNat := by
    change count.toBitVec.toInt ≤ count.toBitVec.toNat
    rw [BitVec.toInt_eq_toNat_cond]
    split
    · omega
    · omega
  rw [List.mem_range] at hi
  rw [h i (by omega)]

/-- A part of the bytes that were collected. -/
theorem collected_window (pBuffer : ℕ → UInt8) (before part after : List UInt8) {i : ℕ}
    (hi : i < part.length) :
    collected pBuffer (before ++ (part ++ after)) (before.length + i) = part.getD i 0 := by
  unfold collected
  rw [List.getD_append_right _ _ _ _ (by omega), Nat.add_sub_cancel_left, List.getD_append _ _ _ _ hi,
    List.getD_eq_getElem _ _ hi, List.getD_eq_getElem _ _ hi]

/-- The package that is cut out of an encoded packet. -/
theorem hjt212Package_encode (pBuffer : ℕ → UInt8) (fields : Hjt212Fields) :
    let segment := hjt212DataSegment fields
    let xPack := hjt212Package (collected pBuffer (hjt212Encode fields)) (segment.length + 12)
    (∀ i : Fin 4, xPack.btLen i = (hjt212Length segment.length).getD i 0) ∧
      (∀ i < segment.length, xPack.pData i = segment.getD i 0) ∧
      List.ofFn xPack.btCheck =
        hjt212Check (hjt212GetCrc16 (fun i => segment.getD i 0) segment.length.toUInt32) := by
  intro segment xPack
  refine ⟨fun i => ?_, fun i hi => ?_, ?_⟩
  · exact collected_window pBuffer (ascii ['#', '#']) (hjt212Length segment.length) _ i.isLt
  · have hwindow := collected_window pBuffer (ascii ['#', '#'] ++ hjt212Length segment.length) segment
      (hjt212Check (hjt212GetCrc16 (fun i => segment.getD i 0) segment.length.toUInt32) ++
        [0x0d, 0x0a]) hi
    rw [List.append_assoc] at hwindow
    exact hwindow
  · obtain ⟨check, hcheck⟩ : ∃ check, check =
      hjt212Check (hjt212GetCrc16 (fun i => segment.getD i 0) segment.length.toUInt32) := ⟨_, rfl⟩
    have hfour : check.length = 4 := by
      rw [hcheck]
      rfl
    rw [← hcheck]
    refine List.ext_getElem (by rw [List.length_ofFn, hfour]) fun i hi hi' => ?_
    have hwindow :=
      collected_window pBuffer (ascii ['#', '#'] ++ (hjt212Length segment.length ++ segment)) check
      [0x0d, 0x0a] hi'
    have hbefore : (ascii ['#', '#'] ++ (hjt212Length segment.length ++ segment)).length =
        segment.length + 6 := by
      rw [List.length_append, List.length_append]
      change 2 + (4 + segment.length) = _
      omega
    have hencode : hjt212Encode fields =
        ascii ['#', '#'] ++ (hjt212Length segment.length ++ segment) ++ (check ++ [0x0d, 0x0a]) := by
      rw [hcheck, List.append_assoc, List.append_assoc]
      rfl
    rw [List.getElem_ofFn, ← List.getD_eq_getElem check 0 hi', ← hwindow, ← hencode, hbefore]
    change collected pBuffer (hjt212Encode fields) (segment.length + 12 - 6 + i) = _
    rw [show segment.length + 12 - 6 = segment.length + 6 by omega]

/-- The length of an encoded packet. -/
theorem hjt212Encode_length (fields : Hjt212Fields) :
    (hjt212Encode fields).length = (hjt212DataSegment fields).length + 12 := by
  unfold hjt212Encode
  rw [List.length_append, List.length_append, List.length_append]
  change 2 + (4 + ((hjt212DataSegment fields).length + 6)) = _
  omega

/-- The package that is cut out of an encoded packet passes the receiver's test. -/
theorem hjt212Encode_accepted (pBuffer : ℕ → UInt8) (fields : Hjt212Fields)
    (hupper : (hjt212Encode fields).length < hjt212BufSize) :
    let xPack :=
      hjt212Package (collected pBuffer (hjt212Encode fields))
      ((hjt212DataSegment fields).length + 12)
    xPack.ulLen.toNat = (hjt212DataSegment fields).length ∧
      xPack.accepted ((hjt212DataSegment fields).length + 12) = true := by
  intro xPack
  rw [hjt212Encode_length, hjt212BufSize] at hupper
  obtain ⟨hlen, hdata, hcheck⟩ := hjt212Package_encode pBuffer fields
  have hulLen : xPack.ulLen.toNat = (hjt212DataSegment fields).length :=
    ulLen_of_hjt212Length (by omega) hlen
  have hcount : xPack.ulLen = (hjt212DataSegment fields).length.toUInt32 := by
    apply UInt32.toNat.inj
    rw [hulLen]
    exact (Nat.mod_eq_of_lt (by omega)).symm
  have hcrc : hjt212GetCrc16 xPack.pData xPack.ulLen =
      hjt212GetCrc16 (fun i => (hjt212DataSegment fields).getD i 0)
        (hjt212DataSegment fields).length.toUInt32 := by
    rw [hcount]
    apply hjt212GetCrc16_congr
    intro i hi
    rw [← hcount, hulLen] at hi
    exact hdata i hi
  refine ⟨hulLen, ?_⟩
  unfold Hjt212Package.accepted
  rw [hcheck, hcrc, strncmpEqual_refl, Bool.and_true, decide_eq_true_eq, hcount]
  exact (UInt32.ofNat_add _ 12).symm

/-- An encoded packet whose values have no CR LF has its first CR LF at its end. -/
theorem hjt212Encode_clean {fields : Hjt212Fields} (hnone : fields.NoCrLf) :
    ∃ bytes, hjt212Encode fields = 35 :: 35 :: (bytes ++ [0x0d, 0x0a]) ∧
      NoCrLf (35 :: 35 :: (bytes ++ [0x0d])) := by
  obtain ⟨bytes, hbytes⟩ : ∃ bytes, bytes = hjt212Length (hjt212DataSegment fields).length ++
    (hjt212DataSegment fields ++ hjt212Check
    (hjt212GetCrc16 (fun i => (hjt212DataSegment fields).getD i 0)
      (hjt212DataSegment fields).length.toUInt32)) := ⟨_, rfl⟩
  have hencode : hjt212Encode fields = 35 :: 35 :: (bytes ++ [0x0d, 0x0a]) := by
    rw [hbytes, List.append_assoc, List.append_assoc]
    rfl
  have hbytesClean : CleanEnd bytes := by
    rw [hbytes]
    exact (cleanEnd_hjt212Length _).append
      ((cleanEnd_hjt212DataSegment hnone).append (cleanEnd_hjt212Check _))
  have hfirst : NoCrLf (35 :: 35 :: (bytes ++ [0x0d])) :=
    (cleanEnd_of_forall (show ∀ b ∈ ([35, 35] : List UInt8), b ≠ 0x0d by simp)).noCrLf_append
      (hbytesClean.noCrLf_append (List.isChain_singleton _))
  exact ⟨bytes, hencode, hfirst⟩

/-- An encoded packet whose values have no CR LF and that fits the buffer is received as one package
with the length and the data segment that were encoded, however it is cut into chunks, and leaves
the receiver idle. -/
theorem hjt212_roundTrip (fields : Hjt212Fields) (r : Hjt212Receiver) (chunks : List (List UInt8))
    (hidle : r.Idle)
    (hnone : fields.NoCrLf) (hlower : 18 ≤ (hjt212Encode fields).length)
    (hupper : (hjt212Encode fields).length < hjt212BufSize)
    (hchunks : chunks.flatten = hjt212Encode fields) :
    (chunks.foldl hjt212PutBytes r).Idle ∧
      ∃ xPack, (chunks.foldl hjt212PutBytes r).parsed = r.parsed ++ [xPack] ∧
        xPack.ulLen.toNat = (hjt212DataSegment fields).length ∧
        (List.range (hjt212DataSegment fields).length).map xPack.pData = hjt212DataSegment fields := by
  obtain ⟨hulLen, haccepted⟩ := hjt212Encode_accepted r.pBuffer fields hupper
  have hdata := (hjt212Package_encode r.pBuffer fields).2.1
  obtain ⟨bytes, hencode, hfirst⟩ := hjt212Encode_clean hnone
  have hlength : bytes.length + 4 = (hjt212DataSegment fields).length + 12 := by
    rw [← hjt212Encode_length, hencode]
    simp
  rw [hjt212Encode_length, ← hlength] at hlower hupper
  rw [hjt212PutBytes_flatten, hchunks, hencode,
    hjt212PutBytes_frame hidle.2 bytes hfirst hlower hupper, ← hencode,
    hlength, if_pos haccepted]
  refine ⟨⟨rfl, rfl⟩, _, rfl, hulLen, ?_⟩
  refine List.ext_getElem (by simp) fun i hi hi' => ?_
  rw [List.getElem_map, List.getElem_range, ← List.getD_eq_getElem _ 0 hi']
  exact hdata i hi'

/-- A login with an empty data string. -/
def loginFields : Hjt212Fields :=
  ⟨none, some (ascii ['9', '1']), some (ascii ['9', '0', '2', '1']), none, none,
    some (ascii ['5']), some []⟩

/-- Its values have no CR LF. -/
theorem loginFields_noCrLf : loginFields.NoCrLf := Hjt212Fields.noCrLf_of_forall (by decide)

/-- The login, received in three chunks. -/
theorem hjt212_roundTrip_login :
    let fields : Hjt212Fields :=
      ⟨none, some (ascii ['9', '1']), some (ascii ['9', '0', '2', '1']), none, none,
        some (ascii ['5']), some []⟩
    let r : Hjt212Receiver := ⟨fun _ => 0, 0, .head, []⟩
    let chunks := [(hjt212Encode fields).take 3, [], (hjt212Encode fields).drop 3]
    (chunks.foldl hjt212PutBytes r).Idle ∧
      ∃ xPack, (chunks.foldl hjt212PutBytes r).parsed = r.parsed ++ [xPack] ∧
        xPack.ulLen.toNat = (hjt212DataSegment fields).length ∧
        (List.range (hjt212DataSegment fields).length).map xPack.pData = hjt212DataSegment fields := by
  intro fields r chunks
  exact hjt212_roundTrip fields r chunks ⟨rfl, rfl⟩ loginFields_noCrLf (by decide) (by decide)
    (by simp [chunks])

end DasEdge.Sdccp
