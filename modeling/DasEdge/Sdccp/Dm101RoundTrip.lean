import DasEdge.Sdccp.Dm101Pkg
import Mathlib.Data.Fintype.Basic
import Mathlib.Logic.Equiv.Basic

/-!
# What DM101 receives of what it sends

The bytes that `send_pkg` posts are a head and a payload that fits its length, plain or encrypted,
with the checksums that `read_pkg` computes. When they are read whole the packet comes back. The
buffer that is received to is half as long as the one that is sent from, though, and the length in a
head is not compared with it.
-/

namespace DasEdge.Sdccp

open DasEdge.Library DasEdge.Board

/-- A head and the payload that it states, as they are on the wire. -/
structure Dm101Wire where
  head : Dm101Head
  payload : List UInt8
  states : head.payloadLength.toNat = payload.length

/-- The bytes of the CRC-32. -/
def Dm101Wire.crc (wire : Dm101Wire) : List UInt8 := networkBytes 4 (ulRTCrc32 0 wire.payload).toNat

/-- All bytes. -/
def Dm101Wire.bytes (wire : Dm101Wire) : List UInt8 :=
  wire.head.bytes ++ if wire.payload = [] then [] else wire.payload ++ wire.crc

/-- The calls of `getdata` give all parts of a packet, and leave a state. -/
structure Dm101Gives {σ : Type} (io : Dm101Getdata σ) (s : σ) (wire : Dm101Wire) (s' : σ) : Prop where
  gives : ∃ s₁, io.getdata s 52 = (some wire.head.bytes, s₁) ∧ if wire.payload = [] then s' = s₁ else
    ∃ s₂, io.getdata s₁ wire.head.payloadLength = (some wire.payload, s₂) ∧
      io.getdata s₂ 4 = (some wire.crc, s')

/-- A packet is received: a count that is not negative, the head, the payload, and nothing written
outside `recvbuf`. -/
structure Dm101Receives {σ : Type} (out : Dm101Read σ) (head : Dm101Head)
    (payload : List UInt8) : Prop where
  ret : 0 ≤ out.ret
  head_eq : out.pkg.head = head
  payload_eq : (List.range out.pkg.head.payloadLength.toNat).map out.recvbuf = payload
  ploadBuf : payload ≠ [] → out.pkg.ploadBuf = some 0
  inside : ∀ w ∈ out.writes, ∀ place, w.1 ≤ place → place < w.1 + w.2 → place < dm101RecvbufSize

/-- The bytes of a head. -/
theorem Dm101Head.front_length (head : Dm101Head) : head.front.length = 51 := by
  simp [Dm101Head.front]

/-- The bytes of a head with the CRC-8. -/
theorem Dm101Head.bytes_length (head : Dm101Head) : head.bytes.length = dm101HeadLen := by
  rw [Dm101Head.bytes, List.length_append, head.front_length]
  rfl

/-- A head is picked where its bytes are. -/
theorem oatPickHead_eq {buf : ℕ → UInt8} {head : Dm101Head} (h : ShowsAt buf 0 head.bytes) :
    (oatPickHead buf).2 = head := by
  rw [Dm101Head.bytes, showsAt_append, head.front_length, showsAt_cons] at h
  obtain ⟨hfront, hcrc, -⟩ := h
  simp only [Dm101Head.front, showsAt_append, showsAt_cons, Vector.length_toList,
    networkBytes_length] at hfront
  obtain ⟨hmagic, hver, htype, hsn, hmsgcode, hformat, hmflag, hlength, htime, hsrc, hdest, htoken,
    hcode, hreserve, -⟩ := hfront
  obtain ⟨magic, ver, type, sn, msgcode, mflag, format, payloadLength, timestamp, srcId, destId,
    token, code, reserve, crc8⟩ := head
  have hword {place n : ℕ} (h : ShowsAt buf place (networkBytes 2 n)) (hlt : n < 2 ^ 16) :
      readNetwork buf place 2 = n :=
    readNetwork_of_lt h hlt
  have hlong {place n : ℕ} (h : ShowsAt buf place (networkBytes 8 n)) (hlt : n < 2 ^ 64) :
      readNetwork buf place 8 = n :=
    readNetwork_of_lt h hlt
  simp only [oatPickHead, Dm101Head.mk.injEq]
  refine ⟨Vector.ext fun i hi => ?_, hver, htype, ?_, ?_, hmflag, hformat, ?_, ?_, ?_, ?_, ?_, ?_,
    hreserve, hcrc⟩
  · rw [Vector.getElem_ofFn]
    have hat := hmagic i (by rwa [Vector.length_toList])
    rwa [Nat.zero_add, Vector.getElem_toList] at hat
  · exact (congrArg UInt16.ofNat (hword hsn sn.toNat_lt)).trans UInt16.ofNat_toNat
  · exact (congrArg UInt16.ofNat (hword hmsgcode msgcode.toNat_lt)).trans UInt16.ofNat_toNat
  · exact (congrArg UInt32.ofNat (readNetwork_of_lt hlength payloadLength.toNat_lt)).trans
      UInt32.ofNat_toNat
  · exact (congrArg UInt64.ofNat (hlong htime timestamp.toNat_lt)).trans UInt64.ofNat_toNat
  · exact (congrArg UInt64.ofNat (hlong hsrc srcId.toNat_lt)).trans UInt64.ofNat_toNat
  · exact (congrArg UInt64.ofNat (hlong hdest destId.toNat_lt)).trans UInt64.ofNat_toNat
  · exact (congrArg UInt64.ofNat (hlong htoken token.toNat_lt)).trans UInt64.ofNat_toNat
  · exact (congrArg UInt16.ofNat (hword hcode code.toNat_lt)).trans UInt16.ofNat_toNat

section Read

variable {σ : Type} {crypto : Dm101Crypto} {auth : Vector UInt8 8} {io : Dm101Getdata σ}
  {headBuf recvbuf : ℕ → UInt8} {pkg : Dm101Pkg}
  {s s' : σ} {wire : Dm101Wire}

/-- A packet without payload is read. -/
theorem readPkg_empty (hgives : Dm101Gives io s wire s') (hempty : wire.payload = []) :
    readPkg crypto auth io headBuf recvbuf pkg s = ⟨52, { pkg with head := wire.head }, recvbuf,
      [], s'⟩ := by
  obtain ⟨s₁, hhead, hrest⟩ := hgives.gives
  rw [if_pos hempty] at hrest
  have hpick := oatPickHead_eq (showsAt_copyOver headBuf 0 wire.head.bytes)
  have hzero : ¬ (0 : UInt32) < wire.head.payloadLength := by
    rw [UInt32.lt_iff_toNat_lt, wire.states, hempty]
    exact Nat.lt_irrefl 0
  simp only [readPkg, hhead, hpick, if_neg hzero, hrest]

/-- A packet with a payload is read up to the CRC-32, which is right. -/
theorem readPkg_payload (hgives : Dm101Gives io s wire s') (hne : wire.payload ≠ []) :
    readPkg crypto auth io headBuf recvbuf pkg s =
      readPkgAccepted crypto auth (copyOver headBuf 0 wire.head.bytes) (copyOver recvbuf 0 wire.payload)
        ⟨wire.head, some 0, ulRTCrc32 0 wire.payload⟩ [(0, wire.payload.length)] s' := by
  obtain ⟨s₁, hhead, hrest⟩ := hgives.gives
  rw [if_neg hne] at hrest
  obtain ⟨s₂, hpayload, hcrc⟩ := hrest
  have hpick := oatPickHead_eq (showsAt_copyOver headBuf 0 wire.head.bytes)
  have hpos : (0 : UInt32) < wire.head.payloadLength := by
    rw [UInt32.lt_iff_toNat_lt, wire.states]
    exact List.length_pos_of_ne_nil hne
  have hread := (showsAt_copyOver recvbuf 0 wire.payload).map_range
  simp only [Nat.zero_add] at hread
  have hsum (memory : ℕ → UInt8) :
      UInt32.ofNat (readNetwork (copyOver memory 0 wire.crc) 0 4) = ulRTCrc32 0 wire.payload :=
    (congrArg UInt32.ofNat (readNetwork_of_lt (showsAt_copyOver memory 0 wire.crc)
      (ulRTCrc32 0 wire.payload).toNat_lt)).trans
      UInt32.ofNat_toNat
  simp only [readPkg, hhead, hpick, if_pos hpos, hpayload, hcrc, hsum, wire.states, hread, ne_eq,
    not_true_eq_false, if_false]

end Read

/-- The head that is posted. -/
def dm101SentHead (crypto : Dm101Crypto) (cfg : Dm101Cfg) (utc : UInt64) (pkg : Dm101Pkg) : Dm101Head :=
  headFormatOat crypto cfg.auth utc (sendPkgHead cfg pkg)

/-- The payload is encrypted. -/
def dm101Crypts (cfg : Dm101Cfg) (pkg : Dm101Pkg) : Bool := (sendPkgHead cfg pkg).mflag &&& fCrypt ≠ 0

/-- The length of a payload on the wire, if there is one. -/
def dm101WireLength (cfg : Dm101Cfg) (pkg : Dm101Pkg) : ℕ :=
  if dm101Crypts cfg pkg then pkg.head.payloadLength.toNat / 16 * 16 + 16
    else pkg.head.payloadLength.toNat

/-- The payload fits the buffer behind the head, with its padding and the CRC-32. -/
def Dm101Fits (cfg : Dm101Cfg) (pkg : Dm101Pkg) : Prop :=
  0 < pkg.head.payloadLength.toNat → dm101HeadLen + dm101WireLength cfg pkg + 4 ≤ dm101SendbufSize

/-- The payload of a packet in the buffer. -/
def dm101Payload (sendbuf : ℕ → UInt8) (pkg : Dm101Pkg) : List UInt8 :=
  (List.range pkg.head.payloadLength.toNat).map fun i => sendbuf (dm101HeadLen + i)

/-- Where the bytes of one head are, the key is the same. -/
theorem makeAecKeyAt_eq (crypto : Dm101Crypto) (auth : Vector UInt8 8) {buf buf' : ℕ → UInt8}
    {head : Dm101Head}
    (h : ShowsAt buf 0 head.bytes) (h' : ShowsAt buf' 0 head.bytes) :
    makeAecKeyAt crypto auth buf = makeAecKeyAt crypto auth buf' := by
  have hsame : ((List.range 8).map fun i => buf (offsizeTimeStamp + i)) =
      (List.range 8).map fun i => buf' (offsizeTimeStamp + i) := by
    refine List.map_congr_left fun i hi => ?_
    have hlt : offsizeTimeStamp + i < head.bytes.length := by
      rw [head.bytes_length]
      exact Nat.add_lt_add_left (Nat.lt_trans (List.mem_range.mp hi) (by decide : 8 < 36)) 16
    have hat := h _ hlt
    have hat' := h' _ hlt
    rw [Nat.zero_add] at hat hat'
    exact hat.trans hat'.symm
  rw [makeAecKeyAt, makeAecKeyAt, hsame]

/-- Head, payload and CRC-32 in a buffer are posted as a packet. -/
theorem posted_eq {memory : ℕ → UInt8} {wire : Dm101Wire} (hhead : ShowsAt memory 0 wire.head.bytes)
    (hpayload : ShowsAt memory dm101HeadLen wire.payload) (hne : wire.payload ≠ []) :
    (List.range (dm101HeadLen + wire.payload.length + 4)).map
      (copyOver memory (dm101HeadLen + wire.payload.length) wire.crc) = wire.bytes := by
  have hbytes : wire.bytes = wire.head.bytes ++ (wire.payload ++ wire.crc) := by
    rw [Dm101Wire.bytes, if_neg hne]
  have hcrc : wire.crc.length = 4 := networkBytes_length _ _
  have hshows : ShowsAt (copyOver memory (dm101HeadLen + wire.payload.length) wire.crc) 0
      wire.bytes := by
    rw [hbytes, showsAt_append, showsAt_append, wire.head.bytes_length, Nat.zero_add]
    refine ⟨fun i hi => ?_, fun i hi => ?_, showsAt_copyOver _ _ _⟩
    · rw [copyOver_outside memory (.inl (by rw [wire.head.bytes_length] at hi; omega))]
      exact hhead i hi
    · rw [copyOver_outside memory (.inl (by omega))]
      exact hpayload i hi
  have hlength : wire.bytes.length = dm101HeadLen + wire.payload.length + 4 := by
    rw [hbytes, List.length_append, List.length_append, wire.head.bytes_length, hcrc, Nat.add_assoc]
  have hread := hshows.map_range
  simp only [Nat.zero_add] at hread
  rwa [hlength] at hread

section Send

variable (crypto : Dm101Crypto) {cfg : Dm101Cfg} (utc : UInt64) (postdata : List UInt8 → ℤ)
  (sendbuf : ℕ → UInt8) {pkg : Dm101Pkg}

/-- The flag is read in the head that has been written. -/
theorem sent_mflag : copyOver sendbuf 0 (dm101SentHead crypto cfg utc pkg).bytes offsizeMflag =
    (sendPkgHead cfg pkg).mflag := by
  have hpick := oatPickHead_eq (showsAt_copyOver sendbuf 0 (dm101SentHead crypto cfg utc pkg).bytes)
  have hmflag := congrArg Dm101Head.mflag hpick
  exact hmflag

/-- Without payload the head is posted. -/
theorem sendPkg_empty (hzero : pkg.head.payloadLength = 0) :
    ∃ wire : Dm101Wire, (sendPkg crypto cfg utc postdata sendbuf pkg).posted = wire.bytes ∧
      wire.head = dm101SentHead crypto cfg utc pkg ∧ wire.payload = [] := by
  have hhead : (sendPkgHead cfg pkg).payloadLength = 0 := by
    simp [sendPkgHead, hzero]
  refine ⟨⟨dm101SentHead crypto cfg utc pkg, [], congrArg UInt32.toNat hhead⟩, ?_, rfl, rfl⟩
  have hread := (showsAt_copyOver sendbuf 0 (dm101SentHead crypto cfg utc pkg).bytes).map_range
  simp only [Nat.zero_add, Dm101Head.bytes_length] at hread
  have hnot : ¬ (0 : UInt32) < 0 := by decide
  cases hplace : pkg.ploadBuf with
  | none =>
    simp only [sendPkg, hplace, Dm101Wire.bytes, if_true, List.append_nil]
    exact hread
  | some place =>
    simp only [sendPkg, hplace, hzero, if_neg hnot, Dm101Wire.bytes, if_true, List.append_nil]
    exact hread

/-- A payload that is not encrypted is posted as it is. -/
theorem sendPkg_plain (hplace : pkg.ploadBuf = some dm101HeadLen) (hpos : 0 < pkg.head.payloadLength)
    (hplain : dm101Crypts cfg pkg = false) :
    ∃ wire : Dm101Wire, (sendPkg crypto cfg utc postdata sendbuf pkg).posted = wire.bytes ∧
      wire.head = dm101SentHead crypto cfg utc pkg ∧ wire.payload = dm101Payload sendbuf pkg := by
  have hflag : ¬ (sendPkgHead cfg pkg).mflag &&& fCrypt ≠ 0 := of_decide_eq_false hplain
  have hhead : (sendPkgHead cfg pkg).payloadLength = pkg.head.payloadLength :=
    if_neg fun h => hflag h.2.2
  have hlength : (dm101Payload sendbuf pkg).length = pkg.head.payloadLength.toNat := by
    rw [dm101Payload, List.length_map, List.length_range]
  have hne : dm101Payload sendbuf pkg ≠ [] := by
    rw [UInt32.lt_iff_toNat_lt] at hpos
    exact List.ne_nil_of_length_pos (hlength ▸ hpos)
  let wire : Dm101Wire :=
    ⟨dm101SentHead crypto cfg utc pkg, dm101Payload sendbuf pkg,
    (congrArg UInt32.toNat hhead).trans hlength.symm⟩
  refine ⟨wire, ?_, rfl, rfl⟩
  have hshows := showsAt_copyOver sendbuf 0 wire.head.bytes
  have hkeep (i : ℕ) : copyOver sendbuf 0 wire.head.bytes (dm101HeadLen + i) =
      sendbuf (dm101HeadLen + i) :=
    copyOver_outside sendbuf (.inr (by rw [wire.head.bytes_length]; omega))
  have hpayload : ShowsAt (copyOver sendbuf 0 wire.head.bytes) dm101HeadLen wire.payload := by
    intro i hi
    rw [hkeep]
    simp [wire, dm101Payload]
  rw [← posted_eq hshows hpayload hne]
  have hsum : ((List.range pkg.head.payloadLength.toNat).map fun i =>
    copyOver sendbuf 0 wire.head.bytes (dm101HeadLen + i)) =
      wire.payload := by
    simp only [hkeep]
    rfl
  have hwire : wire.payload.length = pkg.head.payloadLength.toNat := hlength
  have hsent : (headFormatOat crypto cfg.auth utc (sendPkgHead cfg pkg)).bytes = wire.head.bytes := rfl
  have hmflag : ¬ copyOver sendbuf 0 wire.head.bytes offsizeMflag &&& fCrypt ≠ 0 := by
    rw [show wire.head = dm101SentHead crypto cfg utc pkg from rfl, sent_mflag]
    exact hflag
  simp only [sendPkg, hplace, if_pos hpos, hsent, if_neg hmflag, hsum, hwire]
  rfl

/-- A payload that is encrypted is posted with its padding. -/
theorem sendPkg_encrypted (hplace : pkg.ploadBuf = some dm101HeadLen)
    (hpos : 0 < pkg.head.payloadLength)
    (hcrypts : dm101Crypts cfg pkg = true) (hfits : pkg.head.payloadLength.toNat + 16 < 2 ^ 32) :
    ∃ wire : Dm101Wire, (sendPkg crypto cfg utc postdata sendbuf pkg).posted = wire.bytes ∧
      wire.head = dm101SentHead crypto cfg utc pkg ∧
      wire.head.payloadLength = pkcs7EnPaddingTotalsize pkg.head.payloadLength ∧
      ∃ memory, ShowsAt memory 0 wire.head.bytes ∧
        (∀ i, memory (dm101HeadLen + i) = sendbuf (dm101HeadLen + i)) ∧
        ShowsAt (dmAesEncryptCjy crypto memory dm101HeadLen pkg.head.payloadLength
        (makeAecKeyAt crypto cfg.auth memory)).1
          dm101HeadLen wire.payload := by
  have hflag : (sendPkgHead cfg pkg).mflag &&& fCrypt ≠ 0 := of_decide_eq_true hcrypts
  have hhead : (sendPkgHead cfg pkg).payloadLength =
      pkcs7EnPaddingTotalsize pkg.head.payloadLength := by
    refine if_pos ⟨hpos, ?_, hflag⟩
    rw [hplace]
    rfl
  have htotal := pkcs7EnPaddingTotalsize_toNat hfits
  let memory := copyOver sendbuf 0 (dm101SentHead crypto cfg utc pkg).bytes
  let key := makeAecKeyAt crypto cfg.auth memory
  let encrypted := (dmAesEncryptCjy crypto memory dm101HeadLen pkg.head.payloadLength key).1
  let payload := (List.range (pkcs7EnPaddingTotalsize pkg.head.payloadLength).toNat).map fun i =>
    encrypted (dm101HeadLen + i)
  have hlength : payload.length = (pkcs7EnPaddingTotalsize pkg.head.payloadLength).toNat := by
    rw [List.length_map, List.length_range]
  have hne : payload ≠ [] := List.ne_nil_of_length_pos (by omega)
  let wire : Dm101Wire :=
    ⟨dm101SentHead crypto cfg utc pkg, payload, (congrArg UInt32.toNat hhead).trans hlength.symm⟩
  have hshows : ShowsAt memory 0 wire.head.bytes := showsAt_copyOver sendbuf 0 wire.head.bytes
  have hpayload : ShowsAt encrypted dm101HeadLen wire.payload := by
    intro i hi
    rw [List.getElem_map, List.getElem_range]
  refine ⟨wire, ?_, rfl, hhead, memory, hshows, fun i => ?_, hpayload⟩
  · -- encryption leaves the head
    have hencrypted : ShowsAt encrypted 0 wire.head.bytes := by
      intro i hi
      rw [wire.head.bytes_length] at hi
      rw [Nat.zero_add]
      refine (dmAesEncryptCjy_outside crypto memory dm101HeadLen key hfits (.inl hi)).trans ?_
      have hat := hshows i (by rwa [wire.head.bytes_length])
      rwa [Nat.zero_add] at hat
    rw [← posted_eq hencrypted hpayload hne]
    have hsent : copyOver sendbuf 0
      (headFormatOat crypto cfg.auth utc (sendPkgHead cfg pkg)).bytes = memory := rfl
    have hread : memory offsizeMflag = (sendPkgHead cfg pkg).mflag := sent_mflag crypto utc sendbuf
    have hmflag : memory offsizeMflag &&& fCrypt ≠ 0 := by
      rw [hread]
      exact hflag
    have hpair : dmAesEncryptCjy crypto memory dm101HeadLen pkg.head.payloadLength
      (makeAecKeyAt crypto cfg.auth memory) =
        (encrypted, pkcs7EnPaddingTotalsize pkg.head.payloadLength) :=
      Prod.ext rfl (pkcs7EnPadding_length memory dm101HeadLen pkg.head.payloadLength)
    have hwire : wire.payload.length = (pkcs7EnPaddingTotalsize pkg.head.payloadLength).toNat := hlength
    simp only [sendPkg, hplace, if_pos hpos, hsent, if_pos hmflag, hpair, hwire]
    rfl
  · refine copyOver_outside sendbuf (.inr ?_)
    rw [Dm101Head.bytes_length]
    omega

end Send

/-- The buffer for receiving has room for the payload as it is on the wire, and for a null character
behind it. -/
def Dm101FitsRecv (cfg : Dm101Cfg) (pkg : Dm101Pkg) : Prop :=
  if dm101Crypts cfg pkg = true ∧ 0 < pkg.head.payloadLength.toNat then dm101WireLength cfg pkg ≤
    dm101RecvbufSize
  else pkg.head.payloadLength.toNat < dm101RecvbufSize

instance decidableDm101FitsRecv (cfg : Dm101Cfg) (pkg : Dm101Pkg) :
    Decidable (Dm101FitsRecv cfg pkg) := by
  unfold Dm101FitsRecv; infer_instance

/-- The head that is received: the one that was posted, with the length of the payload itself. -/
def dm101ReceivedHead (crypto : Dm101Crypto) (cfg : Dm101Cfg) (utc : UInt64) (pkg : Dm101Pkg) :
    Dm101Head :=
  { dm101SentHead crypto cfg utc pkg with payloadLength := pkg.head.payloadLength }

/-- The count of a payload that is not too long is not negative. -/
theorem dm101RecvCnt_nonneg {payloadLength : UInt32} (h : payloadLength.toNat + 56 < 2 ^ 31) :
    0 ≤ dm101RecvCnt payloadLength := by
  have hsum : (52 + payloadLength + 4).toNat = payloadLength.toNat + 56 := by
    simp only [UInt32.toNat_add, UInt32.reduceToNat]
    omega
  have hint : dm101RecvCnt payloadLength = (52 + payloadLength + 4).toBitVec.toInt := rfl
  have hnat : (52 + payloadLength + 4).toBitVec.toNat = payloadLength.toNat + 56 := hsum
  rw [hint, BitVec.toInt_eq_toNat_of_lt (by rw [hnat]; omega)]
  exact Int.natCast_nonneg _

section Receive

variable {σ : Type} {crypto : Dm101Crypto} {wire : Dm101Wire} {headBuf recvbuf : ℕ → UInt8} {s : σ}

/-- A plain payload is received when it is in the buffer, with a place behind it. -/
theorem readPkgAccepted_plain_iff (hplain : ¬ wire.head.mflag &&& fCrypt ≠ 0)
    (hcount : wire.payload.length + 56 < 2 ^ 31)
    (hshows : ShowsAt recvbuf 0 wire.payload) (auth : Vector UInt8 8) (crc : UInt32) :
    Dm101Receives (readPkgAccepted crypto auth headBuf recvbuf ⟨wire.head, some 0, crc⟩
      [(0, wire.payload.length)] s) wire.head
      wire.payload ↔ wire.payload.length < dm101RecvbufSize := by
  have hlength := wire.states
  simp only [readPkgAccepted, if_neg hplain]
  constructor
  · intro h
    have hinside :=
      h.inside (wire.head.payloadLength.toNat, 1) (by simp) _ (Nat.le_refl _) (Nat.lt_succ_self _)
    rwa [hlength] at hinside
  · intro hlt
    refine ⟨dm101RecvCnt_nonneg (by rwa [hlength]), rfl, ?_, fun _ => rfl, ?_⟩
    · have hread := hshows.map_range
      simp only [Nat.zero_add] at hread
      have hkeep : ∀ i ∈ List.range wire.payload.length,
          Function.update recvbuf wire.payload.length 0 i = recvbuf i :=
        fun i hi => Function.update_of_ne (Nat.ne_of_lt (List.mem_range.mp hi)) _ _
      dsimp only
      rw [hlength, List.map_congr_left hkeep]
      exact hread
    · simp only [List.cons_append, List.nil_append, List.forall_mem_cons, hlength]
      refine ⟨fun place _ hplace => ?_, fun place _ hplace => ?_, fun _ h => absurd h List.not_mem_nil⟩
      all_goals omega

/-- An encrypted payload is received when it is in the buffer as it is on the wire. -/
theorem readPkgAccepted_encrypted_iff (hcrypto : crypto.Inverts) {length : UInt32}
    (hpos : 0 < length.toNat)
    (hfits : length.toNat + 128 < 2 ^ 31) (hcrypts : wire.head.mflag &&& fCrypt ≠ 0)
    (hlength : wire.head.payloadLength = pkcs7EnPaddingTotalsize length) {memory : ℕ → UInt8}
    {place : ℕ} (auth : Vector UInt8 8)
    (hwire : ShowsAt (dmAesEncryptCjy crypto memory place length
      (makeAecKeyAt crypto auth headBuf)).1 place wire.payload)
    (hshows : ShowsAt recvbuf 0 wire.payload) (crc : UInt32) :
    Dm101Receives (readPkgAccepted crypto auth headBuf recvbuf ⟨wire.head, some 0, crc⟩
      [(0, wire.payload.length)] s)
      { wire.head with payloadLength := length }
        ((List.range length.toNat).map fun i => memory (place + i)) ↔
      wire.payload.length ≤ dm101RecvbufSize := by
  have hlt : length.toNat + 16 < 2 ^ 32 := by omega
  have htotal := pkcs7EnPaddingTotalsize_toNat hlt
  have hstates := wire.states
  rw [hlength] at hstates
  have hreceived : ∀ i < (pkcs7EnPaddingTotalsize length).toNat, recvbuf (0 + i) =
      (dmAesEncryptCjy crypto memory place length (makeAecKeyAt crypto auth headBuf)).1
      (place + i) := by
    intro i hi
    rw [hshows i (by omega), hwire i (by omega)]
  obtain ⟨hunpadded, hdecrypted⟩ :=
    dmAesDecryptCjy_of_encrypted hcrypto memory place (makeAecKeyAt crypto auth headBuf) hlt
    hreceived
  simp only [readPkgAccepted, if_pos hcrypts, hlength, hunpadded]
  constructor
  · intro h
    by_contra hmore
    have hinside := h.inside (0, wire.payload.length) (by simp) dm101RecvbufSize (Nat.zero_le _)
      (by dsimp only; omega)
    exact absurd hinside (Nat.lt_irrefl _)
  · intro hle
    refine ⟨dm101RecvCnt_nonneg (by omega), rfl, List.map_congr_left fun i hi => ?_, fun _ => rfl, ?_⟩
    · have hlt := List.mem_range.mp hi
      dsimp only
      rw [Function.update_of_ne (Nat.ne_of_lt hlt), ← hdecrypted i hlt, Nat.zero_add]
    · simp only [List.cons_append, List.nil_append, List.forall_mem_cons]
      refine ⟨fun place _ hplace => ?_, fun place _ hplace => ?_, fun place _ hplace => ?_,
        fun _ h => absurd h List.not_mem_nil⟩
      all_goals omega

end Receive

/-- Every packet whose payload fits is posted as a packet, and when it is read whole, the packet
itself is received if and only if the payload fits the buffer for receiving. -/
theorem sendPkg_received_iff {crypto : Dm101Crypto} (hcrypto : crypto.Inverts) {cfg : Dm101Cfg}
    {pkg : Dm101Pkg}
    (hplace : pkg.ploadBuf = some dm101HeadLen) (hfits : Dm101Fits cfg pkg) (utc : UInt64)
    (postdata : List UInt8 → ℤ)
    (sendbuf : ℕ → UInt8) :
    ∃ wire : Dm101Wire, (sendPkg crypto cfg utc postdata sendbuf pkg).posted = wire.bytes ∧
      wire.head = dm101SentHead crypto cfg utc pkg ∧
      ∀ (σ : Type) (io : Dm101Getdata σ) (s s' : σ) (headBuf recvbuf : ℕ → UInt8) (pkg' : Dm101Pkg),
      Dm101Gives io s wire s' →
        (readPkg crypto cfg.auth io headBuf recvbuf pkg' s).state = s' ∧
          (Dm101Receives (readPkg crypto cfg.auth io headBuf recvbuf pkg' s)
          (dm101ReceivedHead crypto cfg utc pkg)
            (dm101Payload sendbuf pkg) ↔ Dm101FitsRecv cfg pkg) := by
  have hheadLen : dm101HeadLen = 52 := rfl
  have hsendSize : dm101SendbufSize = 8244 := rfl
  have hrecvSize : dm101RecvbufSize = 4148 := rfl
  rcases Nat.eq_zero_or_pos pkg.head.payloadLength.toNat with hzero | hpos
  · have hzero' : pkg.head.payloadLength = 0 := UInt32.toNat.inj hzero
    obtain ⟨wire, hposted, hhead, hempty⟩ := @sendPkg_empty crypto cfg utc postdata sendbuf pkg hzero'
    refine ⟨wire, hposted, hhead, fun σ io s s' headBuf recvbuf pkg' hgives => ?_⟩
    rw [readPkg_empty hgives hempty]
    have hpayload : dm101Payload sendbuf pkg = [] := by
      rw [dm101Payload, hzero]
      rfl
    have hstates := wire.states
    rw [hempty] at hstates
    have hsame : wire.head = dm101ReceivedHead crypto cfg utc pkg := by
      have hlength : wire.head.payloadLength = pkg.head.payloadLength :=
        UInt32.toNat.inj (hstates.trans hzero.symm)
      rw [dm101ReceivedHead, ← hhead, ← hlength]
    refine ⟨rfl, iff_of_true ⟨(by decide : (0 : ℤ) ≤ 52), hsame, ?_, fun h => absurd hpayload h,
      fun w hw => absurd hw List.not_mem_nil⟩ ?_⟩
    · rw [hpayload]
      dsimp only
      rw [hstates]
      rfl
    · rw [Dm101FitsRecv, if_neg fun h => Nat.ne_of_gt h.2 hzero, hzero]
      decide
  · have hroom := hfits hpos
    have hpos' : (0 : UInt32) < pkg.head.payloadLength := UInt32.lt_iff_toNat_lt.mpr hpos
    cases hcrypts : dm101Crypts cfg pkg with
    | false =>
      obtain ⟨wire, hposted, hhead, hpayload⟩ :=
        sendPkg_plain crypto utc postdata sendbuf hplace hpos' hcrypts
      refine ⟨wire, hposted, hhead, fun σ io s s' headBuf recvbuf pkg' hgives => ?_⟩
      have hlength : wire.payload.length = pkg.head.payloadLength.toNat := by
        rw [hpayload, dm101Payload, List.length_map, List.length_range]
      have hne : wire.payload ≠ [] := List.ne_nil_of_length_pos (hlength ▸ hpos)
      have hplain : ¬ wire.head.mflag &&& fCrypt ≠ 0 := by
        rw [hhead]
        exact of_decide_eq_false hcrypts
      have hsame : wire.head = dm101ReceivedHead crypto cfg utc pkg := by
        have hlength' : wire.head.payloadLength = pkg.head.payloadLength :=
          UInt32.toNat.inj (wire.states.trans hlength)
        rw [dm101ReceivedHead, ← hhead, ← hlength']
      rw [dm101WireLength, hcrypts, if_neg Bool.false_ne_true] at hroom
      rw [readPkg_payload hgives hne, Dm101FitsRecv,
        if_neg fun h => Bool.false_ne_true (hcrypts.symm.trans h.1), ← hsame, ← hpayload,
        ← hlength]
      refine ⟨?_, readPkgAccepted_plain_iff hplain (by omega)
        (showsAt_copyOver recvbuf 0 wire.payload) cfg.auth _⟩
      rfl
    | true =>
      rw [dm101WireLength, hcrypts, if_pos rfl] at hroom
      obtain ⟨wire, hposted, hhead, hlength, memory, hshows, hsame, hwire⟩ :=
        sendPkg_encrypted crypto utc postdata sendbuf hplace hpos' hcrypts (by omega)
      refine ⟨wire, hposted, hhead, fun σ io s s' headBuf recvbuf pkg' hgives => ?_⟩
      have htotal : (pkcs7EnPaddingTotalsize pkg.head.payloadLength).toNat =
          pkg.head.payloadLength.toNat / 16 * 16 + 16 :=
        pkcs7EnPaddingTotalsize_toNat (by omega)
      have hstates := wire.states
      rw [hlength, htotal] at hstates
      have hne : wire.payload ≠ [] := List.ne_nil_of_length_pos (by omega)
      have hflag : wire.head.mflag &&& fCrypt ≠ 0 := by
        rw [hhead]
        exact of_decide_eq_true hcrypts
      have hkey : makeAecKeyAt crypto cfg.auth memory =
          makeAecKeyAt crypto cfg.auth (copyOver headBuf 0 wire.head.bytes) :=
        makeAecKeyAt_eq crypto cfg.auth hshows (showsAt_copyOver headBuf 0 wire.head.bytes)
      rw [hkey] at hwire
      have hpayload : dm101Payload sendbuf pkg = (List.range pkg.head.payloadLength.toNat).map
          fun i => memory (dm101HeadLen + i) :=
        List.map_congr_left fun i _ => (hsame i).symm
      rw [readPkg_payload hgives hne, Dm101FitsRecv, if_pos ⟨hcrypts, hpos⟩, dm101WireLength,
        hcrypts, if_pos rfl, hstates, hpayload,
        dm101ReceivedHead, ← hhead]
      refine ⟨?_, readPkgAccepted_encrypted_iff hcrypto hpos (by omega) hflag hlength cfg.auth hwire
        (showsAt_copyOver recvbuf 0 wire.payload) _⟩
      simp only [readPkgAccepted, if_pos hflag]

/-- A stream of which all bytes are there. -/
def dm101Stream : Dm101Getdata (List UInt8) where
  getdata s count := (some (s.take count.toNat), s.drop count.toNat)
  getdata_length s count bytes h := by
    obtain rfl := Option.some.inj h
    exact List.length_take_le _ _

/-- It gives a packet that is in it. -/
theorem dm101Stream_gives (wire : Dm101Wire) (rest : List UInt8) :
    Dm101Gives dm101Stream (wire.bytes ++ rest) wire rest := by
  have htake (count : UInt32) (left right : List UInt8) (hlength : left.length = count.toNat) :
      dm101Stream.getdata (left ++ right) count = (some left, right) := by
    simp only [dm101Stream, ← hlength, List.take_left', List.drop_left']
  refine ⟨(if wire.payload = [] then [] else wire.payload ++ wire.crc) ++ rest, ?_, ?_⟩
  · rw [Dm101Wire.bytes, List.append_assoc]
    exact htake 52 _ _ wire.head.bytes_length
  · split
    · rfl
    · refine ⟨wire.crc ++ rest, ?_, htake 4 _ _ (networkBytes_length _ _)⟩
      rw [List.append_assoc]
      exact htake _ _ _ wire.states.symm

/-- Every packet whose payload fits `sendbuf` with padding and CRC-32 comes back from the bytes that
are posted for it, with its head and its payload, if and only if the payload fits `recvbuf`. -/
theorem dm101_round_trip_iff (crypto : Dm101Crypto) (hcrypto : crypto.Inverts) (cfg : Dm101Cfg)
    (pkg : Dm101Pkg)
    (hplace : pkg.ploadBuf = some dm101HeadLen) (hfits : Dm101Fits cfg pkg) (utc : UInt64)
    (postdata : List UInt8 → ℤ)
    (sendbuf headBuf recvbuf : ℕ → UInt8) (pkg' : Dm101Pkg) :
    Dm101Receives (readPkg crypto cfg.auth dm101Stream headBuf recvbuf pkg'
      (sendPkg crypto cfg utc postdata sendbuf pkg).posted)
      (dm101ReceivedHead crypto cfg utc pkg) (dm101Payload sendbuf pkg) ↔ Dm101FitsRecv cfg pkg := by
  obtain ⟨wire, hposted, -, hreceived⟩ := sendPkg_received_iff hcrypto hplace hfits utc postdata sendbuf
  have hgives := dm101Stream_gives wire []
  rw [List.append_nil, ← hposted] at hgives
  exact (hreceived _ dm101Stream _ [] headBuf recvbuf pkg' hgives).2

/-- An authentication. -/
def abcAuth : Vector UInt8 8 := #v[0x31, 0x32, 0x33, 0x34, 0x35, 0x36, 0x37, 0x38]

/-- A packet with `CODE_REPORT_INFO` and a payload of a length. -/
def abcPkg (payloadLength : UInt32) : Dm101Pkg :=
  ⟨⟨Vector.replicate 4 0, 0, 1, 0, 2, 0, 1, payloadLength, 0, 0, 0, 0, 0, 0, 0⟩, some dm101HeadLen, 0⟩

/-- A cipher and a digest that do what AES and MD5 do in the packet with the payload `abc`. -/
def abcCrypto : Dm101Crypto :=
  let block (bytes : List UInt8) : AesBlock := fun i => bytes.getD i 0
  let text := block [0xC7, 0xA8, 0x3E, 0xFE, 0x91, 0x27, 0x3F, 0x91, 0x87, 0x10, 0xC8, 0xB6, 0xCD,
    0x87, 0xC7, 0x1F]
  let encrypted := block [0x8B, 0x5F, 0xE2, 0xD6, 0xC4, 0xA8, 0x62, 0x68, 0x68, 0xC0, 0xF0, 0x36,
    0x24, 0xC0, 0xF9, 0xC9]
  { blockEncrypt := fun _ => Equiv.swap text encrypted,
    blockDecrypt := fun _ => Equiv.swap text encrypted,
    md5 := fun bytes =>
      if bytes = abcAuth.toList ++ networkBytes 8 1600000000 then
        block [0xA6, 0xCA, 0x5D, 0xF3, 0x9C, 0x2A, 0x32, 0x9C, 0x8A, 0x1D, 0xC5, 0xBB, 0xC0, 0x8A,
        0xCA, 0x12]
      else block [0x76, 0xAA, 0x30, 0xE3, 0x67, 0xFF, 0x15, 0x54, 0xD6, 0x3D, 0xE3, 0x83, 0xD2,
      0xD8, 0x12, 0x79] }

/-- It decrypts what it encrypts. -/
theorem abcCrypto_inverts : abcCrypto.Inverts := fun _ block => Equiv.swap_apply_self _ _ block

/-- The payload `abc`, encrypted. -/
theorem dm101_round_trip_abc :
    Dm101Receives
      (readPkg abcCrypto abcAuth dm101Stream (fun _ => 0) (fun _ => 0) (abcPkg 0)
        (sendPkg abcCrypto ⟨1, abcAuth, 1⟩ 1600000000 (fun posted => posted.length)
          (fun n => [0x61, 0x62, 0x63].getD (n - 52) 0)
          (abcPkg 3)).posted)
      (dm101ReceivedHead abcCrypto ⟨1, abcAuth, 1⟩ 1600000000 (abcPkg 3))
      (dm101Payload (fun n => [0x61, 0x62, 0x63].getD (n - 52) 0) (abcPkg 3)) :=
  (dm101_round_trip_iff abcCrypto abcCrypto_inverts ⟨1, abcAuth, 1⟩ (abcPkg 3) rfl
    (fun _ => by decide) 1600000000
    (fun posted => posted.length) _ _ _ (abcPkg 0)).mpr (by decide)

/-- A plain payload of 5000 bytes fits `sendbuf`, and is written over the end of `recvbuf`. -/
theorem dm101_not_round_trip :
    ¬ ∀ (crypto : Dm101Crypto), crypto.Inverts → ∀ (cfg : Dm101Cfg) (pkg : Dm101Pkg), pkg.ploadBuf =
      some dm101HeadLen →
      Dm101Fits cfg pkg →
      ∀ (utc : UInt64) (postdata : List UInt8 → ℤ) (sendbuf headBuf recvbuf : ℕ → UInt8)
      (pkg' : Dm101Pkg),
      Dm101Receives (readPkg crypto cfg.auth dm101Stream headBuf recvbuf pkg'
      (sendPkg crypto cfg utc postdata sendbuf pkg).posted)
        (dm101ReceivedHead crypto cfg utc pkg) (dm101Payload sendbuf pkg) := by
  intro hall
  have hplace : (abcPkg 5000).ploadBuf = some dm101HeadLen := rfl
  have hsend : Dm101Fits ⟨0, abcAuth, 1⟩ (abcPkg 5000) := fun _ => by decide
  have hreceives :=
    hall abcCrypto abcCrypto_inverts _ _ hplace hsend 1600000000 (fun posted => posted.length)
    (fun _ => 0)
    (fun _ => 0) (fun _ => 0) (abcPkg 0)
  obtain ⟨wire, hposted, -, hreceived⟩ :=
    sendPkg_received_iff abcCrypto_inverts hplace hsend 1600000000
      (fun posted => posted.length) fun _ => 0
  have hgives := dm101Stream_gives wire []
  rw [List.append_nil, ← hposted] at hgives
  have hfits :=
    (hreceived _ dm101Stream _ [] (fun _ => 0) (fun _ => 0) (abcPkg 0) hgives).2.mp hreceives
  revert hfits
  decide

end DasEdge.Sdccp
