import DasEdge.Sdccp.BjdcScan

/-!
# What the BJDC receiver accepts

The receiver stays inside its buffer. At the end of a frame it looks at the stated length, which has
to agree with the place of the end, and at the check value, but not at the header again. The header
may have been put together from two halves that did not come one behind the other, and while the end
is waited for the buffer may have been begun again, so that the header is overwritten. Then the
bytes that pass the test are no frame.
-/

namespace DasEdge.Sdccp

open DasEdge.Library

/-- The receiver, with the bytes it has received, whether the first half of a header was kept while the
second was looked for, and whether the buffer was begun again behind a header. -/
structure BjdcWatch where
  receiver : BjdcReceiver
  received : List UInt8
  kept : Bool
  wrapped : Bool

/-- One byte. -/
def BjdcWatch.step (aes : Aes) (w : BjdcWatch) (byte : UInt8) : BjdcWatch :=
  let receiver := ccBjdcPutByte aes w.receiver byte
  { receiver := receiver
    received := w.received ++ [byte]
    kept := if receiver.eRcvState = .head ∧ receiver.nPos = 0 then false
      else if w.receiver.nPos = 3 ∧ receiver.eRcvState = .head then true else w.kept
    wrapped := receiver.eRcvState = .eom ∧ (w.wrapped = true ∨ receiver.nPos = 0) }

/-- A stream. -/
def BjdcWatch.run (aes : Aes) (w : BjdcWatch) (bytes : List UInt8) : BjdcWatch :=
  bytes.foldl (BjdcWatch.step aes) w

/-- At every byte of a stream. -/
def BjdcWatch.Always (aes : Aes) (w : BjdcWatch) (bytes : List UInt8)
    (P : BjdcWatch → UInt8 → Prop) : Prop :=
  ∀ before byte after, bytes = before ++ byte :: after → P (w.run aes before) byte

/-- The length of type and data that a byte's frame states. -/
def BjdcReceiver.ulLen (r : BjdcReceiver) (byte : UInt8) : UInt32 :=
  (bjdcPackage (r.stored byte) r.nextPos).ulLen

/-- The parser is called at a byte. -/
def BjdcReceiver.Calls (r : BjdcReceiver) (byte : UInt8) : Prop :=
  r.EndsFrame byte ∧ bjdcAccepted (r.stored byte) r.nextPos = true

/-- `AES_Decrypt` reads and writes a place of the buffer when it decrypts `nDataLen` bytes of it
from place 12 on: it takes blocks of 16 bytes from the end on. -/
def AesDecryptTouches (nDataLen place : ℕ) : Prop := 12 + nDataLen % 16 ≤ place ∧ place < 12 + nDataLen

/-- `CC_BJDC_PutBytes` reads a place of its buffer at a byte. -/
def BjdcReceiver.Reads (r : BjdcReceiver) (byte : UInt8) (place : ℕ) : Prop :=
  match r.eRcvState with
  | .head => r.nextPos = 4 ∧ place < 4
  | .eom =>
    8 ≤ r.nextPos ∧ r.nextPos - 4 ≤ place ∧ place < r.nextPos ∨
    r.EndsFrame byte ∧
      (place < 12 ∨ r.nextPos - 6 ≤ place ∧ place < r.nextPos ∨
        r.ulLen byte + 14 = r.nextPos.toUInt32 ∧ 8 ≤ place ∧ place < 8 + (r.ulLen byte).toNat ∨
        r.Calls byte ∧ AesDecryptTouches (r.ulLen byte - 4).toNat place)

/-- It writes a place of its buffer at a byte. -/
def BjdcReceiver.Writes (r : BjdcReceiver) (byte : UInt8) (place : ℕ) : Prop :=
  place = r.nPos ∨
    r.Calls byte ∧ (AesDecryptTouches (r.ulLen byte - 4).toNat place ∨
    place = 12 + (r.ulLen byte - 4).toNat)

/-- What is accessed at a byte lies in the buffer. -/
def BjdcReceiver.InBounds (r : BjdcReceiver) (byte : UInt8) : Prop :=
  ∀ place, r.Reads byte place ∨ r.Writes byte place → place < ccBjdcBufSize

/-- A frame with its header, its end marker, its length and its check value. -/
structure BjdcWellFormed (ulLen : UInt32) (frame : List UInt8) : Prop where
  pre : uint32Bytes ccBjdcPre <+: frame
  eom : uint32Bytes ccBjdcEom <:+ frame
  length : frame.length = ulLen.toNat + 14
  stated : ShowsAt (fun i => frame.getD i 0) 4 (uint32Bytes ulLen)
  check : ShowsAt (fun i => frame.getD i 0) (8 + ulLen.toNat)
    (uint16Bytes (ccGetCrc16 (fun i => frame.getD (8 + i) 0) ulLen))

/-- The last bytes received are such a frame, and the decryption and the null character stay inside
it. -/
def BjdcWatch.Sound (w : BjdcWatch) (byte : UInt8) : Prop :=
  ∃ frame, frame <:+ w.received ++ [byte] ∧ BjdcWellFormed (w.receiver.ulLen byte) frame ∧
    ∀ place, AesDecryptTouches (w.receiver.ulLen byte - 4).toNat place ∨
      place = 12 + (w.receiver.ulLen byte - 4).toNat → place < frame.length

/-- The header of the frame in the buffer is one that was received with it: its halves came one
behind the other, or the buffer was begun again and holds a header again. -/
def BjdcWatch.HeaderHolds (w : BjdcWatch) : Prop :=
  if w.wrapped then readUInt32 w.receiver.pBuffer 0 = ccBjdcPre else w.kept = false

instance BjdcWatch.decidableHeaderHolds (w : BjdcWatch) : Decidable w.HeaderHolds := by
  unfold BjdcWatch.HeaderHolds; infer_instance

/-- The place behind a byte lies in the buffer. -/
theorem BjdcReceiver.nextPos_lt (r : BjdcReceiver) : r.nextPos < ccBjdcBufSize := by
  unfold BjdcReceiver.nextPos
  split
  · decide
  · omega

/-- The stated length of a frame whose length agrees with the place of its end. -/
theorem BjdcReceiver.ulLen_toNat {r : BjdcReceiver} {byte : UInt8} (hends : r.EndsFrame byte)
    (hlength : r.ulLen byte + 14 = r.nextPos.toUInt32) : (r.ulLen byte).toNat + 14 = r.nextPos := by
  have hleast := hends.2.2
  have hlt := r.nextPos_lt
  have hulLen := (r.ulLen byte).toNat_lt
  have hnat := congrArg UInt32.toNat hlength
  rw [ccBjdcBufSize] at hlt
  rw [UInt32.toNat_add, Nat.toUInt32_eq,
    UInt32.toNat_ofNat_of_lt' (by change r.nextPos < 2 ^ 32; omega)] at hnat
  change (_ + 14) % 2 ^ 32 = _ at hnat
  omega

/-- A frame that passes the test has the length that it states. -/
theorem BjdcReceiver.Calls.length {r : BjdcReceiver} {byte : UInt8} (h : r.Calls byte) :
    (r.ulLen byte).toNat + 14 = r.nextPos := by
  have haccepted := h.2
  unfold bjdcAccepted at haccepted
  rw [Bool.and_eq_true, decide_eq_true_eq] at haccepted
  exact BjdcReceiver.ulLen_toNat h.1 haccepted.1

/-- Its data ends before the check value. -/
theorem BjdcReceiver.Calls.data {r : BjdcReceiver} {byte : UInt8} (h : r.Calls byte) :
    12 + (r.ulLen byte - 4).toNat + 6 = r.nextPos := by
  have hlength := h.length
  have hleast := h.1.2.2
  rw [UInt32.toNat_sub_of_le _ _ (by rw [UInt32.le_iff_toNat_le]; change 4 ≤ _; omega)]
  change 12 + (_ - 4) + 6 = _
  omega

/-- The receiver stays inside its buffer. -/
theorem BjdcReceiver.inBounds {r : BjdcReceiver} (h : r.nPos < ccBjdcBufSize) (byte : UInt8) :
    r.InBounds byte := by
  have hlt := r.nextPos_lt
  intro place haccess
  rcases haccess with hread | rfl | ⟨hcalls, ⟨-, htouch⟩ | rfl⟩
  · unfold BjdcReceiver.Reads at hread
    split at hread
    · obtain ⟨hnext, hplace⟩ := hread
      omega
    · rcases hread with hmarker | ⟨hends, hhead | hcheck | ⟨hlength, hcrc⟩ | ⟨hcalls, -, htouch⟩⟩
      · omega
      · have := hends.2.2
        omega
      · omega
      · have := BjdcReceiver.ulLen_toNat hends hlength
        omega
      · have := hcalls.data
        omega
  · exact h
  · have := hcalls.data
    omega
  · have := hcalls.data
    omega

/-- How the bytes that the receiver counts for a frame lie in the received ones: at their end, or,
when the first half was kept, with a block that is no second half in the place of the first. -/
def Begun (kept : Bool) (received bytes : List UInt8) : Prop :=
  match kept with
  | false => bytes <:+ received
  | true => 2 ≤ bytes.length ∧ ∃ block : List UInt8, block.length = 2 ∧
      (block = bjdcFormat.half → bytes.take 2 ≠ bjdcFormat.half) ∧ block ++ bytes.drop 2 <:+ received

/-- What is watched fits the place of the receiver. -/
def BjdcWatch.Ok (w : BjdcWatch) : Prop :=
  ∃ s, w.receiver.Follows s ∧
    match s with
    | .head seen => w.wrapped = false ∧ Begun w.kept w.received seen
    | .body frame => (w.wrapped = true ↔ ccBjdcBufSize ≤ frame.length) ∧ Begun w.kept w.received frame ∧
        bjdcFormat.half ++ bjdcFormat.half <+: frame

/-- A byte is added to both. -/
theorem suffix_concat {bytes received : List UInt8} (h : bytes <:+ received) (byte : UInt8) :
    bytes ++ [byte] <:+ received ++ [byte] := by
  obtain ⟨before, rfl⟩ := h
  exact ⟨before, (List.append_assoc _ _ _).symm⟩

/-- The next byte of a frame or a header. -/
theorem Begun.push {kept : Bool} {received bytes : List UInt8} (h : Begun kept received bytes)
    (byte : UInt8) :
    Begun kept (received ++ [byte]) (bytes ++ [byte]) := by
  cases kept with
  | false => exact suffix_concat h byte
  | true =>
    obtain ⟨hlength, block, hblock, hother, hsuffix⟩ := h
    refine ⟨by rw [List.length_append]; omega, block, hblock, ?_, ?_⟩
    · rwa [List.take_append_of_le_length hlength]
    · rw [List.drop_append_of_le_length hlength, ← List.append_assoc]
      exact suffix_concat hsuffix byte

/-- Behind the first half they lie at the end. -/
theorem Begun.drop_two {kept : Bool} {received bytes : List UInt8} (h : Begun kept received bytes) :
    bytes.drop 2 <:+ received := by
  cases kept with
  | false => exact (List.drop_suffix 2 bytes).trans h
  | true =>
    obtain ⟨-, block, -, -, hsuffix⟩ := h
    exact (List.suffix_append block _).trans hsuffix

/-- Four bytes that are no header. -/
theorem Begun.keep {kept : Bool} {received bytes : List UInt8} (h : Begun kept received bytes)
    (hlength : bytes.length = 4)
    (hmiss : bytes ≠ bjdcFormat.half ++ bjdcFormat.half) : Begun true received (bytes.take 2) := by
  have hdrop := h.drop_two
  refine ⟨by rw [List.length_take]; omega, bytes.drop 2, by rw [List.length_drop]; omega,
    fun hblock htake => ?_, ?_⟩
  · rw [List.take_take, Nat.min_self] at htake
    refine hmiss ?_
    rw [← List.take_append_drop 2 bytes, htake, hblock]
  · rwa [List.drop_take, Nat.sub_self, List.take_zero, List.append_nil]

/-- Behind a header nothing is kept or forgotten. -/
theorem BjdcWatch.step_kept_eom {w : BjdcWatch} {aes : Aes} {byte : UInt8}
    (h : (ccBjdcPutByte aes w.receiver byte).eRcvState = .eom) : (w.step aes byte).kept = w.kept := by
  change (if _ then _ else if _ then _ else _) = _
  rw [if_neg fun hhead => absurd (h.symm.trans hhead.1) (by decide),
    if_neg fun hhead => absurd (h.symm.trans hhead.2) (by decide)]

/-- While a header is looked for the buffer is not begun again. -/
theorem BjdcWatch.step_wrapped_head {w : BjdcWatch} {aes : Aes} {byte : UInt8}
    (h : (ccBjdcPutByte aes w.receiver byte).eRcvState = .head) : (w.step aes byte).wrapped = false :=
  decide_eq_false fun hwrapped => absurd (h.symm.trans hwrapped.1) (by decide)

/-- A byte keeps what is watched fitting. -/
theorem BjdcWatch.Ok.step {w : BjdcWatch} (h : w.Ok) (aes : Aes) (byte : UInt8) :
    (w.step aes byte).Ok := by
  obtain ⟨s, hfollows, hghost⟩ := h
  have hnew := (hfollows.step aes byte).1
  refine ⟨_, hnew, ?_⟩
  cases s with
  | head seen =>
    obtain ⟨hwrapped, hbegun⟩ := hghost
    have hplace : w.receiver.nPos = seen.length := hfollows.1
    have hlength : (seen ++ [byte]).length = seen.length + 1 := by simp
    by_cases hfull : (seen ++ [byte]).length = 2 * bjdcFormat.half.length
    · have hfour : seen.length + 1 = 4 := hlength.symm.trans hfull
      by_cases hheader : seen ++ [byte] = bjdcFormat.half ++ bjdcFormat.half
      · rw [FrameFormat.scanStep_lock hheader] at hnew ⊢
        have hsmall : ¬ ccBjdcBufSize ≤ (seen ++ [byte]).length := by rw [hlength, hfour]; decide
        have hnPos : (ccBjdcPutByte aes w.receiver byte).nPos = (seen ++ [byte]).length %
          ccBjdcBufSize := hnew.1
        refine ⟨⟨fun hstep => ?_, fun hfill => absurd hfill hsmall⟩, ?_, hheader ▸ List.prefix_refl _⟩
        · rcases (of_decide_eq_true hstep).2 with hbefore | hzero
          · exact absurd hbefore (by rw [hwrapped]; decide)
          · change (ccBjdcPutByte aes w.receiver byte).nPos = 0 at hzero
            rw [hnPos, hlength, hfour] at hzero
            exact absurd hzero (by decide)
        · rw [BjdcWatch.step_kept_eom hnew.2.2.1]
          exact hbegun.push byte
      · rw [FrameFormat.scanStep_miss hfull hheader] at hnew ⊢
        have hkept : (w.step aes byte).kept = true := by
          have hnPos : (ccBjdcPutByte aes w.receiver byte).nPos =
            ((seen ++ [byte]).take 2).length := hnew.1
          change (if _ then _ else if _ then _ else _) = _
          rw [if_neg, if_pos ⟨by omega, hnew.2.2.1⟩]
          rintro ⟨-, hzero⟩
          change (ccBjdcPutByte aes w.receiver byte).nPos = 0 at hzero
          rw [hnPos, List.length_take] at hzero
          omega
        refine ⟨BjdcWatch.step_wrapped_head hnew.2.2.1, ?_⟩
        rw [hkept]
        exact (hbegun.push byte).keep hfull hheader
    · rw [FrameFormat.scanStep_short hfull] at hnew ⊢
      have hkept : (w.step aes byte).kept = w.kept := by
        have hnPos : (ccBjdcPutByte aes w.receiver byte).nPos = (seen ++ [byte]).length := hnew.1
        have hfew : (seen ++ [byte]).length < 4 := hnew.2.1
        change (if _ then _ else if _ then _ else _) = _
        rw [if_neg, if_neg (fun hthree => by have := hthree.1; omega)]
        rintro ⟨-, hzero⟩
        change (ccBjdcPutByte aes w.receiver byte).nPos = 0 at hzero
        omega
      refine ⟨BjdcWatch.step_wrapped_head hnew.2.2.1, ?_⟩
      rw [hkept]
      exact hbegun.push byte
  | body frame =>
    obtain ⟨hwrapped, hbegun, hheader⟩ := hghost
    by_cases hend : bjdcFormat.IsEnd (frame ++ [byte])
    · rw [FrameFormat.scanStep_end hend] at hnew ⊢
      have hkept : (w.step aes byte).kept = false := if_pos ⟨hnew.2.2.1, hnew.1⟩
      refine ⟨BjdcWatch.step_wrapped_head hnew.2.2.1, ?_⟩
      rw [hkept]
      exact List.nil_suffix
    · rw [FrameFormat.scanStep_run hend] at hnew ⊢
      have hnPos : (ccBjdcPutByte aes w.receiver byte).nPos = (frame ++ [byte]).length %
        ccBjdcBufSize := hnew.1
      have hlength : (frame ++ [byte]).length = frame.length + 1 := by simp
      refine ⟨?_, ?_, hheader.trans (List.prefix_append frame [byte])⟩
      · have hwraps : (w.step aes byte).wrapped = true ↔
            w.wrapped = true ∨ (frame ++ [byte]).length % ccBjdcBufSize = 0 := by
          rw [← hnPos]
          exact decide_eq_true_iff.trans (and_iff_right hnew.2.2.1)
        rw [hwraps, hwrapped, hlength]
        constructor
        · rintro (hbefore | hzero)
          · omega
          · exact Nat.le_of_dvd (Nat.succ_pos _) (Nat.dvd_of_mod_eq_zero hzero)
        · intro hfill
          rcases Nat.lt_or_eq_of_le hfill with hlt | heq
          · left
            omega
          · right
            rw [← heq, Nat.mod_self]
      · rw [BjdcWatch.step_kept_eom hnew.2.2.1]
        exact hbegun.push byte

/-- A stream keeps it fitting. -/
theorem BjdcWatch.Ok.run {w : BjdcWatch} (h : w.Ok) (aes : Aes) (bytes : List UInt8) :
    (w.run aes bytes).Ok := by
  induction bytes generalizing w with
  | nil => exact h
  | cons byte rest ih => exact ih (h.step aes byte)

/-- The last bytes of a stream, as many as the place tells, lie at the beginning of the buffer. -/
theorem showsAt_last {pBuffer : ℕ → UInt8} {bytes : List UInt8}
    (h : Holds ccBjdcBufSize pBuffer bytes) :
    ShowsAt pBuffer 0 (bytes.drop (bytes.length - bytes.length % ccBjdcBufSize)) ∧
      (bytes.drop (bytes.length - bytes.length % ccBjdcBufSize)).length =
      bytes.length % ccBjdcBufSize := by
  have hle := Nat.mod_le bytes.length ccBjdcBufSize
  have hlength : (bytes.drop (bytes.length - bytes.length % ccBjdcBufSize)).length =
      bytes.length % ccBjdcBufSize := by
    rw [List.length_drop]
    omega
  refine ⟨fun i hi => ?_, hlength⟩
  rw [Nat.zero_add]
  have hwhole : Holds ccBjdcBufSize pBuffer (bytes.take (bytes.length - bytes.length % ccBjdcBufSize) ++
      bytes.drop (bytes.length - bytes.length % ccBjdcBufSize)) := by rwa [List.take_append_drop]
  exact hwhole.tail (by decide) (by rw [List.take_append_drop, hlength]) i hi

/-- The four bytes of a header are not touched by the end of a frame. -/
theorem BjdcReceiver.EndsFrame.readUInt32_stored {r : BjdcReceiver} {byte : UInt8}
    (h : r.EndsFrame byte) :
    readUInt32 (r.stored byte) 0 = readUInt32 r.pBuffer 0 := by
  have hplace : 17 ≤ r.nPos := by
    have hleast := h.2.2
    unfold BjdcReceiver.nextPos at hleast
    split at hleast
    · omega
    · omega
  unfold readUInt32 BjdcReceiver.stored
  rw [Function.update_of_ne (by omega), Function.update_of_ne (by omega),
    Function.update_of_ne (by omega),
    Function.update_of_ne (by omega)]

/-- The last bytes received at the end of a frame are those in the buffer behind the first half of the
header, and they start with a header exactly when the header in the buffer is one that was received with
them. -/
theorem BjdcWatch.Ok.last {w : BjdcWatch} (h : w.Ok) {byte : UInt8}
    (hends : w.receiver.EndsFrame byte) :
    ∃ frame, frame <:+ w.received ++ [byte] ∧ frame.length = w.receiver.nextPos ∧
      ShowsAt (w.receiver.stored byte) 2 (frame.drop 2) ∧
      (uint32Bytes ccBjdcPre <+: frame ↔ w.HeaderHolds) := by
  obtain ⟨s, hfollows, hghost⟩ := h
  cases s with
  | head seen => exact absurd (hfollows.2.2.1.symm.trans hends.1) (by decide)
  | body frame =>
    obtain ⟨hwrapped, hbegun, hheader⟩ := hghost
    obtain ⟨hheld, hnext⟩ := hfollows.store_body byte
    have hleast := hends.2.2
    have hpush := hbegun.push byte
    have hlength : (frame ++ [byte]).length = frame.length + 1 := by simp
    obtain ⟨hshows, hlast⟩ := showsAt_last hheld
    rw [← hnext] at hshows hlast
    by_cases hwrap : w.wrapped = true
    · have hfill := hwrapped.mp hwrap
      have hlt := w.receiver.nextPos_lt
      refine ⟨_, ?_, hlast, ShowsAt.drop hshows (by omega), ?_⟩
      · refine List.IsSuffix.trans ?_ hpush.drop_two
        refine List.suffix_of_suffix_length_le (List.drop_suffix _ _) (List.drop_suffix 2 _) ?_
        rw [hlast, List.length_drop]
        omega
      · unfold BjdcWatch.HeaderHolds
        rw [if_pos hwrap, ← hends.readUInt32_stored, readUInt32_eq_iff]
        exact (hshows.prefix_iff (by rw [hlast]; change 4 ≤ _; omega)).symm
    · have hsmall : (frame ++ [byte]).length < ccBjdcBufSize := by
        have hfew : ¬ ccBjdcBufSize ≤ frame.length := mt hwrapped.mpr hwrap
        rcases Nat.lt_or_eq_of_le (by omega : (frame ++ [byte]).length ≤ ccBjdcBufSize) with hlt | heq
        · exact hlt
        · rw [heq, Nat.mod_self] at hnext
          omega
      rw [Nat.mod_eq_of_lt hsmall] at hnext
      rw [hnext, Nat.sub_self, List.drop_zero] at hshows
      have hpre : uint32Bytes ccBjdcPre <+: frame ++ [byte] :=
        hheader.trans (List.prefix_append frame [byte])
      unfold BjdcWatch.HeaderHolds
      rw [if_neg hwrap]
      cases hkept : w.kept with
      | false =>
        rw [hkept] at hpush
        exact ⟨frame ++ [byte], hpush, hnext.symm, ShowsAt.drop hshows (by omega), fun _ => rfl,
          fun _ => hpre⟩
      | true =>
        rw [hkept] at hpush
        obtain ⟨-, block, hblock, hother, hsuffix⟩ := hpush
        refine ⟨block ++ (frame ++ [byte]).drop 2, hsuffix, ?_, ?_, fun hfound => ?_,
          fun hfalse => nomatch hfalse⟩
        · rw [List.length_append, List.length_drop]
          omega
        · rw [← hblock, List.drop_left, hblock]
          exact ShowsAt.drop hshows (by omega)
        · obtain ⟨rest, hrest⟩ := hfound
          have hhalf : bjdcFormat.half ++ ([0xAA, 0x55] ++ rest) =
            block ++ (frame ++ [byte]).drop 2 := hrest
          have hsame := (List.append_inj hhalf hblock.symm).1.symm
          obtain ⟨rest', hrest'⟩ := hpre
          refine absurd ?_ (hother hsame)
          rw [← hrest']
          rfl

/-- Bytes that pass the test are a frame as soon as they start with a header. -/
theorem BjdcReceiver.Calls.wellFormed {r : BjdcReceiver} {byte : UInt8} (h : r.Calls byte)
    {frame : List UInt8}
    (hlength : frame.length = r.nextPos) (hshows : ShowsAt (r.stored byte) 2 (frame.drop 2))
    (hpre : uint32Bytes ccBjdcPre <+: frame) : BjdcWellFormed (r.ulLen byte) frame := by
  have hleast := h.1.2.2
  have hcount := h.length
  have hread : ∀ i, 2 ≤ i → i < frame.length → frame.getD i 0 = r.stored byte i := by
    intro i hi hlt
    have hat := hshows (i - 2) (by rw [List.length_drop]; omega)
    rw [Nat.add_sub_cancel' hi, List.getElem_drop] at hat
    rw [hat, List.getD_eq_getElem _ _ hlt]
    simp only [Nat.add_sub_cancel' hi]
  have hcopy : ∀ place bytes, 2 ≤ place → place + bytes.length ≤ frame.length →
    ShowsAt (r.stored byte) place bytes →
      ShowsAt (fun i => frame.getD i 0) place bytes := by
    intro place bytes hplace hfits hat i hi
    change frame.getD (place + i) 0 = _
    rw [hread _ (by omega) (by omega)]
    exact hat i hi
  have heom := (readUInt32_eq_iff _ _ _).mp h.1.2.1
  have hstated : ShowsAt (r.stored byte) 4 (uint32Bytes (r.ulLen byte)) :=
    (readUInt32_eq_iff _ _ _).mp rfl
  have haccepted := h.2
  unfold bjdcAccepted at haccepted
  rw [Bool.and_eq_true, decide_eq_true_eq, decide_eq_true_eq] at haccepted
  have hcrc : ccGetCrc16 (fun i => r.stored byte (8 + i)) (r.ulLen byte) =
      ccGetCrc16 (fun i => frame.getD (8 + i) 0) (r.ulLen byte) :=
    ccGetCrc16_congr fun i hi => (hread (8 + i) (by omega) (by omega)).symm
  have hcheck : ShowsAt (r.stored byte) (8 + (r.ulLen byte).toNat)
      (uint16Bytes (ccGetCrc16 (fun i => frame.getD (8 + i) 0) (r.ulLen byte))) := by
    have hplace : 8 + (r.ulLen byte).toNat = r.nextPos - 6 := by omega
    rw [← hcrc, hplace]
    exact (uint16_eq_iff _ _ _).mp haccepted.2.symm
  have hend : ShowsAt (fun i => frame.getD i 0) (r.nextPos - 4) (uint32Bytes ccBjdcEom) :=
    hcopy _ _ (by omega) (by change _ + 4 ≤ _; omega) heom
  have hself : ShowsAt (fun i => frame.getD i 0) (r.nextPos - 4) (frame.drop (r.nextPos - 4)) := by
    intro i hi
    rw [List.length_drop] at hi
    change frame.getD (r.nextPos - 4 + i) 0 = _
    rw [List.getD_eq_getElem _ _ (by omega), List.getElem_drop]
  refine ⟨hpre, ?_, by omega, hcopy 4 _ (by decide) (by change 4 + 4 ≤ _; omega) hstated,
    hcopy _ _ (by omega) (by change _ + 2 ≤ _; omega) hcheck⟩
  have hfour : (uint32Bytes ccBjdcEom).length = (frame.drop (r.nextPos - 4)).length := by
    rw [List.length_drop]
    change 4 = _
    omega
  rw [((hself.prefix_iff hfour.le).mp hend).eq_of_length hfour]
  exact List.drop_suffix _ _

/-- The decryption and the null character stay before the check value. -/
theorem BjdcReceiver.Calls.inside {r : BjdcReceiver} {byte : UInt8} (h : r.Calls byte) {place : ℕ}
    (htouch : AesDecryptTouches (r.ulLen byte - 4).toNat place ∨
      place = 12 + (r.ulLen byte - 4).toNat) :
    place < r.nextPos := by
  have hdata := h.data
  rcases htouch with ⟨-, hlt⟩ | rfl
  · omega
  · omega

/-- When the parser is called, the last bytes received are a frame exactly when the header in the
buffer is one that was received with them. -/
theorem BjdcWatch.Ok.sound_iff {w : BjdcWatch} (h : w.Ok) {byte : UInt8}
    (hcalls : w.receiver.Calls byte) :
    w.Sound byte ↔ w.HeaderHolds := by
  obtain ⟨frame, hsuffix, hlength, hshows, hpre⟩ := h.last hcalls.1
  constructor
  · rintro ⟨other, hother, hwell, -⟩
    have hsame : other.length = frame.length := by rw [hwell.length, hcalls.length, hlength]
    have heq := (List.suffix_of_suffix_length_le hother hsuffix hsame.le).eq_of_length hsame
    exact hpre.mp (heq ▸ hwell.pre)
  · intro hholds
    refine ⟨frame, hsuffix, hcalls.wellFormed hlength hshows (hpre.mpr hholds), fun place htouch => ?_⟩
    rw [hlength]
    exact hcalls.inside htouch

/-- The receiver that is watched is the receiver. -/
theorem BjdcWatch.run_receiver (aes : Aes) (w : BjdcWatch) (bytes : List UInt8) :
    (w.run aes bytes).receiver = ccBjdcPutBytes aes w.receiver bytes := by
  induction bytes generalizing w with
  | nil => rfl
  | cons byte rest ih => exact ih (w.step aes byte)

/-- An idle receiver has received nothing. -/
theorem BjdcReceiver.Idle.watch {r : BjdcReceiver} (h : r.Idle) :
    (⟨r, [], false, false⟩ : BjdcWatch).Ok :=
  ⟨.head [], h.follows, rfl, List.nil_suffix⟩

/-- The place of a receiver that is watched lies in the buffer. -/
theorem BjdcWatch.Ok.nPos_lt {w : BjdcWatch} (h : w.Ok) : w.receiver.nPos < ccBjdcBufSize := by
  obtain ⟨s, ⟨hplace, hok, -⟩, -⟩ := h
  rw [hplace]
  cases s with
  | head seen =>
    have hfew : seen.length < 4 := hok
    exact hfew.trans (by decide)
  | body frame => exact Nat.mod_lt _ (by decide)

/-- A receiver that starts idle and gets any chunks stays inside its buffer, and always calls the
parser at the end of a frame exactly when at each call the header in the buffer is one that was
received with it. -/
theorem bjdc_acceptance_iff (aes : Aes) (r : BjdcReceiver) (chunks : List (List UInt8))
    (hidle : r.Idle) :
    (⟨r, [], false, false⟩ : BjdcWatch).Always aes chunks.flatten
        (fun w byte => w.receiver.InBounds byte ∧ (w.receiver.Calls byte → w.Sound byte)) ↔
      (⟨r, [], false, false⟩ : BjdcWatch).Always aes chunks.flatten
        fun w byte => w.receiver.Calls byte → w.HeaderHolds := by
  constructor
  · intro h before byte after heq hcalls
    exact ((hidle.watch.run aes before).sound_iff hcalls).mp ((h before byte after heq).2 hcalls)
  · intro h before byte after heq
    have hok := hidle.watch.run aes before
    exact ⟨BjdcReceiver.inBounds hok.nPos_lt byte,
      fun hcalls => (hok.sound_iff hcalls).mpr (h before byte after heq hcalls)⟩

/-- A cipher that leaves empty data empty. -/
def plainAes : Aes := ⟨id, id, fun _ => rfl, fun _ => rfl⟩

/-- A frame without data whose header has two bytes between its halves. -/
def splitFrame : List UInt8 :=
  [0xAA, 0x55, 0, 0, 0xAA, 0x55, 4, 0, 0, 0, 0, 0, 0, 0, 0, 0, 0x68, 0x68, 0x16, 0x16]

/-- The frame in two chunks. -/
theorem bjdc_acceptance_iff_split :
    (⟨⟨fun _ => 0, 0, .head, []⟩, [], false, false⟩ : BjdcWatch).Always plainAes
        [splitFrame.take 3, splitFrame.drop 3].flatten
        (fun w byte => w.receiver.InBounds byte ∧ (w.receiver.Calls byte → w.Sound byte)) ↔
      (⟨⟨fun _ => 0, 0, .head, []⟩, [], false, false⟩ : BjdcWatch).Always plainAes
        [splitFrame.take 3, splitFrame.drop 3].flatten
        fun w byte => w.receiver.Calls byte → w.HeaderHolds :=
  bjdc_acceptance_iff plainAes ⟨fun _ => 0, 0, .head, []⟩ [splitFrame.take 3,
    splitFrame.drop 3] ⟨rfl, rfl⟩

/-- The parser is called at its end, where the last bytes received do not start with a header. -/
theorem bjdc_acceptance_fails :
    ¬ (⟨⟨fun _ => 0, 0, .head, []⟩, [], false, false⟩ : BjdcWatch).Always plainAes [splitFrame].flatten
        (fun w byte => w.receiver.InBounds byte ∧ (w.receiver.Calls byte → w.Sound byte)) := by
  intro h
  have hidle : (⟨fun _ => 0, 0, .head, []⟩ : BjdcReceiver).Idle := ⟨rfl, rfl⟩
  have hcalls : ((⟨⟨fun _ => 0, 0, .head, []⟩, [], false, false⟩ : BjdcWatch).run plainAes
    splitFrame.dropLast).receiver.Calls
      0x16 := ⟨by decide, by decide +kernel⟩
  have hholds := ((hidle.watch.run plainAes splitFrame.dropLast).sound_iff hcalls).mp
    ((h splitFrame.dropLast 0x16 [] rfl).2 hcalls)
  exact absurd hholds (by decide)

end DasEdge.Sdccp
