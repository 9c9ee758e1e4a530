import DasEdge.Library.FrameScanner
import DasEdge.Library.WrappedBuffer
import DasEdge.Sdccp.Bjdc
import Mathlib.Data.List.Forall2

/-!
# The BJDC receiver as a frame scanner

`CC_BJDC_PutBytes` scans for frames that start with the bytes of `CC_BJDC_PRE` and end with those of
`CC_BJDC_EOM`. On a mismatch of the header the first two of its four bytes stay in the buffer, and
the two bytes behind them are overwritten by the next ones.
-/

namespace DasEdge.Sdccp

open DasEdge.Library

/-- Frames of BJDC. -/
def bjdcFormat : FrameFormat UInt8 where
  half := [0xAA, 0x55]
  marker := [0x68, 0x68, 0x16, 0x16]
  least := 18
  size := ccBjdcBufSize
  half_ne := by simp
  marker_ne := by simp
  apart := by simp
  marker_le := by simp
  head_le := by simp
  least_lt := by decide

/-- The check value depends only on the bytes that it is computed over. -/
theorem ccGetCrc16_congr {pData pData' : ℕ → UInt8} {ulLen : UInt32}
    (h : ∀ i < ulLen.toNat, pData i = pData' i) :
    ccGetCrc16 pData ulLen = ccGetCrc16 pData' ulLen := by
  unfold ccGetCrc16
  refine List.foldl_ext _ _ _ fun crc i hi => ?_
  rw [h i (List.mem_range.mp hi)]

/-- The buffer with a byte at the receiver's place. -/
def BjdcReceiver.stored (r : BjdcReceiver) (byte : UInt8) : ℕ → UInt8 :=
  Function.update r.pBuffer r.nPos byte

/-- The place behind it. -/
def BjdcReceiver.nextPos (r : BjdcReceiver) : ℕ := if ccBjdcBufSize ≤ r.nPos + 1 then 0 else r.nPos + 1

/-- A byte ends a frame. -/
def BjdcReceiver.EndsFrame (r : BjdcReceiver) (byte : UInt8) : Prop :=
  r.eRcvState = .eom ∧ readUInt32 (r.stored byte) (r.nextPos - 4) = ccBjdcEom ∧ 18 ≤ r.nextPos

instance BjdcReceiver.decidableEndsFrame (r : BjdcReceiver) (byte : UInt8) :
    Decidable (r.EndsFrame byte) := by
  unfold BjdcReceiver.EndsFrame; infer_instance

/-- A byte while a header is looked for. -/
theorem ccBjdcPutByte_head (aes : Aes) {r : BjdcReceiver} (h : r.eRcvState = .head) (byte : UInt8) :
    ccBjdcPutByte aes r byte =
      if r.nextPos = 4 then
        if readUInt32 (r.stored byte) 0 = ccBjdcPre then ⟨r.stored byte, 4, .eom, r.parsed⟩
        else ⟨r.stored byte, 2, .head, r.parsed⟩
      else ⟨r.stored byte, r.nextPos, .head, r.parsed⟩ := by
  unfold ccBjdcPutByte
  rw [h]
  change (if r.nextPos = 4 then _ else _) = _
  split
  · next hpos =>
    change (if readUInt32 (r.stored byte) 0 = ccBjdcPre
      then BjdcReceiver.mk (r.stored byte) r.nextPos _ _ else _) = _
    rw [hpos]
    rfl
  · rfl

/-- A byte while the end of a frame is waited for. -/
theorem ccBjdcPutByte_eom (aes : Aes) {r : BjdcReceiver} (h : r.eRcvState = .eom) (byte : UInt8) :
    ccBjdcPutByte aes r byte =
      if r.EndsFrame byte then
        if bjdcAccepted (r.stored byte) r.nextPos then
          ⟨bjdcDecrypted aes (r.stored byte) (bjdcPackage (r.stored byte) r.nextPos).ulLen, 0, .head,
            r.parsed ++ [bjdcDelivered aes (r.stored byte) r.nextPos]⟩
        else ⟨r.stored byte, 0, .head, r.parsed⟩
      else ⟨r.stored byte, r.nextPos, .eom, r.parsed⟩ := by
  have hend : r.EndsFrame byte ↔
      8 ≤ r.nextPos ∧ readUInt32 (r.stored byte) (r.nextPos - 4) = ccBjdcEom ∧ 18 ≤ r.nextPos :=
    ⟨fun hends => ⟨by have := hends.2.2; omega, hends.2⟩, fun hends => ⟨h, hends.2⟩⟩
  unfold ccBjdcPutByte
  rw [h]
  by_cases hends : r.EndsFrame byte
  · rw [if_pos hends]
    exact if_pos (hend.mp hends)
  · rw [if_neg hends]
    exact if_neg (mt hend.mpr hends)

/-- A receiver is where a scanner is. -/
def BjdcReceiver.Follows (r : BjdcReceiver) (s : Scan UInt8) : Prop :=
  r.nPos = bjdcFormat.place s ∧ bjdcFormat.Ok s ∧
    match s with
    | .head seen => r.eRcvState = .head ∧ Holds ccBjdcBufSize r.pBuffer seen
    | .body frame => r.eRcvState = .eom ∧ Holds ccBjdcBufSize r.pBuffer frame

/-- A buffer with the place behind a frame that ended in it. -/
def BjdcCut (frame : List UInt8) (cut : (ℕ → UInt8) × ℕ) : Prop :=
  Holds ccBjdcBufSize cut.1 frame ∧ cut.2 = frame.length % ccBjdcBufSize

/-- The packages that the parser is called with for the frames that pass the test. -/
def bjdcDeliveries (aes : Aes) (cuts : List ((ℕ → UInt8) × ℕ)) : List BjdcPackage :=
  (cuts.filter fun cut => bjdcAccepted cut.1 cut.2).map fun cut => bjdcDelivered aes cut.1 cut.2

/-- The deliveries of one frame. -/
theorem bjdcDeliveries_singleton (aes : Aes) (pBuffer : ℕ → UInt8) (nPos : ℕ) :
    bjdcDeliveries aes [(pBuffer, nPos)] = if bjdcAccepted pBuffer nPos
      then [bjdcDelivered aes pBuffer nPos] else [] := by
  unfold bjdcDeliveries
  cases h : bjdcAccepted pBuffer nPos with
  | true => simp [h]
  | false => simp [h]

/-- Four bytes of a stream at the beginning of the buffer are the header word exactly when they are
the header. -/
theorem readUInt32_pre_iff {pBuffer : ℕ → UInt8} {bytes : List UInt8}
    (h : Holds ccBjdcBufSize pBuffer bytes)
    (hlength : bytes.length = 4) : readUInt32 pBuffer 0 = ccBjdcPre ↔
    bytes = bjdcFormat.half ++ bjdcFormat.half := by
  have hheld : ∀ i (hi : i < bytes.length), pBuffer (0 + i) = bytes[i] := by
    intro i hi
    have hplace := h i hi (by rw [ccBjdcBufSize]; omega)
    rw [Nat.mod_eq_of_lt (by rw [ccBjdcBufSize]; omega)] at hplace
    rwa [Nat.zero_add]
  refine (readUInt32_eq_iff pBuffer 0 ccBjdcPre).trans ⟨fun hread => ?_, ?_⟩
  · refine List.ext_getElem hlength fun i hi hi' => ?_
    rw [← hheld i hi, hread i hi']
    rfl
  · rintro rfl i hi
    exact hheld i hi

/-- The four bytes before the receiver's place are the end word exactly when the stream ends with
the marker. -/
theorem readUInt32_eom_iff {pBuffer : ℕ → UInt8} {frame : List UInt8}
    (h : Holds ccBjdcBufSize pBuffer frame)
    (hplace : 4 ≤ frame.length % ccBjdcBufSize) :
    readUInt32 pBuffer (frame.length % ccBjdcBufSize - 4) = ccBjdcEom ↔
      bjdcFormat.marker <:+ frame := by
  rw [← h.suffix_iff (by decide) bjdcFormat.marker hplace]
  exact readUInt32_eq_iff _ _ _

/-- A byte of a header is stored behind those seen before. -/
theorem BjdcReceiver.Follows.store_head {r : BjdcReceiver} {seen : List UInt8}
    (h : r.Follows (.head seen)) (byte : UInt8) :
    Holds ccBjdcBufSize (r.stored byte) (seen ++ [byte]) ∧ r.nextPos = seen.length + 1 := by
  obtain ⟨hplace, hok, -, hholds⟩ := h
  have hseen : seen.length < 4 := hok
  have hplace : r.nPos = seen.length := hplace
  have hpush := hholds.push byte
  rw [Nat.mod_eq_of_lt (by rw [ccBjdcBufSize]; omega), ← hplace] at hpush
  refine ⟨hpush, ?_⟩
  unfold BjdcReceiver.nextPos
  rw [hplace, if_neg (by rw [ccBjdcBufSize]; omega)]

/-- A byte of a frame is stored behind those before it. -/
theorem BjdcReceiver.Follows.store_body {r : BjdcReceiver} {frame : List UInt8}
    (h : r.Follows (.body frame)) (byte : UInt8) :
    Holds ccBjdcBufSize (r.stored byte) (frame ++ [byte]) ∧
      r.nextPos = (frame ++ [byte]).length % ccBjdcBufSize := by
  obtain ⟨hplace, -, -, hholds⟩ := h
  have hplace : r.nPos = frame.length % ccBjdcBufSize := hplace
  have hpush := hholds.push byte
  rw [← hplace] at hpush
  refine ⟨hpush, ?_⟩
  unfold BjdcReceiver.nextPos
  rw [hplace, next_place (by decide), List.length_append, List.length_singleton]

/-- A byte takes the receiver where it takes the scanner, and a frame that ends is cut out of the
buffer. -/
theorem BjdcReceiver.Follows.step {r : BjdcReceiver} {s : Scan UInt8} (h : r.Follows s) (aes : Aes)
    (byte : UInt8) :
    (ccBjdcPutByte aes r byte).Follows (bjdcFormat.scanStep s byte).1 ∧
      ∃ cuts, List.Forall₂ BjdcCut (bjdcFormat.scanStep s byte).2.toList cuts ∧
        (ccBjdcPutByte aes r byte).parsed = r.parsed ++ bjdcDeliveries aes cuts := by
  have hok' := bjdcFormat.scanStep_ok h.2.1 byte
  cases s with
  | head seen =>
    obtain ⟨hheld, hnext⟩ := h.store_head byte
    have hlength : (seen ++ [byte]).length = seen.length + 1 := by simp
    rw [ccBjdcPutByte_head aes h.2.2.1, hnext]
    by_cases hfull : seen.length + 1 = 4
    · rw [if_pos hfull]
      by_cases hheader : seen ++ [byte] = bjdcFormat.half ++ bjdcFormat.half
      · rw [FrameFormat.scanStep_lock hheader] at hok' ⊢
        rw [if_pos ((readUInt32_pre_iff hheld (hlength.trans hfull)).mpr hheader)]
        refine ⟨⟨?_, hok', rfl, hheld⟩, [], .nil, (List.append_nil _).symm⟩
        change 4 = (seen ++ [byte]).length % ccBjdcBufSize
        rw [hlength, hfull]
        rfl
      · have hwhole : (seen ++ [byte]).length = 2 * bjdcFormat.half.length := hlength.trans hfull
        rw [FrameFormat.scanStep_miss hwhole hheader] at hok' ⊢
        rw [if_neg (mt (readUInt32_pre_iff hheld (hlength.trans hfull)).mp hheader)]
        refine ⟨⟨?_, hok', rfl, hheld.take (by rw [ccBjdcBufSize]; omega) 2⟩, [], .nil,
          (List.append_nil _).symm⟩
        change 2 = ((seen ++ [byte]).take 2).length
        rw [List.length_take]
        omega
    · rw [if_neg hfull]
      have hshort : (seen ++ [byte]).length ≠ 2 * bjdcFormat.half.length :=
        fun heq => hfull (hlength.symm.trans heq)
      rw [FrameFormat.scanStep_short hshort] at hok' ⊢
      exact ⟨⟨hlength.symm, hok', rfl, hheld⟩, [], .nil, (List.append_nil _).symm⟩
  | body frame =>
    obtain ⟨hheld, hnext⟩ := h.store_body byte
    have heom : r.eRcvState = .eom := h.2.2.1
    have hend : r.EndsFrame byte ↔ bjdcFormat.IsEnd (frame ++ [byte]) := by
      unfold BjdcReceiver.EndsFrame
      rw [hnext]
      constructor
      · rintro ⟨-, hread, hleast⟩
        exact ⟨hleast, (readUInt32_eom_iff hheld (by omega)).mp hread⟩
      · rintro ⟨hleast, hmarker⟩
        have hleast : 18 ≤ (frame ++ [byte]).length % ccBjdcBufSize := hleast
        exact ⟨heom, (readUInt32_eom_iff hheld (by omega)).mpr hmarker, hleast⟩
    rw [ccBjdcPutByte_eom aes heom]
    by_cases hdone : bjdcFormat.IsEnd (frame ++ [byte])
    · rw [FrameFormat.scanStep_end hdone] at hok' ⊢
      rw [if_pos (hend.mpr hdone)]
      refine ⟨?_, [(r.stored byte, r.nextPos)], .cons ⟨hheld, hnext⟩ .nil, ?_⟩
      · split
        · exact ⟨rfl, hok', rfl, holds_nil _ _⟩
        · exact ⟨rfl, hok', rfl, holds_nil _ _⟩
      · rw [bjdcDeliveries_singleton]
        split
        · rfl
        · exact (List.append_nil _).symm
    · rw [FrameFormat.scanStep_run hdone] at hok' ⊢
      rw [if_neg (mt hend.mp hdone)]
      exact ⟨⟨hnext, hok', rfl, hheld⟩, [], .nil, (List.append_nil _).symm⟩

/-- An idle receiver is where an idle scanner is. -/
theorem BjdcReceiver.Idle.follows {r : BjdcReceiver} (h : r.Idle) : r.Follows (.head []) :=
  ⟨h.2, Nat.zero_lt_succ _, h.1, holds_nil _ _⟩

/-- Bytes take the receiver where they take the scanner, and the frames that end are cut out of the
buffer. -/
theorem BjdcReceiver.Follows.run {r : BjdcReceiver} {s : Scan UInt8} (h : r.Follows s) (aes : Aes)
    (bytes : List UInt8) :
    (ccBjdcPutBytes aes r bytes).Follows (bjdcFormat.scan s bytes).1 ∧
      ∃ cuts, List.Forall₂ BjdcCut (bjdcFormat.scan s bytes).2 cuts ∧
        (ccBjdcPutBytes aes r bytes).parsed = r.parsed ++ bjdcDeliveries aes cuts := by
  induction bytes generalizing r s with
  | nil => exact ⟨h, [], .nil, (List.append_nil r.parsed).symm⟩
  | cons byte rest ih =>
    obtain ⟨hstep, cuts, hcuts, hparsed⟩ := h.step aes byte
    obtain ⟨hrun, cuts', hcuts', hparsed'⟩ := ih hstep
    refine ⟨hrun, cuts ++ cuts', List.rel_append hcuts hcuts', ?_⟩
    change (ccBjdcPutBytes aes (ccBjdcPutByte aes r byte) rest).parsed = _
    rw [hparsed', hparsed, bjdcDeliveries, bjdcDeliveries, bjdcDeliveries, List.filter_append,
      List.map_append,
      List.append_assoc]

end DasEdge.Sdccp
