import DasEdge.Library.WrappedBuffer
import DasEdge.Sdccp.Hjt212Parse

/-!
# What the HJ/T 212 receiver reads and writes

At the end of a frame the receiver computes a check value over as many bytes as the packet says that
it has, before it compares that number with the place of the end; and the parser's string functions
go on to a null character that the frame need not have. The text of the check value is written to an
array of four characters, which has no room for the null character behind it.
-/

namespace DasEdge.Sdccp

open DasEdge.Library

/-- The receiver, with the number of bytes that it has received for the current frame. -/
structure Hjt212Watch where
  receiver : Hjt212Receiver
  got : ℕ

/-- One byte. -/
def Hjt212Watch.step (w : Hjt212Watch) (byte : UInt8) : Hjt212Watch where
  receiver := hjt212PutByte w.receiver byte
  got := if (hjt212PutByte w.receiver byte).eRcvState =
    .head then (hjt212PutByte w.receiver byte).nPos else w.got + 1

/-- A stream. -/
def Hjt212Watch.run (w : Hjt212Watch) (bytes : List UInt8) : Hjt212Watch :=
  bytes.foldl Hjt212Watch.step w

/-- The buffer when a byte is stored. -/
def Hjt212Receiver.stored (r : Hjt212Receiver) (byte : UInt8) : ℕ → UInt8 :=
  Function.update r.pBuffer r.nPos byte

/-- The place behind a byte. -/
def Hjt212Receiver.nextPos (r : Hjt212Receiver) : ℕ :=
  if hjt212BufSize ≤ r.nPos + 1 then 0 else r.nPos + 1

/-- A byte ends a frame. -/
def Hjt212Receiver.EndsFrame (r : Hjt212Receiver) (byte : UInt8) : Prop :=
  r.eRcvState = .eom ∧ readUInt16 (r.stored byte) (r.nextPos - 2) = 0x0A0d ∧ 18 ≤ r.nextPos

instance (r : Hjt212Receiver) (byte : UInt8) : Decidable (r.EndsFrame byte) := by
  unfold Hjt212Receiver.EndsFrame
  infer_instance

/-- The package of a frame that a byte ends. -/
def Hjt212Receiver.package (r : Hjt212Receiver) (byte : UInt8) : Hjt212Package :=
  hjt212Package (r.stored byte) r.nextPos

/-- How far the check value is computed: the stated length, as a number with sign. -/
def Hjt212Package.crcCount (xPack : Hjt212Package) : ℕ := xPack.ulLen.toInt32.toInt.toNat

/-- `HJT212_PutBytes` reads a place of its buffer at a byte. -/
def Hjt212Receiver.Reads (r : Hjt212Receiver) (byte : UInt8) (place : ℕ) : Prop :=
  match r.eRcvState with
  | .head => r.nextPos = 2 ∧ place < 2
  | .eom =>
    4 ≤ r.nextPos ∧ r.nextPos - 2 ≤ place ∧ place < r.nextPos ∨
    r.EndsFrame byte ∧
      (place < 6 ∨ r.nextPos - 6 ≤ place ∧ place < r.nextPos ∨
        6 ≤ place ∧ place < 6 + (r.package byte).crcCount ∨
        (r.package byte).accepted r.nextPos = true ∧ 6 ≤ place ∧
        ParsePackReads (r.package byte).pData (place - 6))

/-- `Hex2Str` writes two digits and a null character from a place on. -/
def Hex2StrWrites (buf place : ℕ) : Prop := buf ≤ place ∧ place < buf + 3

/-- `HJT212_PutBytes` writes a place of an array of the given size at a byte: of its buffer, of the
two parts of the package that are copied, of the text of the check value, or of the parser's arrays.
-/
def Hjt212Receiver.Writes (r : Hjt212Receiver) (byte : UInt8) (size place : ℕ) : Prop :=
  size = hjt212BufSize ∧ place = r.nPos ∨
  r.EndsFrame byte ∧
    (size = 6 ∧ place < 6 ∨ size = 4 ∧ (Hex2StrWrites 0 place ∨ Hex2StrWrites 2 place) ∨
      (r.package byte).accepted r.nextPos = true ∧ ParsePackWrites (r.package byte).pData size place)

/-- What is read at a byte was received for the current frame: the buffer's first bytes, or all of
them when it was filled up. -/
def Hjt212Watch.ReadsInside (w : Hjt212Watch) (byte : UInt8) : Prop :=
  ∀ place, w.receiver.Reads byte place → place < min (w.got + 1) hjt212BufSize

/-- What is written at a byte lies in its array. -/
def Hjt212Watch.WritesInside (w : Hjt212Watch) (byte : UInt8) : Prop :=
  ∀ size place, w.receiver.Writes byte size place → place < size

/-- At every byte of a stream. -/
def Hjt212Watch.Always (w : Hjt212Watch) (bytes : List UInt8) (P : Hjt212Watch → UInt8 → Prop) : Prop :=
  ∀ before byte after, bytes = before ++ byte :: after → P (w.run before) byte

/-- If a byte ends a frame, the stated length does not exceed what was received, and the parser
finds a null character there. -/
def Hjt212Watch.Fits (w : Hjt212Watch) (byte : UInt8) : Prop :=
  w.receiver.EndsFrame byte →
    6 + (w.receiver.package byte).crcCount ≤ min (w.got + 1) hjt212BufSize ∧
      ((w.receiver.package byte).accepted w.receiver.nextPos = true →
        ∃ i, 6 + i < min (w.got + 1) hjt212BufSize ∧ (w.receiver.package byte).pData i = 0)

/-- The number of received bytes and the place fit together. -/
def Hjt212Watch.Ok (w : Hjt212Watch) : Prop :=
  w.receiver.nPos = w.got % hjt212BufSize ∧ (w.receiver.eRcvState = .head → w.got < 2)

/-- A byte while a header is looked for. -/
theorem hjt212PutByte_head {r : Hjt212Receiver} (h : r.eRcvState = .head) (byte : UInt8) :
    hjt212PutByte r byte =
      if r.nextPos = 2 then
        if readUInt16 (r.stored byte) 0 = 0x2323 then ⟨r.stored byte, 2, .eom, r.parsed⟩
        else ⟨r.stored byte, 1, .head, r.parsed⟩
      else ⟨r.stored byte, r.nextPos, .head, r.parsed⟩ := by
  unfold hjt212PutByte
  rw [h]
  change (if r.nextPos = 2 then _ else _) = _
  split
  · next hpos =>
    change (if readUInt16 (r.stored byte) 0 =
      0x2323 then Hjt212Receiver.mk (r.stored byte) r.nextPos _ _ else _) = _
    rw [hpos]
    rfl
  · rfl

/-- A byte while the end of a frame is waited for. -/
theorem hjt212PutByte_eom {r : Hjt212Receiver} (h : r.eRcvState = .eom) (byte : UInt8) :
    hjt212PutByte r byte =
      if r.EndsFrame byte then
        ⟨r.stored byte, 0, .head,
          if (r.package byte).accepted r.nextPos then r.parsed ++ [r.package byte] else r.parsed⟩
      else ⟨r.stored byte, r.nextPos, .eom, r.parsed⟩ := by
  have hend : r.EndsFrame byte ↔
      4 ≤ r.nextPos ∧ readUInt16 (r.stored byte) (r.nextPos - 2) = 0x0A0d ∧ 18 ≤ r.nextPos :=
    ⟨fun hends => ⟨by have := hends.2.2; omega, hends.2.1, hends.2.2⟩,
      fun hends => ⟨h, hends.2.1, hends.2.2⟩⟩
  unfold hjt212PutByte
  rw [h]
  by_cases hends : r.EndsFrame byte
  · rw [if_pos hends]
    exact if_pos (hend.mp hends)
  · rw [if_neg hends]
    exact if_neg (mt hend.mpr hends)

/-- The place behind a byte, by the number of received bytes. -/
theorem Hjt212Watch.Ok.nextPos {w : Hjt212Watch} (h : w.Ok) :
    w.receiver.nextPos = (w.got + 1) % hjt212BufSize := by
  rw [Hjt212Receiver.nextPos, h.1]
  exact next_place (by decide) w.got

/-- A byte keeps them together. -/
theorem Hjt212Watch.Ok.step {w : Hjt212Watch} (h : w.Ok) (byte : UInt8) : (w.step byte).Ok := by
  have hnext := h.nextPos
  cases hstate : w.receiver.eRcvState with
  | head =>
    have hgot := h.2 hstate
    have hbyte := hjt212PutByte_head hstate byte
    rw [hnext, Nat.mod_eq_of_lt (by rw [hjt212BufSize]; omega)] at hbyte
    unfold Hjt212Watch.step Hjt212Watch.Ok
    rw [hbyte]
    by_cases hsecond : w.got + 1 = 2
    · rw [if_pos hsecond]
      split
      · exact ⟨by simp [hsecond, hjt212BufSize], fun hhead => nomatch hhead⟩
      · exact ⟨rfl, fun _ => Nat.one_lt_two⟩
    · rw [if_neg hsecond]
      exact ⟨(Nat.mod_eq_of_lt (by change w.got + 1 < 2048; omega)).symm,
        fun _ => by change w.got + 1 < 2; omega⟩
  | eom =>
    have hbyte := hjt212PutByte_eom hstate byte
    unfold Hjt212Watch.step Hjt212Watch.Ok
    rw [hbyte]
    split
    · exact ⟨rfl, fun _ => Nat.zero_lt_two⟩
    · exact ⟨hnext, fun hhead => nomatch hhead⟩

/-- A stream keeps them together. -/
theorem Hjt212Watch.Ok.run {w : Hjt212Watch} (h : w.Ok) (bytes : List UInt8) : (w.run bytes).Ok := by
  induction bytes generalizing w with
  | nil => exact h
  | cons byte rest ih => exact ih (h.step byte)

/-- The place behind a byte does not exceed what was received. -/
theorem Hjt212Watch.Ok.nextPos_le {w : Hjt212Watch} (h : w.Ok) :
    w.receiver.nextPos ≤ min (w.got + 1) hjt212BufSize := by
  rw [h.nextPos]
  have hle := Nat.mod_le (w.got + 1) hjt212BufSize
  have hlt := Nat.mod_lt (w.got + 1) (show hjt212BufSize > 0 by decide)
  omega

/-- At a byte everything is read inside exactly when the frame that it may end fits. -/
theorem Hjt212Watch.Ok.readsInside_iff {w : Hjt212Watch} (h : w.Ok) (byte : UInt8) :
    w.ReadsInside byte ↔ w.Fits byte := by
  have hle := h.nextPos_le
  unfold Hjt212Watch.ReadsInside Hjt212Watch.Fits Hjt212Receiver.Reads
  cases hstate : w.receiver.eRcvState with
  | head =>
    refine ⟨fun _ hends => absurd (hstate.symm.trans hends.1) (by decide), fun _ place hread => ?_⟩
    obtain ⟨hnext, hplace⟩ := hread
    omega
  | eom =>
    simp only
    constructor
    · intro hinside hends
      have hleast := hends.2.2
      constructor
      · rcases Nat.eq_zero_or_pos (w.receiver.package byte).crcCount with hzero | hpos
        · omega
        · have := hinside (6 + (w.receiver.package byte).crcCount - 1)
            (.inr ⟨hends, .inr (.inr (.inl ⟨by omega, by omega⟩))⟩)
          omega
      · intro haccepted
        by_contra hnone
        have hnull : ∀ j < min (w.got + 1) hjt212BufSize - 6, (w.receiver.package byte).pData j ≠ 0 :=
          fun j hj hzero => hnone ⟨j, by omega, hzero⟩
        have := hinside (min (w.got + 1) hjt212BufSize)
          (.inr ⟨hends, .inr (.inr (.inr ⟨haccepted, by omega, (parsePackReads_iff _ _).mpr hnull⟩))⟩)
        omega
    · rintro hfits place (hmarker | ⟨hends, hhead | hcheck | hcrc | ⟨haccepted, hplace, hparse⟩⟩)
      · omega
      · have := hends.2.2
        omega
      · omega
      · have := (hfits hends).1
        omega
      · obtain ⟨i, hi, hzero⟩ := (hfits hends).2 haccepted
        by_contra hout
        exact (parsePackReads_iff _ _).mp hparse i (by omega) hzero

/-- At a byte everything is written inside exactly when it does not end a frame. -/
theorem Hjt212Watch.Ok.writesInside_iff {w : Hjt212Watch} (h : w.Ok) (byte : UInt8) :
    w.WritesInside byte ↔ ¬ w.receiver.EndsFrame byte := by
  constructor
  · intro hinside hends
    have hcheck : w.receiver.Writes byte 4 4 :=
      .inr ⟨hends, .inr (.inl ⟨rfl, .inr ⟨by decide, by decide⟩⟩)⟩
    exact absurd (hinside 4 4 hcheck) (Nat.lt_irrefl 4)
  · rintro hgoes size place (⟨rfl, rfl⟩ | ⟨hends, -⟩)
    · rw [h.1]
      exact Nat.mod_lt _ (by decide)
    · exact absurd hends hgoes

/-- The receiver that is watched is the receiver. -/
theorem Hjt212Watch.run_receiver (w : Hjt212Watch) (bytes : List UInt8) :
    (w.run bytes).receiver = hjt212PutBytes w.receiver bytes := by
  induction bytes generalizing w with
  | nil => rfl
  | cons byte rest ih => exact ih (w.step byte)

/-- An idle receiver has received nothing for a frame. -/
theorem Hjt212Receiver.Idle.watch {r : Hjt212Receiver} (h : r.Idle) : (⟨r, 0⟩ : Hjt212Watch).Ok :=
  ⟨h.2, fun _ => Nat.zero_lt_two⟩

/-- What holds at every byte may be replaced by what is equivalent to it there. -/
theorem Hjt212Watch.Ok.always_iff {w : Hjt212Watch} (h : w.Ok) (bytes : List UInt8)
    {P Q : Hjt212Watch → UInt8 → Prop} (hiff : ∀ v : Hjt212Watch, v.Ok → ∀ byte, P v byte ↔ Q v byte) :
    w.Always bytes P ↔ w.Always bytes Q :=
  ⟨fun hall before byte after heq => (hiff _ (h.run before) byte).mp (hall before byte after heq),
    fun hall before byte after heq => (hiff _ (h.run before) byte).mpr (hall before byte after heq)⟩

/-- A receiver that starts idle and gets any chunks reads only what was received for the current
frame and writes only inside its arrays exactly when no frame ends. What it reads is inside exactly
when every frame that ends fits. -/
theorem hjt212_accesses_inside_iff (r : Hjt212Receiver) (chunks : List (List UInt8)) (hidle : r.Idle) :
    ((⟨r, 0⟩ : Hjt212Watch).Always chunks.flatten (fun w byte => w.ReadsInside byte ∧
      w.WritesInside byte) ↔
      (⟨r, 0⟩ : Hjt212Watch).Always chunks.flatten fun w byte => ¬ w.receiver.EndsFrame byte) ∧
    ((⟨r, 0⟩ : Hjt212Watch).Always chunks.flatten Hjt212Watch.ReadsInside ↔
      (⟨r, 0⟩ : Hjt212Watch).Always chunks.flatten Hjt212Watch.Fits) := by
  refine ⟨hidle.watch.always_iff _ fun w hw byte => ?_, hidle.watch.always_iff _ fun w hw byte =>
    hw.readsInside_iff byte⟩
  rw [hw.readsInside_iff, hw.writesInside_iff]
  exact ⟨And.right, fun hgoes => ⟨fun hends => absurd hends hgoes, hgoes⟩⟩

/-- A packet whose length is stated as 9999. -/
def longPacket : List UInt8 :=
  ascii ['#', '#', '9', '9', '9', '9', 'C', 'N', '=', '1', ';', 'x', '0', '0', '0', '0'] ++ [13, 10]

/-- The packet in two chunks. -/
theorem hjt212_accesses_inside_iff_long :
    ((⟨⟨fun _ => 0, 0, .head, []⟩, 0⟩ : Hjt212Watch).Always [longPacket.take 7,
      longPacket.drop 7].flatten
        (fun w byte => w.ReadsInside byte ∧ w.WritesInside byte) ↔
      (⟨⟨fun _ => 0, 0, .head, []⟩, 0⟩ : Hjt212Watch).Always [longPacket.take 7,
        longPacket.drop 7].flatten
        fun w byte => ¬ w.receiver.EndsFrame byte) ∧
    ((⟨⟨fun _ => 0, 0, .head, []⟩, 0⟩ : Hjt212Watch).Always [longPacket.take 7,
    longPacket.drop 7].flatten
        Hjt212Watch.ReadsInside ↔
      (⟨⟨fun _ => 0, 0, .head, []⟩, 0⟩ : Hjt212Watch).Always [longPacket.take 7,
        longPacket.drop 7].flatten
        Hjt212Watch.Fits) :=
  hjt212_accesses_inside_iff ⟨fun _ => 0, 0, .head, []⟩ [longPacket.take 7,
    longPacket.drop 7] ⟨rfl, rfl⟩

/-- At its end the receiver reads behind its buffer and writes behind the text of the check value. -/
theorem hjt212_accesses_outside :
    ¬ (⟨⟨fun _ => 0, 0, .head, []⟩, 0⟩ : Hjt212Watch).Always
      [longPacket].flatten Hjt212Watch.ReadsInside ∧
      ¬ (⟨⟨fun _ => 0, 0, .head, []⟩, 0⟩ : Hjt212Watch).Always
        [longPacket].flatten Hjt212Watch.WritesInside := by
  have hok :=
    (Hjt212Receiver.Idle.watch (r := ⟨fun _ => 0, 0, .head, []⟩) ⟨rfl, rfl⟩).run longPacket.dropLast
  have hends : ((⟨⟨fun _ => 0, 0, .head, []⟩, 0⟩ : Hjt212Watch).run
      longPacket.dropLast).receiver.EndsFrame 10 := by
    decide
  constructor
  · intro h
    have hfits := ((hok.readsInside_iff 10).mp (h longPacket.dropLast 10 [] rfl) hends).1
    exact absurd hfits (by decide)
  · intro h
    exact (hok.writesInside_iff 10).mp (h longPacket.dropLast 10 [] rfl) hends

end DasEdge.Sdccp
