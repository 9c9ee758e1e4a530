import DasEdge.Library.FrameScanner
import DasEdge.Library.WrappedBuffer
import DasEdge.Sdccp.Hjt212RoundTrip

/-!
# The HJ/T 212 receiver as a frame scanner

`HJT212_PutBytes` scans for frames that start with `##` and end with CR LF: the receiver's place in the
buffer is the scanner's, and the buffer holds the last bytes of the frame that was begun. On a mismatch
of the header the first of its two bytes stays in the buffer, and the byte that may have been the start
of a header is lost.
-/

namespace DasEdge.Sdccp

open DasEdge.Library

/-- Frames of HJ/T 212. -/
def hjt212Format : FrameFormat UInt8 where
  half := [35]
  marker := [0x0d, 0x0a]
  least := 18
  size := hjt212BufSize
  half_ne := by simp
  marker_ne := by simp
  apart := by simp
  marker_le := by simp
  head_le := by simp
  least_lt := by decide

/-- A receiver is where a scanner is. -/
def Hjt212Receiver.Follows (r : Hjt212Receiver) (s : Scan UInt8) : Prop :=
  r.nPos = hjt212Format.place s ∧ hjt212Format.Ok s ∧
    match s with
    | .head seen => r.eRcvState = .head ∧ Holds hjt212BufSize r.pBuffer seen
    | .body frame => r.eRcvState = .eom ∧ Holds hjt212BufSize r.pBuffer frame

/-- A package with its length as it is cut out of a buffer at the end of a frame. -/
def CutFrom (frame : List UInt8) (cut : Hjt212Package × ℕ) : Prop :=
  ∃ pBuffer, Holds hjt212BufSize pBuffer frame ∧
    cut = (hjt212Package pBuffer (frame.length % hjt212BufSize), frame.length % hjt212BufSize)

/-- The packages among those cut out that pass the test. -/
def acceptedCuts (cuts : List (Hjt212Package × ℕ)) : List Hjt212Package :=
  (cuts.filter fun cut => cut.1.accepted cut.2).map Prod.fst

/-- One package is kept when it passes. -/
theorem acceptedCuts_singleton (xPack : Hjt212Package) (nPos : ℕ) :
    acceptedCuts [(xPack, nPos)] = if xPack.accepted nPos then [xPack] else [] := by
  unfold acceptedCuts
  cases h : xPack.accepted nPos with
  | true => simp [h]
  | false => simp [h]

/-- The receiver's two bytes before its place are CR LF when the frame ends so. -/
theorem readUInt16_end_iff {pBuffer : ℕ → UInt8} {frame : List UInt8}
    (h : Holds hjt212BufSize pBuffer frame)
    (hplace : 2 ≤ frame.length % hjt212BufSize) :
    readUInt16 pBuffer (frame.length % hjt212BufSize - 2) = 0x0A0d ↔ hjt212Format.marker <:+ frame := by
  rw [← h.suffix_iff (by decide) hjt212Format.marker hplace]
  refine (readUInt16_eq_iff _ _ 0x0d 0x0a).trans ⟨fun hread i hi => ?_,
    fun hall => ⟨hall 0 (by decide), hall 1 (by decide)⟩⟩
  match i, hi with
  | 0, _ => exact hread.1
  | 1, _ => exact hread.2

/-- A stream in the buffer ends a frame when the test of the receiver says so. -/
theorem isEnd_iff {pBuffer : ℕ → UInt8} {frame : List UInt8} (h : Holds hjt212BufSize pBuffer frame) :
    hjt212Format.IsEnd frame ↔ 4 ≤ frame.length % hjt212BufSize ∧
      readUInt16 pBuffer (frame.length % hjt212BufSize - 2) = 0x0A0d ∧
      18 ≤ frame.length % hjt212BufSize := by
  constructor
  · rintro ⟨hleast, hmarker⟩
    have hleast : 18 ≤ frame.length % hjt212BufSize := hleast
    exact ⟨by omega, (readUInt16_end_iff h (by omega)).mpr hmarker, hleast⟩
  · rintro ⟨-, hread, hleast⟩
    exact ⟨hleast, (readUInt16_end_iff h (by omega)).mp hread⟩

/-- Two bytes at the beginning of the buffer are the header word exactly when they are the header. -/
theorem readUInt16_pre_iff {pBuffer : ℕ → UInt8} {c byte : UInt8}
    (h : Holds hjt212BufSize pBuffer [c, byte]) :
    readUInt16 pBuffer 0 = 0x2323 ↔ [c, byte] = [35, 35] := by
  have hfirst : pBuffer 0 = c := h 0 (by simp) (by simp [hjt212BufSize])
  have hsecond : pBuffer (0 + 1) = byte := h 1 (by simp) (by simp [hjt212BufSize])
  refine (readUInt16_eq_iff _ 0 35 35).trans ?_
  rw [hfirst, hsecond]
  simp

/-- A byte while a header is looked for takes the receiver where it takes the scanner. -/
theorem Hjt212Receiver.Follows.step_head {r : Hjt212Receiver} {seen : List UInt8}
    (h : r.Follows (.head seen)) (byte : UInt8) :
    (hjt212PutByte r byte).Follows (hjt212Format.scanStep (.head seen) byte).1 ∧
      (hjt212Format.scanStep (.head seen) byte).2 = none ∧
      (hjt212PutByte r byte).parsed = r.parsed := by
  obtain ⟨pBuffer, nPos, eRcvState, parsed⟩ := r
  obtain ⟨hplace, hok, hhead, hholds⟩ := h
  have hok' := hjt212Format.scanStep_ok hok byte
  obtain rfl : eRcvState = .head := hhead
  obtain rfl : nPos = seen.length := hplace
  match seen, hok with
  | [], _ => exact ⟨⟨rfl, hok', rfl, hholds.push byte⟩, rfl, rfl⟩
  | [c], _ =>
    have hheld : Holds hjt212BufSize (Function.update pBuffer 1 byte) [c, byte] := hholds.push byte
    by_cases hheader : [c, byte] = [35, 35]
    · have hstep : hjt212PutByte ⟨pBuffer, [c].length, .head, parsed⟩ byte =
          ⟨Function.update pBuffer 1 byte, 2, .eom, parsed⟩ := by
        unfold hjt212PutByte
        simp [hjt212BufSize, (readUInt16_pre_iff hheld).mpr hheader]
      have hscan : hjt212Format.scanStep (.head [c]) byte = (.body [c, byte], none) :=
        FrameFormat.scanStep_lock hheader
      rw [hscan] at hok' ⊢
      rw [hstep]
      exact ⟨⟨rfl, hok', rfl, hheld⟩, rfl, rfl⟩
    · have hstep : hjt212PutByte ⟨pBuffer, [c].length, .head, parsed⟩ byte =
          ⟨Function.update pBuffer 1 byte, 1, .head, parsed⟩ := by
        unfold hjt212PutByte
        simp [hjt212BufSize, mt (readUInt16_pre_iff hheld).mp hheader]
      have hscan : hjt212Format.scanStep (.head [c]) byte = (.head [c], none) :=
        FrameFormat.scanStep_miss rfl hheader
      rw [hscan] at hok' ⊢
      rw [hstep]
      exact ⟨⟨rfl, hok', rfl, hheld.take (by simp [hjt212BufSize]) 1⟩, rfl, rfl⟩

/-- A byte takes the receiver where it takes the scanner, and a frame that ends is cut out of the
buffer. -/
theorem Hjt212Receiver.Follows.step {r : Hjt212Receiver} {s : Scan UInt8} (h : r.Follows s)
    (byte : UInt8) :
    (hjt212PutByte r byte).Follows (hjt212Format.scanStep s byte).1 ∧
      ∃ cuts, List.Forall₂ CutFrom (hjt212Format.scanStep s byte).2.toList cuts ∧
        (hjt212PutByte r byte).parsed = r.parsed ++ acceptedCuts cuts := by
  cases s with
  | head seen =>
    obtain ⟨hfollows, hnone, hparsed⟩ := h.step_head byte
    rw [hnone, hparsed]
    exact ⟨hfollows, [], .nil, (List.append_nil r.parsed).symm⟩
  | body frame =>
    obtain ⟨pBuffer, nPos, eRcvState, parsed⟩ := r
    obtain ⟨hplace, hok, heom, hholds⟩ := h
    have hok' := hjt212Format.scanStep_ok hok byte
    obtain rfl : eRcvState = .eom := heom
    obtain rfl : nPos = frame.length % hjt212BufSize := hplace
    have hheld := hholds.push byte
    have hnext := @next_place hjt212BufSize (by decide) frame.length
    have hlength : (frame ++ [byte]).length = frame.length + 1 := by simp
    have hend := isEnd_iff hheld
    rw [hlength] at hend
    unfold hjt212PutByte
    simp only [hnext]
    by_cases hdone : hjt212Format.IsEnd (frame ++ [byte])
    · rw [FrameFormat.scanStep_end hdone] at hok' ⊢
      rw [if_pos (hend.mp hdone)]
      refine ⟨⟨rfl, hok', rfl, holds_nil _ _⟩, [(hjt212Package _ _, _)], .cons ⟨_, hheld, rfl⟩ .nil, ?_⟩
      rw [hlength, acceptedCuts_singleton]
      split
      · rfl
      · exact (List.append_nil parsed).symm
    · rw [FrameFormat.scanStep_run hdone] at hok' ⊢
      rw [if_neg (mt hend.mpr hdone)]
      refine ⟨⟨?_, hok', rfl, hheld⟩, [], .nil, (List.append_nil parsed).symm⟩
      change _ = (frame ++ [byte]).length % _
      rw [hlength]
      rfl

/-- An idle receiver is where an idle scanner is. -/
theorem Hjt212Receiver.Idle.follows {r : Hjt212Receiver} (h : r.Idle) : r.Follows (.head []) :=
  ⟨h.2, Nat.zero_lt_two, h.1, holds_nil _ _⟩

/-- Bytes take the receiver where they take the scanner, and the frames that end are cut out of the
buffer. -/
theorem Hjt212Receiver.Follows.run {r : Hjt212Receiver} {s : Scan UInt8} (h : r.Follows s)
    (bytes : List UInt8) :
    (hjt212PutBytes r bytes).Follows (hjt212Format.scan s bytes).1 ∧
      ∃ cuts, List.Forall₂ CutFrom (hjt212Format.scan s bytes).2 cuts ∧
        (hjt212PutBytes r bytes).parsed = r.parsed ++ acceptedCuts cuts := by
  induction bytes generalizing r s with
  | nil => exact ⟨h, [], .nil, (List.append_nil r.parsed).symm⟩
  | cons byte rest ih =>
    obtain ⟨hstep, cuts, hcuts, hparsed⟩ := h.step byte
    obtain ⟨hrun, cuts', hcuts', hparsed'⟩ := ih hstep
    refine ⟨hrun, cuts ++ cuts', List.rel_append hcuts hcuts', ?_⟩
    change (hjt212PutBytes (hjt212PutByte r byte) rest).parsed = _
    rw [hparsed', hparsed, acceptedCuts, acceptedCuts, acceptedCuts, List.filter_append,
      List.map_append,
      List.append_assoc]

/-- An encoded packet is a frame. -/
theorem isFrame_hjt212Encode {fields : Hjt212Fields} (hnone : fields.NoCrLf)
    (hupper : (hjt212Encode fields).length < hjt212BufSize) :
    hjt212Format.IsFrame (hjt212Encode fields) := by
  obtain ⟨bytes, hencode, hfirst⟩ := hjt212Encode_clean hnone
  rw [hencode] at hupper ⊢
  refine ⟨⟨bytes ++ [0x0d, 0x0a], rfl⟩, ⟨35 :: 35 :: bytes, by simp [hjt212Format]⟩, hupper,
    fun part hpart hmarker => ?_⟩
  by_contra hne
  have hshort : part <+: 35 :: 35 :: (bytes ++ [0x0d]) := by
    have hsplit : 35 :: 35 :: (bytes ++ [0x0d, 0x0a]) = 35 :: 35 :: (bytes ++ [0x0d]) ++
      [0x0a] := by simp
    rw [hsplit] at hpart hne
    exact (List.prefix_concat_iff.mp hpart).resolve_left hne
  have hpartNone : NoCrLf part := hfirst.prefix hshort
  have hchain : NoCrLf [0x0d, 0x0a] := hpartNone.suffix hmarker
  exact List.isChain_pair.mp hchain ⟨rfl, rfl⟩

end DasEdge.Sdccp

/-!
# Finding HJ/T 212 packets behind noise

When the first two bytes are no header, the receiver goes back to its second place and leaves the first
byte in the buffer. From then on that byte is compared with everything that comes, so it finds a header
only when the noise began with `#`, and then it takes the next `#` for its second half. A packet behind
noise is therefore received only when the noise itself was taken for frames up to its last byte.
-/

namespace DasEdge.Sdccp

open DasEdge.Library

/-- From here on, the bytes of the encoded packet make the receiver call the parser with that packet. -/
def Hjt212Receiver.SeesPacket (r : Hjt212Receiver) (fields : Hjt212Fields) : Prop :=
  ∃ xPack, (hjt212PutBytes r (hjt212Encode fields)).parsed = r.parsed ++ [xPack] ∧
    xPack.ulLen.toNat = (hjt212DataSegment fields).length ∧
    (List.range (hjt212DataSegment fields).length).map xPack.pData = hjt212DataSegment fields

/-- A byte ends a frame that is rejected for its length or its check value. -/
def Hjt212Receiver.Rejects (r : Hjt212Receiver) (byte : UInt8) : Prop :=
  let pBuffer := Function.update r.pBuffer r.nPos byte
  let nPos := if hjt212BufSize ≤ r.nPos + 1 then 0 else r.nPos + 1
  r.eRcvState = .eom ∧ readUInt16 pBuffer (nPos - 2) = 0x0A0d ∧ 18 ≤ nPos ∧
    (hjt212Package pBuffer nPos).accepted nPos = false

/-- Behind a rejected frame the receiver is idle. -/
theorem Hjt212Receiver.Rejects.idle {r : Hjt212Receiver} {byte : UInt8} (h : r.Rejects byte) :
    (hjt212PutByte r byte).Idle := by
  obtain ⟨heom, hread, hleast, -⟩ := h
  unfold hjt212PutByte
  simp only [heom]
  rw [if_pos ⟨by omega, hread, hleast⟩]
  exact ⟨rfl, rfl⟩

/-- A buffer that holds an encoded packet is one that the packet was collected in. -/
theorem collected_of_holds {pBuffer : ℕ → UInt8} {left packet : List UInt8}
    (h : Holds hjt212BufSize pBuffer (left ++ packet))
    (hlength : (left ++ packet).length % hjt212BufSize = packet.length) :
    collected pBuffer packet = pBuffer := by
  funext i
  unfold collected
  rcases Nat.lt_or_ge i packet.length with hlt | hge
  · rw [List.getD_eq_getElem _ _ hlt]
    exact (h.tail (by decide) hlength i hlt).symm
  · exact List.getD_eq_default _ _ hge

/-- The place at which a package is accepted follows from the length that it states. -/
theorem accepted_length {xPack : Hjt212Package} {nPos : ℕ} (hnPos : nPos < 2 ^ 32)
    (h : xPack.accepted nPos = true)
    (hulLen : xPack.ulLen.toNat < hjt212BufSize) : nPos = xPack.ulLen.toNat + 12 := by
  unfold Hjt212Package.accepted at h
  rw [Bool.and_eq_true, decide_eq_true_eq] at h
  have hnat := congrArg UInt32.toNat h.1
  have hplace : nPos.toUInt32.toNat = nPos := Nat.mod_eq_of_lt hnPos
  rw [UInt32.toNat_add, hplace] at hnat
  rw [← hnat]
  exact Nat.mod_eq_of_lt (by
    change _ + 12 < 2 ^ 32
    rw [hjt212BufSize] at hulLen
    omega)

/-- A packet is seen exactly when it is long enough and the receiver stores it at the beginning of
its buffer. -/
theorem seesPacket_iff {fields : Hjt212Fields} {r : Hjt212Receiver} {s : Scan UInt8}
    (hfollows : r.Follows s)
    (hnone : fields.NoCrLf) (hupper : (hjt212Encode fields).length < hjt212BufSize) :
    r.SeesPacket fields ↔ hjt212Format.place s = 0 ∧ 18 ≤ (hjt212Encode fields).length := by
  have hframe := isFrame_hjt212Encode hnone hupper
  have hsegment := hjt212Encode_length fields
  obtain ⟨-, cuts, hcuts, hparsed⟩ := hfollows.run (hjt212Encode fields)
  constructor
  · rintro ⟨xPack, hsees, hulLen, -⟩
    rw [hparsed] at hsees
    have haccepted : acceptedCuts cuts = [xPack] := List.append_cancel_left hsees
    by_contra hnot
    have hapart : (hjt212Format.scan s (hjt212Encode fields)).2 = [] ∨ ∃ other,
        (hjt212Format.scan s (hjt212Encode fields)).2 = [other] ∧
          other.length % hjt212BufSize ≠ (hjt212Encode fields).length := by
      by_cases hplace : hjt212Format.place s = 0
      · exact .inl ((hjt212Format.scan_frame_whole hframe hplace).2 (by
          change _ < 18
          omega))
      · exact hjt212Format.scan_frame_apart hframe hfollows.2.1 hplace
    rcases hapart with hend | ⟨other, hend, hother⟩
    · rw [hend, List.forall₂_nil_left_iff] at hcuts
      rw [hcuts] at haccepted
      cases haccepted
    · rw [hend, List.forall₂_cons_left_iff] at hcuts
      obtain ⟨cut, rest, ⟨pBuffer, hholds, rfl⟩, hrest, rfl⟩ := hcuts
      rw [List.forall₂_nil_left_iff] at hrest
      subst hrest
      refine hother ?_
      have hpass : (hjt212Package pBuffer (other.length % hjt212BufSize)).accepted
        (other.length % hjt212BufSize) = true ∧
          hjt212Package pBuffer (other.length % hjt212BufSize) = xPack := by
        rw [acceptedCuts_singleton] at haccepted
        split at haccepted
        · next hpass => exact ⟨hpass, List.singleton_inj.mp haccepted⟩
        · cases haccepted
      rw [hpass.2] at hpass
      have hlt := Nat.mod_lt other.length (show hjt212BufSize > 0 by decide)
      rw [accepted_length (hlt.trans (by decide)) hpass.1 (by omega), hulLen, hsegment]
  · rintro ⟨hplace, hleast⟩
    obtain ⟨left, hscan, hlength⟩ := (hjt212Format.scan_frame_whole hframe hplace).1 hleast
    rw [hscan, List.forall₂_cons_left_iff] at hcuts
    obtain ⟨cut, rest, ⟨pBuffer, hholds, rfl⟩, hrest, rfl⟩ := hcuts
    rw [List.forall₂_nil_left_iff] at hrest
    subst hrest
    have hlength : (left ++ hjt212Encode fields).length % hjt212BufSize =
      (hjt212Encode fields).length := hlength
    have hcollected := collected_of_holds hholds hlength
    obtain ⟨hulLen, haccepted⟩ := hjt212Encode_accepted pBuffer fields hupper
    have hdata := (hjt212Package_encode pBuffer fields).2.1
    rw [hcollected, ← hsegment] at hulLen haccepted hdata
    rw [hlength] at hparsed
    refine ⟨hjt212Package pBuffer (hjt212Encode fields).length, ?_, hulLen, ?_⟩
    · rw [hparsed]
      rw [acceptedCuts_singleton, if_pos haccepted]
    · refine List.ext_getElem (by simp) fun i hi hi' => ?_
      rw [List.getElem_map, List.getElem_range, ← List.getD_eq_getElem _ 0 hi']
      exact hdata i hi'

/-- A packet behind noise is seen exactly when it has the least length of a packet and the noise was
taken for frames up to its end, also when a rejected frame went before. -/
theorem seesPacket_behind_noise_iff (fields : Hjt212Fields) (r : Hjt212Receiver) (noise : List UInt8)
    (hidle : r.Idle ∨ ∃ before byte, before.Rejects byte ∧ r = hjt212PutByte before byte)
    (hnone : fields.NoCrLf)
    (hupper : (hjt212Encode fields).length < hjt212BufSize) :
    (hjt212PutBytes r noise).SeesPacket fields ↔
      hjt212Format.Absorbed noise ∧ 18 ≤ (hjt212Encode fields).length := by
  have hfollows : r.Follows (.head []) := by
    rcases hidle with hidle | ⟨before, byte, hrejects, rfl⟩
    · exact hidle.follows
    · exact hrejects.idle.follows
  rw [seesPacket_iff (hfollows.run noise).1 hnone hupper, FrameFormat.place_scan_eq_zero_iff]

/-- The login packet behind one stray byte. -/
theorem seesPacket_behind_noise_iff_login :
    (hjt212PutBytes ⟨fun _ => 0, 0, .head, []⟩ [120]).SeesPacket loginFields ↔
      hjt212Format.Absorbed [120] ∧ 18 ≤ (hjt212Encode loginFields).length :=
  seesPacket_behind_noise_iff loginFields ⟨fun _ => 0, 0, .head, []⟩ [120]
    (.inl ⟨rfl, rfl⟩) loginFields_noCrLf
    (by decide)

/-- One stray byte is enough to lose a packet. -/
theorem seesPacket_behind_noise_fails :
    ¬ ∀ (fields : Hjt212Fields) (r : Hjt212Receiver) (noise : List UInt8), r.Idle →
      noise.IsChain (fun a b => ¬ (a = 35 ∧ b = 35)) → noise.getLast? ≠ some 35 → fields.NoCrLf →
      18 ≤ (hjt212Encode fields).length → (hjt212Encode fields).length < hjt212BufSize →
      (hjt212PutBytes r noise).SeesPacket fields := by
  intro h
  have hidle : (⟨fun _ => 0, 0, .head, []⟩ : Hjt212Receiver).Idle := ⟨rfl, rfl⟩
  have hsees :=
    h loginFields _ [120] hidle (by simp) (by simp) loginFields_noCrLf (by decide) (by decide)
  have hplace :=
    ((seesPacket_iff (hidle.follows.run [120]).1 loginFields_noCrLf (by decide)).mp hsees).1
  exact absurd hplace (by decide)

end DasEdge.Sdccp
