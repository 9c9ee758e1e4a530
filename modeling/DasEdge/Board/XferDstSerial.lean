import DasEdge.Library.GuardedRun
import DasEdge.Library.RingQueue
import Mathlib.Data.Int.Notation

/-!
# Assembling serial frames

The receive loops of `__xfer_dst_serial_worker` in `xfer_dst_serial.c`, `__lora_recv_thread` in
`lora.c` and `_zgbworker_thread` in `zigbee.c`, which differ in the size of the buffer and in whom
they hand a frame to. A turn is one round of the outer or of the inner loop. A receive call takes at
most the room it is given.
-/

namespace DasEdge.Board

open DasEdge.Library

/-- What the calls of a round return: whether the port is open, the result of
`serial_helper_select`, and the bytes there are for `serial_helper_recv`, which returns -1 without
them. -/
structure SerialTurn where
  isOpen : Bool
  sRc : ℤ
  recv : Option (List UInt8)

/-- The variables of a loop, whether it is in the inner loop, the frames it has handed on and the
bytes it has received. -/
structure SerialWorker where
  buffer : List UInt8
  pos : ℤ
  inner : Bool
  handed : List (List UInt8)
  received : List UInt8

/-- A loop at its start. -/
def SerialWorker.start (size : ℕ) : SerialWorker where
  buffer := List.replicate size 0
  pos := 0
  inner := false
  handed := []
  received := []

/-- The frame in the buffer. -/
def SerialWorker.frame (w : SerialWorker) : List UInt8 := w.buffer.take w.pos.toNat

/-- The frame is handed on and the inner loop left. -/
def SerialWorker.handOn (w : SerialWorker) : SerialWorker :=
  { w with inner := false, handed := w.handed ++ [w.frame] }

/-- Bytes are received at the position. -/
def SerialWorker.receive (w : SerialWorker) (bytes : List UInt8) : SerialWorker :=
  { w with
    buffer := overwrite w.buffer w.pos.toNat bytes
    pos := w.pos + bytes.length
    received := w.received ++ bytes }

/-- A round of the outer loop, which does not look at the result of `serial_helper_select`. -/
def SerialWorker.outerTurn (size : ℕ) (w : SerialWorker) (turn : SerialTurn) : SerialWorker :=
  if turn.isOpen then
    match turn.recv with
    | none => { w with pos := 0 }
    | some bytes =>
      { ({ w with pos := 0 } : SerialWorker).receive (bytes.take size)
        with inner := decide (bytes.take size ≠ []) }
  else { w with buffer := List.replicate size 0 }

/-- A round of the inner loop. `sizeof` makes the comparison an unsigned one. -/
def SerialWorker.innerTurn (size : ℕ) (w : SerialWorker) (turn : SerialTurn) : SerialWorker :=
  if turn.sRc = -1 then { w with inner := false }
  else if turn.sRc = 0 then w.handOn
  else
    let next : SerialWorker :=
      match turn.recv with
      | none => { w with pos := w.pos - 1 }
      | some bytes => w.receive (bytes.take (size - w.pos.toNat))
    if next.pos < 0 ∨ (size : ℤ) ≤ next.pos then next.handOn else next

/-- A round. -/
def SerialWorker.turn (size : ℕ) (w : SerialWorker) (turn : SerialTurn) : Unit × SerialWorker :=
  ((), if w.inner then w.innerTurn size turn else w.outerTurn size turn)

/-- `__xfer_dst_serial_worker` -/
def xferDstSerialWorker : SerialWorker → SerialTurn → Unit × SerialWorker := SerialWorker.turn 1024

/-- `__lora_recv_thread` -/
def loraRecvThread : SerialWorker → SerialTurn → Unit × SerialWorker := SerialWorker.turn 4096

/-- `_zgbworker_thread` -/
def zgbworkerThread : SerialWorker → SerialTurn → Unit × SerialWorker := SerialWorker.turn 4096

/-- The bytes that wait in the buffer. -/
def SerialWorker.pending (w : SerialWorker) : List UInt8 := if w.inner then w.frame else []

/-- The position is in the buffer, and what has been handed on and what waits is what has been
received. -/
def SerialWorker.Ok (size : ℕ) (w : SerialWorker) : Prop :=
  0 ≤ w.pos ∧ w.pos ≤ size ∧ w.handed.flatten ++ w.pending = w.received

/-- No call fails while a frame waits. -/
def SerialWorker.Meets (w : SerialWorker) (turn : SerialTurn) : Prop :=
  w.inner = true → turn.sRc ≠ -1 ∧ (turn.sRc ≠ 0 → turn.recv ≠ none)

instance decidableSerialMeets (w : SerialWorker) (turn : SerialTurn) : Decidable (w.Meets turn) :=
  inferInstanceAs (Decidable (_ → _ ∧ (_ → _)))

/-- A frame that waits is not empty. -/
structure SerialWorker.Inv (size : ℕ) (w : SerialWorker) : Prop where
  length : w.buffer.length = size
  nonneg : 0 ≤ w.pos
  le : w.pos ≤ size
  waits : w.inner = true → 0 < w.pos
  kept : w.handed.flatten ++ w.pending = w.received

/-- The invariant implies the property. -/
theorem SerialWorker.Inv.ok {size : ℕ} {w : SerialWorker} (h : w.Inv size) : w.Ok size :=
  ⟨h.nonneg, h.le, h.kept⟩

/-- Nothing waits at the start. -/
theorem SerialWorker.inv_start (size : ℕ) : (SerialWorker.start size).Inv size where
  length := List.length_replicate
  nonneg := Int.le_refl 0
  le := Int.natCast_nonneg size
  waits := fun h => by cases h
  kept := rfl

/-- Bytes that fit are received behind the frame. -/
theorem SerialWorker.frame_receive (w : SerialWorker) (bytes : List UInt8) (hpos : 0 ≤ w.pos)
    (hfits : w.pos.toNat + bytes.length ≤ w.buffer.length) :
    (w.receive bytes).frame = w.frame ++ bytes := by
  have hnat : (w.pos + bytes.length).toNat = w.pos.toNat + bytes.length := by omega
  simp only [SerialWorker.frame, SerialWorker.receive, hnat]
  exact overwrite_take w.buffer w.pos.toNat bytes (by omega)

/-- The frame is all that waits in the inner loop. -/
theorem SerialWorker.pending_inner {w : SerialWorker} (h : w.inner = true) : w.pending = w.frame := by
  rw [SerialWorker.pending, if_pos h]

/-- Nothing waits outside of the inner loop. -/
theorem SerialWorker.pending_outer {w : SerialWorker} (h : w.inner = false) : w.pending = [] := by
  rw [SerialWorker.pending, h, if_neg Bool.false_ne_true]

/-- Outside of the inner loop all bytes have been handed on. -/
theorem SerialWorker.inv_outer {size : ℕ} {w : SerialWorker} (hlength : w.buffer.length = size)
    (hnonneg : 0 ≤ w.pos)
    (hle : w.pos ≤ size) (houter : w.inner = false) (hkept : w.handed.flatten = w.received) :
    w.Inv size where
  length := hlength
  nonneg := hnonneg
  le := hle
  waits := by
    intro hinner
    rw [houter] at hinner
    cases hinner
  kept := by rw [SerialWorker.pending_outer houter, List.append_nil, hkept]

/-- Handing on keeps the bytes. -/
theorem SerialWorker.Inv.handOn {size : ℕ} {w : SerialWorker} (h : w.Inv size)
    (hinner : w.inner = true) :
    w.handOn.Inv size := by
  have hkept := h.kept
  rw [SerialWorker.pending_inner hinner] at hkept
  refine SerialWorker.inv_outer h.length h.nonneg h.le rfl ?_
  rw [SerialWorker.handOn, List.flatten_append, List.flatten_singleton, hkept]

/-- Receiving into the room there is keeps the bytes. -/
theorem SerialWorker.Inv.receive {size : ℕ} {w : SerialWorker} (h : w.Inv size)
    (hinner : w.inner = true)
    (bytes : List UInt8) : (w.receive (bytes.take (size - w.pos.toNat))).Inv size := by
  have hnonneg := h.nonneg
  have hle := h.le
  have hroom : (bytes.take (size - w.pos.toNat)).length ≤ size - w.pos.toNat := List.length_take_le _ _
  have hfits : w.pos.toNat + (bytes.take (size - w.pos.toNat)).length ≤ w.buffer.length := by
    rw [h.length]
    omega
  constructor
  · exact (overwrite_length w.buffer w.pos.toNat _ hfits).trans h.length
  · exact Int.add_nonneg hnonneg (Int.natCast_nonneg _)
  · simp only [SerialWorker.receive]
    omega
  · intro _
    have hpos := h.waits hinner
    simp only [SerialWorker.receive]
    omega
  · have hkept := h.kept
    have hpending : (w.receive (bytes.take (size - w.pos.toNat))).pending =
        w.frame ++ bytes.take (size - w.pos.toNat) :=
      (@SerialWorker.pending_inner (w.receive _) hinner).trans (w.frame_receive _ hnonneg hfits)
    rw [SerialWorker.pending_inner hinner] at hkept
    rw [hpending, ← List.append_assoc]
    exact congrArg (· ++ bytes.take (size - w.pos.toNat)) hkept

/-- A round of the outer loop keeps the bytes. -/
theorem SerialWorker.Inv.outerTurn {size : ℕ} {w : SerialWorker} (h : w.Inv size)
    (houter : w.inner = false)
    (turn : SerialTurn) : (w.outerTurn size turn).Inv size := by
  have hkept := h.kept
  rw [SerialWorker.pending_outer houter, List.append_nil] at hkept
  cases hopen : turn.isOpen with
  | false =>
    simp only [SerialWorker.outerTurn, hopen, Bool.false_eq_true, if_false]
    exact SerialWorker.inv_outer List.length_replicate h.nonneg h.le houter hkept
  | true =>
    cases hrecv : turn.recv with
    | none =>
      simp only [SerialWorker.outerTurn, hopen, hrecv, if_true]
      exact SerialWorker.inv_outer h.length (Int.le_refl 0) (Int.natCast_nonneg size) houter hkept
    | some bytes =>
      simp only [SerialWorker.outerTurn, hopen, hrecv, if_true]
      have hroom : (bytes.take size).length ≤ size := List.length_take_le _ _
      have hfits : (0 : ℤ).toNat + (bytes.take size).length ≤ w.buffer.length := by
        rw [h.length]
        omega
      constructor
      · exact (overwrite_length w.buffer _ _ hfits).trans h.length
      · simp only [SerialWorker.receive]
        omega
      · simp only [SerialWorker.receive]
        omega
      · intro hinner
        have hlen := List.length_pos_iff.mpr (of_decide_eq_true hinner)
        simp only [SerialWorker.receive]
        omega
      · have hframe :=
          ({ w with pos := 0 } : SerialWorker).frame_receive (bytes.take size) (Int.le_refl 0) hfits
        have hempty : ({ w with pos := 0 } : SerialWorker).frame = [] := List.take_zero
        rw [hempty, List.nil_append] at hframe
        have hpending : ({ ({ w with pos := 0 } : SerialWorker).receive (bytes.take size) with
            inner := decide (bytes.take size ≠ []) } : SerialWorker).pending = bytes.take size := by
          by_cases hnone : bytes.take size = []
          · rw [SerialWorker.pending_outer (by simp [hnone]), hnone]
          · rw [SerialWorker.pending_inner (by simp [hnone])]
            exact hframe
        rw [hpending]
        exact congrArg (· ++ bytes.take size) hkept

/-- A round of the inner loop without a failing call keeps the bytes. -/
theorem SerialWorker.Inv.innerTurn {size : ℕ} {w : SerialWorker} (h : w.Inv size)
    (hinner : w.inner = true)
    (turn : SerialTurn) (hmeets : w.Meets turn) : (w.innerTurn size turn).Inv size := by
  obtain ⟨hselect, hready⟩ := hmeets hinner
  rw [SerialWorker.innerTurn, if_neg hselect]
  by_cases htimeout : turn.sRc = 0
  · rw [if_pos htimeout]
    exact h.handOn hinner
  · obtain ⟨bytes, hbytes⟩ := Option.ne_none_iff_exists'.mp (hready htimeout)
    have hnext := h.receive hinner bytes
    simp only [if_neg htimeout, hbytes]
    split
    · exact hnext.handOn hinner
    · exact hnext

/-- A round without a failing call keeps the bytes. -/
theorem SerialWorker.Inv.turn {size : ℕ} {w : SerialWorker} (h : w.Inv size) (turn : SerialTurn)
    (hmeets : w.Meets turn) : (w.turn size turn).2.Inv size := by
  cases hinner : w.inner with
  | false =>
    simp only [SerialWorker.turn, hinner, Bool.false_eq_true, if_false]
    exact h.outerTurn hinner turn
  | true =>
    simp only [SerialWorker.turn, hinner, if_true]
    exact h.innerTurn hinner turn hmeets

/-- The bytes that wait are as many as the position says. -/
theorem SerialWorker.Inv.length_frame {size : ℕ} {w : SerialWorker} (h : w.Inv size) :
    w.frame.length = w.pos.toNat := by
  have hle := h.le
  rw [SerialWorker.frame, List.length_take, h.length]
  omega

/-- A failing call loses bytes that wait. -/
theorem SerialWorker.Inv.shows {size : ℕ} {w : SerialWorker} (h : w.Inv size) (turn : SerialTurn)
    (hmisses : ¬ w.Meets turn) : ¬ (w.turn size turn).2.Ok size := by
  rw [SerialWorker.Meets, Classical.not_imp] at hmisses
  obtain ⟨hinner, hmisses⟩ := hmisses
  have hpos := h.waits hinner
  have hle := h.le
  have hkept := congrArg List.length h.kept
  rw [SerialWorker.pending_inner hinner, List.length_append, h.length_frame] at hkept
  rintro ⟨-, -, hok⟩
  have hok := congrArg List.length hok
  rw [List.length_append] at hok
  simp only [SerialWorker.turn, hinner, if_true] at hok
  by_cases hselect : turn.sRc = -1
  · -- what waits is dropped
    have hturn : w.innerTurn size turn = { w with inner := false } := if_pos hselect
    rw [hturn, SerialWorker.pending_outer rfl, List.length_nil] at hok
    simp only at hok
    omega
  · have hready : turn.sRc ≠ 0 ∧ turn.recv = none := by
      by_contra hnot
      exact hmisses ⟨hselect, fun hsRc hrecv => hnot ⟨hsRc, hrecv⟩⟩
    -- the -1 is added to the position
    have hback : ¬ (w.pos - 1 < 0 ∨ (size : ℤ) ≤ w.pos - 1) := by omega
    have hframe : ({ w with pos := w.pos - 1 } : SerialWorker).pending.length = (w.pos - 1).toNat := by
      rw [SerialWorker.pending_inner (by exact hinner), SerialWorker.frame, List.length_take, h.length]
      simp only
      omega
    have hturn : w.innerTurn size turn = { w with pos := w.pos - 1 } := by
      rw [SerialWorker.innerTurn, if_neg hselect, if_neg hready.1, hready.2]
      exact if_neg hback
    rw [hturn, hframe] at hok
    simp only at hok
    omega

/-- A loop with a buffer of some size keeps its position and hands on what it receives, in each
state of a run, exactly when no call fails while a frame waits. -/
theorem serialWorker_always_iff (size : ℕ) (turns : List SerialTurn) :
    (∀ k, (runTotal (SerialWorker.turn size) (.start size) (turns.take k)).2.Ok size) ↔
      GuardedRun (fun w turn => some (SerialWorker.turn size w turn)) SerialWorker.Meets
        (.start size) turns :=
  runTotal_always_iff (SerialWorker.turn size) SerialWorker.Meets (SerialWorker.Inv size)
    (SerialWorker.Ok size)
    (fun _ h => h.ok) (fun _ turn h => h.turn turn) (fun _ turn h => h.shows turn)
      (SerialWorker.inv_start size) turns

/-- The loops keep their positions and hand on what they receive, in each state of a run, exactly
when no call fails while a frame waits. -/
theorem serial_workers_always_iff (turns : List SerialTurn) :
    ((∀ k, (runTotal xferDstSerialWorker (.start 1024) (turns.take k)).2.Ok 1024) ↔
      GuardedRun (fun w turn => some (xferDstSerialWorker w turn)) SerialWorker.Meets
        (.start 1024) turns) ∧
    ((∀ k, (runTotal loraRecvThread (.start 4096) (turns.take k)).2.Ok 4096) ↔
      GuardedRun (fun w turn => some (loraRecvThread w turn)) SerialWorker.Meets (.start 4096) turns) ∧
    ((∀ k, (runTotal zgbworkerThread (.start 4096) (turns.take k)).2.Ok 4096) ↔
      GuardedRun (fun w turn => some (zgbworkerThread w turn)) SerialWorker.Meets
        (.start 4096) turns) :=
  ⟨serialWorker_always_iff 1024 turns, serialWorker_always_iff 4096 turns,
    serialWorker_always_iff 4096 turns⟩

/-- Two bytes are received, a receive call fails, and only the first of them is handed on. -/
theorem xferDstSerialWorker_loses_byte :
    ¬ ∀ turns : List SerialTurn, ∀ k,
      (runTotal xferDstSerialWorker (.start 1024) (turns.take k)).2.Ok 1024 := by
  intro h
  obtain ⟨-, -, hkept⟩ := h
    [{ isOpen := true, sRc := 1, recv := some [1, 2] }, { isOpen := true, sRc := 1, recv := none },
      { isOpen := true, sRc := 0, recv := none }] 3
  revert hkept
  decide +kernel

end DasEdge.Board
