import DasEdge.Board.XferDstSerial

/-!
# Bursts on a serial port

The bytes that come in with no pause in which a receive loop gives up waiting are handed on as one
frame, however they are cut into chunks. A buffer that is full is handed on at once; then the pause
is met in the outer loop.
-/

namespace DasEdge.Board

open DasEdge.Library

/-- The rounds in which the chunks of a burst come in, and the pause behind them. -/
def burstTurns (chunks : List (List UInt8)) : List SerialTurn :=
  chunks.map (fun chunk => ⟨true, 1, some chunk⟩) ++ [⟨true, 0, none⟩]

/-- A burst that a buffer has room for. A call that receives receives something. -/
structure IsBurst (size : ℕ) (chunks : List (List UInt8)) : Prop where
  ne_nil : chunks ≠ []
  chunk_ne_nil : ∀ chunk ∈ chunks, chunk ≠ []
  fits : chunks.flatten.length ≤ size

instance decidableIsBurst (size : ℕ) (chunks : List (List UInt8)) : Decidable (IsBurst size chunks) :=
  decidable_of_iff (chunks ≠ [] ∧ (∀ chunk ∈ chunks, chunk ≠ []) ∧ chunks.flatten.length ≤ size)
    ⟨fun h => ⟨h.1, h.2.1, h.2.2⟩, fun h => ⟨h.ne_nil, h.chunk_ne_nil, h.fits⟩⟩

variable {size : ℕ} {w : SerialWorker} {chunks : List (List UInt8)}

/-- The position is inside the buffer in each state of the run through a burst. -/
theorem SerialWorker.Inv.burst (h : w.Inv size) (chunks : List (List UInt8)) (k : ℕ) :
    (runTotal (SerialWorker.turn size) w ((burstTurns chunks).take k)).2.Inv size := by
  have hmeets : ∀ turn ∈ (burstTurns chunks).take k, turn.sRc ≠ -1 ∧
      (turn.sRc ≠ 0 → turn.recv ≠ none) := by
    intro turn hturn
    rcases List.mem_append.mp (List.mem_of_mem_take hturn) with hturn | hturn
    · obtain ⟨chunk, -, rfl⟩ := List.mem_map.mp hturn
      exact ⟨(by decide : (1 : ℤ) ≠ -1), fun _ h => by cases h⟩
    · rw [List.mem_singleton.mp hturn]
      exact ⟨by decide, fun h => absurd rfl h⟩
  generalize (burstTurns chunks).take k = turns at hmeets ⊢
  induction turns generalizing w with
  | nil => exact h
  | cons turn turns ih =>
    have hturn := hmeets turn List.mem_cons_self
    exact ih (h.turn turn fun _ => hturn) fun turn hmem => hmeets turn (List.mem_cons_of_mem _ hmem)

/-- In the inner loop what waits is handed on with the rest of the burst. -/
theorem SerialWorker.Inv.handed_inner (h : w.Inv size) (hinner : w.inner = true)
    (hchunks : ∀ chunk ∈ chunks, chunk ≠ []) (hfits : w.frame.length + chunks.flatten.length ≤ size) :
    (runTotal (SerialWorker.turn size) w (burstTurns chunks)).2.handed =
      w.handed ++ [w.frame ++ chunks.flatten] := by
  induction chunks generalizing w with
  | nil =>
    have hturn : (SerialWorker.turn size w ⟨true, 0, none⟩).2 = w.handOn := by
      simp only [SerialWorker.turn, hinner, if_true, SerialWorker.innerTurn, Int.reduceNeg,
        Int.reduceEq, if_false]
    change (SerialWorker.turn size w ⟨true, 0, none⟩).2.handed = _
    rw [hturn, List.flatten_nil, List.append_nil]
    rfl
  | cons chunk chunks ih =>
    rw [List.flatten_cons, List.length_append, h.length_frame] at hfits
    have hnonneg := h.nonneg
    have htake : chunk.take (size - w.pos.toNat) = chunk := List.take_of_length_le (by omega)
    have hnext := h.receive hinner chunk
    rw [htake] at hnext
    have hframe : (w.receive chunk).frame = w.frame ++ chunk :=
      w.frame_receive chunk hnonneg (by rw [h.length]; omega)
    have hturn : (SerialWorker.turn size w ⟨true, 1, some chunk⟩).2 =
        if (size : ℤ) ≤ (w.receive chunk).pos then (w.receive chunk).handOn else w.receive chunk := by
      have hpos : ¬ (w.receive chunk).pos < 0 := Int.not_lt.mpr hnext.nonneg
      simp only [SerialWorker.turn, hinner, if_true, SerialWorker.innerTurn, Int.reduceNeg,
        Int.reduceEq, if_false,
        htake, hpos, false_or]
    have hchunk : 0 < chunk.length := List.length_pos_iff.mpr (hchunks chunk List.mem_cons_self)
    have hrest : ∀ chunk ∈ chunks, chunk ≠ [] :=
      fun chunk hmem => hchunks chunk (List.mem_cons_of_mem _ hmem)
    change (runTotal (SerialWorker.turn size) (SerialWorker.turn size w ⟨true, 1, some chunk⟩).2
      (burstTurns chunks)).2.handed = _
    rw [hturn]
    split
    · next hfull =>
      -- the buffer is full, so that there is no other chunk
      have hpos : (w.receive chunk).pos = w.pos + chunk.length := rfl
      have hnone : chunks = [] := by
        cases chunks with
        | nil => rfl
        | cons chunk' chunks =>
          have := List.length_pos_iff.mpr (hrest chunk' List.mem_cons_self)
          rw [List.flatten_cons, List.length_append] at hfits
          omega
      subst hnone
      rw [List.flatten_cons, List.flatten_nil, List.append_nil, ← hframe]
      rfl
    · have hlength : (w.receive chunk).frame.length = w.pos.toNat + chunk.length := by
        rw [hframe, List.length_append, h.length_frame]
      rw [ih hnext hinner hrest (by omega), hframe, List.flatten_cons, List.append_assoc]
      rfl

/-- A loop at rest hands a burst on as one frame. -/
theorem SerialWorker.Inv.handed_burst (h : w.Inv size) (houter : w.inner = false)
    (hburst : IsBurst size chunks) :
    (runTotal (SerialWorker.turn size) w (burstTurns chunks)).2.handed =
      w.handed ++ [chunks.flatten] := by
  obtain ⟨hne, hchunks, hfits⟩ := hburst
  obtain ⟨chunk, chunks, rfl⟩ := List.exists_cons_of_ne_nil hne
  have hchunk := hchunks chunk List.mem_cons_self
  rw [List.flatten_cons, List.length_append] at hfits
  have htake : chunk.take size = chunk := List.take_of_length_le (by omega)
  have hfirst : (SerialWorker.turn size w ⟨true, 1, some chunk⟩).2 =
      w.outerTurn size ⟨true, 1, some chunk⟩ := by
    simp only [SerialWorker.turn, houter, Bool.false_eq_true, if_false]
  have hturn : w.outerTurn size ⟨true, 1, some chunk⟩ =
      { ({ w with pos := 0 } : SerialWorker).receive chunk with inner := true } := by
    simp only [SerialWorker.outerTurn, if_true, htake, hchunk, ne_eq, not_false_eq_true, decide_true]
  have hframe : (w.outerTurn size ⟨true, 1, some chunk⟩).frame = chunk := by
    have hreceive := ({ w with pos := 0 } : SerialWorker).frame_receive chunk (Int.le_refl 0)
      (by simp only [h.length, Int.toNat_zero]; omega)
    rw [hturn]
    exact hreceive.trans (by rw [SerialWorker.frame, Int.toNat_zero, List.take_zero, List.nil_append])
  have hnext := (h.outerTurn houter ⟨true, 1, some chunk⟩).handed_inner (by rw [hturn])
    (fun chunk hmem => hchunks chunk (List.mem_cons_of_mem _ hmem)) (by rw [hframe]; exact hfits)
  change (runTotal (SerialWorker.turn size) (SerialWorker.turn size w ⟨true, 1, some chunk⟩).2
    (burstTurns chunks)).2.handed = _
  rw [hfirst, hnext, hframe, hturn, List.flatten_cons]
  rfl

end DasEdge.Board
