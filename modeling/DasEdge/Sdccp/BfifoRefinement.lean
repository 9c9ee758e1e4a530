import DasEdge.Sdccp.Bfifo

/-!
# The byte fifo refines a bounded queue while its counters keep their places

The window of the ring from `out` on holds the queued bytes. Pushes and pulls keep that up as
long as the 32-bit counters do not lose their place in the ring: reducing a wrapped counter
modulo `size` is only the next cell when `size` divides `2 ^ 32`. The other way to leave the
queue behaviour is the peek on an empty fifo, after which the mutex stays held.
-/

namespace DasEdge.Sdccp

open DasEdge.Library

/-- The request of the abstract queue that a call stands for. -/
def BfifoOp.toQueueOp : BfifoOp → QueueOp UInt8
  | .push buffer => .push buffer.1
  | .pull len => .pull len.toNat
  | .peek len => .peek len.toNat
  | .reset => .reset
  | .count => .count

/-- The abstract queue of capacity `size`, driven by fifo calls. -/
def bfifoSpecStep (size : UInt32) (queue : List UInt8) (op : BfifoOp) : QueueOut UInt8 × List UInt8 :=
  queueStep size.toNat queue op.toQueueOp

/-- The queued bytes of a fifo: the window of the ring from `out` on. -/
def bfifoContents (f : Bfifo) : List UInt8 :=
  ringWindow f.buffer f.outPos.toNat (f.inPos - f.outPos).toNat

/-- The bytes accepted and the bytes pulled since the last reset, from the calls and their answers. -/
def bfifoHistory (ops : List BfifoOp) (outs : List (QueueOut UInt8)) : List UInt8 × List UInt8 :=
  queueHistory ([], []) ((ops.map BfifoOp.toQueueOp).zip outs)

/-- Every call of the run returns with the answer of the bounded queue, the bytes pulled since the
last reset followed by the queued ones are the bytes accepted since then, and there are never more
than `size` of them queued. -/
def BfifoRefines (size : UInt32) (mem : List UInt8) (ops : List BfifoOp) : Prop :=
  ∃ outs f, runBlocking bfifoStep (bfifoCreate size mem) ops = some (outs, f) ∧
    outs = (runTotal (bfifoSpecStep size) [] ops).1 ∧
    (bfifoHistory ops outs).2 ++ bfifoContents f = (bfifoHistory ops outs).1 ∧
    (f.inPos - f.outPos).toNat ≤ size.toNat

/-- A counter moved on by `n` bytes still names the cell `n` places further in the ring. -/
def KeepsPlace (f : Bfifo) (counter n : ℕ) : Prop :=
  f.size.toNat ∣ 2 ^ 32 ∨ counter + n < 2 ^ 32

instance (f : Bfifo) (counter n : ℕ) : Decidable (KeepsPlace f counter n) := instDecidableOr

/-- The state before a call lets it act as on a bounded queue. A push needs `in` to name the cell
behind the queued bytes unless nothing fits; a pull that leaves bytes behind needs the new `out` to
name the first of them; a peek needs a byte. -/
def BfifoStepSafe (f : Bfifo) : BfifoOp → Prop
  | .push buffer =>
    KeepsPlace f f.outPos.toNat (f.inPos - f.outPos).toNat ∨ f.inPos - f.outPos = f.size ∨ buffer.1 = []
  | .pull len =>
    KeepsPlace f f.outPos.toNat (min len.toNat (f.inPos - f.outPos).toNat) ∨
      (f.inPos - f.outPos).toNat ≤ len.toNat
  | .peek _ => f.inPos ≠ f.outPos
  | .reset => True
  | .count => True

instance (f : Bfifo) (op : BfifoOp) : Decidable (BfifoStepSafe f op) :=
  match op with
  | .push _ => inferInstanceAs (Decidable (_ ∨ _ ∨ _))
  | .pull _ => inferInstanceAs (Decidable (_ ∨ _))
  | .peek _ => inferInstanceAs (Decidable (_ ≠ _))
  | .reset => isTrue trivial
  | .count => isTrue trivial

/-- The fifo holds `queue`: the window of the ring from `out` on. -/
structure BfifoHolds (size : UInt32) (f : Bfifo) (queue : List UInt8) : Prop where
  unlocked : f.lock = false
  size_eq : f.size = size
  size_pos : 0 < f.size.toNat
  ring : f.buffer.length = f.size.toNat
  count : (f.inPos - f.outPos).toNat = queue.length
  bound : queue.length ≤ f.size.toNat
  window : ringWindow f.buffer f.outPos.toNat queue.length = queue

/-- Equal counters stand for an empty queue. -/
theorem BfifoHolds.empty_iff {size : UInt32} {f : Bfifo} {queue : List UInt8}
    (h : BfifoHolds size f queue) :
    f.inPos = f.outPos ↔ queue = [] := by
  rw [← List.length_eq_zero_iff, ← h.count, UInt32.toNat_sub, ← UInt32.toNat_inj]
  have hin := f.inPos.toNat_lt
  have hout := f.outPos.toNat_lt
  omega

/-- A place that is kept is kept modulo the ring. -/
theorem keepsPlace_mod (f : Bfifo) (counter taken : UInt32)
    (h : KeepsPlace f counter.toNat taken.toNat) :
    (counter + taken).toNat % f.size.toNat = (counter.toNat + taken.toNat) % f.size.toNat := by
  rw [UInt32.toNat_add]
  rcases h with hdvd | hlt
  · exact Nat.mod_mod_of_dvd _ hdvd
  · rw [Nat.mod_eq_of_lt hlt]

/-- The counter `in` is the counter `out` moved on by the count. -/
theorem outPos_add_count (f : Bfifo) : f.outPos + (f.inPos - f.outPos) = f.inPos := by
  rw [UInt32.add_comm, UInt32.sub_add_cancel]

/-- A push answers and stores as the queue does. -/
theorem bfifoPush_refines {size : UInt32} {f : Bfifo} {queue : List UInt8} (buffer : CallerBuffer)
    (h : BfifoHolds size f queue) (hsafe : BfifoStepSafe f (.push buffer)) :
    ∃ f', bfifoStep f (.push buffer) = some ((bfifoSpecStep size queue (.push buffer)).1, f') ∧
      BfifoHolds size f' (bfifoSpecStep size queue (.push buffer)).2 := by
  have hlen : buffer.1.length.toUInt32.toNat = buffer.1.length := by
    simpa using Nat.mod_eq_of_lt buffer.2
  have hcount := h.count
  have hbound := h.bound
  have hcap : size.toNat - queue.length = (f.size - f.inPos + f.outPos).toNat := by
    have hle : f.inPos - f.outPos ≤ f.size := by rw [UInt32.le_iff_toNat_le, hcount]; exact hbound
    have hroom : f.size - f.inPos + f.outPos = f.size - (f.inPos - f.outPos) := by grind
    rw [hroom, UInt32.toNat_sub_of_le _ _ hle, hcount, h.size_eq]
  by_cases hfull : f.size = f.inPos - f.outPos
  · have hzero : size.toNat - queue.length = 0 := by
      rw [← h.size_eq, hfull, hcount, Nat.sub_self]
    refine ⟨f, ?_, ?_⟩
    · simp [bfifoStep, bfifoPush, h.unlocked, ← hfull, bfifoSpecStep, queueStep, BfifoOp.toQueueOp,
        queueAccepted, hzero]
    · simpa [bfifoSpecStep, queueStep, BfifoOp.toQueueOp, queueAccepted, hzero] using h
  · have htaken : (fifoMin buffer.1.length.toUInt32 (f.size - f.inPos + f.outPos)).toNat =
        min buffer.1.length (size.toNat - queue.length) := by rw [fifoMin_toNat, hlen, hcap]
    have haccepted : queueAccepted size.toNat queue buffer.1 =
        buffer.1.take (fifoMin buffer.1.length.toUInt32 (f.size - f.inPos + f.outPos)).toNat := by
      rw [queueAccepted, htaken, List.take_eq_take_iff]
      omega
    have hpush :=
      bfifoPush_eq f buffer.1 buffer.1.length.toUInt32 h.unlocked hfull h.ring h.size_pos hlen
    generalize fifoMin buffer.1.length.toUInt32 (f.size - f.inPos + f.outPos) = taken
      at htaken haccepted hpush
    have hdata : (queueAccepted size.toNat queue buffer.1).length = taken.toNat := by
      rw [haccepted, List.length_take, htaken]; omega
    have hfits : queue.length + taken.toNat ≤ f.size.toNat := by
      rw [h.size_eq]; rw [h.size_eq] at hbound; omega
    refine ⟨_, by simp only [bfifoStep, hpush, Option.map_some, bfifoSpecStep, queueStep,
      BfifoOp.toQueueOp, hdata]; rfl, ?_⟩
    change BfifoHolds size _ (queue ++ queueAccepted size.toNat queue buffer.1)
    have hnew : (f.inPos + taken - f.outPos).toNat = queue.length + taken.toNat := by
      have hsum : f.inPos + taken - f.outPos = (f.inPos - f.outPos) + taken := by grind
      have hsz := f.size.toNat_lt
      rw [hsum, UInt32.toNat_add, hcount, Nat.mod_eq_of_lt (by omega)]
    refine ⟨h.unlocked, h.size_eq, h.size_pos, ?_, ?_, ?_, ?_⟩
    · rw [← h.ring]
      exact ringWrite_length _ _ _ (by rw [h.ring]; exact (Nat.mod_lt _ h.size_pos).le)
        (by rw [← haccepted, hdata, h.ring]; omega)
    · rw [List.length_append, hdata]; exact hnew
    · rw [List.length_append, hdata]; exact hfits
    · -- the write starts right behind the window, or it writes nothing
      rw [List.length_append]
      change ringWindow (ringWrite f.buffer (f.inPos.toNat % f.size.toNat) _) f.outPos.toNat _ = _
      rw [← haccepted]
      have hplace : f.inPos.toNat % f.size.toNat = (f.outPos.toNat + queue.length) % f.size.toNat ∨
          queueAccepted size.toNat queue buffer.1 = [] := by
        rcases hsafe with hkeep | heq | hnil
        · left
          have := keepsPlace_mod f f.outPos (f.inPos - f.outPos) hkeep
          rwa [outPos_add_count, hcount] at this
        · exact absurd heq.symm hfull
        · right; rw [hnil]; simp [queueAccepted]
      rcases hplace with hplace | hnil
      · rw [hplace, ← h.ring, ringWrite_window _ _ _ _ (by rw [hdata, h.ring]; exact hfits), h.window]
      · have hsame : ringWrite f.buffer (f.inPos.toNat % f.size.toNat) [] = f.buffer := by
          simp [ringWrite, overwrite]
        rw [hnil, hsame, List.append_nil, List.length_nil, Nat.add_zero, h.window]

/-- A pull answers and forgets as the queue does. -/
theorem bfifoPull_refines {size : UInt32} {f : Bfifo} {queue : List UInt8} (len : UInt32)
    (h : BfifoHolds size f queue) (hsafe : BfifoStepSafe f (.pull len)) :
    ∃ f', bfifoStep f (.pull len) = some ((bfifoSpecStep size queue (.pull len)).1, f') ∧
      BfifoHolds size f' (bfifoSpecStep size queue (.pull len)).2 := by
  by_cases hempty : f.inPos = f.outPos
  · obtain rfl := h.empty_iff.mp hempty
    exact ⟨f, by simp [bfifoStep, bfifoPull, h.unlocked, hempty, bfifoSpecStep, queueStep,
      BfifoOp.toQueueOp],
      by simpa [bfifoSpecStep, queueStep, BfifoOp.toQueueOp] using h⟩
  · have htaken : (fifoMin len (f.inPos - f.outPos)).toNat = min len.toNat queue.length := by
      rw [fifoMin_toNat, h.count]
    have hstep : bfifoPull f len = some (bfifoCopyOut f (fifoMin len (f.inPos - f.outPos)),
        { f with outPos := f.outPos + fifoMin len (f.inPos - f.outPos) }) := by
      simp [bfifoPull, h.unlocked, hempty]
    have hcopy := bfifoCopyOut_eq f (fifoMin len (f.inPos - f.outPos)) h.ring h.size_pos
      (by rw [htaken]; have := h.bound; omega)
    generalize fifoMin len (f.inPos - f.outPos) = taken at htaken hstep hcopy
    have hout : bfifoCopyOut f taken = queue.take len.toNat := by
      rw [hcopy, htaken, ← ringWindow_take _ _ queue.length _ (Nat.min_le_right _ _), h.window,
        List.take_eq_take_iff]
      omega
    refine ⟨_, by simp only [bfifoStep, hstep, Option.map_some, hout, bfifoSpecStep, queueStep,
      BfifoOp.toQueueOp]; rfl, ?_⟩
    change BfifoHolds size _ (queue.drop len.toNat)
    have hcount := h.count
    have hbound := h.bound
    have hleft : (f.inPos - (f.outPos + taken)).toNat = queue.length - len.toNat := by
      have hsub : f.inPos - (f.outPos + taken) = f.inPos - f.outPos - taken := by grind
      rw [hsub, UInt32.toNat_sub_of_le _ _ (by rw [UInt32.le_iff_toNat_le, hcount]; omega), hcount]
      omega
    refine ⟨h.unlocked, h.size_eq, h.size_pos, h.ring, ?_, ?_, ?_⟩
    · rw [List.length_drop]; exact hleft
    · rw [List.length_drop]; exact (Nat.sub_le _ _).trans hbound
    · change ringWindow f.buffer (f.outPos + taken).toNat _ = _
      rcases Nat.lt_or_ge len.toNat queue.length with hlt | hge
      · -- bytes stay behind: the new `out` names the first of them
        have hkeep : KeepsPlace f f.outPos.toNat taken.toNat := by
          rcases hsafe with hkeep | hge
          · rwa [hcount, ← htaken] at hkeep
          · omega
        have hplace := keepsPlace_mod f f.outPos taken hkeep
        rw [← ringWindow_mod, h.ring, hplace, ← h.ring, ringWindow_mod, htaken, List.length_drop,
          Nat.min_eq_left hlt.le,
          ← ringWindow_drop _ _ _ _ hlt.le (by rw [h.ring]; exact hbound), h.window]
      · rw [List.drop_eq_nil_of_le hge, ringWindow, List.length_nil, List.take_zero]

section Wrapping

variable {size : UInt32} (hwrap : size.toNat ∣ 2 ^ 32) {f : Bfifo} {queue : List UInt8}

include hwrap

/-- When the size divides the range of the counters, a push appends the first bytes. -/
theorem bfifoPush_holds (h : BfifoHolds size f queue) (buffer : CallerBuffer) :
    ∃ num f', bfifoPush f buffer.1 buffer.1.length.toUInt32 = some (num, f') ∧
      num.toNat ≤ buffer.1.length ∧
      BfifoHolds size f' (queue ++ buffer.1.take num.toNat) := by
  obtain ⟨f', hstep, hholds⟩ := bfifoPush_refines buffer h (.inl (.inl (h.size_eq ▸ hwrap)))
  obtain ⟨⟨num, f''⟩, hpush, hpair⟩ := Option.map_eq_some_iff.mp hstep
  obtain ⟨hnum, rfl⟩ := Prod.mk.inj hpair
  have haccepted : num.toNat = (queueAccepted size.toNat queue buffer.1).length :=
    QueueOut.accepted.inj hnum
  have hlength : (queueAccepted size.toNat queue buffer.1).length ≤ buffer.1.length :=
    List.length_take_le' _ _
  refine ⟨num, f'', hpush, haccepted ▸ hlength, ?_⟩
  have htake : buffer.1.take num.toNat = queueAccepted size.toNat queue buffer.1 := by
    rw [haccepted, queueAccepted, List.length_take, List.take_eq_take_iff]
    omega
  rw [htake]
  exact hholds

/-- When the size divides the range of the counters, a pull takes the first bytes. -/
theorem bfifoPull_holds (h : BfifoHolds size f queue) (len : UInt32) :
    ∃ f', bfifoPull f len = some (queue.take len.toNat, f') ∧
      BfifoHolds size f' (queue.drop len.toNat) := by
  obtain ⟨f', hstep, hholds⟩ := bfifoPull_refines len h (.inl (.inl (h.size_eq ▸ hwrap)))
  obtain ⟨⟨bytes, f''⟩, hpull, hpair⟩ := Option.map_eq_some_iff.mp hstep
  obtain ⟨hbytes, rfl⟩ := Prod.mk.inj hpair
  obtain rfl : bytes = queue.take len.toNat := QueueOut.items.inj hbytes
  exact ⟨f'', hpull, hholds⟩

end Wrapping

/-- A peek shows the first bytes, when there is one. -/
theorem bfifoPeek_holds {size : UInt32} {f : Bfifo} {queue : List UInt8}
    (h : BfifoHolds size f queue) (hne : queue ≠ [])
    (len : UInt32) : bfifoPeek f len = some (queue.take len.toNat, f) := by
  have hcounters : ¬ f.inPos = f.outPos := fun heq => hne (h.empty_iff.mp heq)
  have htaken : (fifoMin len (f.inPos - f.outPos)).toNat = min len.toNat queue.length := by
    rw [fifoMin_toNat, h.count]
  have hout : bfifoCopyOut f (fifoMin len (f.inPos - f.outPos)) = queue.take len.toNat := by
    rw [bfifoCopyOut_eq f _ h.ring h.size_pos (by rw [htaken]; have := h.bound; omega), htaken,
      ← ringWindow_take _ _ queue.length _ (Nat.min_le_right _ _), h.window, List.take_eq_take_iff]
    omega
  simp only [bfifoPeek, h.unlocked, Bool.false_eq_true, if_false, if_neg hcounters, hout]

/-- A call that is safe in its state answers as the queue does and keeps the representation. -/
theorem bfifoStep_refines (size : UInt32) (f : Bfifo) (queue : List UInt8) (op : BfifoOp)
    (h : BfifoHolds size f queue) (hsafe : BfifoStepSafe f op) :
    ∃ f', bfifoStep f op = some ((bfifoSpecStep size queue op).1, f') ∧
      BfifoHolds size f' (bfifoSpecStep size queue op).2 := by
  cases op with
  | push buffer => exact bfifoPush_refines buffer h hsafe
  | pull len => exact bfifoPull_refines len h hsafe
  | peek len =>
    have hne : ¬ f.inPos = f.outPos := hsafe
    have hpeek := bfifoPeek_holds h (fun hnil => hne (h.empty_iff.mpr hnil)) len
    exact ⟨f, by rw [bfifoStep, hpeek]; rfl, h⟩
  | reset =>
    refine ⟨{ f with inPos := 0, outPos := 0 }, by simp [bfifoStep, bfifoReset, h.unlocked,
      bfifoSpecStep,
      queueStep, BfifoOp.toQueueOp], ?_⟩
    exact ⟨h.unlocked, h.size_eq, h.size_pos, h.ring, (by decide : ((0 : UInt32) - 0).toNat = 0),
      Nat.zero_le _, rfl⟩
  | count =>
    exact ⟨f, by simp [bfifoStep, bfifoCount, h.unlocked, h.count, bfifoSpecStep, queueStep,
      BfifoOp.toQueueOp], h⟩

/-- A new fifo holds the empty queue. -/
theorem bfifoCreate_holds (size : UInt32) (mem : List UInt8) (hsize : 0 < size.toNat)
    (hmem : mem.length = size.toNat) : BfifoHolds size (bfifoCreate size mem) [] :=
  ⟨rfl, rfl, hsize, hmem, (by decide : ((0 : UInt32) - 0).toNat = 0), Nat.zero_le _, rfl⟩

/-- A run whose calls are all safe in their states refines the bounded queue. -/
theorem bfifoRun_refines (size : UInt32) (mem : List UInt8) (ops : List BfifoOp)
    (hsize : 0 < size.toNat)
    (hmem : mem.length = size.toNat)
    (hsafe : GuardedRun bfifoStep BfifoStepSafe (bfifoCreate size mem) ops) :
    BfifoRefines size mem ops := by
  obtain ⟨f, hrun, hholds⟩ := runBlocking_refines bfifoStep (bfifoSpecStep size) BfifoStepSafe
    (BfifoHolds size) (bfifoStep_refines size) _ [] ops (bfifoCreate_holds size mem hsize hmem) hsafe
  refine ⟨_, f, hrun, rfl, ?_, ?_⟩
  · have hspec : runTotal (bfifoSpecStep size) [] ops =
        runTotal (queueStep size.toNat) [] (ops.map BfifoOp.toQueueOp) :=
      runTotal_map (queueStep size.toNat) BfifoOp.toQueueOp [] ops
    have hwindow : bfifoContents f = (runTotal (bfifoSpecStep size) [] ops).2 := by
      rw [bfifoContents, hholds.count, hholds.window]
    rw [hwindow, bfifoHistory, hspec]
    exact queueHistory_conservation size.toNat ([], []) [] (ops.map BfifoOp.toQueueOp) rfl
  · have hbound := hholds.bound
    rw [hholds.size_eq] at hbound
    rw [hholds.count]
    exact hbound

/-- A push of three bytes, a peek and two pulls on a fifo of four cells. -/
theorem bfifoRun_refines_four :
    BfifoRefines 4 [0, 0, 0, 0] [.push ⟨[1, 2, 3], by decide⟩, .peek 2, .pull 2, .pull 5, .count] :=
  bfifoRun_refines 4 [0, 0, 0, 0] _ (by decide) (by decide) (by decide)

/-- A peek on the empty fifo keeps the mutex, so the next call never returns. -/
theorem bfifo_peek_empty_blocks :
    ¬ ∀ (size : UInt32) (mem : List UInt8) (ops : List BfifoOp), 0 < size.toNat →
      mem.length = size.toNat →
      BfifoRefines size mem ops := by
  intro h
  obtain ⟨outs, f, hrun, -⟩ := h 1 [0] [.peek 1, .count] (by decide) (by decide)
  exact absurd hrun (by simp [runBlocking, bfifoStep, bfifoPeek, bfifoCount, bfifoCreate])

/-- Rounds in which three bytes pass through the fifo. -/
def passThree (rounds : ℕ) : List BfifoOp :=
  (List.replicate rounds [BfifoOp.push ⟨[7, 8, 9], by decide⟩, BfifoOp.pull 3]).flatten

/-- After any number of rounds an empty fifo of three cells is empty again, its counters moved on. -/
theorem passThree_run (rounds : ℕ) (c : UInt32) (buffer : List UInt8) (hbuffer : buffer.length = 3) :
    ∃ outs buffer', runBlocking bfifoStep ⟨c, c, 3, false, buffer⟩ (passThree rounds) =
        some (outs, ⟨c + 3 * rounds.toUInt32, c + 3 * rounds.toUInt32, 3, false, buffer'⟩) ∧
      buffer'.length = 3 := by
  induction rounds generalizing c buffer with
  | zero => exact ⟨[], buffer, by simp [passThree, runBlocking], hbuffer⟩
  | succ rounds ih =>
    have hfull : (3 : UInt32) ≠ c - c := by rw [UInt32.sub_self]; decide
    have hroom : fifoMin 3 (3 - c + c) = 3 := by rw [UInt32.sub_add_cancel]; rfl
    have hpush := bfifoPush_eq ⟨c, c, 3, false, buffer⟩ [7, 8, 9] 3 rfl hfull hbuffer
      (by decide : 0 < (3 : UInt32).toNat) rfl
    simp only [hroom] at hpush
    have hwrite : (ringWrite buffer (c.toNat % 3) [7, 8, 9]).length = 3 := by
      rw [ringWrite_length _ _ _ (by rw [hbuffer]; exact (Nat.mod_lt _ (by decide)).le)
        (by rw [hbuffer]; rfl)]
      exact hbuffer
    have hne : c + 3 ≠ c := by
      intro h
      exact absurd (show (3 : UInt32) = 0 by grind) (by decide)
    have hcount : fifoMin 3 (c + 3 - c) = 3 := by
      rw [show c + 3 - c = 3 by grind]
      rfl
    have hpush' : bfifoPush ⟨c, c, 3, false, buffer⟩ [7, 8, 9]
      ([7, 8, 9] : List UInt8).length.toUInt32 =
        some (3, ⟨c + 3, c, 3, false, ringWrite buffer (c.toNat % 3) [7, 8, 9]⟩) := hpush
    have hpull : bfifoPull ⟨c + 3, c, 3, false, ringWrite buffer (c.toNat % 3) [7, 8, 9]⟩ 3 =
        some (bfifoCopyOut ⟨c + 3, c, 3, false, ringWrite buffer (c.toNat % 3) [7, 8, 9]⟩ 3,
          ⟨c + 3, c + 3, 3, false, ringWrite buffer (c.toNat % 3) [7, 8, 9]⟩) := by
      rw [bfifoPull, if_neg Bool.false_ne_true, if_neg hne, hcount]
    obtain ⟨outs, buffer', hrun, hlen⟩ := ih (c + 3) _ hwrite
    have hnext : c + 3 * (rounds + 1).toUInt32 = c + 3 + 3 * rounds.toUInt32 := by
      have hsucc : (rounds + 1).toUInt32 = rounds.toUInt32 + 1 := UInt32.ofNat_add rounds 1
      grind
    rw [hnext, passThree, List.replicate_succ, List.flatten_cons, ← passThree]
    refine ⟨.accepted 3 :: .items (bfifoCopyOut
      ⟨c + 3, c, 3, false, ringWrite buffer (c.toNat % 3) [7, 8, 9]⟩ 3) :: outs, buffer', ?_, hlen⟩
    simp only [List.cons_append, List.nil_append, runBlocking, bfifoStep, hpush', hpull,
      Option.map_some,
      Option.bind_some, hrun]
    rfl

/-- The same rounds leave the abstract queue empty. -/
theorem passThree_spec (rounds : ℕ) : (runTotal (bfifoSpecStep 3) [] (passThree rounds)).2 = [] := by
  induction rounds with
  | zero => rfl
  | succ rounds ih =>
    rw [passThree, List.replicate_succ, List.flatten_cons, ← passThree, runTotal_append]
    exact ih

/-- Once the 32-bit counter `in` has wrapped, a size that does not divide `2 ^ 32` loses the place:
the next byte overwrites one that is still queued. -/
theorem bfifo_wrap_misplaces (mem : List UInt8) (hmem : mem.length = 3) (rounds : ℕ)
    (hrounds : 3 * rounds + 1 = 2 ^ 32) :
    ¬ BfifoRefines 3 mem (passThree rounds ++
      [.push ⟨[1, 2], by decide⟩, .push ⟨[3], by decide⟩, .pull 3]) := by
  rintro ⟨outs, f, hrun, houts, -⟩
  obtain ⟨outs', buffer, hpass, hbuffer⟩ := passThree_run rounds 0 mem hmem
  have hcounter : (0 : UInt32) + 3 * rounds.toUInt32 = 4294967295 := by
    rw [← UInt32.toNat_inj, UInt32.zero_add, UInt32.toNat_mul]
    have hr : rounds.toUInt32.toNat = rounds := by
      simpa using Nat.mod_eq_of_lt (by omega : rounds < 4294967296)
    have h3 : (3 : UInt32).toNat = 3 := rfl
    have hl : (4294967295 : UInt32).toNat = 4294967295 := rfl
    rw [hr, h3, hl]
    omega
  rw [hcounter] at hpass
  obtain ⟨x, y, z, rfl⟩ := List.length_eq_three.mp hbuffer
  have hpush₁ : bfifoPush ⟨4294967295, 4294967295, 3, false, [x, y, z]⟩ [1, 2] 2 =
      some (2, ⟨1, 4294967295, 3, false, [1, 2, z]⟩) := by
    rw [bfifoPush_eq _ _ _ rfl (by decide : (3 : UInt32) ≠ 4294967295 - 4294967295) rfl
      (by decide : 0 < (3 : UInt32).toNat) rfl]
    simp only [(by decide : (4294967295 : UInt32).toNat % (3 : UInt32).toNat = 0),
      (by decide : fifoMin 2 (3 - 4294967295 + 4294967295) = 2),
      (by decide : (4294967295 : UInt32) + 2 = 1)]
    rfl
  have hpush₂ : bfifoPush ⟨1, 4294967295, 3, false, [1, 2, z]⟩ [3] 1 =
      some (1, ⟨2, 4294967295, 3, false, [1, 3, z]⟩) := by
    rw [bfifoPush_eq _ _ _ rfl (by decide : (3 : UInt32) ≠ 1 - 4294967295) rfl
      (by decide : 0 < (3 : UInt32).toNat) rfl]
    simp only [(by decide : fifoMin 1 (3 - 1 + 4294967295) = 1), (by decide : (1 : UInt32) + 1 = 2)]
    rfl
  have hpull : bfifoPull ⟨2, 4294967295, 3, false, [1, 3, z]⟩ 3 =
      some ([1, 3, z], ⟨2, 2, 3, false, [1, 3, z]⟩) := by
    have hcopy : bfifoCopyOut ⟨2, 4294967295, 3, false, [1, 3, z]⟩ 3 = [1, 3, z] := by
      rw [bfifoCopyOut_eq _ _ rfl (by decide : 0 < (3 : UInt32).toNat)
        (by decide : (3 : UInt32).toNat ≤ 3),
        ← ringWindow_mod]
      simp only [List.length_cons, List.length_nil,
        (by decide : (4294967295 : UInt32).toNat % (0 + 1 + 1 + 1) = 0)]
      rfl
    rw [bfifoPull, if_neg Bool.false_ne_true, if_neg (by decide : ¬ (2 : UInt32) = 4294967295)]
    simp only [(by decide : fifoMin 3 (2 - 4294967295) = 3), hcopy,
      (by decide : (4294967295 : UInt32) + 3 = 2)]
  have htail : runBlocking bfifoStep ⟨4294967295, 4294967295, 3, false, [x, y, z]⟩
      [.push ⟨[1, 2], by decide⟩, .push ⟨[3], by decide⟩, .pull 3] =
      some ([.accepted 2, .accepted 1, .items [1, 3, z]], ⟨2, 2, 3, false, [1, 3, z]⟩) := by
    have hlen₂ : ([1, 2] : List UInt8).length.toUInt32 = 2 := rfl
    have hlen₁ : ([3] : List UInt8).length.toUInt32 = 1 := rfl
    simp only [runBlocking, bfifoStep, hlen₁, hlen₂, hpush₁, hpush₂, hpull, Option.map_some,
      Option.bind_some]
    rfl
  have hcreate : bfifoCreate 3 mem = ⟨0, 0, 3, false, mem⟩ := rfl
  rw [runBlocking_append, hcreate, hpass, Option.bind_some, htail, Option.map_some] at hrun
  rw [runTotal_append, passThree_spec] at houts
  have hlast := congrArg List.getLast? ((Prod.mk.inj (Option.some.inj hrun)).1.trans houts)
  simp [runTotal, bfifoSpecStep, queueStep, BfifoOp.toQueueOp, queueAccepted] at hlast

end DasEdge.Sdccp
