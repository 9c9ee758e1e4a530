import DasEdge.Library.BoundedQueue
import DasEdge.Library.RingQueue
import Mathlib.Algebra.Order.Ring.Nat

/-!
# The blocking byte fifo in non-blocking use

The fields and the calls of `bfifo.c` with `timeout == 0`. The positions `in` and `out` are
free-running 32-bit counters reduced modulo `size` at each access. The mutex is part of the
state: a call on a fifo whose mutex is still held never returns, which the model answers
with `none`. The condition variables are only signalled in this use and are left out.
-/

namespace DasEdge.Sdccp

open DasEdge.Library

/-- The fields of `struct bfifo`; `lock` tells whether the mutex is held. -/
structure Bfifo where
  inPos : UInt32
  outPos : UInt32
  size : UInt32
  lock : Bool
  buffer : List UInt8
  deriving DecidableEq

/-- A caller's buffer: its length fits the `unsigned int` that is passed with it. -/
abbrev CallerBuffer := { bytes : List UInt8 // bytes.length < 2 ^ 32 }

/-- `_fifo_min` -/
def fifoMin (x y : UInt32) : UInt32 := if x < y then x else y

/-- `bfifo_create` over freshly allocated memory, whose contents are arbitrary. -/
def bfifoCreate (size : UInt32) (mem : List UInt8) : Bfifo where
  inPos := 0
  outPos := 0
  size := size
  lock := false
  buffer := mem

/-- `bfifo_reset` -/
def bfifoReset (f : Bfifo) : Option Bfifo :=
  if f.lock then none else some { f with inPos := 0, outPos := 0 }

/-- `bfifo_push` with no timeout: the accepted length. -/
def bfifoPush (f : Bfifo) (buffer : List UInt8) (len : UInt32) : Option (UInt32 × Bfifo) :=
  if f.lock then none
  else if f.size = f.inPos - f.outPos then some (0, f)
  else
    let pos := f.inPos % f.size
    let len := fifoMin len (f.size - f.inPos + f.outPos)
    let l := fifoMin len (f.size - pos)
    let first := overwrite f.buffer pos.toNat (buffer.take l.toNat)
    let second := overwrite first 0 ((buffer.drop l.toNat).take (len - l).toNat)
    some (len, { f with inPos := f.inPos + len, buffer := second })

/-- The two copies out of the ring that `bfifo_pull` and `bfifo_peek` share. -/
def bfifoCopyOut (f : Bfifo) (len : UInt32) : List UInt8 :=
  let pos := f.outPos % f.size
  let l := fifoMin len (f.size - pos)
  (f.buffer.drop pos.toNat).take l.toNat ++ f.buffer.take (len - l).toNat

/-- `bfifo_pull` with no timeout: the bytes copied to the caller. -/
def bfifoPull (f : Bfifo) (len : UInt32) : Option (List UInt8 × Bfifo) :=
  if f.lock then none
  else if f.inPos = f.outPos then some ([], f)
  else
    let len := fifoMin len (f.inPos - f.outPos)
    some (bfifoCopyOut f len, { f with outPos := f.outPos + len })

/-- `bfifo_peek`: the branch for an empty fifo returns without unlocking. -/
def bfifoPeek (f : Bfifo) (len : UInt32) : Option (List UInt8 × Bfifo) :=
  if f.lock then none
  else if f.inPos = f.outPos then some ([], { f with lock := true })
  else some (bfifoCopyOut f (fifoMin len (f.inPos - f.outPos)), f)

/-- `bfifo_count` -/
def bfifoCount (f : Bfifo) : Option (UInt32 × Bfifo) :=
  if f.lock then none else some (f.inPos - f.outPos, f)

/-- A call on the fifo. -/
inductive BfifoOp where
  | push (buffer : CallerBuffer)
  | pull (len : UInt32)
  | peek (len : UInt32)
  | reset
  | count

/-- One call with what it returns or copies out, or `none` when it blocks forever on the mutex. -/
def bfifoStep (f : Bfifo) : BfifoOp → Option (QueueOut UInt8 × Bfifo)
  | .push buffer =>
    (bfifoPush f buffer.1 buffer.1.length.toUInt32).map fun r => (.accepted r.1.toNat, r.2)
  | .pull len => (bfifoPull f len).map fun r => (.items r.1, r.2)
  | .peek len => (bfifoPeek f len).map fun r => (.items r.1, r.2)
  | .reset => (bfifoReset f).map fun f' => (.done, f')
  | .count => (bfifoCount f).map fun r => (.accepted r.1.toNat, r.2)

/-- The smaller of two counters, as a number. -/
theorem fifoMin_toNat (x y : UInt32) : (fifoMin x y).toNat = min x.toNat y.toNat := by
  rw [fifoMin]
  split
  · next h => rw [UInt32.lt_iff_toNat_lt] at h; omega
  · next h => rw [UInt32.lt_iff_toNat_lt] at h; omega

/-- What a push stores is one two-segment ring write of the accepted bytes. -/
theorem bfifoPush_eq (f : Bfifo) (buffer : List UInt8) (len : UInt32) (hlock : f.lock = false)
    (hfull : f.size ≠ f.inPos - f.outPos) (hsize : f.buffer.length = f.size.toNat)
    (hpos : 0 < f.size.toNat)
    (hlen : len.toNat = buffer.length) :
    let taken := fifoMin len (f.size - f.inPos + f.outPos)
    bfifoPush f buffer len = some (taken,
      { f with
        inPos := f.inPos + taken
        buffer := ringWrite f.buffer (f.inPos.toNat % f.size.toNat) (buffer.take taken.toNat) }) := by
  intro taken
  have hmod : (f.inPos % f.size).toNat = f.inPos.toNat % f.size.toNat := UInt32.toNat_mod _ _
  have hlt : f.inPos.toNat % f.size.toNat < f.size.toNat := Nat.mod_lt _ hpos
  have hroom : (f.size - f.inPos % f.size).toNat = f.size.toNat - f.inPos.toNat % f.size.toNat := by
    rw [UInt32.toNat_sub_of_le _ _ (by rw [UInt32.le_iff_toNat_le, hmod]; omega), hmod]
  have htaken : taken.toNat ≤ buffer.length := by
    rw [← hlen, fifoMin_toNat]; exact Nat.min_le_left _ _
  have hl : (fifoMin taken (f.size - f.inPos % f.size)).toNat =
      min taken.toNat (f.size.toNat - f.inPos.toNat % f.size.toNat) := by rw [fifoMin_toNat, hroom]
  have hrest : (taken - fifoMin taken (f.size - f.inPos % f.size)).toNat =
      taken.toNat - min taken.toNat (f.size.toNat - f.inPos.toNat % f.size.toNat) := by
    rw [UInt32.toNat_sub_of_le _ _ (by rw [UInt32.le_iff_toNat_le, hl]; omega), hl]
  simp only [bfifoPush, hlock, Bool.false_eq_true, if_false, if_neg hfull]
  congr 3
  simp only [ringWrite, hsize, hmod]
  rw [show fifoMin len (f.size - f.inPos + f.outPos) = taken from rfl, hl, hrest, List.length_take,
    Nat.min_eq_left htaken, List.take_take, List.drop_take]
  congr 2
  rw [Nat.min_eq_left (Nat.min_le_left _ _)]

/-- What a pull or a peek copies out is one window of the ring. -/
theorem bfifoCopyOut_eq (f : Bfifo) (len : UInt32) (hsize : f.buffer.length = f.size.toNat)
    (hpos : 0 < f.size.toNat) (hlen : len.toNat ≤ f.size.toNat) :
    bfifoCopyOut f len = ringWindow f.buffer f.outPos.toNat len.toNat := by
  have hmod : (f.outPos % f.size).toNat = f.outPos.toNat % f.size.toNat := UInt32.toNat_mod _ _
  have hlt : f.outPos.toNat % f.size.toNat < f.size.toNat := Nat.mod_lt _ hpos
  have hroom : (f.size - f.outPos % f.size).toNat = f.size.toNat - f.outPos.toNat % f.size.toNat := by
    rw [UInt32.toNat_sub_of_le _ _ (by rw [UInt32.le_iff_toNat_le, hmod]; omega), hmod]
  have hl : (fifoMin len (f.size - f.outPos % f.size)).toNat =
      min len.toNat (f.size.toNat - f.outPos.toNat % f.size.toNat) := by rw [fifoMin_toNat, hroom]
  have hrest : (len - fifoMin len (f.size - f.outPos % f.size)).toNat =
      len.toNat - min len.toNat (f.size.toNat - f.outPos.toNat % f.size.toNat) := by
    rw [UInt32.toNat_sub_of_le _ _ (by rw [UInt32.le_iff_toNat_le, hl]; omega), hl]
  rw [← ringWindow_mod, hsize, ← ringWindow_segments _ _ _ (by omega) (by omega), hsize]
  simp only [bfifoCopyOut, hmod, hl, hrest]

end DasEdge.Sdccp
