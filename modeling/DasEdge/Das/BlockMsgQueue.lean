import DasEdge.Library.GuardedRun
import DasEdge.Library.RingQueue
import Mathlib.Data.Int.Notation
import Mathlib.Logic.Function.Basic
import Mathlib.Tactic.Ring

/-!
# The block message queue

The calls of `block_msg_queue.c` on one queue by any number of threads. Every call holds the mutex
from its start to its end, apart from the condition wait in `b_mq_recv`, which gives it back; so the
threads interleave in steps that go from taking the mutex to giving it back. A wait may return at
any time and with any result, which covers signals, timeouts and spurious wake-ups; the signals
themselves are left out.
-/

namespace DasEdge.Das

/-- `B_MQ_ERR_OK` -/
def bMqErrOk : ℤ := 0

/-- `B_MQ_ERR_OTHER` -/
def bMqErrOther : ℤ := 1

/-- `B_MQ_ERR_TIMEOUT` -/
def bMqErrTimeout : ℤ := 3

/-- `B_MQ_ERR_FULL` -/
def bMqErrFull : ℤ := 5

/-- `B_MQ_ERR_SIZE` -/
def bMqErrSize : ℤ := 6

/-- The arguments of a `b_mq_recv` that waits. -/
structure BMqWait where
  size : ℕ
  timeout : ℤ

/-- `struct block_msg_queue`, with the threads that wait on `c_empty`. -/
structure BlockMsgQueue (ι : Type*) where
  maxMsgs : ℕ
  msgSize : ℕ
  msgPool : List (List UInt8)
  head : ℕ
  tail : ℕ
  waiting : ι → Option BMqWait

variable {ι : Type*}

/-- `b_mq_create` with enough memory. -/
def bMqCreate (msgSize maxMsgs : ℕ) : Option (BlockMsgQueue ι) :=
  if 0 < maxMsgs then
    some ⟨maxMsgs + 1, msgSize, List.replicate (maxMsgs + 1) (List.replicate msgSize 0), 0, 0,
      fun _ => none⟩
  else none

/-- `b_mq_msgs` -/
def bMqMsgs (mq : BlockMsgQueue ι) : ℤ := ((mq.tail : ℤ) - mq.head + mq.maxMsgs) % mq.maxMsgs

/-- `b_mq_remain` -/
def bMqRemain (mq : BlockMsgQueue ι) : ℤ :=
  mq.maxMsgs - 1 - ((mq.tail : ℤ) - mq.head + mq.maxMsgs) % mq.maxMsgs

/-- What a step of a thread shows: a send or a receive that returns, with its result and its buffer, a
receive that goes into its wait, or a reset. -/
inductive BMqOut where
  | send (ret : ℤ) (buffer : List UInt8)
  | recv (ret : ℤ) (buffer : List UInt8)
  | waits
  | reset
  deriving DecidableEq

/-- A buffer in a slot of the pool, which was set to zeros before. -/
def bMqSlot (msgSize : ℕ) (buffer : List UInt8) : List UInt8 :=
  buffer ++ List.replicate (msgSize - buffer.length) 0

/-- `b_mq_send` of a whole buffer. -/
def bMqSend (mq : BlockMsgQueue ι) (buffer : List UInt8) : BMqOut × BlockMsgQueue ι :=
  if buffer.length ≤ mq.msgSize then
    if (mq.tail + 1) % mq.maxMsgs = mq.head then (.send bMqErrFull buffer, mq)
    else (.send bMqErrOk buffer, { mq with
      msgPool := mq.msgPool.set mq.tail (bMqSlot mq.msgSize buffer)
      tail := (mq.tail + 1) % mq.maxMsgs })
  else (.send bMqErrSize buffer, mq)

/-- The part of `b_mq_recv` that takes a message out. -/
def bMqTake (mq : BlockMsgQueue ι) (size : ℕ) : BMqOut × BlockMsgQueue ι :=
  (.recv bMqErrOk ((mq.msgPool.getD mq.head []).take size),
    { mq with head := (mq.head + 1) % mq.maxMsgs })

/-- `b_mq_recv` up to its return or its wait. -/
def bMqRecv [DecidableEq ι] (mq : BlockMsgQueue ι) (t : ι) (size : ℕ) (timeout : ℤ) :
    BMqOut × BlockMsgQueue ι :=
  if size ≤ mq.msgSize then
    if mq.head = mq.tail then
      if timeout = 0 then (.recv bMqErrTimeout [], mq)
      else (.waits, { mq with waiting := Function.update mq.waiting t (some ⟨size, timeout⟩) })
    else bMqTake mq size
  else (.recv bMqErrSize [], mq)

/-- `b_mq_recv` from the return `rc` of its wait on. -/
def bMqWake [DecidableEq ι] (mq : BlockMsgQueue ι) (t : ι) (wait : BMqWait) (rc : ℤ) :
    BMqOut × BlockMsgQueue ι :=
  let mq := { mq with waiting := Function.update mq.waiting t none }
  if rc = 0 then bMqTake mq wait.size
  else (.recv (if 0 < wait.timeout then bMqErrTimeout else bMqErrOther) [], mq)

/-- `b_mq_reset` -/
def bMqReset (mq : BlockMsgQueue ι) : BMqOut × BlockMsgQueue ι :=
  (.reset, { mq with head := 0, tail := 0 })

/-- The steps of the threads; `wake` is the return of a thread's wait. -/
inductive BMqAction (ι : Type*) where
  | send (buffer : List UInt8)
  | recv (t : ι) (size : ℕ) (timeout : ℤ)
  | wake (t : ι) (rc : ℤ)
  | reset

/-- A step of a thread, unless the thread is not there: one that waits does nothing else. -/
def bMqStep [DecidableEq ι] (mq : BlockMsgQueue ι) : BMqAction ι → Option (BMqOut × BlockMsgQueue ι)
  | .send buffer => some (bMqSend mq buffer)
  | .recv t size timeout =>
    match mq.waiting t with
    | none => some (bMqRecv mq t size timeout)
    | some _ => none
  | .wake t rc => (mq.waiting t).map fun wait => bMqWake mq t wait rc
  | .reset => some (bMqReset mq)

end DasEdge.Das

/-!
# Runs of the block message queue

The pool with its two positions represents a list of queued messages: each send that is accepted
appends one, each receive that finds one takes the first, and a reset drops them. The receive behind
a wait does not look whether there is a message; in a run in which every wait that returns without
error finds one, all receives return what was sent, in order.
-/

namespace DasEdge.Das

open DasEdge.Library

variable {ι : Type*}

/-- Every receive that succeeds returns a message that was accepted before it, which lies behind the
ones returned before; `next` is the number of the first message that may still be returned. -/
def Delivered (msgSize : ℕ) : (accepted : List (List UInt8)) → (next : ℕ) → List BMqOut → Prop
  | _, _, [] => True
  | accepted, next, .send ret buffer :: rest =>
    Delivered msgSize (if ret = bMqErrOk then accepted ++ [bMqSlot msgSize buffer]
      else accepted) next rest
  | accepted, next, .recv ret buffer :: rest =>
    if ret = bMqErrOk then
      ∃ j message, next ≤ j ∧ accepted[j]? = some message ∧ buffer = message.take buffer.length ∧
        Delivered msgSize accepted (j + 1) rest
    else Delivered msgSize accepted next rest
  | accepted, next, .waits :: rest => Delivered msgSize accepted next rest
  | accepted, next, .reset :: rest => Delivered msgSize accepted next rest

/-- The number of messages that were accepted since the last reset and not returned. -/
def queuedAfter : ℤ → List BMqOut → ℤ
  | queued, [] => queued
  | queued, .send ret _ :: rest => queuedAfter (if ret = bMqErrOk then queued + 1 else queued) rest
  | queued, .recv ret _ :: rest => queuedAfter (if ret = bMqErrOk then queued - 1 else queued) rest
  | queued, .waits :: rest => queuedAfter queued rest
  | _, .reset :: rest => queuedAfter 0 rest

/-- The pool holds these messages from `head` on. -/
structure Represents (mq : BlockMsgQueue ι) (queue : List (List UInt8)) : Prop where
  pool_length : mq.msgPool.length = mq.maxMsgs
  head_lt : mq.head < mq.maxMsgs
  tail_eq : mq.tail = (mq.head + queue.length) % mq.maxMsgs
  queue_lt : queue.length < mq.maxMsgs
  window : ringWindow mq.msgPool mq.head queue.length = queue

/-- A position less than two revolutions away. -/
theorem mod_of_lt_twice {x n : ℕ} (h : x < 2 * n) : x % n = if x < n then x else x - n := by
  split
  · next hlt => exact Nat.mod_eq_of_lt hlt
  · next hge => rw [Nat.mod_eq_sub_mod (by omega), Nat.mod_eq_of_lt (by omega)]

/-- The full test. -/
theorem Represents.full_iff {mq : BlockMsgQueue ι} {queue : List (List UInt8)}
    (h : Represents mq queue) :
    (mq.tail + 1) % mq.maxMsgs = mq.head ↔ queue.length + 1 = mq.maxMsgs := by
  have hhead := h.head_lt
  have hqueue := h.queue_lt
  rw [h.tail_eq, Nat.mod_add_mod, Nat.add_assoc, mod_of_lt_twice (by omega)]
  split
  · omega
  · omega

/-- The empty test. -/
theorem Represents.empty_iff {mq : BlockMsgQueue ι} {queue : List (List UInt8)}
    (h : Represents mq queue) :
    mq.head = mq.tail ↔ queue = [] := by
  have hhead := h.head_lt
  have hqueue := h.queue_lt
  rw [h.tail_eq, mod_of_lt_twice (by omega), ← List.length_eq_zero_iff]
  split
  · omega
  · omega

/-- `b_mq_msgs` counts the queued messages. -/
theorem Represents.msgs {mq : BlockMsgQueue ι} {queue : List (List UInt8)} (h : Represents mq queue) :
    bMqMsgs mq = queue.length := by
  have hhead := h.head_lt
  have hqueue := h.queue_lt
  have htail := h.tail_eq
  rw [mod_of_lt_twice (by omega)] at htail
  rw [bMqMsgs]
  split at htail
  · have hsum : (mq.tail : ℤ) - mq.head + mq.maxMsgs = queue.length + mq.maxMsgs * 1 := by omega
    rw [hsum, Int.add_mul_emod_self_left]
    exact Int.emod_eq_of_lt (by omega) (by omega)
  · have hsum : (mq.tail : ℤ) - mq.head + mq.maxMsgs = queue.length := by omega
    rw [hsum]
    exact Int.emod_eq_of_lt (by omega) (by omega)

/-- A new queue is empty. -/
theorem represents_bMqCreate {msgSize maxMsgs : ℕ} {mq : BlockMsgQueue ι}
    (h : bMqCreate msgSize maxMsgs = some mq) :
    Represents mq [] ∧ mq.msgSize = msgSize ∧ mq.maxMsgs = maxMsgs + 1 := by
  rw [bMqCreate] at h
  split at h
  · cases h
    refine ⟨⟨List.length_replicate, Nat.succ_pos _, ?_, Nat.succ_pos _, rfl⟩, rfl, rfl⟩
    exact (Nat.zero_mod _).symm
  · cases h

/-- Writing one cell is setting it. -/
theorem ringWrite_singleton (ring : List (List UInt8)) {start : ℕ} (hstart : start < ring.length)
    (cell : List UInt8) :
    ringWrite ring start [cell] = ring.set start cell := by
  have hone : min [cell].length (ring.length - start) = 1 := by
    rw [List.length_singleton]
    omega
  rw [ringWrite, hone, List.set_eq_take_append_cons_drop, if_pos hstart]
  simp [overwrite]

/-- An accepted message goes to the end. -/
theorem Represents.push {mq : BlockMsgQueue ι} {queue : List (List UInt8)} (h : Represents mq queue)
    (hfull : (mq.tail + 1) % mq.maxMsgs ≠ mq.head) (message : List UInt8) :
    Represents { mq with msgPool := mq.msgPool.set mq.tail message, tail := (mq.tail + 1) % mq.maxMsgs }
      (queue ++ [message]) := by
  have hroom : queue.length + 1 ≠ mq.maxMsgs := fun heq => hfull (h.full_iff.mpr heq)
  have hqueue := h.queue_lt
  have htail : mq.tail < mq.msgPool.length := by
    rw [h.tail_eq, h.pool_length]
    exact Nat.mod_lt _ (by omega)
  constructor
  · exact List.length_set.trans h.pool_length
  · exact h.head_lt
  · simp only [List.length_append, List.length_singleton]
    rw [h.tail_eq, Nat.mod_add_mod, Nat.add_assoc]
  · simp only [List.length_append, List.length_singleton]
    omega
  · have hwindow := ringWrite_window mq.msgPool mq.head queue.length [message]
      (by rw [h.pool_length, List.length_singleton]; omega)
    rw [h.pool_length, ← h.tail_eq, ringWrite_singleton _ htail, h.window] at hwindow
    rw [List.length_append]
    exact hwindow

/-- The message at `head` is the first one. -/
theorem Represents.pop {mq : BlockMsgQueue ι} {message : List UInt8} {queue : List (List UInt8)}
    (h : Represents mq (message :: queue)) :
    mq.msgPool.getD mq.head [] = message ∧
      Represents { mq with head := (mq.head + 1) % mq.maxMsgs } queue := by
  have hqueue := h.queue_lt
  have hhead := h.head_lt
  have hpool := h.pool_length
  rw [List.length_cons] at hqueue
  constructor
  · have hfirst := congrArg List.head? h.window
    rw [ringWindow, List.length_cons, List.head?_take, if_neg (by omega),
      List.head?_rotate (by omega)] at hfirst
    rw [List.getD_eq_getElem?_getD, hfirst]
    rfl
  · constructor
    · exact hpool
    · exact Nat.mod_lt _ (by omega)
    · simp only
      rw [h.tail_eq, Nat.mod_add_mod, List.length_cons]
      congr 1
      omega
    · exact Nat.lt_of_succ_lt hqueue
    · have hdrop := ringWindow_drop mq.msgPool mq.head (queue.length + 1) 1 (by omega) (by omega)
      have hwindow := h.window
      rw [List.length_cons] at hwindow
      rw [hwindow, ← ringWindow_mod, hpool] at hdrop
      exact hdrop.symm

/-- What a step that shows this does to the queued messages. -/
def QueueEffect (msgSize : ℕ) (queue queue' : List (List UInt8)) : BMqOut → Prop
  | .send ret buffer => queue' = if ret = bMqErrOk then queue ++ [bMqSlot msgSize buffer] else queue
  | .recv ret buffer =>
    if ret = bMqErrOk then ∃ message, queue = message :: queue' ∧ buffer = message.take buffer.length
    else queue' = queue
  | .waits => queue' = queue
  | .reset => queue' = []

/-- A wait that returns without error finds a message. -/
def WakeFinds (mq : BlockMsgQueue ι) : BMqAction ι → Prop
  | .wake _ rc => rc = 0 → mq.head ≠ mq.tail
  | _ => True

/-- Taking a message out of a queue that has one. -/
theorem bMqTake_effect {mq : BlockMsgQueue ι} {queue : List (List UInt8)} (h : Represents mq queue)
    (hfinds : mq.head ≠ mq.tail) (size : ℕ) :
    ∃ queue', Represents (bMqTake mq size).2 queue' ∧
      QueueEffect mq.msgSize queue queue' (bMqTake mq size).1 := by
  cases queue with
  | nil => exact absurd (h.empty_iff.mpr rfl) hfinds
  | cons message queue =>
    obtain ⟨hmessage, hrest⟩ := h.pop
    refine ⟨queue, hrest, ?_⟩
    change QueueEffect mq.msgSize _ queue (.recv bMqErrOk ((mq.msgPool.getD mq.head []).take size))
    rw [hmessage, QueueEffect, if_pos rfl]
    refine ⟨message, rfl, ?_⟩
    rw [List.length_take, List.take_eq_take_iff]
    omega

/-- Which threads wait does not matter for the messages. -/
theorem Represents.waiting {mq : BlockMsgQueue ι} {queue : List (List UInt8)} (h : Represents mq queue)
    (waiting : ι → Option BMqWait) : Represents { mq with waiting := waiting } queue :=
  ⟨h.pool_length, h.head_lt, h.tail_eq, h.queue_lt, h.window⟩

/-- A step whose wait finds a message has its effect on the queued messages. -/
theorem bMqStep_effect [DecidableEq ι] {mq mq' : BlockMsgQueue ι} {queue : List (List UInt8)}
    (h : Represents mq queue) {action : BMqAction ι} (hfinds : WakeFinds mq action) {out : BMqOut}
    (hstep : bMqStep mq action = some (out, mq')) :
    mq'.msgSize = mq.msgSize ∧ mq'.maxMsgs = mq.maxMsgs ∧
      ∃ queue', Represents mq' queue' ∧ QueueEffect mq.msgSize queue queue' out := by
  cases action with
  | send buffer =>
    simp only [bMqStep, Option.some.injEq, bMqSend] at hstep
    split at hstep
    · split at hstep
      · cases hstep
        exact ⟨rfl, rfl, queue, h, rfl⟩
      · next hfull =>
        cases hstep
        exact ⟨rfl, rfl, _, h.push hfull _, rfl⟩
    · cases hstep
      exact ⟨rfl, rfl, queue, h, rfl⟩
  | recv t size timeout =>
    simp only [bMqStep] at hstep
    split at hstep
    · simp only [Option.some.injEq, bMqRecv] at hstep
      split at hstep
      · split at hstep
        · split at hstep
          · cases hstep
            exact ⟨rfl, rfl, queue, h, rfl⟩
          · cases hstep
            exact ⟨rfl, rfl, queue, h.waiting _, rfl⟩
        · next hhead =>
          cases hstep
          exact ⟨rfl, rfl, bMqTake_effect h hhead size⟩
      · cases hstep
        exact ⟨rfl, rfl, queue, h, rfl⟩
    · cases hstep
  | wake t rc =>
    simp only [bMqStep, Option.map_eq_some_iff, bMqWake] at hstep
    obtain ⟨wait, -, hstep⟩ := hstep
    split at hstep
    · next hrc =>
      have htake :=
        bMqTake_effect (h.waiting (Function.update mq.waiting t none)) (hfinds hrc) wait.size
      rw [hstep] at htake
      cases hstep
      exact ⟨rfl, rfl, htake⟩
    · have herror : (if 0 < wait.timeout then bMqErrTimeout else bMqErrOther) ≠ bMqErrOk := by
        split
        · decide
        · decide
      cases hstep
      refine ⟨rfl, rfl, queue, h.waiting _, ?_⟩
      rw [QueueEffect, if_neg herror]
  | reset =>
    simp only [bMqStep, Option.some.injEq, bMqReset] at hstep
    cases hstep
    have hpos : 0 < mq.maxMsgs := Nat.lt_of_le_of_lt (Nat.zero_le _) h.head_lt
    exact ⟨rfl, rfl, [], ⟨h.pool_length, hpos, (Nat.zero_mod _).symm, hpos, rfl⟩, rfl⟩

/-- In a run in which every wait that returns without error finds a message, receives deliver what was
accepted, and the queue represents what is left. -/
theorem bMqRun_delivers [DecidableEq ι] {mq mq' : BlockMsgQueue ι} {queue before : List (List UInt8)}
    (h : Represents mq queue) {next : ℕ} (hnext : next ≤ before.length) {actions : List (BMqAction ι)}
    (hguard : GuardedRun bMqStep WakeFinds mq actions) {outs : List BMqOut}
    (hrun : runBlocking bMqStep mq actions = some (outs, mq')) :
    Delivered mq.msgSize (before ++ queue) next outs ∧ mq'.maxMsgs = mq.maxMsgs ∧
      ∃ queue', Represents mq' queue' ∧ queuedAfter queue.length outs = queue'.length := by
  induction actions generalizing mq queue before next outs with
  | nil =>
    cases hrun
    exact ⟨trivial, rfl, queue, h, rfl⟩
  | cons action actions ih =>
    obtain ⟨hfinds, hguard⟩ := hguard
    obtain ⟨out, mq₁, outs, hstep, htail, rfl⟩ := runBlocking_cons_some hrun
    rw [hstep] at hguard
    obtain ⟨hsize, hmax, queue₁, hrepresents, heffect⟩ := bMqStep_effect h hfinds hstep
    rw [← hmax, ← hsize]
    cases out with
    | send ret buffer =>
      rw [QueueEffect] at heffect
      rw [Delivered, queuedAfter]
      split at heffect
      · next hok =>
        subst heffect
        have hrest := ih hrepresents hnext hguard htail
        rw [if_pos hok, if_pos hok, List.append_assoc, hsize]
        rw [hsize, List.length_append, List.length_singleton] at hrest
        exact hrest
      · next hok =>
        subst heffect
        rw [if_neg hok, if_neg hok]
        exact ih hrepresents hnext hguard htail
    | recv ret buffer =>
      rw [QueueEffect] at heffect
      rw [Delivered, queuedAfter]
      split at heffect
      · next hok =>
        obtain ⟨message, rfl, hbuffer⟩ := heffect
        have happend : before ++ message :: queue₁ = before ++ [message] ++ queue₁ := by simp
        have hbehind : before.length + 1 ≤ (before ++ [message]).length := by simp
        obtain ⟨hdelivered, hmax, hqueue⟩ := ih hrepresents hbehind hguard htail
        rw [if_pos hok, if_pos hok, happend]
        refine ⟨⟨before.length, message, hnext, by simp, hbuffer, hdelivered⟩, hmax, ?_⟩
        rw [List.length_cons, Nat.cast_add_one, add_sub_cancel_right]
        exact hqueue
      · next hok =>
        subst heffect
        rw [if_neg hok, if_neg hok]
        exact ih hrepresents hnext hguard htail
    | waits =>
      obtain rfl : queue₁ = queue := heffect
      have hrest := ih hrepresents hnext hguard htail
      exact hrest
    | reset =>
      obtain rfl : queue₁ = [] := heffect
      have hbehind : next ≤ (before ++ queue).length := hnext.trans (by rw [List.length_append]; omega)
      have hrest := ih hrepresents hbehind hguard htail
      rw [List.append_nil] at hrest
      exact hrest

/-- In every run from a new queue in which every wait that returns without error finds a message, each
receive that succeeds returns a message that was accepted and lies behind those returned before, and
`b_mq_msgs` counts the messages in the queue, of which there are never more than its capacity. -/
theorem bMqRun_keeps [DecidableEq ι] {msgSize maxMsgs : ℕ} {mq mq' : BlockMsgQueue ι}
    (hcreate : bMqCreate msgSize maxMsgs = some mq) (actions : List (BMqAction ι))
    (hguard : GuardedRun bMqStep WakeFinds mq actions) {outs : List BMqOut}
    (hrun : runBlocking bMqStep mq actions = some (outs, mq')) :
    Delivered msgSize [] 0 outs ∧ bMqMsgs mq' = queuedAfter 0 outs ∧ 0 ≤ bMqMsgs mq' ∧
      bMqMsgs mq' ≤ maxMsgs ∧
      bMqMsgs mq' + bMqRemain mq' = maxMsgs := by
  obtain ⟨hempty, hsize, hmax⟩ := represents_bMqCreate hcreate
  obtain ⟨hdelivered, hmax', queue, hrepresents, hqueued⟩ :=
    bMqRun_delivers hempty (show 0 ≤ ([] : List (List UInt8)).length from le_rfl) hguard hrun
  have hlt := hrepresents.queue_lt
  have hmsgs := hrepresents.msgs
  have hremain : bMqRemain mq' = mq'.maxMsgs - 1 - bMqMsgs mq' := rfl
  rw [hsize] at hdelivered
  rw [hremain]
  refine ⟨hdelivered, hmsgs.trans hqueued.symm, ?_, ?_, ?_⟩
  · omega
  · omega
  · omega

/-- Two receivers that are woken one after the other, each behind a send. -/
theorem bMqRun_keeps_two :
    ∃ (mq mq' : BlockMsgQueue ℕ) (outs : List BMqOut), bMqCreate 2 1 = some mq ∧
      runBlocking bMqStep mq [.recv 0 1 (-1), .recv 1 1 (-1), .send [7], .wake 0 0, .send [8],
      .wake 1 0] =
        some (outs, mq') ∧
      Delivered 2 [] 0 outs ∧ bMqMsgs mq' = queuedAfter 0 outs ∧ 0 ≤ bMqMsgs mq' ∧
      bMqMsgs mq' ≤ (1 : ℕ) ∧
        bMqMsgs mq' + bMqRemain mq' = (1 : ℕ) := by
  refine ⟨_, _, _, rfl, rfl, bMqRun_keeps rfl
    [.recv 0 1 (-1), .recv 1 1 (-1), .send [7], .wake 0 0, .send [8], .wake 1 0] ?_ rfl⟩
  exact ⟨trivial, trivial, trivial, fun _ => by decide, trivial, fun _ => by decide, trivial⟩

/-- The second of two receivers is woken although the first has taken the only message. -/
theorem bMqRun_invents :
    ¬ ∀ (msgSize maxMsgs : ℕ) (mq mq' : BlockMsgQueue ℕ) (actions : List (BMqAction ℕ))
      (outs : List BMqOut),
      bMqCreate msgSize maxMsgs = some mq → runBlocking bMqStep mq actions = some (outs, mq') →
        Delivered msgSize [] 0 outs := by
  intro h
  obtain ⟨j, message, -, hj, -, k, message', hk, hk', -⟩ :=
    h 2 1 _ _ [.recv 0 1 (-1), .recv 1 1 (-1), .send [7], .wake 0 0, .wake 1 0] _ rfl rfl
  -- only one message was accepted
  have hlt : k < 1 := (List.getElem?_eq_some_iff.mp hk').1
  omega

end DasEdge.Das
