import DasEdge.Library.GuardedRun

/-!
# A bounded queue as a list

The abstract first-in first-out queue of a fixed capacity. A push takes as much of its data
as still fits, a pull removes a prefix, a peek reads one, a reset forgets everything. The
conservation theorem is the queue's purpose: since the last reset, what was pulled followed
by what is still queued is exactly what was accepted.
-/

namespace DasEdge.Library

variable {α : Type*}

/-- A request to the queue. -/
inductive QueueOp (α : Type*) where
  | push (data : List α)
  | pull (len : ℕ)
  | peek (len : ℕ)
  | reset
  | count

/-- The answer to a request. -/
inductive QueueOut (α : Type*) where
  | accepted (len : ℕ)
  | items (data : List α)
  | done
  deriving DecidableEq

/-- The part of the data that fits. -/
def queueAccepted (cap : ℕ) (queue data : List α) : List α := data.take (cap - queue.length)

/-- One request to a queue of capacity `cap`. -/
def queueStep (cap : ℕ) (queue : List α) : QueueOp α → QueueOut α × List α
  | .push data =>
    (.accepted (queueAccepted cap queue data).length, queue ++ queueAccepted cap queue data)
  | .pull len => (.items (queue.take len), queue.drop len)
  | .peek len => (.items (queue.take len), queue)
  | .reset => (.done, [])
  | .count => (.accepted queue.length, queue)

/-- The data accepted and the data pulled since the last reset, from requests and their answers. -/
def queueHistory : List α × List α → List (QueueOp α × QueueOut α) → List α × List α
  | history, [] => history
  | history, (.push data, .accepted len) :: rest =>
    queueHistory (history.1 ++ data.take len, history.2) rest
  | history, (.pull _, .items data) :: rest => queueHistory (history.1, history.2 ++ data) rest
  | _, (.reset, _) :: rest => queueHistory ([], []) rest
  | history, _ :: rest => queueHistory history rest

/-- Pulled data followed by queued data is the accepted data, after every run. -/
theorem queueHistory_conservation (cap : ℕ) (history : List α × List α) (queue : List α)
    (ops : List (QueueOp α)) (h : history.2 ++ queue = history.1) :
    (queueHistory history (ops.zip (runTotal (queueStep cap) queue ops).1)).2 ++
        (runTotal (queueStep cap) queue ops).2 =
      (queueHistory history (ops.zip (runTotal (queueStep cap) queue ops).1)).1 := by
  induction ops generalizing history queue with
  | nil => exact h
  | cons op rest ih =>
    cases op with
    | push data =>
      have hprefix : data.take (queueAccepted cap queue data).length =
          queueAccepted cap queue data := by
        rw [queueAccepted, List.length_take, List.take_eq_take_iff]
        omega
      exact ih _ _ (by simp only [queueStep, hprefix, ← h, List.append_assoc])
    | pull len => exact ih _ _ (by simp only [queueStep, List.append_assoc, List.take_append_drop, h])
    | peek len => exact ih _ _ h
    | reset => exact ih _ _ rfl
    | count => exact ih _ _ h

end DasEdge.Library
