import DasEdge.Library.GuardedRun
import DasEdge.Sdccp.Bfifo
import Mathlib.Data.Int.Notation
import Mathlib.Logic.Function.Basic

/-!
# The mutex of the byte fifo

All calls of `bfifo.c` on one fifo by any number of threads, with the places where they take the
mutex and give it back. A call holds the mutex from `__fifo_lock` to `__fifo_unlock`, apart from its
wait, which gives the mutex back until it ends; so threads interleave in steps from the one to the
other. A wait may end at any time and with any result, which covers signals, timeouts and spurious
wake-ups. A step does not return when the mutex is held for good, or when a position is taken modulo
a size of 0.
-/

namespace DasEdge.Sdccp

open DasEdge.Library

/-- What a call does when its wait ends. -/
inductive FifoWait where
  | pushWait
  | push (buffer : CallerBuffer)
  | pullWait
  | pull (len : UInt32)

/-- A fifo and the threads that wait at it. The mutex and the two conditions are there if there was
memory for them. -/
structure SharedFifo (ι : Type*) where
  fifo : Bfifo
  lock : Bool
  cNotEmpty : Bool
  cNotFull : Bool
  waiting : ι → Option FifoWait

/-- A call of a thread. -/
inductive FifoCall where
  | reset
  | pushWait (timeout : ℤ)
  | push (buffer : CallerBuffer) (timeout : ℤ)
  | pullWait (timeout : ℤ)
  | pull (len : UInt32) (timeout : ℤ)
  | peek (len : UInt32)
  | count

/-- What a step shows: a call that returns, with the bytes it copies out, one that goes into its
wait, or nothing. -/
inductive FifoOut where
  | returns (ret : ℤ) (buffer : List UInt8)
  | waits
  | nothing

/-- `__fifo_lock` -/
def fifoLock (f : Bfifo) : Option Bfifo := if f.lock then none else some { f with lock := true }

/-- `__fifo_unlock` -/
def fifoUnlock (f : Bfifo) : Bfifo := { f with lock := false }

/-- A length as it is returned. -/
def fifoRet (len : UInt32) : ℤ := len.toInt32.toInt

/-- The flag behind the test of a call that waits for room or for bytes, or `none` if it waits:
`hold` tells that there are none. -/
def fifoFlag (hold cond : Bool) (timeout : ℤ) : Option Bool :=
  if hold then if timeout = 0 then some false else if cond then none else some false else some true

/-- The part of `bfifo_push` that stores. -/
def bfifoStore (f : Bfifo) (buffer : List UInt8) (len : UInt32) : UInt32 × Bfifo :=
  let pos := f.inPos % f.size
  let len := fifoMin len (f.size - f.inPos + f.outPos)
  let l := fifoMin len (f.size - pos)
  let first := overwrite f.buffer pos.toNat (buffer.take l.toNat)
  let second := overwrite first 0 ((buffer.drop l.toNat).take (len - l).toNat)
  (len, { f with inPos := f.inPos + len, buffer := second })

/-- `bfifo_push` behind its wait. -/
def bfifoPushRest (f : Bfifo) (buffer : CallerBuffer) (pushFlag : Bool) : Option (FifoOut × Bfifo) :=
  if pushFlag then
    if f.size = 0 then none
    else
      let r := bfifoStore f buffer.1 buffer.1.length.toUInt32
      some (.returns (fifoRet r.1) [], fifoUnlock r.2)
  else some (.returns 0 [], fifoUnlock f)

/-- `bfifo_pull` behind its wait. -/
def bfifoPullRest (f : Bfifo) (len : UInt32) (pullFlag : Bool) : Option (FifoOut × Bfifo) :=
  if pullFlag then
    if f.size = 0 then none
    else
      let len := fifoMin len (f.inPos - f.outPos)
      some (.returns (fifoRet len) (bfifoCopyOut f len), fifoUnlock { f with outPos := f.outPos + len })
  else some (.returns 0 [], fifoUnlock f)

/-- `bfifo_push_wait` and `bfifo_pull_wait` behind their wait. -/
def bfifoWaitRest (f : Bfifo) (flag : Bool) : Option (FifoOut × Bfifo) :=
  some (.returns (if flag then 1 else 0) [], fifoUnlock f)

/-- What a call does with the flag, while it holds the mutex. -/
def FifoWait.rest (f : Bfifo) (flag : Bool) : FifoWait → Option (FifoOut × Bfifo)
  | .pushWait => bfifoWaitRest f flag
  | .push buffer => bfifoPushRest f buffer flag
  | .pullWait => bfifoWaitRest f flag
  | .pull len => bfifoPullRest f len flag

variable {ι : Type*} [DecidableEq ι]

/-- A call that may wait, up to its return or its wait. -/
def fifoWaitCall (s : SharedFifo ι) (t : ι) (hold cond : Bool) (timeout : ℤ) (wait : FifoWait)
    (f : Bfifo) :
    Option (FifoOut × SharedFifo ι) :=
  match fifoFlag hold cond timeout with
  | some flag => (wait.rest f flag).map fun r => (r.1, { s with fifo := r.2 })
  | none => some (.waits,
    { s with fifo := fifoUnlock f, waiting := Function.update s.waiting t (some wait) })

/-- What a call does with the mutex of a fifo that has one. `bfifo_peek` does not unlock in its
branch for an empty fifo. -/
def lockedRest (s : SharedFifo ι) (t : ι) (f : Bfifo) (call : FifoCall) :
    Option (FifoOut × SharedFifo ι) :=
  let full : Bool := f.size = f.inPos - f.outPos
  let empty : Bool := f.inPos = f.outPos
  match call with
  | .reset => some (.returns 0 [], { s with fifo := fifoUnlock { f with inPos := 0, outPos := 0 } })
  | .pushWait timeout => fifoWaitCall s t full s.cNotFull timeout .pushWait f
  | .push buffer timeout => fifoWaitCall s t full s.cNotFull timeout (.push buffer) f
  | .pullWait timeout => fifoWaitCall s t empty s.cNotEmpty timeout .pullWait f
  | .pull len timeout => fifoWaitCall s t empty s.cNotEmpty timeout (.pull len) f
  | .peek len =>
    if empty then some (.returns 0 [], { s with fifo := f })
    else if f.size = 0 then none
    else
      let len := fifoMin len (f.inPos - f.outPos)
      some (.returns (fifoRet len) (bfifoCopyOut f len), { s with fifo := fifoUnlock f })
  | .count => some (.returns (fifoRet (f.inPos - f.outPos)) [], { s with fifo := fifoUnlock f })

/-- A call on a fifo that has a mutex. -/
def lockedCall (s : SharedFifo ι) (t : ι) (call : FifoCall) : Option (FifoOut × SharedFifo ι) :=
  (fifoLock s.fifo).bind fun f => lockedRest s t f call

/-- What a call returns on a null pointer, or when there is no mutex. -/
def FifoCall.refused : FifoCall → FifoOut
  | .peek _ => .returns 0 []
  | _ => .returns (-1) []

/-- A step: a thread that does not wait calls, or the wait of a thread ends. -/
inductive FifoStep (ι : Type*) where
  | call (t : ι) (call : FifoCall)
  | wake (t : ι) (signalled : Bool)

/-- One step on a fifo, which may be a null pointer. A thread that is not there does nothing. -/
def sharedStep : Option (SharedFifo ι) → FifoStep ι → Option (FifoOut × Option (SharedFifo ι))
  | none, .call _ call => some (call.refused, none)
  | none, .wake _ _ => some (.nothing, none)
  | some s, .call t call =>
    if (s.waiting t).isSome then some (.nothing, some s)
    else if s.lock then (lockedCall s t call).map fun r => (r.1, some r.2)
    else some (call.refused, some s)
  | some s, .wake t signalled =>
    match s.waiting t with
    | none => some (.nothing, some s)
    | some wait => (fifoLock s.fifo).bind fun f => (wait.rest f signalled).map fun r =>
      (r.1, some { s with fifo := r.2, waiting := Function.update s.waiting t none })

/-! ## The mutex -/

/-- The mutex of the fifo, if there is a fifo, is free. -/
def MutexFree (s : Option (SharedFifo ι)) : Prop := ∀ x ∈ s, x.fifo.lock = false

/-- A call without its wait takes a position in the ring. -/
def FifoCall.TakesPosition (f : Bfifo) : FifoCall → Prop
  | .push _ _ => f.size ≠ f.inPos - f.outPos
  | .pull _ _ => f.inPos ≠ f.outPos
  | .peek _ => f.inPos ≠ f.outPos
  | _ => False

/-- A call takes a position in the ring when its wait ends. -/
def FifoWait.TakesPosition (signalled : Bool) : FifoWait → Prop
  | .push _ => signalled
  | .pull _ => signalled
  | _ => False

/-- A step takes a position modulo a size of 0. -/
def DividesByZero (s : Option (SharedFifo ι)) (step : FifoStep ι) : Prop :=
  ∃ x ∈ s, x.fifo.size = 0 ∧
    match step with
    | .call t call => x.waiting t = none ∧ x.lock ∧ call.TakesPosition x.fifo
    | .wake t signalled => ∃ wait ∈ x.waiting t, wait.TakesPosition signalled

/-- A step peeks into an empty fifo that has a mutex. -/
def PeeksEmpty (s : Option (SharedFifo ι)) (step : FifoStep ι) : Prop :=
  ∃ x ∈ s, x.lock ∧ x.fifo.inPos = x.fifo.outPos ∧ ∃ t len, step = .call t (.peek len) ∧
    x.waiting t = none

/-- No call that has returned keeps the mutex, and every next step of any thread can go on. -/
def LockBalanced (s : Option (SharedFifo ι)) : Prop :=
  MutexFree s ∧ ∀ step, ¬ DividesByZero s step → (sharedStep s step).isSome

/-- A step does its share of balancing the mutex: it does not peek into an empty fifo, and does not
divide by zero. -/
def StepBalances (s : Option (SharedFifo ι)) (step : FifoStep ι) : Prop :=
  ¬ PeeksEmpty s step ∧ ¬ DividesByZero s step

/-! ## Each call gives the mutex back -/

@[simp]
theorem fifoUnlock_lock (f : Bfifo) : (fifoUnlock f).lock = false := rfl

/-- A call that returns behind its wait has released the mutex. -/
theorem FifoWait.rest_lock {f : Bfifo} {flag : Bool} {wait : FifoWait} {r : FifoOut × Bfifo}
    (h : wait.rest f flag = some r) : r.2.lock = false := by
  cases wait with
  | pushWait | pullWait =>
    cases h
    rfl
  | push buffer =>
    rw [FifoWait.rest, bfifoPushRest] at h
    split at h
    · split at h
      · cases h
      · cases h
        rfl
    · cases h
      rfl
  | pull len =>
    rw [FifoWait.rest, bfifoPullRest] at h
    split at h
    · split at h
      · cases h
      · cases h
        rfl
    · cases h
      rfl

/-- A call returns behind its wait unless it divides by zero. -/
theorem FifoWait.rest_isSome {f : Bfifo} {flag : Bool} {wait : FifoWait}
    (h : f.size = 0 → ¬ wait.TakesPosition flag) :
    (wait.rest f flag).isSome := by
  cases wait with
  | pushWait | pullWait => rfl
  | push buffer =>
    rw [FifoWait.rest, bfifoPushRest]
    split
    · next hflag =>
      rw [if_neg fun hzero => h hzero hflag]
      rfl
    · rfl
  | pull len =>
    rw [FifoWait.rest, bfifoPullRest]
    split
    · next hflag =>
      rw [if_neg fun hzero => h hzero hflag]
      rfl
    · rfl

/-- A call that goes on at once does so because there is room, or are bytes. -/
theorem fifoFlag_eq_true {hold cond : Bool} {timeout : ℤ} : fifoFlag hold cond timeout = some true ↔
    hold = false := by
  cases hold with
  | false => simp [fifoFlag]
  | true =>
    simp only [fifoFlag, if_true, Bool.true_eq_false, iff_false]
    split <;> simp

/-- A call that may wait leaves the mutex free when it returns and while it waits. -/
theorem fifoWaitCall_lock {s : SharedFifo ι} {t : ι} {hold cond : Bool} {timeout : ℤ}
    {wait : FifoWait} {f : Bfifo}
    {r : FifoOut × SharedFifo ι} (h : fifoWaitCall s t hold cond timeout wait f = some r) :
    r.2.fifo.lock = false := by
  rw [fifoWaitCall] at h
  split at h
  · obtain ⟨r', hrest, rfl⟩ := Option.map_eq_some_iff.mp h
    exact FifoWait.rest_lock hrest
  · cases h
    rfl

/-- A call that may wait returns or waits, unless it divides by zero. -/
theorem fifoWaitCall_isSome {s : SharedFifo ι} {t : ι} {hold cond : Bool} {timeout : ℤ}
    {wait : FifoWait} {f : Bfifo}
    (h : f.size = 0 → hold = false → ¬ wait.TakesPosition true) :
    (fifoWaitCall s t hold cond timeout wait f).isSome := by
  rw [fifoWaitCall]
  split
  · next flag hflag =>
    rw [Option.isSome_map]
    refine FifoWait.rest_isSome fun hzero htakes => ?_
    cases flag with
    | false => cases wait <;> simp [FifoWait.TakesPosition] at htakes
    | true => exact h hzero (fifoFlag_eq_true.mp hflag) htakes
  · rfl

/-- A call that has returned, or waits, keeps the mutex exactly when it was a peek into an empty
fifo. -/
theorem lockedRest_lock {s : SharedFifo ι} {t : ι} {f : Bfifo} {call : FifoCall}
    {r : FifoOut × SharedFifo ι}
    (hheld : f.lock = true) (h : lockedRest s t f call = some r) :
    r.2.fifo.lock = true ↔ f.inPos = f.outPos ∧ ∃ len, call = .peek len := by
  cases call with
  | reset | count =>
    cases h
    simp
  | pushWait timeout | push buffer timeout | pullWait timeout | pull len timeout =>
    rw [lockedRest] at h
    simp [fifoWaitCall_lock h]
  | peek len =>
    simp only [lockedRest, decide_eq_true_eq] at h
    split at h
    · next hempty =>
      cases h
      simp [hheld, hempty]
    · next hbytes =>
      split at h
      · cases h
      · cases h
        simp [hbytes]

/-- A call on a fifo whose mutex was free returns or waits, unless it divides by zero. -/
theorem lockedRest_isSome {s : SharedFifo ι} {t : ι} {f : Bfifo} {call : FifoCall}
    (h : f.size = 0 → ¬ call.TakesPosition f) : (lockedRest s t f call).isSome := by
  cases call with
  | reset | count => rfl
  | pushWait timeout | pullWait timeout => exact fifoWaitCall_isSome fun _ _ htakes => htakes
  | push buffer timeout => exact fifoWaitCall_isSome fun hzero hroom _ => h hzero (of_decide_eq_false hroom)
  | pull len timeout => exact fifoWaitCall_isSome fun hzero hbytes _ => h hzero (of_decide_eq_false hbytes)
  | peek len =>
    simp only [lockedRest, decide_eq_true_eq]
    split
    · rfl
    · next hbytes =>
      rw [if_neg fun hzero => h hzero hbytes]
      rfl

/-- Taking a free mutex. -/
theorem fifoLock_free {f : Bfifo} (h : f.lock = false) : fifoLock f = some { f with lock := true } := by
  simp [fifoLock, h]

/-- Every step on a fifo whose mutex is free can go on, unless it divides by zero. -/
theorem sharedStep_isSome {s : Option (SharedFifo ι)} {step : FifoStep ι} (hfree : MutexFree s)
    (h : ¬ DividesByZero s step) : (sharedStep s step).isSome := by
  cases s with
  | none => cases step <;> rfl
  | some s =>
    have hlock := fifoLock_free (hfree s rfl)
    cases step with
    | call t call =>
      rw [sharedStep]
      split
      · rfl
      · next hthere =>
        split
        · next hmutex =>
          rw [lockedCall, hlock, Option.bind_some, Option.isSome_map]
          refine lockedRest_isSome fun hzero htakes => h ⟨s, rfl, hzero, ?_, hmutex, ?_⟩
          · simpa using hthere
          · cases call <;> exact htakes
        · rfl
    | wake t signalled =>
      rw [sharedStep]
      split
      · rfl
      · next wait hwait =>
        rw [hlock, Option.bind_some, Option.isSome_map]
        exact FifoWait.rest_isSome fun hzero htakes => h ⟨s, rfl, hzero, wait, hwait, htakes⟩

/-- A step on a fifo whose mutex is free leaves it free exactly when it does not peek into an empty
fifo. -/
theorem sharedStep_free {s : Option (SharedFifo ι)} {step : FifoStep ι}
    {r : FifoOut × Option (SharedFifo ι)}
    (hfree : MutexFree s) (h : sharedStep s step = some r) : MutexFree r.2 ↔ ¬ PeeksEmpty s step := by
  cases s with
  | none => cases step <;> cases h <;> simp [MutexFree, PeeksEmpty]
  | some s =>
    have hlock := fifoLock_free (hfree s rfl)
    cases step with
    | call t call =>
      rw [sharedStep] at h
      split at h
      · next hwaits =>
        cases h
        refine iff_of_true hfree ?_
        rintro ⟨x, ⟨⟩, -, -, t', len, ⟨⟩, hthere⟩
        simp [hthere] at hwaits
      · next hthere =>
        split at h
        · next hmutex =>
          obtain ⟨r', hcall, rfl⟩ := Option.map_eq_some_iff.mp h
          rw [lockedCall, hlock, Option.bind_some] at hcall
          have hheld := lockedRest_lock rfl hcall
          have hfree' : MutexFree (some r'.2) ↔ ¬ r'.2.fifo.lock = true := by simp [MutexFree]
          rw [hfree', hheld, not_iff_not]
          constructor
          · rintro ⟨hempty, len, rfl⟩
            exact ⟨s, rfl, hmutex, hempty, t, len, rfl, by simpa using hthere⟩
          · rintro ⟨x, ⟨⟩, -, hempty, t', len, ⟨⟩, -⟩
            exact ⟨hempty, len, rfl⟩
        · next hmutex =>
          cases h
          refine iff_of_true hfree ?_
          rintro ⟨x, ⟨⟩, hmutex', -⟩
          exact hmutex hmutex'
    | wake t signalled =>
      refine iff_of_true ?_ ?_
      · rw [sharedStep] at h
        split at h
        · cases h
          exact hfree
        · next wait hwait =>
          rw [hlock, Option.bind_some] at h
          obtain ⟨r', hrest, rfl⟩ := Option.map_eq_some_iff.mp h
          rintro x ⟨⟩
          exact FifoWait.rest_lock hrest
      · rintro ⟨x, ⟨⟩, -, -, t', len, ⟨⟩, -⟩

/-- A call that divides by zero does not return. -/
theorem lockedRest_none {s : SharedFifo ι} {t : ι} {f : Bfifo} {call : FifoCall} (hzero : f.size = 0)
    (htakes : call.TakesPosition f) : lockedRest s t f call = none := by
  cases call with
  | reset | count | pushWait | pullWait => cases htakes
  | push buffer timeout =>
    have hgoes : fifoFlag (decide (f.size = f.inPos - f.outPos)) s.cNotFull timeout = some true :=
      fifoFlag_eq_true.mpr (decide_eq_false htakes)
    simp only [lockedRest, fifoWaitCall, hgoes, FifoWait.rest, bfifoPushRest, if_true, if_pos hzero,
      Option.map_none]
  | pull len timeout =>
    have hgoes : fifoFlag (decide (f.inPos = f.outPos)) s.cNotEmpty timeout = some true :=
      fifoFlag_eq_true.mpr (decide_eq_false htakes)
    simp only [lockedRest, fifoWaitCall, hgoes, FifoWait.rest, bfifoPullRest, if_true, if_pos hzero,
      Option.map_none]
  | peek len =>
    have hbytes : f.inPos ≠ f.outPos := htakes
    simp only [lockedRest, decide_eq_true_eq, if_neg hbytes, if_pos hzero]

/-- A step that divides by zero does not return. -/
theorem sharedStep_none {s : Option (SharedFifo ι)} {step : FifoStep ι} (hfree : MutexFree s)
    (h : DividesByZero s step) :
    sharedStep s step = none := by
  obtain ⟨x, rfl, hzero, htakes⟩ := h
  have hlock := fifoLock_free (hfree x rfl)
  cases step with
  | call t call =>
    obtain ⟨hthere, hmutex, htakes⟩ := htakes
    have hrest : lockedRest x t { x.fifo with lock := true } call = none :=
      lockedRest_none hzero (by cases call <;> exact htakes)
    simp only [sharedStep, hthere, Option.isSome_none, Bool.false_eq_true, if_false, hmutex,
      if_true, lockedCall, hlock,
      Option.bind_some, hrest, Option.map_none]
  | wake t signalled =>
    obtain ⟨wait, hwait, htakes⟩ := htakes
    have hwait : x.waiting t = some wait := hwait
    have hrest : wait.rest { x.fifo with lock := true } signalled = none := by
      cases wait with
      | pushWait | pullWait => cases htakes
      | push buffer =>
        simp only [FifoWait.rest, bfifoPushRest, show signalled = true from htakes, if_true,
          if_pos hzero]
      | pull len =>
        simp only [FifoWait.rest, bfifoPullRest, show signalled = true from htakes, if_true,
          if_pos hzero]
    simp only [sharedStep, hwait, hlock, Option.bind_some, hrest, Option.map_none]

/-- A call of the fifo in non-blocking use. -/
def BfifoOp.toCall : BfifoOp → FifoCall
  | .push buffer => .push buffer 0
  | .pull len => .pull len 0
  | .peek len => .peek len
  | .reset => .reset
  | .count => .count

/-- A call with no timeout leaves the fifo that the model of the non-blocking use leaves. -/
theorem lockedCall_toCall (s : SharedFifo ι) (t : ι) (op : BfifoOp) (hfree : s.fifo.lock = false)
    (hsize : s.fifo.size ≠ 0) :
    (lockedCall s t op.toCall).map (fun r => r.2.fifo) = (bfifoStep s.fifo op).map (fun r => r.2) := by
  obtain ⟨⟨inPos, outPos, size, lock, buffer⟩, mutex, cNotEmpty, cNotFull, waiting⟩ := s
  cases hfree
  rw [lockedCall, fifoLock_free rfl, Option.bind_some]
  cases op with
  | reset | count => rfl
  | push bytes =>
    simp only [BfifoOp.toCall, lockedRest, fifoWaitCall, fifoFlag, bfifoStep, bfifoPush]
    by_cases hfull : size = inPos - outPos
    · simp [hfull, FifoWait.rest, bfifoPushRest, fifoUnlock]
    · simp [hfull, hsize, FifoWait.rest, bfifoPushRest, bfifoStore, fifoUnlock]
  | pull len =>
    simp only [BfifoOp.toCall, lockedRest, fifoWaitCall, fifoFlag, bfifoStep, bfifoPull]
    by_cases hempty : inPos = outPos
    · simp [hempty, FifoWait.rest, bfifoPullRest, fifoUnlock]
    · simp [hempty, hsize, FifoWait.rest, bfifoPullRest, fifoUnlock]
  | peek len =>
    simp only [BfifoOp.toCall, lockedRest, bfifoStep, bfifoPeek]
    by_cases hempty : inPos = outPos
    · simp [hempty]
    · simp [hempty, hsize, fifoUnlock]

/-- A free mutex is all that the balance needs. -/
theorem lockBalanced_iff (s : Option (SharedFifo ι)) : LockBalanced s ↔ MutexFree s :=
  ⟨fun h => h.1, fun h => ⟨h, fun _ => sharedStep_isSome h⟩⟩

/-- Every call of a run returns, no call keeps the mutex, and the next step of any thread can go on
after each of them, exactly when no call peeks into an empty fifo and none divides by zero. -/
theorem lockBalanced_run (s : Option (SharedFifo ι)) (hfree : MutexFree s) (steps : List (FifoStep ι)) :
    (∀ k, ∃ outs s', runBlocking sharedStep s (steps.take k) = some (outs, s') ∧ LockBalanced s') ↔
      GuardedRun sharedStep StepBalances s steps := by
  refine runBlocking_always_iff _ _ _ ?_ ?_ ((lockBalanced_iff s).mpr hfree) steps
  · rintro s step ⟨hfree, hsome⟩ ⟨hpeek, hdivides⟩
    obtain ⟨r, hr⟩ := Option.isSome_iff_exists.mp (hsome step hdivides)
    exact ⟨r.1, r.2, hr, (lockBalanced_iff r.2).mpr ((sharedStep_free hfree hr).mpr hpeek)⟩
  · rintro s step o s' ⟨hfree, -⟩ hmisses hstep hbalanced
    refine hmisses ⟨(sharedStep_free hfree hstep).mp ((lockBalanced_iff s').mp hbalanced),
      fun hdivides => ?_⟩
    cases hstep.symm.trans (sharedStep_none hfree hdivides)

/-- A fifo of four bytes with no memory touched yet and no thread at it. -/
def sharedFresh : SharedFifo ℕ where
  fifo := bfifoCreate 4 [0, 0, 0, 0]
  lock := true
  cNotEmpty := true
  cNotFull := true
  waiting := fun _ => none

/-- A peek into a new fifo keeps the mutex. -/
theorem not_lockBalanced_peek : ¬ ∀ k, ∃ outs s',
    runBlocking sharedStep (some sharedFresh) ([.call 0 (.peek 1)].take k) = some (outs, s') ∧
    LockBalanced s' := by
  intro h
  obtain ⟨outs, s', hrun, hfree, -⟩ := h 1
  cases hrun
  cases hfree _ rfl

/-- One thread waits for a byte, another one pushes it, and the first one takes it. -/
theorem lockBalanced_run_pull : ∃ outs s', runBlocking sharedStep (some sharedFresh)
    [.call 0 (.pull 1 (-1)), .call 1 (.push ⟨[7], by decide⟩ 0), .wake 0 true] = some (outs, s') ∧
      LockBalanced s' := by
  have hguarded : GuardedRun sharedStep StepBalances (some sharedFresh)
      [.call 0 (.pull 1 (-1)), .call 1 (.push ⟨[7], by decide⟩ 0), .wake 0 true] := by
    refine ⟨?_, ?_, ?_, trivial⟩
    · exact ⟨by rintro ⟨x, -, -, -, t, len, ⟨⟩, -⟩, by rintro ⟨x, ⟨⟩, hzero, -⟩; cases hzero⟩
    · exact ⟨by rintro ⟨x, -, -, -, t, len, ⟨⟩, -⟩, by rintro ⟨x, ⟨⟩, hzero, -⟩; cases hzero⟩
    · exact ⟨by rintro ⟨x, -, -, -, t, len, ⟨⟩, -⟩, by rintro ⟨x, ⟨⟩, hzero, -⟩; cases hzero⟩
  exact (lockBalanced_run (some sharedFresh) (by rintro x ⟨⟩; rfl) _).mpr hguarded 3

end DasEdge.Sdccp
