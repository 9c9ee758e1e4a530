import DasEdge.Library.GuardedRun
import Mathlib.Data.Int.Notation

/-!
# Timers

A timer of `das_os.c` and its worker thread. `rt_timer_start`, `rt_timer_stop` and
`rt_timer_control` hold the mutex from start to end, and the worker gives it back only in its timed
wait and between its rounds; so the threads interleave in steps under the mutex, and the taking of
the semaphore. A timed wait may end at any time, with or without timeout, and has the mutex again
when it does; time itself is left out.

A timeout that finds the timer stopped still calls the function: the worker looks at `ACTIVATED`
only after a wait that was signalled. In a run in which every timeout finds the flag set, and in no
other, the function is called only between a start and the next stop, and once at most by a one-shot
timer.
-/

namespace DasEdge.Das

open DasEdge.Library

/-- Where the worker is: before `sem_wait`, at the start of a round, or in the timed wait. -/
inductive RtTimerWorker where
  | outer | round | waiting
  deriving DecidableEq

/-- `struct rt_timer`: the two bits of `flag`, the count of `run_sem`, whether there is a
`timeout_func`, and the time. -/
structure RtTimer where
  activated : Bool
  periodic : Bool
  runSem : ℕ
  timeoutFunc : Bool
  timeout : ℤ
  worker : RtTimerWorker
  deriving DecidableEq

/-- `rt_timer_init` -/
def rtTimerInit (timeoutFunc : Bool) (time : ℤ) (periodic : Bool) : RtTimer where
  activated := false
  periodic := periodic
  runSem := 0
  timeoutFunc := timeoutFunc
  timeout := time
  worker := .outer

/-- The commands of `rt_timer_control`; any other does nothing. -/
inductive RtTimerCmd where
  | setTime (time : ℤ) | setOneshot | setPeriodic | other

/-- The steps: the calls of other threads; the worker takes the semaphore, goes into its wait, and
comes back from it with the result `rc`. -/
inductive RtTimerAction where
  | start
  | stop
  | control (cmd : RtTimerCmd)
  | take
  | enter
  | wake (rc : ℤ)

/-- What a step shows: a start or stop that returns, a call of `timeout_func` by a timer that is
periodic or not, or nothing. -/
inductive RtTimerOut where
  | started
  | stopped
  | fires (periodic : Bool)
  | silent
  deriving DecidableEq

/-- `rt_timer_start`: the semaphore counts one afterwards, or more if it did before. -/
def rtTimerStart (timer : RtTimer) : RtTimer :=
  { timer with activated := true, runSem := timer.runSem - 1 + 1 }

/-- `rt_timer_stop` -/
def rtTimerStop (timer : RtTimer) : RtTimer :=
  { timer with activated := false, runSem := timer.runSem - 1 }

/-- `rt_timer_control` -/
def rtTimerControl (timer : RtTimer) : RtTimerCmd → RtTimer
  | .setTime time => { timer with timeout := time }
  | .setOneshot => { timer with periodic := false }
  | .setPeriodic => { timer with periodic := true }
  | .other => timer

/-- The round of `__rt_timer_worker` from the return `rc` of its wait on. -/
def rtTimerWake (timer : RtTimer) (rc : ℤ) : RtTimerOut × RtTimer :=
  if rc = 0 then
    (.silent, { timer with worker := if timer.activated then .round else .outer })
  else
    (if timer.timeoutFunc then .fires timer.periodic else .silent,
      if timer.periodic then { timer with worker := .round }
      else { timer with activated := false, worker := .outer })

/-- A step, unless the worker is elsewhere or the semaphore is not free. -/
def rtTimerStep (timer : RtTimer) : RtTimerAction → Option (RtTimerOut × RtTimer)
  | .start => some (.started, rtTimerStart timer)
  | .stop => some (.stopped, rtTimerStop timer)
  | .control cmd => some (.silent, rtTimerControl timer cmd)
  | .take =>
    if timer.worker = .outer ∧ 0 < timer.runSem then
      some (.silent, { timer with runSem := timer.runSem - 1, worker := .round })
    else none
  | .enter => if timer.worker = .round then some (.silent, { timer with worker := .waiting }) else none
  | .wake rc => if timer.worker = .waiting then some (rtTimerWake timer rc) else none

/-- The function is called only behind a start, with no stop in between, and by a one-shot timer
only once; `mayFire` tells whether it may be called next. -/
def TimerOk : (mayFire : Bool) → List RtTimerOut → Prop
  | _, [] => True
  | _, .started :: rest => TimerOk true rest
  | _, .stopped :: rest => TimerOk false rest
  | mayFire, .fires periodic :: rest => mayFire = true ∧ TimerOk periodic rest
  | mayFire, .silent :: rest => TimerOk mayFire rest

/-- A timeout with a function to call finds the timer activated. -/
def TimeoutActivated (timer : RtTimer) : RtTimerAction → Prop
  | .wake rc => rc ≠ 0 → timer.timeoutFunc = true → timer.activated = true
  | _ => True

/-- Whether the function may be called after a step. -/
def mayFireAfter (mayFire : Bool) : RtTimerOut → Bool
  | .started => true
  | .stopped => false
  | .fires periodic => periodic
  | .silent => mayFire

/-- One step more in front. -/
theorem timerOk_cons (mayFire : Bool) (out : RtTimerOut) (outs : List RtTimerOut) :
    TimerOk mayFire (out :: outs) ↔
      ((∃ periodic, out = .fires periodic) → mayFire = true) ∧
        TimerOk (mayFireAfter mayFire out) outs := by
  cases out with
  | started => simp [TimerOk, mayFireAfter]
  | stopped => simp [TimerOk, mayFireAfter]
  | fires periodic => simp [TimerOk, mayFireAfter]
  | silent => simp [TimerOk, mayFireAfter]

/-- A step calls the function where it may be called exactly when a timeout finds the timer
activated, and then the flag says again where it may be called. -/
theorem rtTimerStep_fires {timer timer' : RtTimer} {action : RtTimerAction} {out : RtTimerOut}
    {mayFire : Bool}
    (hmay : timer.timeoutFunc = true → mayFire = timer.activated)
    (hstep : rtTimerStep timer action = some (out, timer')) :
    (((∃ periodic, out = .fires periodic) → mayFire = true) ↔ TimeoutActivated timer action) ∧
      timer'.timeoutFunc = timer.timeoutFunc ∧
      (TimeoutActivated timer action → timer.timeoutFunc = true →
      mayFireAfter mayFire out = timer'.activated) := by
  cases action with
  | start =>
    cases hstep
    exact ⟨by simp [TimeoutActivated], rfl, fun _ _ => rfl⟩
  | stop =>
    cases hstep
    exact ⟨by simp [TimeoutActivated], rfl, fun _ _ => rfl⟩
  | control cmd =>
    cases hstep
    cases cmd with
    | setTime time => exact ⟨by simp [TimeoutActivated], rfl, fun _ h => hmay h⟩
    | setOneshot => exact ⟨by simp [TimeoutActivated], rfl, fun _ h => hmay h⟩
    | setPeriodic => exact ⟨by simp [TimeoutActivated], rfl, fun _ h => hmay h⟩
    | other => exact ⟨by simp [TimeoutActivated], rfl, fun _ h => hmay h⟩
  | take =>
    simp only [rtTimerStep] at hstep
    split at hstep
    · cases hstep
      exact ⟨by simp [TimeoutActivated], rfl, fun _ h => hmay h⟩
    · cases hstep
  | enter =>
    simp only [rtTimerStep] at hstep
    split at hstep
    · cases hstep
      exact ⟨by simp [TimeoutActivated], rfl, fun _ h => hmay h⟩
    · cases hstep
  | wake rc =>
    simp only [rtTimerStep] at hstep
    split at hstep
    · simp only [Option.some.injEq, rtTimerWake] at hstep
      by_cases hrc : rc = 0
      · rw [if_pos hrc] at hstep
        cases hstep
        exact ⟨by simp [TimeoutActivated, hrc], rfl, fun _ h => hmay h⟩
      · rw [if_neg hrc] at hstep
        cases hstep
        cases hfunc : timer.timeoutFunc with
        | false =>
          refine ⟨by simp [TimeoutActivated, hfunc], ?_, fun _ h => nomatch h⟩
          split
          · rfl
          · rfl
        | true =>
          have hsame := hmay hfunc
          cases hperiodic : timer.periodic with
          | false => exact ⟨by simp [TimeoutActivated, hfunc, hrc, hsame], rfl, fun _ _ => rfl⟩
          | true =>
            refine ⟨by simp [TimeoutActivated, hfunc, hrc, hsame], rfl, fun hactivated _ => ?_⟩
            exact (hactivated hrc hfunc).symm
    · cases hstep

/-- In a run from any state in which the flag says where the function may be called, it is called
only there exactly when every timeout finds the timer activated. -/
theorem rtTimerRun_ok_iff_guarded {timer timer' : RtTimer} {mayFire : Bool}
    (hmay : timer.timeoutFunc = true → mayFire = timer.activated) {actions : List RtTimerAction}
    {outs : List RtTimerOut} (hrun : runBlocking rtTimerStep timer actions = some (outs, timer')) :
    TimerOk mayFire outs ↔ GuardedRun rtTimerStep TimeoutActivated timer actions := by
  induction actions generalizing timer mayFire outs with
  | nil =>
    cases hrun
    exact Iff.rfl
  | cons action actions ih =>
    obtain ⟨out, timer₁, outs, hstep, htail, rfl⟩ := runBlocking_cons_some hrun
    obtain ⟨hfires, hfunc, hnext⟩ := rtTimerStep_fires hmay hstep
    rw [timerOk_cons, hfires, GuardedRun, hstep]
    refine and_congr_right fun hactivated => ?_
    exact ih (fun h => hnext hactivated (hfunc ▸ h)) htail

/-- In every run of a new timer the function is called only behind a start, with no stop in between,
and once at most by a one-shot timer, exactly when every timeout finds the timer activated. -/
theorem rtTimerRun_ok_iff (timeoutFunc : Bool) (time : ℤ) (periodic : Bool)
    (actions : List RtTimerAction)
    {outs : List RtTimerOut} {timer : RtTimer}
    (hrun : runBlocking rtTimerStep (rtTimerInit timeoutFunc time periodic) actions =
      some (outs, timer)) :
    TimerOk false outs ↔
      GuardedRun rtTimerStep TimeoutActivated (rtTimerInit timeoutFunc time periodic) actions :=
  rtTimerRun_ok_iff_guarded (fun _ => rfl) hrun

-- A start during the wait of a one-shot timer leaves a token in the semaphore, and the timer fires
-- twice.
example : (runBlocking rtTimerStep (rtTimerInit true 1000 false)
      [.start, .take, .enter, .start, .wake 110, .take, .enter, .wake 110]).map Prod.fst =
    some [.started, .silent, .silent, .started, .fires false, .silent, .silent, .fires false] := rfl

/-- A one-shot timer that is started and runs out. -/
theorem rtTimerRun_ok_iff_once :
    TimerOk false [.started, .silent, .silent, .fires false] ↔
      GuardedRun rtTimerStep TimeoutActivated (rtTimerInit true 1000 false) [.start, .take, .enter,
      .wake 110] :=
  rtTimerRun_ok_iff true 1000 false [.start, .take, .enter, .wake 110] rfl

/-- A wait that times out while the timer is stopped calls the function. -/
theorem rtTimer_fires_stopped :
    ¬ ∀ (timeoutFunc : Bool) (time : ℤ) (periodic : Bool) (actions : List RtTimerAction)
      (outs : List RtTimerOut)
      (timer : RtTimer), runBlocking rtTimerStep (rtTimerInit timeoutFunc time periodic) actions =
        some (outs, timer) →
        TimerOk false outs := by
  intro h
  have hstopped := h true 1000 false [.start, .take, .enter, .stop, .wake 110] _ _ rfl
  exact absurd hstopped.1 (by decide)

end DasEdge.Das
