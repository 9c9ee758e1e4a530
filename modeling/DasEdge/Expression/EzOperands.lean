import DasEdge.Expression.EzWalk

/-!
# Operators on integers

`%`, `<<` and `>>` cast their operands to unsigned words. A modulo by zero ends the process with a
signal, and a shift by the width of a word has no result. `_term` looks at the flags before it
operates, but `_expression_set_number` operates first and looks at them for the register only; neither
looks at the right operand, and a check operates on registers that are still zero.
-/

namespace DasEdge.Expression

open DasEdge.Library FuelRun

variable {V : Type}

/-- The cast of numbers to unsigned words, and the width of a word. -/
structure EzWord (V : Type) where
  ul : V → ℕ
  width : ℕ

/-- The operation on words has no result for this right operand. -/
def EzOp.traps (word : EzWord V) (t : EzOp) (f2 : V) : Bool :=
  match t with
  | .mod => word.ul f2 = 0
  | .shiftLeft | .shiftRight => word.width ≤ word.ul f2
  | _ => false

/-- The operation of the assignment has no result for this right operand. -/
def EzSet.traps (word : EzWord V) (t : EzSet) (f2 : V) : Bool :=
  match t with
  | .modNum => word.ul f2 = 0
  | .shiftLeftNum | .shiftRightNum => word.width ≤ word.ul f2
  | _ => false

/-- The step executes an operation that has no result. -/
def EzStep.traps (word : EzWord V) : EzStep V → Bool
  | .operate t _ f2 => t.traps word f2
  | .operateSet t _ f2 => t.traps word f2
  | _ => false

/-- What an operator needs, so that it is not executed without a result: a right operand that it has a
result for, unless it is an operator of `_term` behind `break`, `continue` or `return`. -/
def EzEvent.operandFits (word : EzWord V) (event : EzEvent V) : Bool :=
  match event.step with
  | .operate t _ f2 => event.isSkip || event.isReturn || !t.traps word f2
  | .operateSet t _ f2 => !t.traps word f2
  | _ => true

/-- No operation without a result was executed. -/
def NeverTraps (word : EzWord V) (s : EzState V) : Prop := ∀ event ∈ s.log, event.step.traps word = false

/-- Every operator had a right operand that fits. -/
def OperandsFit (word : EzWord V) (s : EzState V) : Prop :=
  ∀ event ∈ s.log, event.operandFits word = true

/-- An operation of `_term` is executed in code that is neither skipped nor behind `return`. -/
def EzEvent.operatesReached (event : EzEvent V) : Bool :=
  match event.step with
  | .operate _ _ _ => !event.isSkip && !event.isReturn
  | _ => true

/-- All steps that are added are of code in which `_term` operates. -/
def OperatesReached (s t : EzState V) : Prop :=
  (∀ event ∈ s.log, event.operatesReached = true) → ∀ event ∈ t.log, event.operatesReached = true

instance : IsPreorder (EzState V) OperatesReached where
  refl _ := id
  trans _ _ _ h h' := h' ∘ h

/-- A step that is no operation of `_term` adds nothing to what is asked. -/
theorem operatesReached_note {step : EzStep V} (s : EzState V)
    (h : (s.event step).operatesReached = true) : OperatesReached s (note step s).2 := by
  intro hs event hmem
  rcases List.mem_cons.mp hmem with rfl | hmem
  · exact h
  · exact hs event hmem

/-- An error is no operation. -/
theorem operatesReached_raise (msg : Option String) :
    Leads (Outcome.same (OperatesReached (V := V))) (raise msg) := by
  have hnote : Leads (Outcome.same (OperatesReached (V := V))) (note (.error msg)) :=
    leads_same.mpr fun s => operatesReached_note s rfl
  exact hnote.bind fun _ => leads_update fun _ => id

/-- `_term` operates in code that is neither skipped nor behind `return`. -/
theorem operatesReached_steps : EzSteps (Outcome.same (OperatesReached (V := V))) where
  frame s t hmode hs := hmode.log ▸ hs
  raise := operatesReached_raise
  simple step hstep := by
    refine leads_same.mpr fun s => operatesReached_note s ?_
    cases step with
    | operate => cases hstep
    | _ => rfl
  operate t f1 f2 s hskip hreturns := by
    refine holds_same.mpr (operatesReached_note s ?_)
    simp only [EzExp.returns, Bool.or_eq_false_iff] at hreturns
    simp [EzState.event, EzEvent.operatesReached, hskip, hreturns.1]
  custom e body hbody := by
    refine leads_same.mpr fun s => ?_
    have hends := leads_same.mp hbody (enterCustom e s)
    rw [insideCustom_apply]
    dsimp only
    split
    · exact hends
    · exact hends

/-- Where `_term` operates in code that is neither skipped nor behind `return`, nothing without a
result is executed exactly when the operands fit. -/
theorem neverTraps_iff (word : EzWord V) {s : EzState V}
    (hs : ∀ event ∈ s.log, event.operatesReached = true) : NeverTraps word s ↔ OperandsFit word s := by
  refine forall_congr' fun event => forall_congr' fun hmem => ?_
  have hreached := hs event hmem
  rcases event with ⟨step, isCheck, isSkip, isReturn, unreached, inner⟩
  cases step with
  | operate t f1 f2 =>
    simp only [EzEvent.operatesReached, Bool.and_eq_true, Bool.not_eq_true'] at hreached
    simp [EzStep.traps, EzEvent.operandFits, hreached.1, hreached.2]
  | operateSet t f1 f2 => simp [EzStep.traps, EzEvent.operandFits]
  | _ => simp [EzStep.traps, EzEvent.operandFits]

/-- Integers as words of 32 bits. -/
def intWord : EzWord Int where
  ul x := (x % 4294967296).toNat
  width := 32

end DasEdge.Expression
