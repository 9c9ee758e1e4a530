import DasEdge.Expression.EzWalk

/-!
# What the interpreter does to its events

A relation between states that looks at the events and at the mode of the interpreter is followed
through all of its functions, whether or not the fuel lasts.
-/

namespace DasEdge.Expression

open DasEdge.Library FuelRun

variable {V : Type}

/-- Steps that neither have an effect nor lead to one. -/
def EzStep.plain : EzStep V → Bool
  | .round _ _ | .operate _ _ _ | .operateSet _ _ _ | .load _ | .error _ => true
  | .factor sym =>
    match sym with
    | .function0 _ | .funcVarAlias => false
    | _ => true
  | _ => false

/-- What a relation has to allow, so that the whole interpreter keeps to it. -/
structure EzRelated (env : EzEnv V) (R : EzState V → EzState V → Prop) : Prop where
  frame : ∀ s t, t.log = s.log → t.e.isCheck = s.e.isCheck → t.unreached = s.unreached → R s t
  plain : ∀ step, step.plain = true → Relates R (note step)
  number : ∀ n (f : EzExp V → EzExp V), (∀ e, (f e).isCheck = e.isCheck ∧ (f e).isReturn = e.isReturn) →
    Relates R (do
      note (.assign n .number)
      FuelRun.skipWhen (fun s => s.flag.skip) do
        updateExp f
        note (.setNumber n))
  string : ∀ n, Relates R (expressionSetString env n)
  function0 : ∀ f, Relates R (do
    note (.factor (.function0 f))
    getSym env
    expect env .leftBanana "fun() lost '('"
    callFunction env (.function0 f))
  varAlias : Relates R (do
    note (.factor .funcVarAlias)
    factorAlias env)
  argument : ∀ s, s.skips = false → R s (factorString env s).2
  arguments : ∀ sym c, (∀ f, c ≠ .function0 f) → Relates R (do
    note (.arguments sym)
    callFunction env c)
  print : Relates R (do
    note (.arguments .funcPrint)
    note (.call .print) : EzM V Unit)
  custom : ∀ e body, e.isCheck = false → Relates R body → Relates R (do
    note (.arguments .funcCustom)
    insideCustom e body)

section Walk

variable {env : EzEnv V} {R : EzState V → EzState V → Prop} (h : EzRelated env R)
  [IsPreorder (EzState V) R]
include h

/-- An error. -/
theorem relates_raise (msg : Option String) : Relates R (raise msg) := by
  refine (h.plain _ rfl).bind fun _ => fun s => h.frame _ _ rfl ?_ rfl
  simp only [updateExp, update_apply]
  split
  · rfl
  · rfl

/-- A relation that allows what it has to can be followed through the interpreter. -/
theorem EzRelated.walk : EzWalk env (Outcome.same R) where
  frame s t hmode := h.frame s t hmode.log hmode.isCheck hmode.unreached
  raise msg := leads_same.mpr (relates_raise h msg)
  round _ _ := leads_same.mpr (h.plain _ rfl)
  factor sym hfunction0 halias := by
    refine leads_same.mpr (h.plain _ ?_)
    cases sym with
    | function0 f => exact absurd rfl (hfunction0 f)
    | funcVarAlias => exact absurd rfl halias
    | _ => rfl
  operate _ _ _ s _ _ := leads_same.mpr (h.plain _ rfl) s
  operateSet _ _ _ := leads_same.mpr (h.plain _ rfl)
  load _ := leads_same.mpr (h.plain _ rfl)
  number n f hf := leads_same.mpr (h.number n f fun e => ⟨(hf e).1, (hf e).2.1⟩)
  string n := leads_same.mpr (h.string n)
  function0 f := leads_same.mpr (h.function0 f)
  varAlias := leads_same.mpr h.varAlias
  argument s hs := holds_same.mpr (h.argument s hs)
  arguments sym c hc := leads_same.mpr (h.arguments sym c hc)
  print := leads_same.mpr h.print
  custom e body he hbody := leads_same.mpr (h.custom e body he (leads_same.mp hbody))

/-- A check. -/
theorem relates_ezExpCheck (fuel : ℕ) : Relates R (ezExpCheck env fuel) :=
  leads_same.mp (leads_ezExpCheck h.walk fuel)

/-- A run. -/
theorem relates_ezExpRun (fuel : ℕ) : Relates R (ezExpRun env fuel) :=
  leads_same.mp (leads_ezExpRun h.walk fuel)

end Walk

end DasEdge.Expression
