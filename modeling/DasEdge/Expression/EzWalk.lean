import DasEdge.Expression.EzExpParser
import DasEdge.Library.FuelRun

/-!
# A walk through the interpreter

What is asked of the whole interpreter is followed through all of its functions. What has to be known
are the places where the interpreter operates on numbers, raises an error, returns, calls a function,
writes a register or enters a custom function; everything else reads on and sets flags.
-/

namespace DasEdge.Expression

open DasEdge.Library FuelRun

variable {V : Type}

/-- What is recorded for a step in a state. -/
def EzState.event (s : EzState V) (step : EzStep V) : EzEvent V :=
  ⟨step, s.e.isCheck, s.flag.skip, s.e.isReturn, s.unreached, s.inner⟩

/-- A state with one more step recorded. -/
def EzState.record (s : EzState V) (step : EzStep V) : EzState V :=
  { s with log := s.event step :: s.log }

/-- Reading a token gives a result. -/
theorem getSym_result (env : EzEnv V) (s : EzState V) : (getSym env s).1 = some () := by
  unfold getSym
  rw [update_bind_apply, FuelRun.skipWhen, FuelRun.branch]
  split
  · rfl
  · rfl

/-- The state in which the body of a custom function starts. -/
def enterCustom (e : EzExp V) (s : EzState V) : EzState V :=
  { s with
    e := e, flag := {}, unreached := s.unreached || s.e.isCheck || s.flag.skip || s.e.isReturn
    inner := true }

/-- The state behind the body of a custom function that was called in another one. -/
def leaveCustom (main s : EzState V) : EzState V :=
  { s with e := main.e, flag := main.flag, unreached := main.unreached, inner := main.inner }

/-- The part of `_expression_custom` behind the arguments: the body runs on an interpreter of its
own. -/
def insideCustom (e : EzExp V) (body : EzM V V) : EzM V V := do
  let main ← FuelRun.read
  FuelRun.update (enterCustom e)
  let result ← body
  FuelRun.update (leaveCustom main)
  pure result

/-- Nothing has changed that events and errors depend on, but flags. -/
structure SameMode (s t : EzState V) : Prop where
  log : t.log = s.log
  isCheck : t.e.isCheck = s.e.isCheck
  isError : t.e.isError = s.e.isError
  unreached : t.unreached = s.unreached
  inner : t.inner = s.inner

/-- What has to be known to follow the reading of tokens. -/
structure EzReads (O : Outcome (EzState V)) : Prop where
  frame : ∀ s t, SameMode s t → O.done s t
  raise : ∀ msg, Leads O (raise msg)

/-- What has to be known to follow the whole interpreter. -/
structure EzWalk (env : EzEnv V) (O : Outcome (EzState V)) : Prop extends EzReads O where
  round : ∀ lastSym sym, Leads O (note (.round lastSym sym))
  factor : ∀ sym, (∀ f, sym ≠ .function0 f) → sym ≠ .funcVarAlias → Leads O (note (.factor sym))
  operate : ∀ t f1 f2 s, s.flag.skip = false → s.e.returns = false →
    O.holds s (note (.operate t f1 f2) s)
  operateSet : ∀ t f1 f2, Leads O (note (.operateSet t f1 f2))
  load : ∀ tk, Leads O (note (.load tk))
  number : ∀ n (f : EzExp V → EzExp V), (∀ e, (f e).isCheck = e.isCheck ∧ (f e).isReturn = e.isReturn ∧
    (f e).isError = e.isError) →
    Leads O (do
      note (.assign n .number)
      FuelRun.skipWhen (fun s => s.flag.skip) do
        updateExp f
        note (.setNumber n))
  string : ∀ n, Leads O (expressionSetString env n)
  function0 : ∀ f, Leads O (do
    note (.factor (.function0 f))
    getSym env
    expect env .leftBanana "fun() lost '('"
    callFunction env (.function0 f))
  varAlias : Leads O (do
    note (.factor .funcVarAlias)
    factorAlias env)
  argument : ∀ s, s.skips = false → O.holds s (factorString env s)
  arguments : ∀ sym c, (∀ f, c ≠ .function0 f) → Leads O (do
    note (.arguments sym)
    callFunction env c)
  print : Leads O (do
    note (.arguments .funcPrint)
    note (.call .print) : EzM V Unit)
  custom : ∀ e body, e.isCheck = false → Leads O body → Leads O (do
    note (.arguments .funcCustom)
    insideCustom e body)

/-- A run of a custom function is its body on an interpreter of its own. -/
theorem customRun_eq (env : EzEnv V) (fuel : ℕ) (expression : EzM V V) (e : EzExp V) :
    customRun env fuel expression e = insideCustom e (do
      getSym env
      let f1 ← expressionComma env fuel expression
      FuelRun.branch (fun s => s.e.isReturn) (do
        let s ← FuelRun.read
        pure s.e.returnValue) (do
        expect env .eof "unexpected symbol"
        pure f1)) := by
  unfold customRun insideCustom
  simp only [bind_bind]
  rfl

/-- The result and the state behind a custom function, or where the fuel of its body was spent. -/
theorem insideCustom_apply (e : EzExp V) (body : EzM V V) (s : EzState V) :
    insideCustom e body s = ((body (enterCustom e s)).1,
      if (body (enterCustom e s)).1.isSome then leaveCustom s (body (enterCustom e s)).2
      else (body (enterCustom e s)).2) := by
  unfold insideCustom
  rw [read_bind_apply, update_bind_apply, bind_apply]
  rcases body (enterCustom e s) with ⟨result, t⟩
  cases result with
  | none => rfl
  | some x => rfl

/-- Marking a place. -/
theorem leads_forMark {O : Outcome (EzState V)} :
    Leads O (forMark : EzM V ForMark) :=
  Leads.read fun _ => leads_pure _

section Reads

variable (env : EzEnv V) {O : Outcome (EzState V)} (h : EzReads O)
include h

/-- Changes of the interpreter in the same mode. -/
theorem leads_updateExp {f : EzExp V → EzExp V}
    (hf : ∀ e, (f e).isCheck = e.isCheck ∧ (f e).isError = e.isError) : Leads O (updateExp f) :=
  leads_update fun s => h.frame _ _ ⟨rfl, (hf s.e).1, (hf s.e).2, rfl, rfl⟩

/-- Changes of the flags. -/
theorem leads_updateFlag (f : EzFlag → EzFlag) : Leads O (updateFlag f) :=
  leads_update fun _ => h.frame _ _ ⟨rfl, rfl, rfl, rfl, rfl⟩

/-- A new number. -/
theorem leads_setNumber (x : V) : Leads O (setNumber x) := leads_updateExp h fun _ => ⟨rfl, rfl⟩

/-- The next token. -/
theorem leads_nextSym : Leads O (FuelRun.update (nextSym env)) :=
  leads_update fun _ => h.frame _ _ ⟨rfl, rfl, rfl, rfl, rfl⟩

/-- Reading a token. -/
theorem leads_getSym : Leads O (getSym env) := by
  have hnext : Leads O (FuelRun.update fun s =>
      nextSym env { s with e := { s.e with lastSym := s.e.sym } }) :=
    leads_update fun _ => h.frame _ _ ⟨rfl, rfl, rfl, rfl, rfl⟩
  apply hnext.bind
  intro _
  exact (Leads.read fun s => h.raise _).skipWhen

/-- Accepting a symbol. -/
theorem leads_accept (t : EzToken) : Leads O (accept env t) :=
  ((leads_getSym env h).bind fun _ => leads_pure true).branch (leads_pure false)

/-- Expecting a symbol. -/
theorem leads_expect (t : EzToken) (msg : String) : Leads O (expect env t msg) := by
  apply (leads_accept env h t).bind
  intro accepted
  cases accepted with
  | true => exact leads_pure ()
  | false => exact h.raise (some msg)

/-- A loop over separators. -/
theorem leads_whileSym (fuel : ℕ) (t : EzToken) {α : Type} {body : α → EzM V α}
    (hbody : ∀ a, Leads O (body a))
    (start : α) : Leads O (whileSym env fuel t body start) := by
  refine Leads.rounds (fun a => Leads.branch ?_ (leads_pure _)) fuel start
  apply (leads_getSym env h).bind
  intro _
  exact (hbody a).bind fun b => leads_pure _

/-- Skipping to a bracket. -/
theorem leads_skipUntil (fuel : ℕ) (opening closing : EzToken) :
    Leads O (skipUntil env fuel opening closing) := by
  apply Leads.read
  intro s
  refine (Leads.rounds (fun count => ?_) fuel _).bind fun _ => leads_pure ()
  split
  · exact leads_pure _
  · apply (leads_getSym env h).bind
    intro _
    apply Leads.read
    intro t
    split
    · exact leads_pure _
    · split
      · exact leads_pure _
      · split
        · exact leads_pure _
        · exact leads_pure _

/-- Arguments in brackets, which may rely on not being skipped. -/
theorem leads_inBananas (fuel : ℕ) (lostLeft lostRight : String) {arguments : EzM V Unit}
    (harguments : ∀ s, s.skips = false → O.holds s (arguments s)) :
    Leads O (inBananas env fuel lostLeft lostRight arguments) := by
  apply (leads_expect env h .leftBanana lostLeft).bind
  intro _
  refine Leads.bind (fun s => holds_branch ?_ (harguments s)) fun _ =>
    leads_expect env h .rightBanana lostRight
  exact fun _ => leads_skipUntil env h fuel .leftBanana .rightBanana s

/-- A block that is skipped. -/
theorem leads_skipBraces (fuel : ℕ) (lostLeft lostRight : String) :
    Leads O (skipBraces env fuel lostLeft lostRight) := by
  apply (leads_expect env h .leftBraces lostLeft).bind
  intro _
  apply (leads_skipUntil env h fuel .leftBraces .rightBraces).bind
  exact fun _ => leads_expect env h .rightBraces lostRight

/-- A chain of `else`. -/
theorem leads_elseChain (fuel : ℕ) {α : Type} {elseIf : EzM V (Option α)} {otherwise : EzM V α}
    (helseIf : Leads O elseIf) (hotherwise : Leads O otherwise) (missing : α) :
    Leads O (elseChain env fuel elseIf otherwise missing) := by
  refine (Leads.rounds (fun _ => Leads.branch ?_ (leads_pure _)) fuel none).bind fun result =>
    leads_pure _
  apply (leads_getSym env h).bind
  intro _
  apply Leads.branch
  · apply (leads_getSym env h).bind
    intro _
    exact helseIf.bind fun result => leads_pure _
  · exact hotherwise.bind fun result => leads_pure _

/-- The remaining branches of an `if` are skipped. -/
theorem leads_ifSkipElseRemain (fuel : ℕ) : Leads O (ifSkipElseRemain env fuel) := by
  apply leads_elseChain env h fuel
  · apply (leads_expect env h .leftBanana _).bind
    intro _
    apply (leads_skipUntil env h fuel .leftBanana .rightBanana).bind
    intro _
    apply (leads_expect env h .rightBanana _).bind
    intro _
    exact (leads_skipBraces env h fuel _ _).bind fun _ => leads_pure none
  · exact leads_skipBraces env h fuel _ _

/-- A whole `if` is skipped. -/
theorem leads_ifSkipAll (fuel : ℕ) : Leads O (ifSkipAll env fuel) := by
  apply (leads_expect env h .leftBanana _).bind
  intro _
  apply (leads_skipUntil env h fuel .leftBanana .rightBanana).bind
  intro _
  apply (leads_expect env h .rightBanana _).bind
  intro _
  apply (leads_skipBraces env h fuel _ _).bind
  intro _
  exact (leads_ifSkipElseRemain env h fuel).bind fun _ => leads_pure env.zero

/-- Going back to a mark. -/
theorem leads_forJump (mark : ForMark) : Leads O (forJump env mark) := by
  have hback : Leads O (updateExp fun e : EzExp V =>
      { e with tokenizer := { e.tokenizer with p := mark.p, lnNum := mark.lnNum } }) :=
    leads_updateExp h fun _ => ⟨rfl, rfl⟩
  exact hback.bind fun _ => leads_getSym env h

/-- Skipping the body of a loop at its end. -/
theorem leads_forSkipComma (fuel : ℕ) (mark : ForMark) : Leads O (forSkipComma env fuel mark) :=
  (leads_forJump env h mark).bind fun _ => leads_skipBraces env h fuel _ _

/-- A whole loop is skipped. -/
theorem leads_expressionSkipForAll (fuel : ℕ) : Leads O (expressionSkipForAll env fuel) := by
  apply (leads_expect env h .leftBanana _).bind
  intro _
  apply (leads_skipUntil env h fuel .leftBanana .rightBanana).bind
  intro _
  apply (leads_expect env h .rightBanana _).bind
  exact fun _ => leads_skipBraces env h fuel _ _

/-- A value that becomes the number. -/
theorem leads_setNumber_of {value : EzM V V} (hvalue : Leads O value) :
    Leads O (value >>= fun x => setNumber x) :=
  hvalue.bind fun x => leads_setNumber h x

/-- A loop on flags of its own. -/
theorem leads_withFlag {α : Type} {loop : EzM V α} (hloop : Leads O loop) :
    Leads O (withFlag loop) := by
  apply Leads.read
  intro s
  apply (leads_updateFlag h _).bind
  intro _
  apply hloop.bind
  intro a
  exact (leads_updateFlag h _).bind fun _ => leads_pure a

end Reads

section Walk

variable {env : EzEnv V} {O : Outcome (EzState V)} (h : EzWalk env O)
include h

/-- The argument of a call of a string register is looked up in unskipped code. -/
theorem leads_funcVar (fuel : ℕ) (lostLeft lostRight : String) :
    Leads O (inBananas env fuel lostLeft lostRight do
      factorString env
      FuelRun.skipWhen (fun s => s.e.sym = .rightBanana) (FuelRun.update (nextSym env))) := by
  apply leads_inBananas env h.toEzReads fuel
  intro s hs
  refine holds_bind (h.argument s hs) fun _ _ => ?_
  exact (leads_nextSym env h.toEzReads).skipWhen _

section Blocks

variable {expression : EzM V V} (hexp : Leads O expression) (fuel : ℕ)
include hexp

/-- Expressions with semicolons between them. -/
theorem leads_expressionComma : Leads O (expressionComma env fuel expression) := by
  apply hexp.bind
  intro f1
  refine Leads.rounds (fun f1 => Leads.branch ?_ (leads_pure _)) fuel f1
  apply Leads.read
  intro s
  apply (h.round _ _).bind
  intro _
  apply (leads_accept env h.toEzReads .semicolon).bind
  intro _
  refine Leads.branch (leads_pure _) (Leads.branch (leads_pure _) ?_)
  exact hexp.bind fun f1 => leads_pure _

/-- A block in braces. -/
theorem leads_inBraces (lostLeft lostRight : String) :
    Leads O (inBraces env fuel lostLeft lostRight expression) := by
  apply (leads_expect env h.toEzReads .leftBraces lostLeft).bind
  intro _
  apply (leads_expressionComma h hexp fuel).bind
  intro f1
  exact (leads_expect env h.toEzReads .rightBraces lostRight).bind fun _ => leads_pure f1

/-- The check of a choice. -/
theorem leads_expressionCheckTernary : Leads O (expressionCheckTernary env fuel expression) := by
  apply hexp.bind
  intro _
  apply (leads_expect env h.toEzReads .dot _).bind
  intro _
  apply (leads_inBraces h hexp fuel _ _).bind
  intro _
  apply (leads_expect env h.toEzReads .dot _).bind
  intro _
  exact (leads_inBraces h hexp fuel _ _).bind fun _ => leads_pure ()

/-- A choice. -/
theorem leads_expressionTernary : Leads O (expressionTernary env fuel expression) := by
  apply hexp.bind
  intro f1
  apply (leads_expect env h.toEzReads .dot _).bind
  intro _
  apply Leads.branch
  · exact (leads_expressionCheckTernary h hexp fuel).bind fun _ => leads_pure f1
  · apply Leads.branch
    · exact (leads_skipUntil env h.toEzReads fuel .leftBanana .rightBanana).bind fun _ => leads_pure f1
    · split
      · apply (leads_inBraces h hexp fuel _ _).bind
        intro f1
        exact (leads_skipUntil env h.toEzReads fuel .leftBanana .rightBanana).bind fun _ => leads_pure f1
      · apply (leads_skipBraces env h.toEzReads fuel _ _).bind
        intro _
        apply (leads_expect env h.toEzReads .dot _).bind
        exact fun _ => leads_inBraces h hexp fuel _ _

/-- The check of an `if`. -/
theorem leads_ifCheck : Leads O (ifCheck env fuel expression) := by
  apply (leads_expect env h.toEzReads .leftBanana _).bind
  intro _
  apply hexp.bind
  intro _
  apply (leads_expect env h.toEzReads .rightBanana _).bind
  intro _
  apply (leads_inBraces h hexp fuel _ _).bind
  intro _
  apply leads_elseChain env h.toEzReads fuel
  · apply (leads_expect env h.toEzReads .leftBanana _).bind
    intro _
    apply hexp.bind
    intro _
    apply (leads_expect env h.toEzReads .rightBanana _).bind
    intro _
    exact (leads_inBraces h hexp fuel _ _).bind fun _ => leads_pure none
  · exact (leads_inBraces h hexp fuel _ _).bind fun _ => leads_pure env.zero

/-- The run of an `if`. -/
theorem leads_ifDo : Leads O (ifDo env fuel expression) := by
  apply (leads_expect env h.toEzReads .leftBanana _).bind
  intro _
  apply hexp.bind
  intro c
  apply (leads_expect env h.toEzReads .rightBanana _).bind
  intro _
  split
  · apply (leads_inBraces h hexp fuel _ _).bind
    intro f1
    exact (leads_ifSkipElseRemain env h.toEzReads fuel).bind fun _ => leads_pure f1
  · apply (leads_skipBraces env h.toEzReads fuel _ _).bind
    intro _
    refine leads_elseChain env h.toEzReads fuel ?_ (leads_inBraces h hexp fuel _ _) env.zero
    apply (leads_expect env h.toEzReads .leftBanana _).bind
    intro _
    apply hexp.bind
    intro c
    apply (leads_expect env h.toEzReads .rightBanana _).bind
    intro _
    split
    · apply (leads_inBraces h hexp fuel _ _).bind
      intro f1
      exact (leads_ifSkipElseRemain env h.toEzReads fuel).bind fun _ => leads_pure (some f1)
    · exact (leads_skipBraces env h.toEzReads fuel _ _).bind fun _ => leads_pure none

/-- An `if`. -/
theorem leads_expressionIf : Leads O (expressionIf env fuel expression) :=
  (leads_ifCheck h hexp fuel).branch ((leads_ifSkipAll env h.toEzReads fuel).branch (leads_ifDo h hexp fuel))

/-- The value of an assignment. -/
theorem leads_assignedNumber (f1 : V) (t : EzSet) :
    Leads O (assignedNumber env expression f1 t) := by
  unfold assignedNumber
  split
  · exact leads_pure _
  · exact leads_pure _
  · exact hexp.bind fun f2 => leads_pure _
  · apply hexp.bind
    intro f2
    exact (h.operateSet _ _ _).bind fun _ => leads_pure _

/-- An assignment to a register of a number. -/
theorem leads_expressionSetNumber (n : ℕ) : Leads O (expressionSetNumber env expression n) := by
  apply Leads.read
  intro s
  dsimp only
  split
  · apply (leads_getSym env h.toEzReads).bind
    intro _
    apply (leads_assignedNumber h hexp _ _).bind
    intro assigned
    have hassign := h.number n
      (fun e => { e with regNumber := Function.update e.regNumber n assigned.1 })
      fun _ => ⟨rfl, rfl, rfl⟩
    rw [← bind_bind]
    exact hassign.bind fun _ => leads_pure assigned.2
  · exact leads_pure _

/-- The largest of several values. -/
theorem leads_expressionMax : Leads O (expressionMax env fuel expression) := by
  apply hexp.bind
  intro max
  apply leads_whileSym env h.toEzReads
  exact fun max => hexp.bind fun f1 => leads_pure _

/-- The smallest of several values. -/
theorem leads_expressionMin : Leads O (expressionMin env fuel expression) := by
  apply hexp.bind
  intro min
  apply leads_whileSym env h.toEzReads
  exact fun min => hexp.bind fun f1 => leads_pure _

/-- Printing a value. -/
theorem leads_expressionPrintValue : Leads O (expressionPrintValue env expression) := by
  apply Leads.branch
  · rw [← bind_bind]
    exact h.print.bind fun _ => leads_getSym env h.toEzReads
  · exact hexp.bind fun _ => h.print

/-- Printing several values. -/
theorem leads_expressionPrint : Leads O (expressionPrint env fuel expression) := by
  apply (leads_expressionPrintValue h hexp).bind
  intro _
  refine (leads_whileSym env h.toEzReads fuel .dot (fun n => ?_) 1).bind fun n => leads_pure _
  exact (leads_expressionPrintValue h hexp).bind fun _ => leads_pure (n + 1)

/-- Expressions with commas between them. -/
theorem leads_forExpressions : Leads O (forExpressions env fuel expression) := by
  apply hexp.bind
  intro _
  apply leads_whileSym env h.toEzReads
  exact fun _ => hexp.bind fun _ => leads_pure ()

/-- The condition of a loop. -/
theorem leads_forGetCond (mark : ForMark) : Leads O (forGetCond env expression mark) := by
  apply (leads_forJump env h.toEzReads mark).bind
  intro _
  apply (leads_expect env h.toEzReads .semicolon _).bind
  intro _
  refine Leads.bind (Leads.branch (leads_pure _) ?_) fun cond => Leads.read fun s =>
    leads_pure _
  exact hexp.bind fun c => leads_pure _

/-- The step of a loop. -/
theorem leads_forDoOp (mark : ForMark) : Leads O (forDoOp env fuel expression mark) := by
  apply (leads_forJump env h.toEzReads mark).bind
  intro _
  apply (leads_expect env h.toEzReads .semicolon _).bind
  exact fun _ => (leads_forExpressions h hexp fuel).skipWhen

/-- The body of a loop. -/
theorem leads_forDoComma (mark : ForMark) : Leads O (forDoComma env fuel expression mark) := by
  apply (leads_forJump env h.toEzReads mark).bind
  intro _
  apply (leads_expect env h.toEzReads .leftBraces _).bind
  intro _
  exact (leads_expressionComma h hexp fuel).bind fun _ => leads_pure ()

/-- The part of a loop up to its condition. -/
theorem leads_forInit : Leads O (forInit env fuel expression) := by
  apply (leads_expect env h.toEzReads .leftBanana _).bind
  intro _
  apply (leads_forExpressions h hexp fuel).skipWhen.bind
  intro _
  apply (leads_forMark (O := O)).bind
  intro mark
  exact (leads_expect env h.toEzReads .semicolon _).bind fun _ => leads_pure mark

/-- The check of a loop. -/
theorem leads_expressionForCheck : Leads O (expressionForCheck env fuel expression) := by
  apply leads_withFlag h.toEzReads
  apply (leads_forInit h hexp fuel).bind
  intro pCond
  apply (leads_forGetCond h hexp pCond).bind
  intro _
  apply (leads_forMark (O := O)).bind
  intro pOp
  apply (leads_expect env h.toEzReads .semicolon _).bind
  intro _
  apply (leads_forDoOp h hexp fuel pOp).bind
  intro _
  apply (leads_expect env h.toEzReads .rightBanana _).bind
  intro _
  apply (leads_forMark (O := O)).bind
  intro pComma
  apply (leads_expect env h.toEzReads .leftBraces _).bind
  intro _
  apply (leads_forDoComma h hexp fuel pComma).bind
  exact fun _ => leads_expect env h.toEzReads .rightBraces _

/-- The iterations of a loop behind the first. -/
theorem leads_forLoop (pCond pOp pComma : ForMark) :
    Leads O (forLoop env fuel expression pCond pOp pComma) := by
  refine (Leads.rounds (fun cond => Leads.branch ?_ (leads_pure _)) fuel true).bind fun _ =>
    leads_pure ()
  apply (leads_forGetCond h hexp pCond).bind
  intro cond
  refine Leads.bind (Leads.skipWhen ?_) fun _ => leads_pure _
  apply (leads_forDoComma h hexp fuel pComma).bind
  intro _
  apply (leads_updateFlag h.toEzReads _).bind
  exact fun _ => (leads_forDoOp h hexp fuel pOp).skipWhen

/-- The run of a loop. -/
theorem leads_expressionForDo : Leads O (expressionForDo env fuel expression) := by
  apply leads_withFlag h.toEzReads
  apply (leads_forInit h hexp fuel).bind
  intro pCond
  apply (leads_forGetCond h hexp pCond).bind
  intro cond
  apply (leads_forMark (O := O)).bind
  intro pOp
  apply (leads_expect env h.toEzReads .semicolon _).bind
  intro _
  apply (leads_skipUntil env h.toEzReads fuel .leftBanana .rightBanana).bind
  intro _
  apply (leads_expect env h.toEzReads .rightBanana _).bind
  intro _
  apply (leads_forMark (O := O)).bind
  intro pComma
  apply (leads_expect env h.toEzReads .leftBraces _).bind
  intro _
  apply ((leads_forDoComma h hexp fuel pComma).branch
    (leads_skipUntil env h.toEzReads fuel .leftBraces .rightBraces)).bind
  intro _
  apply (leads_expect env h.toEzReads .rightBraces _).bind
  intro _
  refine Leads.bind (Leads.skipWhen ?_) fun _ => leads_forSkipComma env h.toEzReads fuel pComma
  exact (leads_forDoOp h hexp fuel pOp).bind fun _ => leads_forLoop h hexp fuel pCond pOp pComma

/-- A loop. -/
theorem leads_expressionFor : Leads O (expressionFor env fuel expression) :=
  (leads_expressionForCheck h hexp fuel).branch
    ((leads_expressionSkipForAll env h.toEzReads fuel).branch (leads_expressionForDo h hexp fuel))

/-- The argument for one register of a custom function. -/
theorem leads_customArg (args : CustomArgs V) (reg : EzReg) :
    Leads O (customArg env expression args reg) := by
  unfold customArg
  dsimp only
  split
  · exact hexp.bind fun x => leads_pure _
  · apply Leads.read
    intro s
    exact (leads_getSym env h.toEzReads).bind fun _ => leads_pure _
  · exact leads_pure _

/-- The arguments of a custom function. -/
theorem leads_customArgs (regs : List EzReg) (args : CustomArgs V) :
    Leads O (customArgs env expression regs args) := by
  induction regs generalizing args with
  | nil => exact leads_pure args
  | cons reg regs ih =>
    unfold customArgs
    dsimp only
    split
    · exact (leads_customArg h hexp args reg).bind ih
    · refine Leads.bind (Leads.branch ?_ (leads_pure _)) ih
      apply (leads_getSym env h.toEzReads).bind
      exact fun _ => leads_customArg h hexp args reg

/-- The call of a custom function. -/
theorem leads_expressionCustom (custom : Option EzCustom) :
    Leads O (expressionCustom env fuel expression custom) := by
  unfold expressionCustom
  cases custom with
  | none => exact leads_pure env.zero
  | some custom =>
    apply Leads.read
    intro s
    refine Leads.bind (leads_update fun _ => h.frame _ _ ⟨rfl, rfl, rfl, rfl, rfl⟩) fun _ => ?_
    apply (h.load _).bind
    intro _
    refine Leads.bind (Leads.branch (leads_pure _) ?_) fun args => ?_
    · apply (leads_customArgs h hexp _ _).bind
      intro args
      refine (leads_whileSym env h.toEzReads fuel .dot (fun _ => ?_) ()).bind fun _ => leads_pure args
      exact hexp.bind fun _ => leads_pure ()
    · rw [customRun_eq]
      refine h.custom _ _ rfl ?_
      apply (leads_getSym env h.toEzReads).bind
      intro _
      apply (leads_expressionComma h hexp fuel).bind
      intro f1
      refine Leads.branch (Leads.read fun s => leads_pure _) ?_
      exact (leads_expect env h.toEzReads .eof _).bind fun _ => leads_pure f1

omit hexp in
/-- Putting `++` or `--` in front of a register. -/
theorem leads_factorPrefix (step : V → V) : Leads O (factorPrefix env step) := by
  apply (leads_getSym env h.toEzReads).bind
  intro _
  apply Leads.read
  intro s
  split
  · next n _ =>
    have hassign := h.number n (fun e => { e with
      number := step (e.regNumber n), regNumber :=
      Function.update e.regNumber n (step (e.regNumber n)) })
      fun _ => ⟨rfl, rfl, rfl⟩
    rw [← bind_bind]
    exact hassign.bind fun _ => leads_getSym env h.toEzReads
  · exact leads_pure ()

/-- A register. -/
theorem leads_factorReg (n : ℕ) : Leads O (factorReg env expression n) := by
  apply Leads.read
  intro s
  apply (leads_getSym env h.toEzReads).bind
  intro _
  apply Leads.read
  intro t
  split
  · exact leads_setNumber_of h.toEzReads (leads_expressionSetNumber h hexp n)
  · exact h.string n
  · exact leads_setNumber h.toEzReads _
  · exact leads_pure ()

/-- A `return`. -/
theorem leads_factorReturn : Leads O (factorReturn env expression) := by
  apply (leads_getSym env h.toEzReads).bind
  intro _
  apply hexp.bind
  intro x
  apply (leads_setNumber h.toEzReads x).bind
  intro _
  refine Leads.branch (h.raise _).skipWhen ?_
  apply (leads_expect env h.toEzReads .semicolon _).bind
  intro _
  refine Leads.skipWhen (leads_updateExp h.toEzReads ?_)
  exact fun _ => ⟨rfl, rfl⟩

/-- A branch of `_factor` that neither calls a function without arguments nor looks a name up. -/
theorem leads_factorStep {sym : EzToken} (hfunction0 : ∀ f, sym ≠ .function0 f)
    (halias : sym ≠ .funcVarAlias) :
    Leads O (factorStep env fuel expression sym) := by
  have hother : Leads O (raise (some "Factor: syntax error") >>= fun _ => getSym env) :=
    (h.raise _).bind fun _ => leads_getSym env h.toEzReads
  unfold factorStep
  cases sym with
  | «return» => exact leads_factorReturn h hexp
  | «break» =>
    apply (leads_getSym env h.toEzReads).bind
    intro _
    exact (leads_expect env h.toEzReads .semicolon _).bind fun _ => leads_updateFlag h.toEzReads _
  | «continue» =>
    apply (leads_getSym env h.toEzReads).bind
    intro _
    exact (leads_expect env h.toEzReads .semicolon _).bind fun _ => leads_updateFlag h.toEzReads _
  | funcFor => exact (leads_getSym env h.toEzReads).bind fun _ => leads_expressionFor h hexp fuel
  | ifFuncIf =>
    exact (leads_getSym env h.toEzReads).bind fun _ => leads_setNumber_of h.toEzReads (leads_expressionIf h hexp fuel)
  | set t =>
    cases t with
    | dplus => exact leads_factorPrefix h env.succ
    | dminus => exact leads_factorPrefix h env.pred
    | _ => exact hother
  | reg n => exact leads_factorReg h hexp n
  | func3If =>
    apply (leads_getSym env h.toEzReads).bind
    exact fun _ => leads_inBananas env h.toEzReads fuel _ _ fun s _ =>
      leads_setNumber_of h.toEzReads (leads_expressionTernary h hexp fuel) s
  | funcCustom =>
    apply Leads.read
    intro s
    apply (leads_getSym env h.toEzReads).bind
    exact fun _ => leads_inBananas env h.toEzReads fuel _ _ fun t _ =>
      leads_setNumber_of h.toEzReads (leads_expressionCustom h hexp fuel _) t
  | funcFunction => exact leads_pure ()
  | funcMin =>
    apply (leads_getSym env h.toEzReads).bind
    exact fun _ => leads_inBananas env h.toEzReads fuel _ _ fun s _ =>
      leads_setNumber_of h.toEzReads (leads_expressionMin h hexp fuel) s
  | funcMax =>
    apply (leads_getSym env h.toEzReads).bind
    exact fun _ => leads_inBananas env h.toEzReads fuel _ _ fun s _ =>
      leads_setNumber_of h.toEzReads (leads_expressionMax h hexp fuel) s
  | funcPrint =>
    apply (leads_getSym env h.toEzReads).bind
    exact fun _ => leads_inBananas env h.toEzReads fuel _ _ fun s _ =>
      leads_setNumber_of h.toEzReads (leads_expressionPrint h hexp fuel) s
  | funcBnot =>
    apply (leads_getSym env h.toEzReads).bind
    intro _
    refine Leads.bind (leads_updateExp h.toEzReads ?_) fun _ => ?_
    · exact fun _ => ⟨rfl, rfl⟩
    · exact (leads_accept env h.toEzReads .number).bind fun _ => leads_pure ()
  | funcNot =>
    apply (leads_getSym env h.toEzReads).bind
    intro _
    apply hexp.bind
    intro x
    apply (leads_setNumber h.toEzReads _).bind
    intro _
    exact (leads_accept env h.toEzReads .number).bind fun _ => leads_pure ()
  | function0 f => exact absurd rfl (hfunction0 f)
  | function1 f =>
    apply (leads_getSym env h.toEzReads).bind
    intro _
    refine leads_inBananas env h.toEzReads fuel _ _ fun s _ => ?_
    exact hexp.bind (fun x => h.arguments (.function1 f) (.function1 f x) nofun) s
  | funcDoSet =>
    apply (leads_getSym env h.toEzReads).bind
    intro _
    refine leads_inBananas env h.toEzReads fuel _ _ fun s _ => ?_
    refine hexp.bind (fun x => ?_) s
    apply (leads_expect env h.toEzReads .dot _).bind
    intro _
    exact hexp.bind fun y => h.arguments .funcDoSet (.doSet x y) nofun
  | funcVar => exact (leads_getSym env h.toEzReads).bind fun _ => leads_funcVar h fuel _ _
  | funcVarAlias => exact absurd rfl halias
  | number =>
    refine Leads.bind (leads_updateExp h.toEzReads ?_) fun _ => leads_getSym env h.toEzReads
    exact fun _ => ⟨rfl, rfl⟩
  | semicolon => exact leads_getSym env h.toEzReads
  | leftBanana =>
    apply (leads_getSym env h.toEzReads).bind
    intro _
    refine Leads.bind ?_ fun _ => leads_expect env h.toEzReads .rightBanana _
    exact (leads_skipUntil env h.toEzReads fuel .leftBanana .rightBanana).branch (leads_setNumber_of h.toEzReads hexp)
  | leftBraces =>
    apply (leads_getSym env h.toEzReads).bind
    intro _
    refine Leads.bind ?_ fun _ => leads_expect env h.toEzReads .rightBraces _
    exact (leads_skipUntil env h.toEzReads fuel .leftBraces .rightBraces).branch
      (leads_setNumber_of h.toEzReads (leads_expressionComma h hexp fuel))
  | eof => exact leads_pure ()
  | _ => exact hother

/-- A branch of `_factor` with the record of its symbol. -/
theorem leads_factorNoted (sym : EzToken) : Leads O (do
    note (.factor sym)
    factorStep env fuel expression sym) := by
  by_cases halias : sym = .funcVarAlias
  · subst halias
    exact h.varAlias
  by_cases hfunction0 : ∃ f, sym = .function0 f
  · obtain ⟨f, rfl⟩ := hfunction0
    have hcall := (h.function0 f).bind fun _ =>
      leads_expect env h.toEzReads .rightBanana "fun() lost ')'"
    simp only [bind_bind] at hcall
    exact hcall
  · have hsym : ∀ f, sym ≠ .function0 f := fun f hf => hfunction0 ⟨f, hf⟩
    exact (h.factor sym hsym halias).bind fun _ => leads_factorStep h hexp fuel hsym halias

/-- A factor. -/
theorem leads_factor : Leads O (factor env fuel expression) := by
  apply Leads.read
  intro s
  rw [← bind_bind]
  exact (leads_factorNoted h hexp fuel s.e.sym).bind fun _ => Leads.read fun _ => leads_pure _

/-- A term. -/
theorem leads_term : Leads O (term env fuel expression) := by
  apply (leads_factor h hexp fuel).bind
  intro f1
  refine Leads.rounds (fun f1 => Leads.read fun s => ?_) fuel f1
  split
  · apply (leads_getSym env h.toEzReads).bind
    intro _
    apply (leads_factor h hexp fuel).bind
    intro f2
    refine Leads.bind (fun s => holds_branch (fun hs => ?_) fun _ => leads_pure _ s) fun value =>
      Leads.read fun _ => leads_pure _
    simp only [Bool.and_eq_true, Bool.not_eq_true'] at hs
    exact holds_bind (h.operate _ _ _ s hs.1 hs.2) fun _ _ => leads_pure _ _
  · exact leads_pure _

/-- The body of an expression. -/
theorem leads_expressionStep : Leads O (expressionStep env fuel expression) := by
  apply Leads.read
  intro s
  apply (leads_getSym env h.toEzReads).skipWhen.bind
  intro _
  apply (leads_term h hexp fuel).bind
  intro f1
  refine Leads.rounds (fun f1 => Leads.branch (Leads.read fun s => ?_) (leads_pure _)) fuel _
  apply (leads_getSym env h.toEzReads).bind
  intro _
  apply (leads_term h hexp fuel).bind
  exact fun f2 => Leads.read fun t => leads_pure _

end Blocks

/-- An expression. -/
theorem leads_expression (fuel : ℕ) : Leads O (expression env fuel) := by
  induction fuel with
  | zero => exact leads_outOfFuel
  | succ fuel ih => exact leads_expressionStep h ih (fuel + 1)

/-- A check. -/
theorem leads_ezExpCheck (fuel : ℕ) : Leads O (ezExpCheck env fuel) := by
  apply (leads_getSym env h.toEzReads).bind
  intro _
  apply (leads_expressionComma h (leads_expression h fuel) fuel).bind
  intro _
  exact (leads_expect env h.toEzReads .eof _).bind fun _ => Leads.read fun _ => leads_pure _

/-- A run. -/
theorem leads_ezExpRun (fuel : ℕ) : Leads O (ezExpRun env fuel) := by
  refine Leads.branch (leads_pure _) ?_
  apply (leads_getSym env h.toEzReads).bind
  intro _
  apply (leads_expressionComma h (leads_expression h fuel) fuel).bind
  intro result
  refine Leads.branch (Leads.read fun _ => leads_pure _) ?_
  exact (leads_expect env h.toEzReads .eof _).bind fun _ => leads_pure result

end Walk

/-- Steps that are recorded without a condition and that raise no error. -/
def EzStep.isSimple : EzStep V → Bool
  | .operate _ _ _ | .error _ => false
  | _ => true

/-- What has to be known where only operations, errors and custom functions matter. -/
structure EzSteps (O : Outcome (EzState V)) : Prop extends EzReads O where
  simple : ∀ step, step.isSimple = true → Leads O (note step)
  operate : ∀ t f1 f2 s, s.flag.skip = false → s.e.returns = false →
    O.holds s (note (.operate t f1 f2) s)
  custom : ∀ e body, Leads O body → Leads O (insideCustom e body)

section Steps

variable {O : Outcome (EzState V)} (h : EzSteps O) (env : EzEnv V)
include h

/-- Calling a function. -/
theorem leads_callFunction (c : EzCall V) : Leads O (callFunction env c) := by
  apply Leads.read
  intro s
  exact (leads_setNumber h.toEzReads _).bind fun _ => h.simple _ rfl

/-- Calling the function of a string register. -/
theorem leads_callString (n : ℕ) (msg : String) : Leads O (callString env n msg) := by
  apply Leads.read
  intro s
  split
  · exact leads_callFunction h env _
  · exact h.raise _

/-- The argument of the function of a string. -/
theorem leads_factorString : Leads O (factorString env) := by
  apply Leads.read
  intro s
  split
  · exact leads_callString h env _ _
  · exact leads_callFunction h env _
  · exact leads_callFunction h env _

/-- `#` -/
theorem leads_factorAlias : Leads O (factorAlias env) := by
  apply Leads.read
  intro s
  apply (leads_getSym env h.toEzReads).bind
  intro _
  apply Leads.read
  intro t
  split
  · split
    · exact leads_pure ()
    · exact leads_callFunction h env _
  · split
    · exact (leads_callString h env _ _).bind fun _ => leads_getSym env h.toEzReads
    · exact leads_callFunction h env _

/-- An assignment to a string register. -/
theorem leads_expressionSetString (n : ℕ) : Leads O (expressionSetString env n) := by
  have hset : ∀ (f : EzExp V → EzExp V) step, step.isSimple = true →
      (∀ e, (f e).isCheck = e.isCheck ∧ (f e).isError = e.isError) →
      Leads O (updateExp f >>= fun _ => note step) :=
    fun f step hstep hf => (leads_updateExp h.toEzReads hf).bind fun _ => h.simple _ hstep
  apply (h.simple _ rfl).bind
  intro _
  refine Leads.bind (Leads.skipWhen (hset _ _ rfl ?_)) fun _ => ?_
  · exact fun _ => ⟨rfl, rfl⟩
  apply (leads_expect env h.toEzReads (.set .equal) _).bind
  intro _
  refine Leads.bind (Leads.skipWhen (hset _ _ rfl ?_)) fun _ => leads_expect env h.toEzReads .string _
  exact fun _ => ⟨rfl, rfl⟩

/-- The whole interpreter can be followed. -/
theorem EzSteps.walk : EzWalk env O where
  toEzReads := h.toEzReads
  round _ _ := h.simple _ rfl
  factor _ _ _ := h.simple _ rfl
  operate := h.operate
  operateSet _ _ _ := h.simple _ rfl
  load _ := h.simple _ rfl
  number n f hf := by
    have hset : Leads O (updateExp f) := leads_updateExp h.toEzReads fun e => ⟨(hf e).1, (hf e).2.2⟩
    exact (h.simple _ rfl).bind fun _ => (hset.bind fun _ => h.simple _ rfl).skipWhen
  string n := leads_expressionSetString h env n
  function0 f := by
    apply (h.simple _ rfl).bind
    intro _
    apply (leads_getSym env h.toEzReads).bind
    intro _
    exact (leads_expect env h.toEzReads .leftBanana _).bind fun _ => leads_callFunction h env _
  varAlias := (h.simple _ rfl).bind fun _ => leads_factorAlias h env
  argument s _ := leads_factorString h env s
  arguments _ c _ := (h.simple _ rfl).bind fun _ => leads_callFunction h env c
  print := (h.simple _ rfl).bind fun _ => h.simple _ rfl
  custom e body _ hbody := (h.simple _ rfl).bind fun _ => h.custom e body hbody

end Steps

end DasEdge.Expression
