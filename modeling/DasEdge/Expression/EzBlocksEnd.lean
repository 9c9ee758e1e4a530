import DasEdge.Expression.EzEnds

/-!
# Blocks, branches and loops end

What `_expressions.c` adds to the loops over the text. The functions that skip, choose and collect end
from ranks below `n`; `for` and the call of a custom function only keep the marks, since they come back
to text that was read before.
-/

namespace DasEdge.Expression

open DasEdge.Library FuelRun

section Blocks

variable {V : Type} (env : EzEnv V) {n fuel : ℕ} (hfuel : n ≤ fuel) {expression : EzM V V}
  (h : Consumes V n expression)

include hfuel h

/-- A block ends. -/
theorem ends_inBraces (lostLeft lostRight : String) :
    Ends (ezMarks V) n (inBraces env fuel lostLeft lostRight expression) := by
  unfold inBraces
  apply (ends_expect env .leftBraces lostLeft n).bind
  intro _
  apply (ends_expressionComma env hfuel h).bind
  intro f1
  apply (ends_expect env .rightBraces lostRight n).bind
  exact fun _ => ends_pure n f1

/-- The two alternatives of `ifelse` end when they are checked. -/
theorem ends_expressionCheckTernary :
    Ends (ezMarks V) n (expressionCheckTernary env fuel expression) := by
  unfold expressionCheckTernary
  apply h.ends.bind
  intro _
  apply (ends_expect env .dot _ n).bind
  intro _
  apply (ends_inBraces env hfuel h _ _).bind
  intro _
  apply (ends_expect env .dot _ n).bind
  intro _
  apply (ends_inBraces env hfuel h _ _).bind
  exact fun _ => ends_pure n ()

/-- `ifelse` ends. -/
theorem ends_expressionTernary : Ends (ezMarks V) n (expressionTernary env fuel expression) := by
  unfold expressionTernary
  apply h.ends.bind
  intro f1
  apply (ends_expect env .dot _ n).bind
  intro _
  apply Ends.branch
  · apply (ends_expressionCheckTernary env hfuel h).bind
    exact fun _ => ends_pure n f1
  apply Ends.branch
  · apply (ends_expressionSkipUntilRightBanana env hfuel).bind
    exact fun _ => ends_pure n f1
  cases env.isTrue f1 with
  | true =>
    apply (ends_inBraces env hfuel h _ _).bind
    intro f1
    apply (ends_expressionSkipUntilRightBanana env hfuel).bind
    exact fun _ => ends_pure n f1
  | false =>
    apply (ends_skipBraces env hfuel _ _).bind
    intro _
    apply (ends_expect env .dot _ n).bind
    exact fun _ => ends_inBraces env hfuel h _ _

omit h in
/-- A chain of `else` ends when its branches do. -/
theorem ends_elseChain {α : Type} {elseIf : EzM V (Option α)} {otherwise : EzM V α}
    (helseIf : Ends (ezMarks V) n elseIf) (hotherwise : Ends (ezMarks V) n otherwise) (missing : α) :
    Ends (ezMarks V) n (elseChain env fuel elseIf otherwise missing) := by
  unfold elseChain
  refine Ends.bind (Ends.rounds hfuel (fun result s => ?_) _) fun result => ends_pure n _
  apply RoundAt.branch
  · intro hs
    have hdrop := drops_getSym_of_sym env n rfl (of_decide_eq_true hs)
    refine (hdrop.bind_ends fun _ => Ends.branch ?_ ?_).round
    · apply (ends_getSym env n).bind
      intro _
      apply helseIf.bind
      exact fun result => ends_pure n (result, result.isNone)
    · apply hotherwise.bind
      exact fun result => ends_pure n (some result, false)
  · exact fun _ => roundAt_leave n _ s

omit h in
/-- Skipping the rest of a chain of `else` ends. -/
theorem ends_ifSkipElseRemain : Ends (ezMarks V) n (ifSkipElseRemain env fuel) := by
  unfold ifSkipElseRemain
  apply ends_elseChain env hfuel
  · apply (ends_expect env .leftBanana _ n).bind
    intro _
    apply (ends_expressionSkipUntilRightBanana env hfuel).bind
    intro _
    apply (ends_expect env .rightBanana _ n).bind
    intro _
    apply (ends_skipBraces env hfuel _ _).bind
    exact fun _ => ends_pure n none
  · exact ends_skipBraces env hfuel _ _

omit h in
/-- Skipping `if` ends. -/
theorem ends_ifSkipAll : Ends (ezMarks V) n (ifSkipAll env fuel) := by
  unfold ifSkipAll
  apply (ends_expect env .leftBanana _ n).bind
  intro _
  apply (ends_expressionSkipUntilRightBanana env hfuel).bind
  intro _
  apply (ends_expect env .rightBanana _ n).bind
  intro _
  apply (ends_skipBraces env hfuel _ _).bind
  intro _
  apply (ends_ifSkipElseRemain env hfuel).bind
  exact fun _ => ends_pure n env.zero

/-- Checking `if` ends. -/
theorem ends_ifCheck : Ends (ezMarks V) n (ifCheck env fuel expression) := by
  unfold ifCheck
  apply (ends_expect env .leftBanana _ n).bind
  intro _
  apply h.ends.bind
  intro _
  apply (ends_expect env .rightBanana _ n).bind
  intro _
  apply (ends_inBraces env hfuel h _ _).bind
  intro _
  apply ends_elseChain env hfuel
  · apply (ends_expect env .leftBanana _ n).bind
    intro _
    apply h.ends.bind
    intro _
    apply (ends_expect env .rightBanana _ n).bind
    intro _
    apply (ends_inBraces env hfuel h _ _).bind
    exact fun _ => ends_pure n none
  · apply (ends_inBraces env hfuel h _ _).bind
    exact fun _ => ends_pure n env.zero

/-- Running `if` ends. -/
theorem ends_ifDo : Ends (ezMarks V) n (ifDo env fuel expression) := by
  unfold ifDo
  apply (ends_expect env .leftBanana _ n).bind
  intro _
  apply h.ends.bind
  intro c
  apply (ends_expect env .rightBanana _ n).bind
  intro _
  cases env.isTrue c with
  | true =>
    apply (ends_inBraces env hfuel h _ _).bind
    intro f1
    apply (ends_ifSkipElseRemain env hfuel).bind
    exact fun _ => ends_pure n f1
  | false =>
    apply (ends_skipBraces env hfuel _ _).bind
    intro _
    apply ends_elseChain env hfuel
    · apply (ends_expect env .leftBanana _ n).bind
      intro _
      apply h.ends.bind
      intro c
      apply (ends_expect env .rightBanana _ n).bind
      intro _
      cases env.isTrue c with
      | true =>
        apply (ends_inBraces env hfuel h _ _).bind
        intro f1
        apply (ends_ifSkipElseRemain env hfuel).bind
        exact fun _ => ends_pure n (some f1)
      | false =>
        apply (ends_skipBraces env hfuel _ _).bind
        exact fun _ => ends_pure n none
    · exact ends_inBraces env hfuel h _ _

/-- `if` ends. -/
theorem ends_expressionIf : Ends (ezMarks V) n (expressionIf env fuel expression) :=
  Ends.branch (ends_ifCheck env hfuel h)
    (Ends.branch (ends_ifSkipAll env hfuel) (ends_ifDo env hfuel h))

omit hfuel in
/-- Working out the value of an assignment ends. -/
theorem ends_assignedNumber (f1 : V) (t : EzSet) :
    Ends (ezMarks V) n (assignedNumber env expression f1 t) := by
  have hoperate : Ends (ezMarks V) n (do
      let f2 ← expression
      note (.operateSet t f1 f2)
      pure (env.operateSet t f1 f2, f1)) := by
    apply h.ends.bind
    intro f2
    apply (ends_note n (by simp)).bind
    exact fun _ => ends_pure n _
  unfold assignedNumber
  cases t with
  | dplus => exact ends_pure n _
  | dminus => exact ends_pure n _
  | equal => exact h.ends.bind fun f2 => ends_pure n (f2, f2)
  | _ => exact hoperate

omit hfuel in
/-- Assigning a number ends. -/
theorem ends_expressionSetNumber (i : ℕ) :
    Ends (ezMarks V) n (expressionSetNumber env expression i) := by
  unfold expressionSetNumber
  apply Ends.read
  intro s
  split
  · next t _ =>
    apply (ends_getSym env n).bind
    intro _
    apply (ends_assignedNumber env h _ t).bind
    intro assigned
    apply (ends_note n (by simp)).bind
    intro _
    refine (Ends.skipWhen ?_).bind fun _ => ends_pure n assigned.2
    refine Ends.bind (ends_updateExp n fun _ => ?_) fun _ => ends_note n (by simp)
    exact ⟨rfl, rfl, rfl, rfl⟩
  · exact ends_pure n _

omit hfuel h in
/-- Assigning a text ends. -/
theorem ends_expressionSetString (i : ℕ) : Ends (ezMarks V) n (expressionSetString env i) := by
  have hset : ∀ (f : EzExp V → EzString) (step : EzStep V), step ≠ .round .rightBraces .funcFunction →
      Ends (ezMarks V) n (do
        updateExp fun e => { e with regString := Function.update e.regString i (f e) }
        note step) := by
    intro f step hstep
    refine Ends.bind (ends_updateExp n fun _ => ?_) fun _ => ends_note n hstep
    exact ⟨rfl, rfl, rfl, rfl⟩
  unfold expressionSetString
  apply (ends_note n (by simp)).bind
  intro _
  apply (Ends.skipWhen (hset (fun _ => .freed) _ (by simp))).bind
  intro _
  apply (ends_expect env _ _ n).bind
  intro _
  apply (Ends.skipWhen (hset tokenString _ (by simp))).bind
  exact fun _ => ends_expect env _ _ n

/-- `max` ends. -/
theorem ends_expressionMax : Ends (ezMarks V) n (expressionMax env fuel expression) := by
  unfold expressionMax
  apply h.ends.bind
  intro max
  apply ends_whileSym env hfuel rfl
  intro max
  apply h.ends.bind
  exact fun f1 => ends_pure n _

/-- `min` ends. -/
theorem ends_expressionMin : Ends (ezMarks V) n (expressionMin env fuel expression) := by
  unfold expressionMin
  apply h.ends.bind
  intro min
  apply ends_whileSym env hfuel rfl
  intro min
  apply h.ends.bind
  exact fun f1 => ends_pure n _

omit hfuel in
/-- Printing a value ends. -/
theorem ends_expressionPrintValue : Ends (ezMarks V) n (expressionPrintValue env expression) := by
  unfold expressionPrintValue
  apply Ends.branch
  · apply (ends_note n (by simp)).bind
    intro _
    apply (ends_note n (by simp)).bind
    exact fun _ => ends_getSym env n
  · apply h.ends.bind
    intro _
    apply (ends_note n (by simp)).bind
    exact fun _ => ends_note n (by simp)

/-- `print` ends. -/
theorem ends_expressionPrint : Ends (ezMarks V) n (expressionPrint env fuel expression) := by
  unfold expressionPrint
  apply (ends_expressionPrintValue env h).bind
  intro _
  refine (ends_whileSym env hfuel rfl (fun k => ?_) 1).bind fun k => ends_pure n _
  apply (ends_expressionPrintValue env h).bind
  exact fun _ => ends_pure n (k + 1)

omit hfuel h in
/-- Going back to a mark tracks. -/
theorem tracks_forJump (mark : ForMark) : Tracks (ezMarks V) (forJump env mark) := by
  have hback : Tracks (ezMarks V) (updateExp fun e : EzExp V =>
      { e with tokenizer := { e.tokenizer with p := mark.p, lnNum := mark.lnNum } }) :=
      tracks_update fun _ => rfl
  exact hback.bind fun _ => (ends_getSym env 0).tracks

/-- Expressions with commas between them end. -/
theorem ends_forExpressions : Ends (ezMarks V) n (forExpressions env fuel expression) := by
  unfold forExpressions
  apply h.ends.bind
  intro _
  apply ends_whileSym env hfuel rfl
  intro _
  apply h.ends.bind
  exact fun _ => ends_pure n ()

omit hfuel in
/-- Working out the condition of `for` tracks. -/
theorem tracks_forGetCond (mark : ForMark) : Tracks (ezMarks V) (forGetCond env expression mark) := by
  unfold forGetCond
  apply (tracks_forJump env mark).bind
  intro _
  apply (ends_expect env .semicolon _ n).tracks.bind
  intro _
  refine Tracks.bind (Tracks.branch (tracks_pure true) ?_) fun cond => ?_
  · exact h.ends.tracks.bind fun c => tracks_pure _
  · exact Tracks.read fun s => tracks_pure _

/-- The operation of `for` tracks. -/
theorem tracks_forDoOp (mark : ForMark) : Tracks (ezMarks V) (forDoOp env fuel expression mark) := by
  unfold forDoOp
  apply (tracks_forJump env mark).bind
  intro _
  apply (ends_expect env .semicolon _ n).tracks.bind
  exact fun _ => (ends_forExpressions env hfuel h).tracks.skipWhen

/-- The body of `for` tracks. -/
theorem tracks_forDoComma (mark : ForMark) :
    Tracks (ezMarks V) (forDoComma env fuel expression mark) := by
  unfold forDoComma
  apply (tracks_forJump env mark).bind
  intro _
  apply (ends_expect env .leftBraces _ n).tracks.bind
  intro _
  apply (ends_expressionComma env hfuel h).tracks.bind
  exact fun _ => tracks_pure ()

omit hfuel h in
/-- Skipping the body of `for` tracks. -/
theorem tracks_forSkipComma (mark : ForMark) : Tracks (ezMarks V) (forSkipComma env fuel mark) := by
  unfold forSkipComma
  apply (tracks_forJump env mark).bind
  exact fun _ => (ends_skipBraces env (le_refl fuel) _ _).tracks

/-- The start of `for` tracks. -/
theorem tracks_forInit : Tracks (ezMarks V) (forInit env fuel expression) := by
  unfold forInit forMark
  apply (ends_expect env .leftBanana _ n).tracks.bind
  intro _
  apply (ends_forExpressions env hfuel h).tracks.skipWhen.bind
  intro _
  refine Tracks.bind (Tracks.read fun s => tracks_pure _) fun mark => ?_
  apply (ends_expect env .semicolon _ n).tracks.bind
  exact fun _ => tracks_pure mark

omit hfuel h in
/-- Flags of its own do not matter to a loop that tracks. -/
theorem tracks_withFlag {α : Type} {loop : EzM V α} (hloop : Tracks (ezMarks V) loop) :
    Tracks (ezMarks V) (withFlag loop) := by
  unfold withFlag
  apply Tracks.read
  intro s
  apply (ends_updateFlag _ 0).tracks.bind
  intro _
  apply hloop.bind
  intro a
  apply (ends_updateFlag _ 0).tracks.bind
  exact fun _ => tracks_pure a

omit hfuel h in
/-- Taking a mark tracks. -/
theorem tracks_forMark : Tracks (ezMarks V) (forMark : EzM V ForMark) :=
  Tracks.read fun _ => tracks_pure _

/-- Checking `for` tracks. -/
theorem tracks_expressionForCheck : Tracks (ezMarks V) (expressionForCheck env fuel expression) := by
  unfold expressionForCheck
  apply tracks_withFlag
  apply (tracks_forInit env hfuel h).bind
  intro pCond
  apply (tracks_forGetCond env h pCond).bind
  intro _
  apply tracks_forMark.bind
  intro pOp
  apply (ends_expect env .semicolon _ n).tracks.bind
  intro _
  apply (tracks_forDoOp env hfuel h pOp).bind
  intro _
  apply (ends_expect env .rightBanana _ n).tracks.bind
  intro _
  apply tracks_forMark.bind
  intro pComma
  apply (ends_expect env .leftBraces _ n).tracks.bind
  intro _
  apply (tracks_forDoComma env hfuel h pComma).bind
  exact fun _ => (ends_expect env .rightBraces _ n).tracks

omit hfuel h in
/-- Skipping `for` tracks. -/
theorem tracks_expressionSkipForAll : Tracks (ezMarks V) (expressionSkipForAll env fuel) := by
  unfold expressionSkipForAll
  apply (ends_expect env .leftBanana _ fuel).tracks.bind
  intro _
  apply (ends_expressionSkipUntilRightBanana env (le_refl fuel)).tracks.bind
  intro _
  apply (ends_expect env .rightBanana _ fuel).tracks.bind
  exact fun _ => (ends_skipBraces env (le_refl fuel) _ _).tracks

/-- The iterations of `for` behind the first one track. -/
theorem tracks_forLoop (pCond pOp pComma : ForMark) :
    Tracks (ezMarks V) (forLoop env fuel expression pCond pOp pComma) := by
  unfold forLoop
  refine Tracks.bind (Tracks.rounds (fun cond => Tracks.branch ?_ (tracks_pure _)) _ _) fun _ =>
    tracks_pure ()
  apply (tracks_forGetCond env h pCond).bind
  intro cond
  refine Tracks.bind (Tracks.skipWhen ?_) fun _ => tracks_pure (cond, true)
  apply (tracks_forDoComma env hfuel h pComma).bind
  intro _
  apply (ends_updateFlag _ 0).tracks.bind
  exact fun _ => (tracks_forDoOp env hfuel h pOp).skipWhen

/-- Running `for` tracks. -/
theorem tracks_expressionForDo : Tracks (ezMarks V) (expressionForDo env fuel expression) := by
  unfold expressionForDo
  apply tracks_withFlag
  apply (tracks_forInit env hfuel h).bind
  intro pCond
  apply (tracks_forGetCond env h pCond).bind
  intro cond
  apply tracks_forMark.bind
  intro pOp
  apply (ends_expect env .semicolon _ n).tracks.bind
  intro _
  apply (ends_expressionSkipUntilRightBanana env hfuel).tracks.bind
  intro _
  apply (ends_expect env .rightBanana _ n).tracks.bind
  intro _
  apply tracks_forMark.bind
  intro pComma
  apply (ends_expect env .leftBraces _ n).tracks.bind
  intro _
  apply ((tracks_forDoComma env hfuel h pComma).branch
    (ends_expressionSkipUntilRightBraces env hfuel).tracks).bind
  intro _
  apply (ends_expect env .rightBraces _ n).tracks.bind
  intro _
  refine Tracks.bind (Tracks.skipWhen ?_) fun _ => tracks_forSkipComma env pComma
  apply (tracks_forDoOp env hfuel h pOp).bind
  exact fun _ => tracks_forLoop env hfuel h pCond pOp pComma

/-- `for` tracks. -/
theorem tracks_expressionFor : Tracks (ezMarks V) (expressionFor env fuel expression) :=
  (tracks_expressionForCheck env hfuel h).branch
    ((tracks_expressionSkipForAll env).branch (tracks_expressionForDo env hfuel h))

omit hfuel in
/-- The argument of one register tracks. -/
theorem tracks_customArg (args : CustomArgs V) (reg : EzReg) :
    Tracks (ezMarks V) (customArg env expression args reg) := by
  unfold customArg
  simp only
  split
  · exact h.ends.tracks.bind fun x => tracks_pure _
  · apply Tracks.read
    intro s
    exact (ends_getSym env n).tracks.bind fun _ => tracks_pure _
  · exact tracks_pure _

omit hfuel in
/-- The arguments of a custom function track. -/
theorem tracks_customArgs (regs : List EzReg) (args : CustomArgs V) :
    Tracks (ezMarks V) (customArgs env expression regs args) := by
  induction regs generalizing args with
  | nil => exact tracks_pure args
  | cons reg regs ih =>
    unfold customArgs
    dsimp only
    split
    · exact (tracks_customArg env h args reg).bind ih
    · refine Tracks.bind (Tracks.branch ?_ (tracks_pure _)) ih
      apply (ends_getSym env n).tracks.bind
      exact fun _ => tracks_customArg env h args reg

/-- Running a custom function tracks. -/
theorem tracks_customRun (e : EzExp V) : Tracks (ezMarks V) (customRun env fuel expression e) := by
  unfold customRun
  apply Tracks.read
  intro main
  have hstart : Tracks (ezMarks V) (FuelRun.update fun s : EzState V => { s with
      e := e, flag := {}, unreached := s.unreached || s.e.isCheck || s.flag.skip || s.e.isReturn
      inner := true }) :=
    tracks_update fun _ => rfl
  have hend : Tracks (ezMarks V) (FuelRun.update fun s : EzState V =>
      { s with e := main.e, flag := main.flag, unreached := main.unreached, inner := main.inner }) :=
      tracks_update fun _ => rfl
  apply hstart.bind
  intro _
  apply (ends_getSym env n).tracks.bind
  intro _
  apply (ends_expressionComma env hfuel h).tracks.bind
  intro f1
  refine Tracks.bind (Tracks.branch (Tracks.read fun s => tracks_pure _) ?_) fun result => ?_
  · exact (ends_expect env .eof _ n).tracks.bind fun _ => tracks_pure f1
  · exact hend.bind fun _ => tracks_pure result

/-- The call of a custom function tracks. -/
theorem tracks_expressionCustom (custom : Option EzCustom) :
    Tracks (ezMarks V) (expressionCustom env fuel expression custom) := by
  unfold expressionCustom
  cases custom with
  | none => exact tracks_pure env.zero
  | some custom =>
    apply Tracks.read
    intro s
    refine Tracks.bind (tracks_update fun _ => rfl) fun _ => ?_
    apply (ends_note n (by simp)).tracks.bind
    intro _
    refine Tracks.bind (Tracks.branch (tracks_pure _) ?_) fun args => ?_
    · apply (tracks_customArgs env h _ _).bind
      intro args
      refine Tracks.bind (ends_whileSym env hfuel rfl (fun _ => ?_) ()).tracks fun _ => tracks_pure args
      exact h.ends.bind fun _ => ends_pure n ()
    · apply (ends_note n (by simp)).tracks.bind
      exact fun _ => tracks_customRun env hfuel h _

end Blocks

end DasEdge.Expression
