import DasEdge.Expression.EzWalk

/-!
# Errors that are lost

`__error` notes an error in the interpreter that it is called for. A custom function runs on an
interpreter of its own, which is thrown away with its error; the tokens at which loading the definitions
of a text stops are dropped; and behind `return` the function does nothing, since the cursor has gone to
the end of the text by then. `evaluate` reports what is left.
-/

namespace DasEdge.Expression

open DasEdge.Library FuelRun

variable {V : Type}

/-- `evaluate`: its value and `*is_error`, when it ends. -/
def evaluate (env : EzEnv V) (fuel : ℕ) (exp : List Char) (name : Option (List Char))
    (tables : EzTables) : Option (V × Bool) :=
  (ezExpRun env fuel (ezExpStart env false exp name tables)).1.map fun val =>
    (val, (ezExpRun env fuel (ezExpStart env false exp name tables)).2.e.isError)

/-- An error is raised, by `__error` or by the tokenizer while the definitions of a custom function's
code are loaded. Calls of `__error` behind `return` may be counted or not. -/
def EzEvent.raises (behindReturn : Bool) (event : EzEvent V) : Bool :=
  match event.step with
  | .error _ => behindReturn || !event.isReturn
  | .load tk => tk ≠ .eof
  | _ => false

/-- An error that the interpreter of the script raises where no `return` is in effect. -/
def EzEvent.reported (event : EzEvent V) : Bool :=
  match event.step with
  | .error _ => !event.isReturn && !event.inner
  | _ => false

/-- An error is raised somewhere in an evaluation, or while the definitions of its text are loaded. -/
def ErrorRaised (behindReturn : Bool) (env : EzEnv V) (fuel : ℕ) (exp : List Char)
    (name : Option (List Char)) (tables : EzTables) : Prop :=
  tokenizerInitStop env.scan env.zero exp tables ≠ .eof ∨
    ∃ event ∈ (ezExpRun env fuel (ezExpStart env false exp name tables)).2.log,
      event.raises behindReturn = true

/-- An error is raised by the interpreter of the script where no `return` is in effect. -/
def ErrorReported (env : EzEnv V) (fuel : ℕ) (exp : List Char) (name : Option (List Char))
    (tables : EzTables) : Prop :=
  ∃ event ∈ (ezExpRun env fuel (ezExpStart env false exp name tables)).2.log, event.reported = true

/-- The error flag of the script's interpreter goes up exactly with the errors that it reports, and
that of a custom function's interpreter does not matter. -/
structure FlagsErrors (s t : EzState V) : Prop where
  inner : t.inner = s.inner
  grows : ∃ events, t.log = events ++ s.log ∧
    (s.inner = false → (t.e.isError = true ↔ s.e.isError = true ∨
      ∃ event ∈ events, event.reported = true)) ∧
    (s.inner = true → ∀ event ∈ events, event.reported = false)

/-- Steps that report nothing keep the flag. -/
theorem flagsErrors_quiet {s t : EzState V} (hinner : t.inner = s.inner)
    (hflag : t.e.isError = s.e.isError) (events : List (EzEvent V)) (hlog : t.log = events ++ s.log)
    (hevents : ∀ event ∈ events, event.reported = false) : FlagsErrors s t := by
  refine ⟨hinner, events, hlog, fun _ => ?_, fun _ => hevents⟩
  have hnone : ¬ ∃ event ∈ events, event.reported = true := by
    rintro ⟨event, hmem, hreported⟩
    exact absurd ((hevents event hmem).symm.trans hreported) (by decide)
  rw [hflag, or_iff_left hnone]

/-- Pieces one after the other flag their errors. -/
theorem FlagsErrors.trans {s t u : EzState V} (h : FlagsErrors s t) (h' : FlagsErrors t u) :
    FlagsErrors s u := by
  obtain ⟨hinner, events, hlog, houter, hinside⟩ := h
  obtain ⟨hinner', events', hlog', houter', hinside'⟩ := h'
  refine ⟨hinner'.trans hinner, events' ++ events, by rw [hlog', hlog, List.append_assoc],
    fun hs => ?_, fun hs event hmem => ?_⟩
  · rw [houter' (hinner.trans hs), houter hs]
    simp only [List.mem_append, or_and_right, exists_or]
    exact ⟨fun h => h.elim (fun h => h.imp_right .inr) fun h => .inr (.inl h),
      fun h => h.elim (fun h => .inl (.inl h)) fun h => h.elim .inr fun h => .inl (.inr h)⟩
  · rcases List.mem_append.mp hmem with hmem | hmem
    · exact hinside' (hinner.trans hs) event hmem
    · exact hinside hs event hmem

/-- What is asked of the runs that end. -/
def errorOutcome (V : Type) : Outcome (EzState V) where
  done := FlagsErrors
  spent _ _ := True
  done_refl _ := flagsErrors_quiet rfl rfl [] rfl fun _ h => absurd h List.not_mem_nil
  done_trans := FlagsErrors.trans
  spent_refl _ := trivial
  spent_trans _ _ := trivial

/-- `__error` sets the flag unless `return` is in effect. -/
theorem flagsErrors_raise (msg : Option String) (s : EzState V) : FlagsErrors s (raise msg s).2 := by
  have hlog : (raise msg s).2.log = [s.event (.error msg)] ++ s.log := rfl
  refine ⟨rfl, [s.event (.error msg)], hlog, fun hs => ?_, fun hs event hmem => ?_⟩
  · have hflag : (raise msg s).2.e.isError = (!s.e.isReturn || s.e.isError) := by
      have he : (raise msg s).2.e = if s.e.isReturn || s.e.isError then s.e else
        { s.e with
          isError := true
          error := some ⟨s.e.tokenizer.lnNum % 65536 + 1, columnNum s.e.tokenizer, msg⟩ } := rfl
      rw [he]
      cases hreturn : s.e.isReturn <;> cases herror : s.e.isError <;> simp [herror]
    simp [hflag, EzState.event, EzEvent.reported, hs, or_comm]
  · rw [List.mem_singleton] at hmem
    subst hmem
    simp [EzState.event, EzEvent.reported, hs]

/-- All steps but errors keep the flag. -/
theorem errorOutcome_steps : EzSteps (errorOutcome V) where
  frame s t hmode :=
    flagsErrors_quiet hmode.inner hmode.isError [] hmode.log fun _ h => absurd h List.not_mem_nil
  raise msg s := holds_some.mpr (flagsErrors_raise msg s)
  simple step hstep s := by
    refine holds_some.mpr (flagsErrors_quiet rfl rfl [s.event step] rfl ?_)
    intro event hmem
    rw [List.mem_singleton] at hmem
    subst hmem
    cases step with
    | error msg => cases hstep
    | _ => rfl
  operate t f1 f2 s _ _ := by
    refine holds_some.mpr (flagsErrors_quiet rfl rfl [s.event (.operate t f1 f2)] rfl ?_)
    intro event hmem
    rw [List.mem_singleton] at hmem
    subst hmem
    rfl
  custom e body hbody s := by
    have hends := hbody (enterCustom e s)
    rw [insideCustom_apply]
    rcases hrun : body (enterCustom e s) with ⟨result, t⟩
    rw [hrun] at hends
    cases result with
    | none => exact holds_none.mpr trivial
    | some x =>
      obtain ⟨-, events, hlog, -, hinside⟩ := holds_some.mp hends
      exact holds_some.mpr (flagsErrors_quiet rfl rfl events hlog (hinside rfl))

/-- A text with a definition that does not load evaluates to 0 without an error. -/
theorem evaluate_of_loadFunctionError (env : EzEnv V) (fuel : ℕ) {exp : List Char}
    (name : Option (List Char)) {tables : EzTables}
    (h : tokenizerInitStop env.scan env.zero exp tables = .loadFunctionError) :
    evaluate env fuel exp name tables = some (env.zero, false) := by
  have herror := (tokenizerInit_error_iff env.scan env.zero exp tables).mpr h
  have hrun : ezExpRun env fuel (ezExpStart env false exp name tables) =
      (some env.zero, ezExpStart env false exp name tables) := if_pos herror
  rw [evaluate, hrun]
  rfl

/-- An evaluation that ends reports an error exactly when the interpreter of its script raises one where
no `return` is in effect. -/
theorem isError_iff_errorReported {env : EzEnv V} {fuel : ℕ} {exp : List Char}
    {name : Option (List Char)} {tables : EzTables} {val : V} {isError : Bool}
    (h : evaluate env fuel exp name tables = some (val, isError)) :
    isError = true ↔ ErrorReported env fuel exp name tables := by
  have hwalk := (errorOutcome_steps (V := V)).walk env
  have hends := leads_ezExpRun hwalk fuel (ezExpStart env false exp name tables)
  rw [evaluate] at h
  rw [ErrorReported]
  rcases hrun : ezExpRun env fuel (ezExpStart env false exp name tables) with ⟨result, t⟩
  rw [hrun] at h hends
  cases result with
  | none => cases h
  | some x =>
    obtain ⟨-, events, hlog, houter, -⟩ := holds_some.mp hends
    have hflag : t.e.isError = isError := congrArg Prod.snd (Option.some.inj h)
    have hall : t.log = events := hlog.trans (List.append_nil events)
    rw [← hflag, houter rfl, hall]
    exact or_iff_right (by simp [ezExpStart, ezExpInit])

/-- What is reported was raised. -/
theorem ErrorReported.raised {env : EzEnv V} {fuel : ℕ} {exp : List Char} {name : Option (List Char)}
    {tables : EzTables} (h : ErrorReported env fuel exp name tables) (behindReturn : Bool) :
    ErrorRaised behindReturn env fuel exp name tables := by
  obtain ⟨event, hmem, hreported⟩ := h
  refine .inr ⟨event, hmem, ?_⟩
  rcases event with ⟨step, isCheck, isSkip, isReturn, unreached, inner⟩
  cases step with
  | error msg =>
    simp only [EzEvent.reported, Bool.and_eq_true, Bool.not_eq_true'] at hreported
    simp [EzEvent.raises, hreported.1]
  | _ => cases hreported

end DasEdge.Expression
