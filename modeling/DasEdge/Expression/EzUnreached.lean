import DasEdge.Expression.EzRelates

/-!
# Code that is not reached

Most branches of `_factor` look at the flags before they call a function, but the functions without
arguments and `#` do not; a string register is freed before anything is looked at, and a number is
assigned behind `return`, where the skip of a loop's body puts the cursor back into the text. A
check calls every function that it meets. A run has no effect in code that is not reached, as long
as it does not come to one of these places there; and a check calls a function without arguments
exactly when it meets one.
-/

namespace DasEdge.Expression

open DasEdge.Library FuelRun

variable {V : Type}

/-- Steps that call a function of the outside or change a register. -/
def EzStep.isEffect : EzStep V → Bool
  | .call _ | .setNumber _ | .freeString _ | .setString _ => true
  | _ => false

/-- The symbol of a function without arguments, or its call. -/
def EzStep.isFunction0 : EzStep V → Bool
  | .call c =>
    match c with
    | .function0 _ => true
    | _ => false
  | .factor sym =>
    match sym with
    | .function0 _ => true
    | _ => false
  | _ => false

/-- No `break`, `continue` or `return` is in effect at the step, and none was where its function was
called. -/
def EzEvent.reached (event : EzEvent V) : Bool := !event.isSkip && !event.isReturn && !event.unreached

/-- What the step needs, so that nothing happens in code that is not reached: a function without
arguments and `#` are only met, a string register is only assigned, and the arguments of a call only
end, in code that is reached, and a number is not assigned behind `return`. -/
def EzEvent.guarded (event : EzEvent V) : Bool :=
  match event.step with
  | .factor sym =>
    match sym with
    | .function0 _ | .funcVarAlias => event.reached
    | _ => true
  | .assign _ type =>
    match type with
    | .number => event.isSkip || event.reached
    | _ => event.reached
  | .arguments _ => event.reached
  | _ => true

/-- Only steps of some kind are added, and nothing else that events record changes. -/
def Adds (P : EzStep V → Prop) (s t : EzState V) : Prop :=
  t.event = s.event ∧ ∃ events, t.log = events ++ s.log ∧ ∀ event ∈ events, P event.step ∧
    event = s.event event.step

instance (P : EzStep V → Prop) : IsPreorder (EzState V) (Adds P) where
  refl s := ⟨rfl, [], rfl, fun _ h => absurd h List.not_mem_nil⟩
  trans s t u h h' := by
    obtain ⟨hevent, events, hlog, hevents⟩ := h
    obtain ⟨hevent', events', hlog', hevents'⟩ := h'
    refine ⟨hevent'.trans hevent, events' ++ events, by rw [hlog', hlog, List.append_assoc], ?_⟩
    intro event hmem
    rcases List.mem_append.mp hmem with hmem | hmem
    · exact hevent ▸ hevents' event hmem
    · exact hevents event hmem

section Adds

variable {P : EzStep V → Prop}

/-- Changes that no event records add nothing. -/
theorem adds_frame {s t : EzState V} (hlog : t.log = s.log) (hevent : t.event = s.event) : Adds P s t :=
  ⟨hevent, [], hlog, fun _ h => absurd h List.not_mem_nil⟩

/-- Recording a step adds it. -/
theorem adds_note {step : EzStep V} (hstep : P step) : Relates (Adds P) (note step) := fun s =>
  ⟨rfl, [s.event step], rfl, fun event hmem => by
    rw [List.mem_singleton] at hmem
    subst hmem
    exact ⟨hstep, rfl⟩⟩

/-- A change of the interpreter in the same mode. -/
theorem adds_updateExp {f : EzExp V → EzExp V}
    (hf : ∀ e, (f e).isCheck = e.isCheck ∧ (f e).isReturn = e.isReturn) :
    Relates (Adds P) (updateExp f) := fun s => adds_frame rfl (by
  funext step
  simp only [EzState.event, updateExp, update_apply, (hf s.e).1, (hf s.e).2])

/-- A call of a function. -/
theorem adds_callFunction (env : EzEnv V) {c : EzCall V} (hc : P (.call c)) :
    Relates (Adds P) (callFunction env c) := by
  apply Relates.read
  intro s
  exact (adds_updateExp fun _ => ⟨rfl, rfl⟩).bind fun _ => adds_note hc

/-- An assignment of a number behind its record, unless it is skipped. -/
theorem adds_setNumber {n : ℕ} (hset : P (.setNumber n)) {f : EzExp V → EzExp V}
    (hf : ∀ e, (f e).isCheck = e.isCheck ∧ (f e).isReturn = e.isReturn) :
    Relates (Adds P) (FuelRun.skipWhen (fun s => s.flag.skip) do
      updateExp f
      note (.setNumber n)) :=
  ((adds_updateExp hf).bind fun _ => adds_note hset).skipWhen

variable (hP : ∀ step, step.isFunction0 = false → P step)
include hP

/-- An error. -/
theorem adds_raise (msg : Option String) : Relates (Adds P) (raise msg) := by
  refine (adds_note (hP _ rfl)).bind fun _ => adds_updateExp fun e => ?_
  split
  · exact ⟨rfl, rfl⟩
  · exact ⟨rfl, rfl⟩

variable (env : EzEnv V)

/-- Reading a token. -/
theorem adds_getSym : Relates (Adds P) (getSym env) := by
  have hnext : Relates (Adds P) (FuelRun.update fun s =>
      nextSym env { s with e := { s.e with lastSym := s.e.sym } }) :=
    fun _ => adds_frame rfl rfl
  apply hnext.bind
  intro _
  exact (Relates.read fun s => adds_raise hP _).skipWhen

/-- Expecting a symbol. -/
theorem adds_expect (t : EzToken) (msg : String) : Relates (Adds P) (expect env t msg) := by
  refine Relates.bind (Relates.branch ?_ (relates_pure false)) fun accepted => ?_
  · exact (adds_getSym hP env).bind fun _ => relates_pure true
  · cases accepted with
    | true => exact relates_pure ()
    | false => exact adds_raise hP (some msg)

/-- A call for a string register. -/
theorem adds_callString (n : ℕ) (msg : String) : Relates (Adds P) (callString env n msg) := by
  apply Relates.read
  intro s
  split
  · exact adds_callFunction env (hP _ rfl)
  · exact adds_raise hP _

/-- The argument of the function of a string. -/
theorem adds_factorString : Relates (Adds P) (factorString env) := by
  apply Relates.read
  intro s
  split
  · exact adds_callString hP env _ _
  · exact adds_callFunction env (hP _ rfl)
  · exact adds_callFunction env (hP _ rfl)

/-- `#` -/
theorem adds_factorAlias : Relates (Adds P) (factorAlias env) := by
  apply Relates.read
  intro s
  apply (adds_getSym hP env).bind
  intro _
  apply Relates.read
  intro t
  split
  · split
    · exact relates_pure ()
    · exact adds_callFunction env (hP _ rfl)
  · split
    · exact (adds_callString hP env _ _).bind fun _ => adds_getSym hP env
    · exact adds_callFunction env (hP _ rfl)

/-- An assignment of a string behind its record. -/
theorem adds_setString (n : ℕ) : Relates (Adds P) (do
    FuelRun.skipWhen (fun s => s.e.regString n = .null) do
      updateExp fun e => { e with regString := Function.update e.regString n .freed }
      note (.freeString n)
    expect env (.set .equal) "@xxx just support @xxx = '123'"
    FuelRun.skipWhen (fun s => s.e.sym ≠ .string || s.flag.skip) do
      updateExp fun e => { e with regString := Function.update e.regString n (tokenString e) }
      note (.setString n)
    expect env .string "@xxx = 'string' lost 'string'") := by
  refine Relates.bind (Relates.skipWhen ?_) fun _ => ?_
  · exact (adds_updateExp fun _ => ⟨rfl, rfl⟩).bind fun _ => adds_note (hP _ rfl)
  apply (adds_expect hP env (.set .equal) _).bind
  intro _
  refine Relates.bind (Relates.skipWhen ?_) fun _ => adds_expect hP env .string _
  exact (adds_updateExp fun _ => ⟨rfl, rfl⟩).bind fun _ => adds_note (hP _ rfl)

end Adds

/-- `break`, `continue` and `return` are not in effect, neither here nor where the function was
called. -/
def EzState.reached (s : EzState V) : Bool := !s.flag.skip && !s.e.isReturn && !s.unreached

/-- A step that needs to be guarded was taken in code that is not reached. -/
def Slips (s : EzState V) : Prop := ∃ event ∈ s.log, event.guarded = false

/-- A run in which only code that is reached has had an effect. -/
structure Quiet (s : EzState V) : Prop where
  isCheck : s.e.isCheck = false
  unreached : s.unreached = false
  effects : ∀ event ∈ s.log, event.step.isEffect = true → event.reached = true

/-- A run stays quiet until it slips. -/
def QuietOrSlips (s t : EzState V) : Prop := (Slips s → Slips t) ∧ (Quiet s → Slips t ∨ Quiet t)

instance : IsPreorder (EzState V) QuietOrSlips where
  refl _ := ⟨id, .inr⟩
  trans _ _ _ h h' := ⟨h'.1 ∘ h.1, fun hs => (h.2 hs).elim (fun ht => .inl (h'.1 ht)) h'.2⟩

/-- A longer record of steps keeps what slipped. -/
theorem Slips.mono {s t : EzState V} (events : List (EzEvent V)) (hlog : t.log = events ++ s.log)
    (h : Slips s) :
    Slips t := by
  obtain ⟨event, hmem, hguard⟩ := h
  exact ⟨event, hlog ▸ List.mem_append_right events hmem, hguard⟩

/-- Where a piece adds steps in one mode, a run stays quiet if that mode is one of reached code. -/
theorem quiet_of_adds {P : EzStep V → Prop} {s t : EzState V} (h : Adds P s t)
    (hreached : Quiet s → Slips t ∨ s.reached = true) : QuietOrSlips s t := by
  obtain ⟨hevent, events, hlog, hevents⟩ := h
  refine ⟨Slips.mono events hlog, fun hquiet => (hreached hquiet).imp_right fun hs => ?_⟩
  have hmode : ∀ step : EzStep V, t.event step = s.event step := congrFun hevent
  refine ⟨?_, ?_, fun event hmem heffect => ?_⟩
  · exact (congrArg EzEvent.isCheck (hmode (.error none))).trans hquiet.isCheck
  · exact (congrArg EzEvent.unreached (hmode (.error none))).trans hquiet.unreached
  · rw [hlog] at hmem
    rcases List.mem_append.mp hmem with hmem | hmem
    · rw [(hevents event hmem).2]
      exact hs
    · exact hquiet.effects event hmem heffect

/-- A piece behind the record of a step. -/
theorem note_bind_apply {α : Type} (step : EzStep V) (f : Unit → EzM V α) (s : EzState V) :
    (note step >>= f) s = f () (s.record step) := rfl

/-- Recording a step that has no effect keeps a run quiet. -/
theorem Quiet.record {s : EzState V} (h : Quiet s) {step : EzStep V} (hstep : step.isEffect = false) :
    Quiet (s.record step) := by
  refine ⟨h.isCheck, h.unreached, fun event hmem heffect => ?_⟩
  rcases List.mem_cons.mp hmem with rfl | hmem
  · exact absurd (hstep.symm.trans heffect) (by decide)
  · exact h.effects event hmem heffect

/-- Recording a step keeps what slipped. -/
theorem Slips.record {s : EzState V} (h : Slips s) (step : EzStep V) : Slips (s.record step) :=
  h.mono [s.event step] rfl

/-- A piece that adds steps in one mode keeps a run quiet behind a step that slips in any other mode
than that of reached code. -/
theorem quiet_noted_at {P : EzStep V → Prop} {step : EzStep V} (hP : P step) {s : EzState V}
    (hguard : (s.event step).guarded = s.reached) {rest : EzM V Unit} (hrest : Relates (Adds P) rest) :
    QuietOrSlips s ((note step >>= fun _ => rest) s).2 := by
  have hadds : Adds P s ((note step >>= fun _ => rest) s).2 := (adds_note hP).bind (fun _ => hrest) s
  refine quiet_of_adds hadds fun _ => ?_
  cases hs : s.reached with
  | true => exact .inr rfl
  | false =>
    obtain ⟨-, events, hlog, -⟩ := hrest (s.record step)
    exact .inl (Slips.mono events hlog ⟨s.event step, List.mem_cons_self, hguard.trans hs⟩)

/-- A piece behind a step that is guarded in reached code only. -/
theorem quiet_noted {P : EzStep V → Prop} {step : EzStep V} (hP : P step)
    (hguard : ∀ s : EzState V, (s.event step).guarded = s.reached) {rest : EzM V Unit}
    (hrest : Relates (Adds P) rest) : Relates QuietOrSlips (note step >>= fun _ => rest) :=
  fun s => quiet_noted_at hP (hguard s) hrest

/-- The assignment of a number is skipped behind `break` and `continue`. -/
theorem quiet_number (n : ℕ) {f : EzExp V → EzExp V}
    (hf : ∀ e, (f e).isCheck = e.isCheck ∧ (f e).isReturn = e.isReturn) : Relates QuietOrSlips (do
      note (.assign n .number)
      FuelRun.skipWhen (fun s => s.flag.skip) do
        updateExp f
        note (.setNumber n)) := by
  intro s
  cases hskip : s.flag.skip with
  | true =>
    have hend : ((note (.assign n .number) >>= fun _ => FuelRun.skipWhen (fun s => s.flag.skip) (do
        updateExp f
        note (.setNumber n))) s).2 = s.record (.assign n .number) :=
      congrArg Prod.snd (if_pos hskip)
    rw [hend]
    exact ⟨fun h => h.record _, fun h => .inr (h.record rfl)⟩
  | false =>
    refine quiet_noted_at (P := fun _ => True) trivial ?_ (adds_setNumber trivial hf)
    have hguard : (s.event (.assign n .number)).guarded = (s.flag.skip || s.reached) := rfl
    rw [hguard, hskip, Bool.false_or]

/-- A body that is entered in reached code is quiet at its start. -/
theorem quiet_enterCustom {e : EzExp V} (he : e.isCheck = false) {s : EzState V} (hs : Quiet s)
    (hreached : s.reached = true) : Quiet (enterCustom e s) := by
  simp only [EzState.reached, Bool.and_eq_true, Bool.not_eq_true'] at hreached
  refine ⟨he, ?_, hs.effects⟩
  simp [enterCustom, hs.unreached, hs.isCheck, hreached.1]

/-- A custom function that is entered in reached code keeps a run quiet when its body does. -/
theorem quiet_insideCustom {e : EzExp V} {body : EzM V V} (he : e.isCheck = false)
    (hbody : Relates QuietOrSlips body) : Relates QuietOrSlips (do
    note (.arguments .funcCustom)
    insideCustom e body) := by
  intro s
  obtain ⟨noted, hnoted⟩ : ∃ noted, noted = s.record (.arguments .funcCustom) := ⟨_, rfl⟩
  have hgrows : Slips s → Slips (enterCustom e noted) := fun hs => hnoted ▸ hs.record _
  have hquiet : Quiet s → Slips (enterCustom e noted) ∨ Quiet (enterCustom e noted) := by
    intro hs
    cases hreached : s.reached with
    | false =>
      exact .inl ⟨s.event (.arguments .funcCustom), by simp [hnoted, enterCustom,
        EzState.record], hreached⟩
    | true => exact .inr (quiet_enterCustom he (hnoted ▸ hs.record rfl) (hnoted ▸ hreached))
  have hends := hbody (enterCustom e noted)
  have hend : ((note (.arguments .funcCustom) >>= fun _ => insideCustom e body) s).2 =
      (insideCustom e body noted).2 := by rw [hnoted]; rfl
  rw [hend, insideCustom_apply]
  dsimp only
  have hrun : Quiet s → Slips (body (enterCustom e noted)).2 ∨ Quiet (body (enterCustom e noted)).2 :=
    fun hs => (hquiet hs).elim (fun h => .inl (hends.1 h)) hends.2
  split
  · refine ⟨fun hs => hends.1 (hgrows hs), fun hs => (hrun hs).imp id fun ht => ?_⟩
    exact ⟨hnoted ▸ hs.isCheck, hnoted ▸ hs.unreached, ht.effects⟩
  · exact ⟨fun hs => hends.1 (hgrows hs), hrun⟩

/-- The whole interpreter stays quiet until it slips. -/
theorem quiet_related (env : EzEnv V) : EzRelated env QuietOrSlips where
  frame s t hlog hcheck hunreached := by
    refine ⟨Slips.mono [] hlog,
      fun hs => .inr ⟨hcheck.trans hs.isCheck, hunreached.trans hs.unreached, ?_⟩⟩
    exact hlog ▸ hs.effects
  plain step hstep s := by
    refine ⟨fun h => h.record step, fun h => .inr (h.record ?_)⟩
    cases step with
    | call | setNumber | freeString | setString => cases hstep
    | _ => rfl
  number n f hf := quiet_number n hf
  string n :=
    quiet_noted (P := fun _ => True) trivial (fun _ => rfl)
    (adds_setString (fun _ _ => trivial) env n)
  function0 f := by
    refine quiet_noted (P := fun _ => True) trivial (fun _ => rfl) ?_
    apply (adds_getSym (fun _ _ => trivial) env).bind
    intro _
    apply (adds_expect (fun _ _ => trivial) env .leftBanana _).bind
    exact fun _ => adds_callFunction env trivial
  varAlias :=
    quiet_noted (P := fun _ => True) trivial (fun _ => rfl)
    (adds_factorAlias (fun _ _ => trivial) env)
  argument s hs := by
    refine quiet_of_adds (adds_factorString (P := fun _ => True) (fun _ _ => trivial) env s)
      fun hquiet => .inr ?_
    simp only [EzState.skips, EzExp.returns, hquiet.isCheck, Bool.not_false, Bool.true_and,
      Bool.or_eq_false_iff] at hs
    simp [EzState.reached, hs.1, hs.2.1, hquiet.unreached]
  arguments sym c _ :=
    quiet_noted (P := fun _ => True) trivial (fun _ => rfl) (adds_callFunction env trivial)
  print := quiet_noted (P := fun _ => True) trivial (fun _ => rfl) (adds_note trivial)
  custom e body he hbody := quiet_insideCustom he hbody

/-- A function without arguments was called. -/
def CallsFunction0 (s : EzState V) : Prop := ∃ event ∈ s.log, ∃ f, event.step = .call (.function0 f)

/-- The symbol of a function without arguments was met. -/
def MeetsFunction0 (s : EzState V) : Prop := ∃ event ∈ s.log, ∃ f, event.step = .factor (.function0 f)

/-- Whether the functions without arguments that are met are called stays as it is. -/
def SameFunction0 (s t : EzState V) : Prop :=
  (CallsFunction0 s ↔ MeetsFunction0 s) → (CallsFunction0 t ↔ MeetsFunction0 t)

instance : IsPreorder (EzState V) SameFunction0 where
  refl _ := id
  trans _ _ _ h h' := h' ∘ h

/-- A piece that neither meets nor calls a function without arguments. -/
theorem sameFunction0_of_adds {s t : EzState V} (h : Adds (fun step => step.isFunction0 = false) s t) :
    SameFunction0 s t := by
  obtain ⟨-, events, hlog, hevents⟩ := h
  have hsame : ∀ step : EzFunction0 → EzStep V, (∀ f, (step f).isFunction0 = true) →
      ((∃ event ∈ t.log, ∃ f, event.step = step f) ↔ ∃ event ∈ s.log, ∃ f, event.step = step f) := by
    intro step hstep
    rw [hlog]
    constructor
    · rintro ⟨event, hmem, f, hf⟩
      rcases List.mem_append.mp hmem with hmem | hmem
      · exact absurd ((hstep f).symm.trans (hf ▸ (hevents event hmem).1)) (by decide)
      · exact ⟨event, hmem, f, hf⟩
    · rintro ⟨event, hmem, hf⟩
      exact ⟨event, List.mem_append_right events hmem, hf⟩
  intro hs
  exact (hsame (fun f => .call (.function0 f)) fun _ => rfl).trans
    (hs.trans (hsame (fun f => .factor (.function0 f)) fun _ => rfl).symm)

/-- Expecting a symbol gives a result. -/
theorem expect_result (env : EzEnv V) (t : EzToken) (msg : String) (s : EzState V) :
    (expect env t msg s).1 = some () := by
  have haccept : ∃ accepted, (accept env t s).1 = some accepted := by
    unfold accept
    rw [FuelRun.branch]
    split
    · have hread : getSym env s = (some (), (getSym env s).2) := Prod.ext (getSym_result env s) rfl
      exact ⟨true, by rw [bind_apply, hread]; rfl⟩
    · exact ⟨false, rfl⟩
  obtain ⟨accepted, haccepted⟩ := haccept
  unfold expect
  rw [bind_apply]
  rcases haccept : accept env t s with ⟨result, s'⟩
  rw [haccept] at haccepted
  cases haccepted
  cases accepted with
  | true => rfl
  | false => rfl

/-- A call is recorded. -/
theorem callFunction_calls (env : EzEnv V) (c : EzCall V) (s : EzState V) :
    ∃ event ∈ (callFunction env c s).2.log, event.step = .call c := ⟨_, List.mem_cons_self, rfl⟩

/-- A function without arguments that is met is called. -/
theorem sameFunction0_function0 (env : EzEnv V) (f : EzFunction0) : Relates SameFunction0 (do
    note (.factor (.function0 f))
    getSym env
    expect env .leftBanana "fun() lost '('"
    callFunction env (.function0 f)) := by
  intro s _
  have hrest : Relates (Adds (V := V) fun _ => True) (do
      getSym env
      expect env .leftBanana "fun() lost '('"
      callFunction env (.function0 f)) := by
    apply (adds_getSym (fun _ _ => trivial) env).bind
    intro _
    apply (adds_expect (fun _ _ => trivial) env .leftBanana _).bind
    exact fun _ => adds_callFunction env trivial
  refine iff_of_true ?_ ?_
  · obtain ⟨read, hread⟩ : ∃ read, getSym env (s.record (.factor (.function0 f))) = (some (), read) :=
      ⟨_, Prod.ext (getSym_result env _) rfl⟩
    obtain ⟨opened, hopened⟩ : ∃ opened, expect env .leftBanana "fun() lost '('" read =
        (some (), opened) :=
      ⟨_, Prod.ext (expect_result env _ _ _) rfl⟩
    obtain ⟨event, hmem, hstep⟩ := callFunction_calls env (.function0 f) opened
    refine ⟨event, ?_, f, hstep⟩
    rw [note_bind_apply, bind_of_some _ hread, bind_of_some _ hopened]
    exact hmem
  · obtain ⟨-, events, hlog, -⟩ := hrest (s.record (.factor (.function0 f)))
    refine ⟨s.event (.factor (.function0 f)), ?_, f, rfl⟩
    rw [note_bind_apply, hlog]
    exact List.mem_append_right events List.mem_cons_self

/-- A piece behind a step, neither of which meets or calls a function without arguments. -/
theorem sameFunction0_noted {step : EzStep V} (hstep : step.isFunction0 = false) {rest : EzM V Unit}
    (hrest : Relates (Adds fun step => step.isFunction0 = false) rest) :
    Relates SameFunction0 (note step >>= fun _ => rest) := by
  have hnote : Relates (Adds fun step : EzStep V => step.isFunction0 = false) (note step) :=
    adds_note hstep
  exact fun s => sameFunction0_of_adds (hnote.bind (fun _ => hrest) s)

/-- The body of a custom function is followed like the rest. -/
theorem sameFunction0_insideCustom {e : EzExp V} {body : EzM V V} (hbody : Relates SameFunction0 body) :
    Relates SameFunction0 (do
      note (.arguments .funcCustom)
      insideCustom e body) := by
  intro s hs
  have hnote : Relates (Adds fun step : EzStep V => step.isFunction0 = false)
      (note (.arguments .funcCustom)) :=
    adds_note rfl
  have hnoted : SameFunction0 s (s.record (.arguments .funcCustom)) := sameFunction0_of_adds (hnote s)
  have hends := hbody (enterCustom e (s.record (.arguments .funcCustom))) (hnoted hs)
  have hend : ((note (.arguments .funcCustom) >>= fun _ => insideCustom e body) s).2 =
      (insideCustom e body (s.record (.arguments .funcCustom))).2 := rfl
  rw [hend, insideCustom_apply]
  dsimp only
  split
  · exact hends
  · exact hends

/-- A function without arguments is called exactly when it is met, in the whole interpreter. -/
theorem sameFunction0_related (env : EzEnv V) : EzRelated env SameFunction0 where
  frame s t hlog _ _ := by
    intro hs
    rw [CallsFunction0, MeetsFunction0, hlog]
    exact hs
  plain step hstep s := by
    refine sameFunction0_of_adds (adds_note ?_ s)
    cases step with
    | call => cases hstep
    | factor sym =>
      cases sym with
      | function0 => cases hstep
      | _ => rfl
    | _ => rfl
  number n f hf := sameFunction0_noted rfl (adds_setNumber (by rfl) hf)
  string n := sameFunction0_noted rfl (adds_setString (fun _ => id) env n)
  function0 f := sameFunction0_function0 env f
  varAlias := sameFunction0_noted rfl (adds_factorAlias (fun _ => id) env)
  argument s _ := sameFunction0_of_adds (adds_factorString (fun _ => id) env s)
  arguments sym c hc := by
    refine sameFunction0_noted rfl (adds_callFunction env ?_)
    cases c with
    | function0 f => exact absurd rfl (hc f)
    | _ => rfl
  print := sameFunction0_noted rfl (adds_note rfl)
  custom e body _ hbody := sameFunction0_insideCustom hbody

end DasEdge.Expression
