import DasEdge.Expression.EzBlocksEnd

/-!
# When parsing ends

Every branch of `_factor` consumes the symbol it stands at, with two exceptions: the end of the text,
and a name that is neither a keyword nor a custom function. The second one matters behind a closing
brace, where `_expression_comma` goes round again without a semicolon: it then stays in place for ever.
-/

namespace DasEdge.Expression

open DasEdge.Library FuelRun

section Termination

variable {V : Type} (env : EzEnv V) {n fuel : ℕ} (hfuel : n ≤ fuel) {expression : EzM V V}
  (h : Consumes V n expression)

/-- Keeping the value of an argument ends. -/
theorem ends_setNumber_of {m : EzM V V} (hm : Ends (ezMarks V) n m) :
    Ends (ezMarks V) n (do
      let x ← m
      setNumber x) := hm.bind fun x => ends_setNumber x n

/-- Calling a function of the outside ends. -/
theorem ends_callFunction (c : EzCall V) : Ends (ezMarks V) n (callFunction env c) := by
  unfold callFunction
  apply Ends.read
  intro s
  apply (ends_setNumber _ n).bind
  exact fun _ => ends_note n (by simp)

/-- Calling the function of a string register ends. -/
theorem ends_callString (i : ℕ) (msg : String) : Ends (ezMarks V) n (callString env i msg) := by
  unfold callString
  apply Ends.read
  intro s
  split
  · exact ends_callFunction env _
  · exact ends_raise (some msg) n

/-- The argument of the function of a string ends. -/
theorem ends_factorString : Ends (ezMarks V) n (factorString env) := by
  unfold factorString
  apply Ends.read
  intro s
  split
  · exact ends_callString env _ _
  · exact ends_callFunction env _
  · exact ends_callFunction env _

/-- Taking effect, `return` gives up the text that is left. -/
theorem ends_return :
    Ends (ezMarks V) n (FuelRun.skipWhen (fun s => s.e.returns) (updateExp fun e => { e with
    returnValue := e.number, isReturn := true, sym := .eof, tokenizer :=
    e.tokenizer.tokenizerReturn })) := by
  intro s
  apply EndsAt.branch
  · exact fun _ => ends_pure n () s
  · intro hs
    have hreturn : s.e.isReturn = false := (Bool.or_eq_false_iff.mp hs).1
    refine ⟨(tracks_update fun _ => rfl) s, fun _ => .inr ⟨rfl, ?_⟩⟩
    have hbonus : symBonus .eof s.e.lastSym ≤ 2 := symBonus_le _ _
    change (if true then 0 else _) + _ + symBonus .eof s.e.lastSym ≤ ezRank s
    unfold ezRank
    rw [hreturn, if_pos rfl, if_neg Bool.false_ne_true]
    change 0 + 3 * (s.e.tokenizer.line.length + 2 - (s.e.tokenizer.line.length % 65536 - 1)) + _ ≤ _
    omega

include h in
/-- Behind its keyword `return` ends. -/
theorem drops_factorReturn {s : EzState V} (hs : s.e.sym = .return) :
    DropsAt (ezMarks V) (n + 1) (factorReturn env expression) s := by
  apply (drops_getSym_of_sym env (n + 1) rfl hs).bind
  intro _
  apply h.ends.bind
  intro x
  apply (ends_setNumber x n).bind
  intro _
  apply Ends.branch
  · exact (ends_raise _ n).skipWhen
  · apply (ends_expect env .semicolon _ n).bind
    exact fun _ => ends_return

/-- Behind its operator a prefix operation ends. -/
theorem drops_factorPrefix (step : V → V) {t : EzToken} (ht : t.live = true) {s : EzState V}
    (hs : s.e.sym = t) :
    DropsAt (ezMarks V) (n + 1) (factorPrefix env step) s := by
  apply (drops_getSym_of_sym env (n + 1) ht hs).bind
  intro _
  apply Ends.read
  intro s
  split
  · apply (ends_note n (by simp)).bind
    intro _
    refine Ends.bind (Ends.skipWhen ?_) fun _ => ends_getSym env n
    refine Ends.bind (ends_updateExp n fun _ => ?_) fun _ => ends_note n (by simp)
    exact ⟨rfl, rfl, rfl, rfl⟩
  · exact ends_pure n ()

include h in
/-- Behind its name a register ends. -/
theorem drops_factorReg (i : ℕ) {s : EzState V} (hs : s.e.sym = .reg i) :
    DropsAt (ezMarks V) (n + 1) (factorReg env expression i) s := by
  apply DropsAt.read
  apply (drops_getSym_of_sym env (n + 1) rfl hs).bind
  intro _
  apply Ends.read
  intro t
  split
  · exact ends_setNumber_of (ends_expressionSetNumber env h i)
  · exact ends_expressionSetString env i
  · exact ends_setNumber _ n
  · exact ends_pure n ()

/-- Behind its sign an alias ends. -/
theorem drops_factorAlias {s : EzState V} (hs : s.e.sym = .funcVarAlias) :
    DropsAt (ezMarks V) (n + 1) (factorAlias env) s := by
  apply DropsAt.read
  apply (drops_getSym_of_sym env (n + 1) rfl hs).bind
  intro _
  apply Ends.read
  intro t
  split
  · split
    · exact ends_pure n ()
    · exact ends_callFunction env _
  · split
    · exact (ends_callString env _ _).bind fun _ => ends_getSym env n
    · exact ends_callFunction env _

/-- The symbols that do not stand for text. -/
theorem eof_or_error {t : EzToken} (h : t.live = false) : t = .eof ∨ t = .error := by
  by_contra hne
  push Not at hne
  simp [EzToken.live, hne.1, hne.2] at h

/-- Raising an error keeps the symbols. -/
theorem raise_syms (msg : Option String) (s : EzState V) :
    (raise msg s).2.e.sym = s.e.sym ∧ (raise msg s).2.e.lastSym = s.e.lastSym := by
  unfold raise
  simp only [note, updateExp, update_bind_apply, update_apply]
  split
  · exact ⟨rfl, rfl⟩
  · exact ⟨rfl, rfl⟩

/-- A symbol that no factor starts with is reported and read over. -/
theorem drops_syntaxError (n : ℕ) {s : EzState V}
    (h : s.e.sym.live = true ∨ s.e.lastSym = .rightBraces) :
    DropsAt (ezMarks V) n (do
      raise (some "Factor: syntax error")
      getSym env) s := by
  apply (ends_raise _ n s).bind_drops
  intro _
  obtain ⟨hsym, hlast⟩ := raise_syms (some "Factor: syntax error") s
  rw [← hsym, ← hlast] at h
  exact drops_getSym env n h

include hfuel h

/-- Every branch of `_factor` that is not for a `for`, a custom function or an unknown name consumes its
symbol. -/
theorem drops_factorStep {s : EzState V} {sym : EzToken} (hs : s.e.sym = sym) (hlive : sym.live = true)
    (hname : sym ≠ .funcFunction) (hfor : sym ≠ .funcFor) (hcustom : sym ≠ .funcCustom) :
    DropsAt (ezMarks V) (n + 1) (factorStep env fuel expression sym) s := by
  have hdrop : DropsAt (ezMarks V) (n + 1) (getSym env) s := drops_getSym_of_sym env (n + 1) hlive hs
  have hother := drops_syntaxError env (n + 1) (s := s) (.inl (hs ▸ hlive))
  unfold factorStep
  cases sym with
  | «return» => exact drops_factorReturn env h hs
  | «break» =>
    apply hdrop.bind
    intro _
    apply (ends_expect env .semicolon _ n).bind
    exact fun _ => ends_updateFlag _ n
  | «continue» =>
    apply hdrop.bind
    intro _
    apply (ends_expect env .semicolon _ n).bind
    exact fun _ => ends_updateFlag _ n
  | funcFor => exact absurd rfl hfor
  | funcCustom => exact absurd rfl hcustom
  | funcFunction => exact absurd rfl hname
  | eof => cases hlive
  | error => cases hlive
  | ifFuncIf => exact hdrop.bind fun _ => ends_setNumber_of (ends_expressionIf env hfuel h)
  | set t =>
    cases t with
    | dplus => exact drops_factorPrefix env env.succ hlive hs
    | dminus => exact drops_factorPrefix env env.pred hlive hs
    | _ => exact hother
  | reg i => exact drops_factorReg env h i hs
  | func3If =>
    apply hdrop.bind
    exact fun _ => ends_inBananas env hfuel _ _ (ends_setNumber_of (ends_expressionTernary env hfuel h))
  | funcMin =>
    apply hdrop.bind
    exact fun _ => ends_inBananas env hfuel _ _ (ends_setNumber_of (ends_expressionMin env hfuel h))
  | funcMax =>
    apply hdrop.bind
    exact fun _ => ends_inBananas env hfuel _ _ (ends_setNumber_of (ends_expressionMax env hfuel h))
  | funcPrint =>
    apply hdrop.bind
    exact fun _ => ends_inBananas env hfuel _ _ (ends_setNumber_of (ends_expressionPrint env hfuel h))
  | funcBnot =>
    apply hdrop.bind
    intro _
    refine Ends.bind (ends_updateExp n fun _ => ⟨rfl, rfl, rfl, rfl⟩) fun _ => ?_
    exact (ends_accept env .number n).bind fun _ => ends_pure n ()
  | funcNot =>
    apply hdrop.bind
    intro _
    apply h.ends.bind
    intro x
    apply (ends_setNumber _ n).bind
    intro _
    exact (ends_accept env .number n).bind fun _ => ends_pure n ()
  | function0 f =>
    apply hdrop.bind
    intro _
    apply (ends_expect env .leftBanana _ n).bind
    intro _
    apply (ends_callFunction env _).bind
    exact fun _ => ends_expect env .rightBanana _ n
  | function1 f =>
    apply hdrop.bind
    intro _
    apply ends_inBananas env hfuel
    apply h.ends.bind
    intro x
    apply (ends_note n (by simp)).bind
    exact fun _ => ends_callFunction env _
  | funcDoSet =>
    apply hdrop.bind
    intro _
    apply ends_inBananas env hfuel
    apply h.ends.bind
    intro x
    apply (ends_expect env .dot _ n).bind
    intro _
    apply h.ends.bind
    intro y
    apply (ends_note n (by simp)).bind
    exact fun _ => ends_callFunction env _
  | funcVar =>
    apply hdrop.bind
    intro _
    apply ends_inBananas env hfuel
    apply (ends_factorString env).bind
    intro _
    apply Ends.skipWhen
    exact ends_update n (fun _ => rfl) (ezRank_nextSym env)
  | funcVarAlias => exact drops_factorAlias env hs
  | number =>
    refine EndsAt.bind_drops ?_ fun _ => drops_getSym env (n + 1) (.inl ?_)
    · exact ends_updateExp (n + 1) (fun _ => ⟨rfl, rfl, rfl, rfl⟩) s
    · exact hs ▸ hlive
  | semicolon => exact hdrop
  | leftBanana =>
    apply hdrop.bind
    intro _
    refine Ends.bind ?_ fun _ => ends_expect env .rightBanana _ n
    exact (ends_expressionSkipUntilRightBanana env hfuel).branch (ends_setNumber_of h.ends)
  | leftBraces =>
    apply hdrop.bind
    intro _
    refine Ends.bind ?_ fun _ => ends_expect env .rightBraces _ n
    exact (ends_expressionSkipUntilRightBraces env hfuel).branch
      (ends_setNumber_of (ends_expressionComma env hfuel h))
  | _ => exact hother

/-- A branch of `_factor` consumes its symbol, unless that is the end of the text or an unknown name. -/
theorem factorStep_dropsAt {s : EzState V} {sym : EzToken} (hs : s.e.sym = sym)
    (hexcused : sym = .funcFor ∨ sym = .funcCustom → (ezMarks V).excused s) (hend : sym ≠ .eof)
    (hname : sym ≠ .funcFunction) (hconsumes : sym.live = true ∨ s.e.lastSym = .rightBraces) :
    DropsAt (ezMarks V) (n + 1) (factorStep env fuel expression sym) s := by
  by_cases hfor : sym = .funcFor
  · subst hfor
    have htracks : Tracks (ezMarks V) (factorStep env fuel expression .funcFor) :=
      (ends_getSym env n).tracks.bind fun _ => tracks_expressionFor env hfuel h
    exact (htracks s).dropsAt (hexcused (.inl rfl))
  by_cases hcustom : sym = .funcCustom
  · subst hcustom
    have htracks : Tracks (ezMarks V) (factorStep env fuel expression .funcCustom) := by
      apply Tracks.read
      intro t
      apply (ends_getSym env n).tracks.bind
      intro _
      exact tracks_inBananas env fuel _ _ ((tracks_expressionCustom env hfuel h _).bind fun x =>
        (ends_setNumber x n).tracks)
    exact (htracks s).dropsAt (hexcused (.inr rfl))
  by_cases hlive : sym.live = true
  · exact drops_factorStep env hfuel h hs hlive hname hfor hcustom
  · have herror : sym = .error := (eof_or_error (Bool.eq_false_iff.mpr hlive)).resolve_left hend
    subst herror
    rw [← hs] at hconsumes
    exact drops_syntaxError env (n + 1) hconsumes

/-- Every branch of `_factor` ends. -/
theorem factorStep_endsAt {s : EzState V} {sym : EzToken} (hs : s.e.sym = sym)
    (hexcused : sym = .funcFor ∨ sym = .funcCustom → (ezMarks V).excused s) :
    EndsAt (ezMarks V) (n + 1) (factorStep env fuel expression sym) s := by
  by_cases hend : sym = .eof
  · subst hend
    exact ends_pure (n + 1) () s
  by_cases hname : sym = .funcFunction
  · subst hname
    exact ends_pure (n + 1) () s
  by_cases hlive : sym.live = true
  · exact (factorStep_dropsAt env hfuel h hs hexcused hend hname (.inl hlive)).ends
  · have herror : sym = .error := (eof_or_error (Bool.eq_false_iff.mpr hlive)).resolve_left hend
    subst herror
    exact ((ends_raise _ (n + 1)).bind fun _ => ends_getSym env (n + 1)) s

/-- `_factor` ends, and consumes its symbol unless that is the end of the text or an unknown name. -/
theorem factor_endsAt (s : EzState V) : EndsAt (ezMarks V) (n + 1) (factor env fuel expression) s ∧
    (s.e.sym ≠ .eof → s.e.sym ≠ .funcFunction → s.e.sym.live = true ∨ s.e.lastSym = .rightBraces →
      DropsAt (ezMarks V) (n + 1) (factor env fuel expression) s) := by
  have hread : Ends (ezMarks V) (n + 1) (do
      let s ← FuelRun.read
      pure s.e.number) := Ends.read fun s => ends_pure (n + 1) s.e.number
  have hnote : EndsAt (ezMarks V) (n + 1) (note (.factor s.e.sym)) s := ends_note (n + 1) (by simp) s
  obtain ⟨t, ht, he⟩ : ∃ t, (note (.factor s.e.sym) s).2 = t ∧ t.e = s.e := ⟨_, rfl, rfl⟩
  have hexcused : s.e.sym = .funcFor ∨ s.e.sym = .funcCustom → (ezMarks V).excused t := by
    intro hsym
    rw [← ht]
    refine .inr ⟨_, List.mem_cons_self, ?_⟩
    exact hsym.imp (fun h => by rw [h]) fun h => by rw [h]
  have hsym : t.e.sym = s.e.sym := by rw [he]
  constructor
  · apply EndsAt.read
    apply hnote.bind
    intro _
    rw [ht]
    exact (factorStep_endsAt env hfuel h hsym hexcused).bind fun _ => hread _
  · intro hend hname hconsumes
    apply DropsAt.read
    apply hnote.bind_drops
    intro _
    rw [ht]
    rw [← he] at hconsumes
    exact (factorStep_dropsAt env hfuel h hsym hexcused hend hname
      (by rwa [hsym] at hconsumes)).bind_ends
      fun _ => hread

/-- `_factor` ends from every state. -/
theorem ends_factor : Ends (ezMarks V) (n + 1) (factor env fuel expression) :=
  fun s => (factor_endsAt env hfuel h s).1

omit hfuel in
/-- The operations of `_term` end. -/
theorem term_endsAt (hfuel : n + 1 ≤ fuel) (s : EzState V) :
    EndsAt (ezMarks V) (n + 1) (term env fuel expression) s ∧
    (s.e.sym ≠ .eof → s.e.sym ≠ .funcFunction → s.e.sym.live = true ∨ s.e.lastSym = .rightBraces →
      DropsAt (ezMarks V) (n + 1) (term env fuel expression) s) := by
  have hle : n ≤ fuel := Nat.le_of_succ_le hfuel
  unfold term
  obtain ⟨hends, hdrops⟩ := factor_endsAt env hle h s
  have hterm {rounds : V → EzM V V} (hrounds : ∀ f1, Ends (ezMarks V) (n + 1) (rounds f1)) :
      EndsAt (ezMarks V) (n + 1) (factor env fuel expression >>= rounds) s ∧
      (s.e.sym ≠ .eof → s.e.sym ≠ .funcFunction → s.e.sym.live = true ∨ s.e.lastSym = .rightBraces →
        DropsAt (ezMarks V) (n + 1) (factor env fuel expression >>= rounds) s) :=
    ⟨hends.bind fun f1 => hrounds f1 _,
      fun hend hname hsym => (hdrops hend hname hsym).bind_ends hrounds⟩
  refine hterm fun f1 => ?_
  apply Ends.rounds hfuel
  intro f1 s
  apply RoundAt.read
  split
  · next t hs =>
    refine DropsAt.round ((drops_getSym_of_sym env (n + 1) rfl hs).bind fun _ => ?_)
    apply ((ends_factor env hle h).mono (Nat.le_succ n)).bind
    intro f2
    refine Ends.bind (Ends.branch ?_ (ends_pure n f1)) fun value => Ends.read fun s => ends_pure n _
    exact (ends_note n (by simp)).bind fun _ => ends_pure n _
  · exact roundAt_leave (n + 1) f1 s

omit hfuel in
/-- The body of `_expression` ends, and consumes its symbol unless that is the end of the text or an
unknown name. -/
theorem expressionStep_endsAt (hfuel : n + 1 ≤ fuel) (s : EzState V) :
    EndsAt (ezMarks V) (n + 1) (expressionStep env fuel expression) s ∧
    (s.e.sym ≠ .eof → s.e.sym ≠ .funcFunction → s.e.sym.live = true ∨ s.e.lastSym = .rightBraces →
      DropsAt (ezMarks V) (n + 1) (expressionStep env fuel expression) s) := by
  have hterm : Ends (ezMarks V) (n + 1) (term env fuel expression) :=
    fun s => (term_endsAt env h hfuel s).1
  have hrounds : ∀ f1, Ends (ezMarks V) (n + 1) (FuelRun.rounds fuel (fun f1 =>
      FuelRun.branch (fun s => s.e.sym = .plus || s.e.sym = .minus) (do
        let s ← FuelRun.read
        getSym env
        let f2 ← term env fuel expression
        let t ← FuelRun.read
        let sum := if s.e.sym = .plus then env.add f1 f2 else env.sub f1 f2
        pure (if t.flag.skip then f1 else sum, !t.e.isReturn)) (pure (f1, false))) f1) := by
    apply Ends.rounds hfuel
    intro f1 s
    apply RoundAt.branch
    · intro hs
      have hlive : s.e.sym.live = true := by
        rcases Bool.or_eq_true_iff.mp hs with hs | hs
        · rw [of_decide_eq_true hs]
          rfl
        · rw [of_decide_eq_true hs]
          rfl
      apply RoundAt.read
      refine DropsAt.round ((drops_getSym env (n + 1) (.inl hlive)).bind fun _ => ?_)
      apply (hterm.mono (Nat.le_succ n)).bind
      intro f2
      exact Ends.read fun t => ends_pure n _
    · exact fun _ => roundAt_leave (n + 1) f1 s
  by_cases hsign : s.e.sym = .plus ∨ s.e.sym = .minus
  · have hlive : s.e.sym.live = true := by
      rcases hsign with hs | hs
      · rw [hs]
        rfl
      · rw [hs]
        rfl
    have hdrop : DropsAt (ezMarks V) (n + 1) (expressionStep env fuel expression) s := by
      apply DropsAt.read
      refine DropsAt.bind ((drops_getSym env (n + 1) (.inl hlive)).skipWhen ?_) fun _ => ?_
      · rcases hsign with hs | hs
        · simp [hs]
        · simp [hs]
      · apply (hterm.mono (Nat.le_succ n)).bind
        exact fun f1 => (hrounds _).mono (Nat.le_succ n)
    exact ⟨hdrop.ends, fun _ _ _ => hdrop⟩
  · have hnone : FuelRun.skipWhen (fun s => s.e.sym ≠ .plus && s.e.sym ≠ .minus) (getSym env) s =
        (some (), s) := by
      push Not at hsign
      exact if_pos (by simp [hsign.1, hsign.2])
    have hskip : EndsAt (ezMarks V) (n + 1)
        (FuelRun.skipWhen (fun s => s.e.sym ≠ .plus && s.e.sym ≠ .minus) (getSym env)) s :=
      (ends_getSym env (n + 1)).skipWhen s
    obtain ⟨hends, hdrops⟩ := term_endsAt env h hfuel s
    constructor
    · apply EndsAt.read
      apply hskip.bind
      intro _
      rw [hnone]
      exact hends.bind fun f1 => hrounds _ _
    · intro hend hname hsym
      apply DropsAt.read
      apply hskip.bind_drops
      intro _
      rw [hnone]
      exact (hdrops hend hname hsym).bind_ends fun f1 => hrounds _

end Termination

end DasEdge.Expression

/-!
# Parsing ends unless it spins

The recursion is closed by induction on its depth: with as much fuel as the rank asks for, an
expression ends. A check or a run of a text without a `for` and without a custom function therefore
ends exactly when no round of `_expression_comma` has started behind a closing brace on a name that is
neither a keyword nor a custom function.
-/

namespace DasEdge.Expression

open DasEdge.Library FuelRun

section Exact

variable {V : Type} (env : EzEnv V)

/-- At an unknown name `_factor` does nothing. -/
theorem factor_idle (fuel : ℕ) (expression : EzM V V) {s : EzState V} (hs : s.e.sym = .funcFunction) :
    factor env fuel expression s = (some s.e.number, (note (.factor .funcFunction) s).2) := by
  unfold factor
  rw [read_bind_apply, hs]
  rfl

/-- At an unknown name `_term` does nothing. -/
theorem term_idle (fuel : ℕ) (expression : EzM V V) {s : EzState V} (hs : s.e.sym = .funcFunction) :
    term env (fuel + 1) expression s = (some s.e.number, (note (.factor .funcFunction) s).2) := by
  have hsym : (note (.factor .funcFunction) s).2.e.sym = .funcFunction := hs
  unfold term
  rw [bind_apply, factor_idle env (fuel + 1) expression hs]
  simp only [FuelRun.rounds, bind_apply, read_apply, hsym]
  rfl

/-- At an unknown name `_expression` does nothing. -/
theorem expressionStep_idle (fuel : ℕ) (expression : EzM V V) {s : EzState V}
    (hs : s.e.sym = .funcFunction) :
    expressionStep env (fuel + 1) expression s =
      (some s.e.number, (note (.factor .funcFunction) s).2) := by
  have hsym : (note (.factor .funcFunction) s).2.e.sym = .funcFunction := hs
  unfold expressionStep
  rw [read_bind_apply, bind_apply]
  simp only [FuelRun.skipWhen, FuelRun.branch, hs]
  rw [if_pos (by decide)]
  simp only [FuelRun.ret, bind_apply, term_idle env fuel expression hs]
  simp only [FuelRun.rounds, FuelRun.branch, bind_apply, hsym]
  rfl

/-- An expression with as much fuel as the rank asks for. -/
theorem consumes_expression (fuel : ℕ) : Consumes V fuel (expression env fuel) := by
  induction fuel with
  | zero =>
    have hnone : ∀ s : EzState V, DropsAt (ezMarks V) 0 (expression env 0) s := by
      intro s
      exact ⟨⟨id, fun h => by cases h⟩, fun h => absurd h (Nat.not_lt_zero _)⟩
    exact ⟨fun s => (hnone s).ends, fun s _ _ _ => hnone s, fun s _ h => by cases h⟩
  | succ fuel ih =>
    refine ⟨fun s => (expressionStep_endsAt env ih le_rfl s).1,
      fun s => (expressionStep_endsAt env ih le_rfl s).2, ?_⟩
    intro s hs _
    rw [expression, expressionStep_idle env fuel (expression env fuel) hs]
    exact ⟨hs, rfl⟩

/-- A check ends with as much fuel as the rank asks for, unless it spins or comes to a `for` or a custom
function. -/
theorem ends_ezExpCheck (fuel : ℕ) : Ends (ezMarks V) fuel (ezExpCheck env fuel) := by
  unfold ezExpCheck
  apply (ends_getSym env fuel).bind
  intro _
  apply (ends_expressionComma env le_rfl (consumes_expression env fuel)).bind
  intro _
  apply (ends_expect env .eof _ fuel).bind
  intro _
  exact Ends.read fun s => ends_pure fuel _

/-- A run ends with as much fuel as the rank asks for, unless it spins or comes to a `for` or a custom
function. -/
theorem ends_ezExpRun (fuel : ℕ) : Ends (ezMarks V) fuel (ezExpRun env fuel) := by
  unfold ezExpRun
  apply Ends.branch (ends_pure fuel env.zero)
  apply (ends_getSym env fuel).bind
  intro _
  apply (ends_expressionComma env le_rfl (consumes_expression env fuel)).bind
  intro result
  apply Ends.branch (Ends.read fun s => ends_pure fuel _)
  exact (ends_expect env .eof _ fuel).bind fun _ => ends_pure fuel result

/-- A piece that ends gives a result exactly when it does not spin, if no other excuse is there. -/
theorem isSome_iff_not_spins {α : Type} {fuel : ℕ} {m : EzM V α} (hm : Ends (ezMarks V) fuel m)
    {s : EzState V}
    (hrank : ezRank s < fuel) (hlog : s.log = []) (hplain : ¬ LoopsOrCalls (m s).2) :
    (m s).1.isSome ↔ ¬ Spins (m s).2 := by
  constructor
  · intro hsome hspins
    obtain ⟨event, hmem, -⟩ := (hm s).1.2 hsome hspins
    rw [hlog] at hmem
    cases hmem
  · intro hspins
    rcases (hm s).2 hrank with (h | h) | h
    · exact absurd h hspins
    · exact absurd h hplain
    · exact h.1

/-- In the trap `_expression_comma` never gives a result, and comes to nothing but the unknown name. -/
theorem rounds_trapped (depth fuel : ℕ) (f1 : V) {s : EzState V} (hs : Trapped s)
    (hplain : ¬ LoopsOrCalls s) :
    (FuelRun.rounds fuel (commaRound env (expression env (depth + 1))) f1 s).1 = none ∧
      ¬ LoopsOrCalls (FuelRun.rounds fuel (commaRound env (expression env (depth + 1))) f1 s).2 := by
  induction fuel generalizing f1 s with
  | zero => exact ⟨rfl, hplain⟩
  | succ fuel ih =>
    have hexpression : expression env (depth + 1) (note (.round .rightBraces .funcFunction) s).2 =
        (some s.e.number,
        (note (.factor .funcFunction) (note (.round .rightBraces .funcFunction) s).2).2) :=
      expressionStep_idle env depth (expression env depth) hs.2
    rw [FuelRun.rounds, bind_apply, commaRound_at_trap env _ f1 hs, bind_apply, hexpression]
    refine ih s.e.number (s := (note (.factor .funcFunction)
      (note (.round .rightBraces .funcFunction) s).2).2) hs ?_
    rintro ⟨event, hmem, hstep⟩
    rcases List.mem_cons.mp hmem with rfl | hmem
    · rcases hstep with hstep | hstep
      · cases hstep
      · cases hstep
    · rcases List.mem_cons.mp hmem with rfl | hmem
      · rcases hstep with hstep | hstep
        · cases hstep
        · cases hstep
      · exact hplain ⟨event, hmem, hstep⟩

end Exact

/-- Whether a run has spun can be computed. -/
instance (s : EzState Int) : Decidable (Spins s) :=
  inferInstanceAs (Decidable (∃ event ∈ s.log, event.step = .round .rightBraces .funcFunction))

/-- Whether a run has come to a `for` or a custom function can be computed. -/
instance (s : EzState Int) : Decidable (LoopsOrCalls s) :=
  inferInstanceAs (Decidable (∃ event ∈ s.log, event.step = .factor .funcFor ∨
    event.step = .factor .funcCustom))

/-- A block with an unknown name behind it. -/
def spinningText : List Char := ['\x7b', '1', ';', '\x7d', ' ', 'f', 'o', 'o']

/-- The state in which the spinning text is read. -/
def spinningStart (isCheck : Bool) : EzState Int :=
  ezExpStart intEnv isCheck spinningText none ezTablesInit

/-- What is recorded for the block in front of the unknown name. -/
def spinningSteps : List (EzStep Int) :=
  [.round .number .semicolon, .factor .number, .factor .leftBraces]

/-- Steps without a `for` and without a custom function. -/
theorem not_loopsOrCalls_of_steps {s : EzState Int} (h : s.log.map EzEvent.step = spinningSteps) :
    ¬ LoopsOrCalls s := by
  rintro ⟨event, hmem, hstep⟩
  have hin : event.step ∈ spinningSteps := h ▸ List.mem_map_of_mem hmem
  rcases hstep with hstep | hstep
  · rw [hstep] at hin
    exact absurd hin (by decide)
  · rw [hstep] at hin
    exact absurd hin (by decide)

/-- The first expression of the spinning text, with enough fuel, ends in the trap. -/
theorem spinning_trapped (isCheck : Bool) (depth : ℕ) : ∃ f1 s,
    expression intEnv (depth + 4) (getSym intEnv (spinningStart isCheck)).2 = (some f1, s) ∧ Trapped s ∧
      ¬ LoopsOrCalls s := by
  cases isCheck with
  | false => exact ⟨_, _, rfl, ⟨rfl, rfl⟩, not_loopsOrCalls_of_steps rfl⟩
  | true => exact ⟨_, _, rfl, ⟨rfl, rfl⟩, not_loopsOrCalls_of_steps rfl⟩

/-- The statements of the spinning text, with any fuel, come to no result. -/
theorem spinning_comma (isCheck : Bool) (fuel : ℕ) :
    (expressionComma intEnv fuel (expression intEnv fuel)
      (getSym intEnv (spinningStart isCheck)).2).1 = none ∧
      ¬ LoopsOrCalls (expressionComma intEnv fuel (expression intEnv fuel)
        (getSym intEnv (spinningStart isCheck)).2).2 := by
  match fuel with
  | 0 => cases isCheck <;> decide +kernel
  | 1 => cases isCheck <;> decide +kernel
  | 2 => cases isCheck <;> decide +kernel
  | 3 => cases isCheck <;> decide +kernel
  | depth + 4 =>
    obtain ⟨f1, s, hfirst, htrap, hplain⟩ := spinning_trapped isCheck depth
    unfold expressionComma
    rw [bind_apply, hfirst]
    exact rounds_trapped intEnv (depth + 3) (depth + 4) f1 htrap hplain

end DasEdge.Expression
