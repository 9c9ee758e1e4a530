import DasEdge.Rule.RuleStore
import DasEdge.VarManage.RefreshIsolation

/-!
# The call of a rule

`__doexp_rule` composes the call of a rule in an array on the stack and has it evaluated. The rule store
keeps the type that it is given, and `__doexp_rule` knows two of them: for any other one nothing is
written to the array. `sprintf` does not look at the size of the array, and prints a null pointer as
`(null)`; only the branch for `RULE_TYPE_CTRL` puts the empty text in its place.
-/

namespace DasEdge.VarManage

open DasEdge.Rule

/-- `RULE_TYPE_CTRL` -/
def ruleTypeCtrl : ℤ := 1

/-- `RULE_TYPE_NONE` -/
def ruleTypeNone : ℤ := 3

/-- The size of the array `exp`. -/
def expSize : ℕ := 2048

/-- `sprintf` to the array, which holds the text then; `none` when the text with its null character does
not fit. -/
def sprintfExp (text : String) : Option (Option String) :=
  if text.length < expSize then some (some text) else none

/-- The calls of `sprintf` for a rule type. An array that nothing was written to holds no text. -/
def composeExp (type : ℤ) (name : String) (pIn pOut : Option String) : Option (Option String) :=
  if type = ruleTypeNone then sprintfExp (name ++ "(" ++ pIn.getD "(null)" ++ ")")
  else if type = ruleTypeCtrl then
    sprintfExp ("if (" ++ name ++ "(" ++ pIn.getD "" ++ ")) \x7b return (" ++ name ++ "_o(" ++
      pOut.getD "" ++ ")); \x7d else \x7b return 0; \x7d")
  else some none

/-- What `__doexp_rule` did: what the array held when it was given to `evaluate`, if it was, whether the
value changed, and the value. -/
structure RuleRun where
  evaluated : Option (Option String) := none
  changed : Bool := false
  value : VarValue

/-- The part of `__doexp_rule` that evaluates what the array holds. -/
def evaluateExp (env : RefreshEnv) (data : ExtData) (values : ℕ → VarValue) (v : VarValue)
    (exp : Option String) : RuleRun :=
  match getExtValue env.ops data.xIo.btOutVarType v with
  | none => { value := v }
  | some _ =>
    let result := doexpText env data values v (exp.getD env.staleText)
    { evaluated := some exp, changed := result.1, value := result.2 }

/-- `__doexp_rule`; `none` when it writes behind the array. -/
def doexpRule (env : RefreshEnv) (rules : RuleStore) (data : ExtData) (values : ℕ → VarValue)
    (v : VarValue) : Option RuleRun :=
  match data.xIo.exp with
  | .rule (some name) pIn pOut =>
    if name = "" then some { value := v }
    else
      match ruleGet rules (some name.toList) with
      | none => some { value := v }
      | some rule =>
        (composeExp rule.type name pIn pOut).map (evaluateExp env data values v)
  | _ => some { value := v }

/-- The type of a rule as `__doexp_rule` sees it. -/
def ruleTypeOf (type : ℤ) : RuleType :=
  if type = ruleTypeNone then .none else if type = ruleTypeCtrl then .ctrl else .other

/-- The text of a type that is composed is the one that a refresh evaluates. -/
theorem composeExp_text {type : ℤ} {name : String} {pIn pOut exp : Option String}
    (h : composeExp type name pIn pOut = some exp) (env : RefreshEnv) :
    exp.getD env.staleText = ruleText env name pIn pOut (ruleTypeOf type) := by
  rw [composeExp, sprintfExp, sprintfExp] at h
  rw [ruleTypeOf]
  split at h
  · next hnone =>
    rw [if_pos hnone]
    split at h
    · cases h
      rfl
    · cases h
  · next hnone =>
    rw [if_neg hnone]
    split at h
    · next hctrl =>
      rw [if_pos hctrl]
      split at h
      · cases h
        rfl
      · cases h
    · next hctrl =>
      rw [if_neg hctrl]
      cases h
      rfl

/-- Within the array, a refresh goes on with the value of `__doexp_rule`. -/
theorem doexpRule_value {env : RefreshEnv} {rules : RuleStore} {data : ExtData}
    {values : ℕ → VarValue} {v : VarValue} {run : RuleRun} {name pIn pOut : Option String}
    (hexp : data.xIo.exp = .rule name pIn pOut)
    (hrules : env.ruleGet = fun name => (ruleGet rules (some name.toList)).map (ruleTypeOf ·.type))
    (h : doexpRule env rules data values v = some run) :
    doexpValue env data values v = (run.changed, run.value) := by
  rw [doexpRule, hexp] at h
  rw [doexpValue, hexp]
  cases name with
  | none =>
    cases h
    rfl
  | some name =>
    simp only at h ⊢
    by_cases hname : name = ""
    · rw [if_pos hname] at h ⊢
      cases h
      rfl
    · rw [if_neg hname] at h ⊢
      rw [hrules]
      simp only
      cases hget : ruleGet rules (some name.toList) with
      | none =>
        rw [hget] at h
        cases h
        rfl
      | some rule =>
        rw [hget] at h
        obtain ⟨exp, hcompose, hrun⟩ := Option.map_eq_some_iff.mp h
        have htext := composeExp_text hcompose env
        simp only [Option.map_some, ← htext]
        rw [← hrun, evaluateExp]
        cases hvalue : getExtValue env.ops data.xIo.btOutVarType v with
        | none => rw [doexpText, hvalue]
        | some value => rfl

/-- The call of a rule: the text that is to be evaluated, with nothing for a parameter that is
absent. -/
def ruleCall (type : ℤ) (name : String) (pIn pOut : Option String) : Option String :=
  if type = ruleTypeNone then some (name ++ "(" ++ pIn.getD "" ++ ")")
  else if type = ruleTypeCtrl then
    some ("if (" ++ name ++ "(" ++ pIn.getD "" ++ ")) \x7b return (" ++ name ++ "_o(" ++
      pOut.getD "" ++ ")); \x7d else \x7b return 0; \x7d")
  else none

/-- A variable with a rule that is in the store. -/
structure RuledVar (rules : RuleStore) where
  data : ExtData
  name : String
  pIn : Option String
  pOut : Option String
  rule : RuleNode
  exp_eq : data.xIo.exp = .rule (some name) pIn pOut
  name_ne : name ≠ ""
  found : ruleGet rules (some name.toList) = some rule

namespace RuledVar

variable {rules : RuleStore} (x : RuledVar rules)

/-- What the evaluation of a rule does: it stays in the array, what it evaluates is the call of the
rule, and without a call the value stays. -/
structure EvaluatesCall (env : RefreshEnv) (values : ℕ → VarValue) (v : VarValue) (run : RuleRun) :
    Prop where
  run_eq : doexpRule env rules x.data values v = some run
  text : ∀ exp, run.evaluated = some exp →
    ∃ call, ruleCall x.rule.type x.name x.pIn x.pOut = some call ∧ exp = some call
  unchanged : ruleCall x.rule.type x.name x.pIn x.pOut = none → run.value = v

/-- The array has room for what is composed, and unless the variable has no number that an evaluation
could change, the rule has a call, without a null pointer where that is not looked after. -/
structure Composes : Prop where
  room_none : x.rule.type = ruleTypeNone →
    x.name.length + (x.pIn.getD "(null)").length + 2 < expSize
  room_ctrl : x.rule.type = ruleTypeCtrl →
    2 * x.name.length + (x.pIn.getD "").length + (x.pOut.getD "").length + 45 < expSize
  call : typedSize x.data.xIo.btOutVarType ≠ 0 →
    x.rule.type = ruleTypeNone ∧ x.pIn.isSome ∨ x.rule.type = ruleTypeCtrl

variable {x}

/-- `__doexp_rule` for a variable with a rule. -/
theorem doexpRule_eq (env : RefreshEnv) (values : ℕ → VarValue) (v : VarValue) :
    doexpRule env rules x.data values v =
      (composeExp x.rule.type x.name x.pIn x.pOut).map (evaluateExp env x.data values v) := by
  rw [doexpRule, x.exp_eq]
  simp only [if_neg x.name_ne, x.found]

/-- The lengths of the texts that are composed. -/
theorem composeExp_isSome_iff (type : ℤ) (name : String) (pIn pOut : Option String) :
    (∃ exp, composeExp type name pIn pOut = some exp) ↔
      (type = ruleTypeNone → name.length + (pIn.getD "(null)").length + 2 < expSize) ∧
      (type = ruleTypeCtrl →
        2 * name.length + (pIn.getD "").length + (pOut.getD "").length + 45 < expSize) := by
  have hsprintf (text : String) : (∃ exp, sprintfExp text = some exp) ↔ text.length < expSize := by
    rw [sprintfExp]
    split
    · next hlt => exact ⟨fun _ => hlt, fun _ => ⟨some text, rfl⟩⟩
    · next hge => exact ⟨fun h => absurd h (by simp), fun hlt => absurd hlt hge⟩
  rw [composeExp]
  split
  · next hnone =>
    have hother : type ≠ ruleTypeCtrl := by rw [hnone]; decide
    have hlength : (name ++ "(" ++ pIn.getD "(null)" ++ ")").length =
        name.length + (pIn.getD "(null)").length + 2 := by
      simp only [String.length_append, show "(".length = 1 from rfl, show ")".length = 1 from rfl]
      omega
    rw [hsprintf, hlength]
    exact ⟨fun h => ⟨fun _ => h, fun h' => absurd h' hother⟩, fun h => h.1 hnone⟩
  · next hnone =>
    split
    · next hctrl =>
      have hlength : ("if (" ++ name ++ "(" ++ pIn.getD "" ++ ")) \x7b return (" ++ name ++ "_o(" ++
          pOut.getD "" ++ ")); \x7d else \x7b return 0; \x7d").length =
          2 * name.length + (pIn.getD "").length + (pOut.getD "").length + 45 := by
        simp only [String.length_append, show "if (".length = 4 from rfl, show "(".length = 1 from rfl,
          show ")) \x7b return (".length = 13 from rfl, show "_o(".length = 3 from rfl,
          show ")); \x7d else \x7b return 0; \x7d".length = 24 from rfl]
        omega
      rw [hsprintf, hlength]
      exact ⟨fun h => ⟨fun h' => absurd h' hnone, fun _ => h⟩, fun h => h.2 hctrl⟩
    · next hctrl => exact ⟨fun _ => ⟨fun h => absurd h hnone, fun h => absurd h hctrl⟩,
                      fun _ => ⟨none, rfl⟩⟩

/-- What is composed is the call exactly for a type with one, without a null pointer that is printed. -/
theorem composeExp_call_iff {type : ℤ} {name : String} {pIn pOut exp : Option String}
    (h : composeExp type name pIn pOut = some exp) :
    (∃ call, ruleCall type name pIn pOut = some call ∧ exp = some call) ↔
      type = ruleTypeNone ∧ pIn.isSome ∨ type = ruleTypeCtrl := by
  rw [composeExp, sprintfExp, sprintfExp] at h
  rw [ruleCall]
  split at h
  · next hnone =>
    have hother : type ≠ ruleTypeCtrl := by rw [hnone]; decide
    rw [if_pos hnone]
    split at h
    · cases h
      cases pIn with
      | some text => exact ⟨fun _ => .inl ⟨hnone, rfl⟩, fun _ => ⟨_, rfl, rfl⟩⟩
      | none =>
        refine ⟨fun ⟨call, hcall, hexp⟩ => ?_, fun hor => ?_⟩
        · have hlength := congrArg String.length (Option.some.inj (hexp.trans hcall.symm))
          simp [String.length_append] at hlength
        · rcases hor with ⟨-, hsome⟩ | hctrl
          · cases hsome
          · exact absurd hctrl hother
    · cases h
  · next hnone =>
    rw [if_neg hnone]
    split at h
    · next hctrl =>
      rw [if_pos hctrl]
      split at h
      · cases h
        exact ⟨fun _ => .inr hctrl, fun _ => ⟨_, rfl, rfl⟩⟩
      · cases h
    · next hctrl =>
      rw [if_neg hctrl]
      refine ⟨fun ⟨call, hcall, _⟩ => ?_, fun hor => ?_⟩
      · cases hcall
      · rcases hor with ⟨hnone', -⟩ | hctrl'
        · exact absurd hnone' hnone
        · exact absurd hctrl' hctrl

/-- The evaluation of a rule does what it should in every state exactly when its call can be
composed. -/
theorem evaluatesCall_iff (x : RuledVar rules) :
    (∀ env values v, ∃ run, x.EvaluatesCall env values v run) ↔ x.Composes := by
  constructor
  · intro h
    obtain ⟨run, hrun, htext, -⟩ := h loudEnv (fun _ _ => 0) fun _ => 0
    rw [doexpRule_eq] at hrun
    obtain ⟨exp, hcompose, heval⟩ := Option.map_eq_some_iff.mp hrun
    obtain ⟨hnone, hctrl⟩ := (composeExp_isSome_iff _ _ _ _).mp ⟨exp, hcompose⟩
    refine ⟨hnone, hctrl, fun hsize => ?_⟩
    obtain ⟨value, hvalue⟩ := getExtValue_some loudEnv.ops hsize fun _ => 0
    rw [evaluateExp, hvalue] at heval
    exact (composeExp_call_iff hcompose).mp (htext exp (by rw [← heval]))
  · rintro ⟨hnone, hctrl, hcall⟩ env values v
    obtain ⟨exp, hcompose⟩ := (composeExp_isSome_iff _ _ _ _).mpr ⟨hnone, hctrl⟩
    have hrun : doexpRule env rules x.data values v = some (evaluateExp env x.data values v exp) := by
      rw [doexpRule_eq, hcompose]
      rfl
    by_cases hsize : typedSize x.data.xIo.btOutVarType = 0
    · have hstays : evaluateExp env x.data values v exp = { value := v } := by
        rw [evaluateExp, getExtValue_none hsize]
      refine ⟨_, hrun, ?_, fun _ => by rw [hstays]⟩
      rw [hstays]
      exact fun _ heq => nomatch heq
    · obtain ⟨call, hruleCall, rfl⟩ := (composeExp_call_iff hcompose).mpr (hcall hsize)
      obtain ⟨value, hvalue⟩ := getExtValue_some env.ops hsize v
      refine ⟨_, hrun, ?_, fun hnone => ?_⟩
      · rw [evaluateExp, hvalue]
        rintro _ ⟨⟩
        exact ⟨call, hruleCall, rfl⟩
      · rw [hruleCall] at hnone
        cases hnone

end RuledVar

/-- The rule `f` as it is set by JSON without a type. -/
def untypedRules : RuleStore := setRuleWithJson .empty { name := some ['f'] } {}

/-- A variable with that rule. -/
def untypedVar : RuledVar untypedRules where
  data := { xIo := { exp := .rule (some "f") none none } }
  name := "f"
  pIn := none
  pOut := none
  rule := ⟨⟨0, ruleTypeErr, none, none, none, none, ruleSysErr⟩, ['f']⟩
  exp_eq := rfl
  name_ne := by decide
  found := by decide

/-- The array is evaluated although nothing was written to it. -/
theorem evaluatesCall_unwritten :
    ¬ ∀ env values v, ∃ run, untypedVar.EvaluatesCall env values v run := by
  intro h
  obtain ⟨run, hrun, htext, -⟩ := h loudEnv (fun _ _ => 0) fun _ => 0
  have hcompose : composeExp untypedVar.rule.type untypedVar.name untypedVar.pIn untypedVar.pOut =
    some none := by decide
  rw [RuledVar.doexpRule_eq, hcompose] at hrun
  have hunwritten : run.evaluated = some none := by
    rw [← Option.some.inj hrun]
    rfl
  obtain ⟨call, hcall, -⟩ := htext none hunwritten
  have hnone : ruleCall untypedVar.rule.type untypedVar.name untypedVar.pIn untypedVar.pOut = none := by
    decide
  rw [hnone] at hcall
  cases hcall

end DasEdge.VarManage
