import DasEdge.Expression.EzExp

/-!
# Factors, terms and expressions

The three levels of the recursive descent, with the recursion closed by fuel, and the entry points
`ez_exp_check`, `ez_exp_run` and `evaluate`.
-/

namespace DasEdge.Expression

open DasEdge.Library

section Parser

variable {V : Type}

/-- The branch of `_factor` for `return`. -/
def factorReturn (env : EzEnv V) (expression : EzM V V) : EzM V Unit := do
  getSym env
  let x ← expression
  setNumber x
  FuelRun.branch (fun s => s.e.isCheck)
    (FuelRun.skipWhen (fun s => s.e.sym = .semicolon) (raise (some "return lost ';'"))) (do
    expect env .semicolon "return lost ';'"
    FuelRun.skipWhen (fun s => s.e.returns) (updateExp fun e => { e with
      returnValue := e.number, isReturn := true, sym := .eof, tokenizer :=
      e.tokenizer.tokenizerReturn }))

/-- The branches of `_factor` for `++` and `--` in front of a register. -/
def factorPrefix (env : EzEnv V) (step : V → V) : EzM V Unit := do
  getSym env
  let s ← FuelRun.read
  match s.e.sym with
  | .reg n => do
    note (.assign n .number)
    FuelRun.skipWhen (fun s => s.flag.skip) do
      updateExp fun e => { e with
        number := step (e.regNumber n), regNumber :=
        Function.update e.regNumber n (step (e.regNumber n)) }
      note (.setNumber n)
    getSym env
  | _ => pure ()

/-- The branch of `_factor` for a register. -/
def factorReg (env : EzEnv V) (expression : EzM V V) (n : ℕ) : EzM V Unit := do
  let s ← FuelRun.read
  let type := (s.e.tokenizer.regs[n]?.map EzReg.type).getD .unuse
  getSym env
  let s ← FuelRun.read
  match s.e.sym, type with
  | .set _, .number => do
    let x ← expressionSetNumber env expression n
    setNumber x
  | .set _, .string => expressionSetString env n
  | _, .number => setNumber (s.e.regNumber n)
  | _, _ => pure ()

/-- Calls a function of the outside and keeps its result. -/
def callFunction (env : EzEnv V) (c : EzCall V) : EzM V Unit := do
  let s ← FuelRun.read
  setNumber (env.call s.log c)
  note (.call c)

/-- The text that a string register hands to a function, or the parameter of the run. -/
def stringArgument (env : EzEnv V) (e : EzExp V) (n : ℕ) : Option (List Char) :=
  match e.regString n with
  | .null => e.param
  | .text s => some s
  | .freed => some env.stale

/-- The text of the current token, if it has one. -/
def tokenText (e : EzExp V) : Option (List Char) :=
  match e.tokenizer.actualString with
  | some (c :: text) => some (c :: text)
  | _ => .none

/-- Calls the function of a string register, which has to be one of strings. -/
def callString (env : EzEnv V) (n : ℕ) (msg : String) : EzM V Unit := do
  let s ← FuelRun.read
  if (s.e.tokenizer.regs[n]?.map EzReg.type) = some .string then
    callFunction env (.getvar (stringArgument env s.e n))
  else raise (some msg)

/-- The argument of the function of a string. -/
def factorString (env : EzEnv V) : EzM V Unit := do
  let s ← FuelRun.read
  match s.e.sym with
  | .reg n => callString env n "function(@string) just support string params"
  | .string => callFunction env (.getvar ((tokenText s.e).orElse fun _ => s.e.param))
  | _ => callFunction env (.getvar s.e.param)

/-- The branch of `_factor` for `#`. -/
def factorAlias (env : EzEnv V) : EzM V Unit := do
  let s ← FuelRun.read
  let name := tokenText s.e
  getSym env
  let s ← FuelRun.read
  match name with
  | some name =>
    match s.e.sym with
    | .set _ => pure ()
    | _ => callFunction env (.getvar (some name))
  | .none =>
    match s.e.sym with
    | .reg n => do
      callString env n "just support #string"
      getSym env
    | _ => callFunction env (.getvar s.e.param)

/-- `_factor`, whose value is `e->number` afterwards. -/
def factorStep (env : EzEnv V) (fuel : ℕ) (expression : EzM V V) (sym : EzToken) : EzM V Unit :=
  match sym with
  | .return => factorReturn env expression
  | .break => do
    getSym env
    expect env .semicolon "break lost ';'"
    updateFlag fun flag => { flag with isBreak := true }
  | .continue => do
    getSym env
    expect env .semicolon "continue lost ';'"
    updateFlag fun flag => { flag with isContinue := true }
  | .funcFor => do
    getSym env
    expressionFor env fuel expression
  | .ifFuncIf => do
    getSym env
    let x ← expressionIf env fuel expression
    setNumber x
  | .set .dplus => factorPrefix env env.succ
  | .set .dminus => factorPrefix env env.pred
  | .reg n => factorReg env expression n
  | .func3If => do
    getSym env
    inBananas env fuel "ifelse(a,b,c) lost '('" "ifelse(a,b,c) lost ')'" do
      let x ← expressionTernary env fuel expression
      setNumber x
  | .funcCustom => do
    let s ← FuelRun.read
    getSym env
    inBananas env fuel "function(a,b,...) lost '('" "function(a,b,...) lost ')'" do
      let x ← expressionCustom env fuel expression
        (s.tables.customs.lookup s.e.tokenizer.actualCustomKeyword)
      setNumber x
  | .funcFunction => pure ()
  | .funcMin => do
    getSym env
    inBananas env fuel "min(a,b,...) lost '('" "min(a,b,...) lost ')'" do
      let x ← expressionMin env fuel expression
      setNumber x
  | .funcMax => do
    getSym env
    inBananas env fuel "max(a,b,...) lost '('" "max(a,b,...) lost ')'" do
      let x ← expressionMax env fuel expression
      setNumber x
  | .funcPrint => do
    getSym env
    inBananas env fuel "print(a,b,...) lost '('" "print(a,b,...) lost ')'" do
      let x ← expressionPrint env fuel expression
      setNumber x
  | .funcBnot => do
    getSym env
    updateExp fun e => { e with number := env.bnot e.tokenizer.actualNumber }
    let _ ← accept env .number
    pure ()
  | .funcNot => do
    getSym env
    let x ← expression
    setNumber (env.lnot x)
    let _ ← accept env .number
    pure ()
  | .function0 f => do
    getSym env
    expect env .leftBanana "fun() lost '('"
    callFunction env (.function0 f)
    expect env .rightBanana "fun() lost ')'"
  | .function1 f => do
    getSym env
    inBananas env fuel "fun(num) lost '('" "fun(num) lost ')'" do
      let x ← expression
      note (.arguments (.function1 f))
      callFunction env (.function1 f x)
  | .funcDoSet => do
    getSym env
    inBananas env fuel "fun(num1,num2) lost '('" "fun(num1,num2) lost ')'" do
      let x ← expression
      expect env .dot "fun(num1,num2) lost ','"
      let y ← expression
      note (.arguments .funcDoSet)
      callFunction env (.doSet x y)
  | .funcVar => do
    getSym env
    inBananas env fuel "fun(string) lost '('" "fun(string) lost ')'" do
      factorString env
      FuelRun.skipWhen (fun s => s.e.sym = .rightBanana) (FuelRun.update (nextSym env))
  | .funcVarAlias => factorAlias env
  | .number => do
    updateExp fun e => { e with number := e.tokenizer.actualNumber }
    getSym env
  | .semicolon => getSym env
  | .leftBanana => do
    getSym env
    FuelRun.branch EzState.skips (expressionSkipUntilRightBanana env fuel) do
      let x ← expression
      setNumber x
    expect env .rightBanana "() lost ')'"
  | .leftBraces => do
    getSym env
    FuelRun.branch EzState.skips (expressionSkipUntilRightBraces env fuel) do
      let x ← expressionComma env fuel expression
      setNumber x
    expect env .rightBraces "\x7ba;b;...\x7d lost '\x7d'"
  | .eof => pure ()
  | _ => do
    raise (some "Factor: syntax error")
    getSym env

/-- `_factor` -/
def factor (env : EzEnv V) (fuel : ℕ) (expression : EzM V V) : EzM V V := do
  let s ← FuelRun.read
  note (.factor s.e.sym)
  factorStep env fuel expression s.e.sym
  let s ← FuelRun.read
  pure s.e.number

/-- `_term` -/
def term (env : EzEnv V) (fuel : ℕ) (expression : EzM V V) : EzM V V := do
  let f1 ← factor env fuel expression
  FuelRun.rounds fuel (fun f1 => do
    let s ← FuelRun.read
    match s.e.sym with
    | .op t => do
      getSym env
      let f2 ← factor env fuel expression
      let value ← FuelRun.branch (fun s => !s.flag.skip && !s.e.returns) (do
        note (.operate t f1 f2)
        pure (env.operate t f1 f2)) (pure f1)
      let s ← FuelRun.read
      pure (value, !s.e.returns)
    | _ => pure (f1, false)) f1

/-- The body of `_expression`. -/
def expressionStep (env : EzEnv V) (fuel : ℕ) (expression : EzM V V) : EzM V V := do
  let s ← FuelRun.read
  FuelRun.skipWhen (fun s => s.e.sym ≠ .plus && s.e.sym ≠ .minus) (getSym env)
  let f1 ← term env fuel expression
  FuelRun.rounds fuel (fun f1 => FuelRun.branch (fun s => s.e.sym = .plus || s.e.sym = .minus) (do
    let s ← FuelRun.read
    getSym env
    let f2 ← term env fuel expression
    let t ← FuelRun.read
    let sum := if s.e.sym = .plus then env.add f1 f2 else env.sub f1 f2
    pure (if t.flag.skip then f1 else sum, !t.e.isReturn)) (pure (f1, false)))
    (if s.e.sym = .minus then env.neg f1 else f1)

/-- `_expression` -/
def expression (env : EzEnv V) : ℕ → EzM V V
  | 0 => FuelRun.outOfFuel
  | fuel + 1 => expressionStep env (fuel + 1) (expression env fuel)

/-- The interpreter at the start of `ez_exp_check` and `ez_exp_run`, with the text loaded. -/
def ezExpStart (env : EzEnv V) (isCheck : Bool) (expstring : List Char) (param : Option (List Char))
    (tables : EzTables) : EzState V :=
  let loaded := tokenizerInit env.scan env.zero expstring tables
  { e := { ezExpInit env loaded.2 param with isCheck := isCheck }, tables := loaded.1 }

/-- `ez_exp_check` behind its initialization; the answer is whether no error was found. -/
def ezExpCheck (env : EzEnv V) (fuel : ℕ) : EzM V Bool := do
  getSym env
  let _ ← expressionComma env fuel (expression env fuel)
  expect env .eof "unexpected symbol"
  let s ← FuelRun.read
  pure !s.e.isError

/-- `ez_exp_run` behind its initialization. -/
def ezExpRun (env : EzEnv V) (fuel : ℕ) : EzM V V :=
  FuelRun.branch (fun s => s.e.tokenizer.error.isSome) (pure env.zero) (do
    getSym env
    let result ← expressionComma env fuel (expression env fuel)
    FuelRun.branch (fun s => s.e.isReturn) (do
      let s ← FuelRun.read
      pure s.e.returnValue) (do
      expect env .eof "unexpected symbol"
      pure result))

end Parser

end DasEdge.Expression
