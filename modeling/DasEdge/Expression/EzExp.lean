import DasEdge.Expression.EzTokenizer
import DasEdge.Library.FuelRun
import Mathlib.Logic.Function.Basic

/-!
# The expression interpreter

`ez_expparser.c` and `_expressions.c`: one recursive descent over the text both checks a script and
runs it. There is no syntax tree; loops put the cursor back, and code that is not reached is parsed
with flags set. Numbers are abstract, and the built-in functions answer from the events so far, so
that their results are arbitrary. Each function of the source is a computation that may run out of
fuel; `expression` below the current one is a parameter until the recursion is closed.

The events are not part of the code: they record what a run reads, decides, calls and changes, with
the flags at that moment.
-/

namespace DasEdge.Expression

open DasEdge.Library

/-- The value of a string register: `freed` is a pointer to freed memory. -/
inductive EzString where
  | null | text (s : List Char) | freed
  deriving DecidableEq, Repr

/-- `ez_flag` -/
structure EzFlag where
  isBreak : Bool := false
  isContinue : Bool := false
  deriving DecidableEq, Repr

/-- `EZ_SKIP` -/
def EzFlag.skip (flag : EzFlag) : Bool := flag.isBreak || flag.isContinue

/-- The line, the column and the message of `e->error`. -/
structure EzError where
  lnNum : ℕ
  colNum : ℕ
  msg : Option String
  deriving DecidableEq, Repr

/-- A call that leaves the interpreter. -/
inductive EzCall (V : Type) where
  | function0 (f : EzFunction0)
  | function1 (f : EzFunction1) (x : V)
  | doSet (x y : V)
  | getvar (name : Option (List Char))
  | print
  deriving DecidableEq

/-- What a run does that its events record. -/
inductive EzStep (V : Type) where
  | round (lastSym sym : EzToken)
  | factor (sym : EzToken)
  | assign (n : ℕ) (type : EzVtype)
  | arguments (sym : EzToken)
  | call (c : EzCall V)
  | operate (t : EzOp) (f1 f2 : V)
  | operateSet (t : EzSet) (f1 f2 : V)
  | setNumber (n : ℕ)
  | freeString (n : ℕ)
  | setString (n : ℕ)
  | load (tk : EzToken)
  | error (msg : Option String)
  deriving DecidableEq

/-- A step with the flags at that moment; `inner` tells that it belongs to the body of a custom
function, and `unreached` that this function was called while the caller was checked or skipped. -/
structure EzEvent (V : Type) where
  step : EzStep V
  isCheck : Bool
  isSkip : Bool
  isReturn : Bool
  unreached : Bool
  inner : Bool

/-- `struct ez_exp` without its statistics and without `string`, which is only written and freed. The
members of a register's union are separate. -/
structure EzExp (V : Type) where
  lastSym : EzToken := .none
  sym : EzToken := .none
  isCheck : Bool := false
  isReturn : Bool := false
  isError : Bool := false
  tokenizer : EzTokenizer V
  param : Option (List Char) := .none
  returnValue : V
  number : V
  error : Option EzError := .none
  regNumber : ℕ → V
  regString : ℕ → EzString := fun _ => .null

/-- The interpreter, the flags of the innermost loop, the global tables and the events. -/
structure EzState (V : Type) where
  e : EzExp V
  flag : EzFlag := {}
  tables : EzTables
  unreached : Bool := false
  inner : Bool := false
  log : List (EzEvent V) := []

/-- Numbers and what the interpreter calls. -/
structure EzEnv (V : Type) where
  scan : EzScan V
  zero : V
  ofNat : ℕ → V
  isTrue : V → Bool
  less : V → V → Bool
  add : V → V → V
  sub : V → V → V
  neg : V → V
  succ : V → V
  pred : V → V
  bnot : V → V
  lnot : V → V
  operate : EzOp → V → V → V
  operateSet : EzSet → V → V → V
  call : List (EzEvent V) → EzCall V → V
  stale : List Char

/-- Integers as the numbers, with decimal literals and built-in functions that answer 0. -/
def intEnv : EzEnv Int where
  scan := ⟨fun text => (text.takeWhile isDigit).foldl (fun x c => 10 * x + (c.toNat - 48)) 0, 0⟩
  zero := 0
  ofNat := Int.ofNat
  isTrue x := x ≠ 0
  less x y := x < y
  add x y := x + y
  sub x y := x - y
  neg x := -x
  succ x := x + 1
  pred x := x - 1
  bnot x := -x - 1
  lnot x := if x = 0 then 1 else 0
  operate t x y :=
    let truth (b : Bool) : Int := if b then 1 else 0
    match t with
    | .multiply => x * y
    | .divide => x.tdiv y
    | .mod => x.tmod y
    | .shiftLeft => Int.ofNat (x.toNat <<< y.toNat)
    | .shiftRight => Int.ofNat (x.toNat >>> y.toNat)
    | .notLess => truth (y ≤ x)
    | .notGreater => truth (x ≤ y)
    | .greater => truth (y < x)
    | .less => truth (x < y)
    | .notSame => truth (x ≠ y)
    | .same => truth (x = y)
    | .andand => truth (x ≠ 0 && y ≠ 0)
    | .oror => truth (x ≠ 0 || y ≠ 0)
    | .or => Int.ofNat (x.toNat ||| y.toNat)
    | .and => Int.ofNat (x.toNat &&& y.toNat)
    | .xor => Int.ofNat (x.toNat ^^^ y.toNat)
  operateSet t x y :=
    match t with
    | .plusNum => x + y
    | .minusNum => x - y
    | .multiplyNum => x * y
    | .divideNum => x.tdiv y
    | .modNum => x.tmod y
    | .shiftLeftNum => Int.ofNat (x.toNat <<< y.toNat)
    | .shiftRightNum => Int.ofNat (x.toNat >>> y.toNat)
    | .orNum => Int.ofNat (x.toNat ||| y.toNat)
    | .andNum => Int.ofNat (x.toNat &&& y.toNat)
    | .xorNum => Int.ofNat (x.toNat ^^^ y.toNat)
    | _ => y
  call _ _ := 0
  stale := []

/-- A function of the interpreter. -/
abbrev EzM (V : Type) := FuelRun (EzState V)

section Interpreter

variable {V : Type}

/-- `EZ_RETURN` -/
def EzExp.returns (e : EzExp V) : Bool := e.isReturn || e.isError

/-- The condition under which a function of the interpreter skips its arguments or its block. -/
def EzState.skips (s : EzState V) : Bool := !s.e.isCheck && (s.flag.skip || s.e.returns)

/-- Changes the interpreter. -/
def updateExp (f : EzExp V → EzExp V) : EzM V Unit := FuelRun.update fun s => { s with e := f s.e }

/-- Changes the flags. -/
def updateFlag (f : EzFlag → EzFlag) : EzM V Unit := FuelRun.update fun s => { s with flag := f s.flag }

/-- Records a step. -/
def note (step : EzStep V) : EzM V Unit := FuelRun.update fun s =>
  { s with log := ⟨step, s.e.isCheck, s.flag.skip, s.e.isReturn, s.unreached, s.inner⟩ :: s.log }

/-- `e->number = ...` -/
def setNumber (x : V) : EzM V Unit := updateExp fun e => { e with number := x }

/-- The column that an error reports. -/
def columnNum (tkz : EzTokenizer V) : ℕ :=
  tkz.p - (((List.range (tkz.p + 1)).reverse.find? fun i => tkz.line.getD i '\x00' = '\n').getD 0)

/-- `__error` -/
def raise (msg : Option String) : EzM V Unit := do
  note (.error msg)
  updateExp fun e =>
    if e.isReturn || e.isError then e
    else { e with isError := true, error := some ⟨e.tokenizer.lnNum % 65536 + 1, columnNum e.tokenizer, msg⟩ }

/-- The token that is read next, and the interpreter with it as its symbol. -/
def nextSym (env : EzEnv V) (s : EzState V) : EzState V :=
  let next := s.e.tokenizer.getNextToken env.scan s.tables.keywords (s.e.tokenizer.line.length + 1)
  { s with e := { s.e with sym := next.1, tokenizer := next.2 } }

/-- `__get_sym` -/
def getSym (env : EzEnv V) : EzM V Unit := do
  FuelRun.update fun s => nextSym env { s with e := { s.e with lastSym := s.e.sym } }
  FuelRun.skipWhen (fun s => s.e.sym ≠ .error) do
    let s ← FuelRun.read
    raise s.e.tokenizer.error

/-- `_accept` -/
def accept (env : EzEnv V) (t : EzToken) : EzM V Bool :=
  FuelRun.branch (fun s => s.e.sym = t) (do
    getSym env
    pure true) (pure false)

/-- `__expect` -/
def expect (env : EzEnv V) (t : EzToken) (msg : String) : EzM V Unit := do
  let accepted ← accept env t
  if accepted then pure () else raise (some msg)

/-- `while (e->sym == t) { _accept(e, e->sym); ... }` with a value that each round changes. -/
def whileSym (env : EzEnv V) (fuel : ℕ) (t : EzToken) {α : Type} (body : α → EzM V α)
    (start : α) : EzM V α :=
  FuelRun.rounds fuel (fun a => FuelRun.branch (fun s => s.e.sym = t) (do
    getSym env
    let b ← body a
    pure (b, true)) (pure (a, false))) start

/-- `_expression_skip_until_right_banana` and `_expression_skip_until_right_braces`, with the numbers
of brackets that are counted so far. -/
def skipUntil (env : EzEnv V) (fuel : ℕ) (opening closing : EzToken) : EzM V Unit := do
  let s ← FuelRun.read
  let _ ← FuelRun.rounds fuel (fun (count : ℕ × ℕ) =>
    if count.1 = count.2 then pure (count, false)
    else do
      getSym env
      let s ← FuelRun.read
      if s.e.sym = opening then pure ((count.1 + 1, count.2), true)
      else if s.e.sym = closing then pure ((count.1, count.2 + 1), true)
      else if s.e.sym = .error ∨ s.e.sym = .eof then pure (count, false)
      else pure (count, true)) (if s.e.sym = opening then (2, 0) else (1, 0))
  pure ()

/-- `_expression_skip_until_right_banana` -/
def expressionSkipUntilRightBanana (env : EzEnv V) (fuel : ℕ) : EzM V Unit :=
  skipUntil env fuel .leftBanana .rightBanana

/-- `_expression_skip_until_right_braces` -/
def expressionSkipUntilRightBraces (env : EzEnv V) (fuel : ℕ) : EzM V Unit :=
  skipUntil env fuel .leftBraces .rightBraces

/-- The arguments of a function in brackets, which are skipped in code that is not reached. -/
def inBananas (env : EzEnv V) (fuel : ℕ) (lostLeft lostRight : String) (arguments : EzM V Unit) :
    EzM V Unit := do
  expect env .leftBanana lostLeft
  FuelRun.branch EzState.skips (expressionSkipUntilRightBanana env fuel) arguments
  expect env .rightBanana lostRight

/-- The branches of `_expression_set_number`: the value that is stored and the one that is given
back. -/
def assignedNumber (env : EzEnv V) (expression : EzM V V) (f1 : V) : EzSet → EzM V (V × V)
  | .dplus => pure (env.succ f1, f1)
  | .dminus => pure (env.pred f1, f1)
  | .equal => do
    let f2 ← expression
    pure (f2, f2)
  | t => do
    let f2 ← expression
    note (.operateSet t f1 f2)
    pure (env.operateSet t f1 f2, f1)

/-- `_expression_set_number` -/
def expressionSetNumber (env : EzEnv V) (expression : EzM V V) (n : ℕ) : EzM V V := do
  let s ← FuelRun.read
  let f1 := s.e.regNumber n
  match s.e.sym with
  | .set t => do
    getSym env
    let assigned ← assignedNumber env expression f1 t
    note (.assign n .number)
    FuelRun.skipWhen (fun s => s.flag.skip) do
      updateExp fun e => { e with regNumber := Function.update e.regNumber n assigned.1 }
      note (.setNumber n)
    pure assigned.2
  | _ => pure f1

/-- `ez_exp_strndup` of the text of the current token. -/
def tokenString (e : EzExp V) : EzString :=
  match e.tokenizer.actualString with
  | some (c :: text) => .text (c :: text)
  | _ => .null

/-- `_expression_set_string` -/
def expressionSetString (env : EzEnv V) (n : ℕ) : EzM V Unit := do
  note (.assign n .string)
  FuelRun.skipWhen (fun s => s.e.regString n = .null) do
    updateExp fun e => { e with regString := Function.update e.regString n .freed }
    note (.freeString n)
  expect env (.set .equal) "@xxx just support @xxx = '123'"
  FuelRun.skipWhen (fun s => s.e.sym ≠ .string || s.flag.skip) do
    updateExp fun e => { e with regString := Function.update e.regString n (tokenString e) }
    note (.setString n)
  expect env .string "@xxx = 'string' lost 'string'"

/-- `_expression_comma` -/
def expressionComma (env : EzEnv V) (fuel : ℕ) (expression : EzM V V) : EzM V V := do
  let f1 ← expression
  FuelRun.rounds fuel (fun f1 =>
    FuelRun.branch (fun s => s.e.sym = .semicolon || s.e.lastSym = .rightBraces) (do
      let s ← FuelRun.read
      note (.round s.e.lastSym s.e.sym)
      let _ ← accept env .semicolon
      FuelRun.branch (fun s => s.e.sym = .semicolon) (pure (f1, true))
        (FuelRun.branch (fun s => s.e.sym = .rightBraces || s.e.sym = .eof) (pure (f1, false)) (do
          let f1 ← expression
          pure (f1, true)))) (pure (f1, false))) f1

/-- A block in braces. -/
def inBraces (env : EzEnv V) (fuel : ℕ) (lostLeft lostRight : String) (expression : EzM V V) :
    EzM V V := do
  expect env .leftBraces lostLeft
  let f1 ← expressionComma env fuel expression
  expect env .rightBraces lostRight
  pure f1

/-- `_if_skip_if`, `_if_skip_else_if`, `_if_skip_else`: a block that is skipped. -/
def skipBraces (env : EzEnv V) (fuel : ℕ) (lostLeft lostRight : String) : EzM V Unit := do
  expect env .leftBraces lostLeft
  expressionSkipUntilRightBraces env fuel
  expect env .rightBraces lostRight

/-- `_expression_check_ternary` -/
def expressionCheckTernary (env : EzEnv V) (fuel : ℕ) (expression : EzM V V) : EzM V Unit := do
  let _ ← expression
  expect env .dot "ifelse(a,\x7bb\x7d,\x7bc\x7d) a, lost ','"
  let _ ← inBraces env fuel "ifelse(a,\x7bb\x7d,\x7bc\x7d) \x7bb\x7d lost '\x7b'"
    "ifelse(a,\x7bb\x7d,\x7bc\x7d) \x7bb\x7d lost '\x7d'" expression
  expect env .dot "ifelse(a,\x7bb\x7d,\x7bc\x7d) \x7bb\x7d,\x7bc\x7d lost ','"
  let _ ← inBraces env fuel "ifelse(a,\x7bb\x7d,\x7bc\x7d) \x7bc\x7d lost '\x7b'"
    "ifelse(a,\x7bb\x7d,\x7bc\x7d) \x7bc\x7d lost '\x7d'" expression

/-- `_expression_ternary` -/
def expressionTernary (env : EzEnv V) (fuel : ℕ) (expression : EzM V V) : EzM V V := do
  let f1 ← expression
  expect env .dot "ifelse(a,\x7bb\x7d,\x7bc\x7d) a, lost ','"
  FuelRun.branch (fun s => s.e.isCheck) (do
    expressionCheckTernary env fuel expression
    pure f1) (FuelRun.branch (fun s => s.flag.skip || s.e.returns) (do
      expressionSkipUntilRightBanana env fuel
      pure f1) (if env.isTrue f1 then do
        let f1 ← inBraces env fuel "ifelse(a,\x7bb\x7d,\x7bc\x7d) \x7bb\x7d lost '\x7b'"
          "ifelse(a,\x7bb\x7d,\x7bc\x7d) \x7bb\x7d lost '\x7d'" expression
        expressionSkipUntilRightBanana env fuel
        pure f1
      else do
        skipBraces env fuel "ifelse(a,\x7bb\x7d,\x7bc\x7d) \x7bb\x7d lost '\x7b'"
          "ifelse(a,\x7bb\x7d,\x7bc\x7d) \x7bb\x7d lost '\x7d'"
        expect env .dot "ifelse(a,\x7bb\x7d,\x7bc\x7d) \x7bb\x7d,\x7bc\x7d lost ','"
        inBraces env fuel "ifelse(a,\x7bb\x7d,\x7bc\x7d) \x7bc\x7d lost '\x7b'"
          "ifelse(a,\x7bb\x7d,\x7bc\x7d) \x7bc\x7d lost '\x7d'" expression))

/-- `_if_skip_if` -/
def ifSkipIf (env : EzEnv V) (fuel : ℕ) : EzM V Unit :=
  skipBraces env fuel "if(a) \x7b\x7d lost '\x7b'" "if(a) \x7b\x7d lost '\x7d'"

/-- `_if_skip_else_if` -/
def ifSkipElseIf (env : EzEnv V) (fuel : ℕ) : EzM V Unit :=
  skipBraces env fuel "else if(b) \x7b\x7d lost '\x7b'" "else if(b) \x7b\x7d lost '\x7d'"

/-- `_if_skip_else` -/
def ifSkipElse (env : EzEnv V) (fuel : ℕ) : EzM V Unit :=
  skipBraces env fuel "else \x7b\x7d lost '\x7b'" "else \x7b\x7d lost '\x7d'"

/-- `while (e->sym == T_IF_FUNC_ELSE) { _accept(e, e->sym); ... }`, left early by a result. -/
def elseChain (env : EzEnv V) (fuel : ℕ) {α : Type} (elseIf : EzM V (Option α))
    (otherwise : EzM V α) (missing : α) :
    EzM V α := do
  let result ← FuelRun.rounds fuel
    (fun (_ : Option α) => FuelRun.branch (fun s => s.e.sym = .ifFuncElse) (do
    getSym env
    FuelRun.branch (fun s => s.e.sym = .ifFuncIf) (do
      getSym env
      let result ← elseIf
      pure (result, result.isNone)) (do
        let result ← otherwise
        pure (some result, false))) (pure (.none, false))) .none
  pure (result.getD missing)

/-- `_if_skip_else_remain` -/
def ifSkipElseRemain (env : EzEnv V) (fuel : ℕ) : EzM V Unit :=
  elseChain env fuel (do
    expect env .leftBanana "else if(b) lost '('"
    expressionSkipUntilRightBanana env fuel
    expect env .rightBanana "else if(b) lost ')'"
    ifSkipElseIf env fuel
    pure .none) (ifSkipElse env fuel) ()

/-- `_if_skip_all` -/
def ifSkipAll (env : EzEnv V) (fuel : ℕ) : EzM V V := do
  expect env .leftBanana "if(a) lost '('"
  expressionSkipUntilRightBanana env fuel
  expect env .rightBanana "if(a) lost ')'"
  ifSkipIf env fuel
  ifSkipElseRemain env fuel
  pure env.zero

/-- `_if_check` -/
def ifCheck (env : EzEnv V) (fuel : ℕ) (expression : EzM V V) : EzM V V := do
  expect env .leftBanana "if(a) lost '('"
  let _ ← expression
  expect env .rightBanana "if(a) lost ')'"
  let _ ← inBraces env fuel "if(a) \x7b\x7d lost '\x7b'" "if(a) \x7b\x7d lost '\x7d'" expression
  elseChain env fuel (do
    expect env .leftBanana "else if(b) lost '('"
    let _ ← expression
    expect env .rightBanana "else if(b) lost ')'"
    let _ ← inBraces env fuel "else if(b) \x7b\x7d lost '\x7b'" "else if(b) \x7b\x7d lost '\x7d'" expression
    pure .none) (do
    let _ ← inBraces env fuel "else \x7b\x7d lost '\x7b'" "else \x7b\x7d lost '\x7d'" expression
    pure env.zero) env.zero

/-- `_if_do` -/
def ifDo (env : EzEnv V) (fuel : ℕ) (expression : EzM V V) : EzM V V := do
  expect env .leftBanana "if(a) lost '('"
  let c ← expression
  expect env .rightBanana "if(a) lost ')'"
  if env.isTrue c then
    let f1 ← inBraces env fuel "if(a) \x7b\x7d lost '\x7b'" "if(a) \x7b\x7d lost '\x7d'" expression
    ifSkipElseRemain env fuel
    pure f1
  else
    ifSkipIf env fuel
    elseChain env fuel (do
      expect env .leftBanana "else if(b) lost '('"
      let c ← expression
      expect env .rightBanana "else if(b) lost ')'"
      if env.isTrue c then
        let f1 ← inBraces env fuel "else if(b) \x7b\x7d lost '\x7b'" "else if(b) \x7b\x7d lost '\x7d'" expression
        ifSkipElseRemain env fuel
        pure (some f1)
      else
        ifSkipElseIf env fuel
        pure .none) (inBraces env fuel "else \x7b\x7d lost '\x7b'" "else \x7b\x7d lost '\x7d'"
        expression) env.zero

/-- `_expression_if` -/
def expressionIf (env : EzEnv V) (fuel : ℕ) (expression : EzM V V) : EzM V V :=
  FuelRun.branch (fun s => s.e.isCheck) (ifCheck env fuel expression)
    (FuelRun.branch (fun s => s.flag.skip || s.e.returns) (ifSkipAll env fuel)
      (ifDo env fuel expression))

/-- The cursor and the line that a loop comes back to. -/
structure ForMark where
  p : ℕ
  lnNum : ℕ

/-- `p = e->tokenizer.p - 1; ln_num = e->tokenizer.ln_num;` -/
def forMark : EzM V ForMark := do
  let s ← FuelRun.read
  pure ⟨s.e.tokenizer.p - 1, s.e.tokenizer.lnNum⟩

/-- `e->tokenizer.p = p; e->tokenizer.ln_num = ln_num; _accept(e, e->sym);` -/
def forJump (env : EzEnv V) (mark : ForMark) : EzM V Unit := do
  updateExp fun e => { e with tokenizer := { e.tokenizer with p := mark.p, lnNum := mark.lnNum } }
  getSym env

/-- Expressions with commas between them. -/
def forExpressions (env : EzEnv V) (fuel : ℕ) (expression : EzM V V) : EzM V Unit := do
  let _ ← expression
  whileSym env fuel .dot (fun _ => do
    let _ ← expression
    pure ()) ()

/-- `__for_get_cond` -/
def forGetCond (env : EzEnv V) (expression : EzM V V) (mark : ForMark) : EzM V Bool := do
  forJump env mark
  expect env .semicolon "for(;;) lost ';'"
  let cond ← FuelRun.branch (fun s => s.e.sym = .semicolon) (pure true) (do
    let c ← expression
    pure (env.isTrue c))
  let s ← FuelRun.read
  pure (cond && !s.flag.skip)

/-- `__for_do_op` -/
def forDoOp (env : EzEnv V) (fuel : ℕ) (expression : EzM V V) (mark : ForMark) : EzM V Unit := do
  forJump env mark
  expect env .semicolon "for(;;) lost ';'"
  FuelRun.skipWhen (fun s => s.e.sym = .rightBanana) (forExpressions env fuel expression)

/-- `__for_do_comma` -/
def forDoComma (env : EzEnv V) (fuel : ℕ) (expression : EzM V V) (mark : ForMark) : EzM V Unit := do
  forJump env mark
  expect env .leftBraces "for(;;) \x7b\x7d lost '\x7b'"
  let _ ← expressionComma env fuel expression
  pure ()

/-- `__for_skip_comma` -/
def forSkipComma (env : EzEnv V) (fuel : ℕ) (mark : ForMark) : EzM V Unit := do
  forJump env mark
  skipBraces env fuel "for(;;) \x7b\x7d lost '\x7b'" "for(;;) \x7b\x7d lost '\x7d'"

/-- The part of `_expression_for_check` and `_expression_for_do` up to the mark of the condition. -/
def forInit (env : EzEnv V) (fuel : ℕ) (expression : EzM V V) : EzM V ForMark := do
  expect env .leftBanana "for(;;) lost '('"
  FuelRun.skipWhen (fun s => s.e.sym = .semicolon) (forExpressions env fuel expression)
  let mark ← forMark
  expect env .semicolon "for(;;) lost ';'"
  pure mark

/-- Runs a loop with flags of its own. -/
def withFlag {α : Type} (loop : EzM V α) : EzM V α := do
  let s ← FuelRun.read
  updateFlag fun _ => {}
  let a ← loop
  updateFlag fun _ => s.flag
  pure a

/-- `_expression_for_check` -/
def expressionForCheck (env : EzEnv V) (fuel : ℕ) (expression : EzM V V) : EzM V Unit := withFlag do
  let pCond ← forInit env fuel expression
  let _ ← forGetCond env expression pCond
  let pOp ← forMark
  expect env .semicolon "for(;;) lost ';'"
  forDoOp env fuel expression pOp
  expect env .rightBanana "for(;;) lost ')'"
  let pComma ← forMark
  expect env .leftBraces "for(;;) \x7b\x7d lost '\x7b'"
  forDoComma env fuel expression pComma
  expect env .rightBraces "for(;;) \x7b\x7d lost '\x7d'"

/-- `_expression_skip_for_all` -/
def expressionSkipForAll (env : EzEnv V) (fuel : ℕ) : EzM V Unit := do
  expect env .leftBanana "for(;;) lost '('"
  expressionSkipUntilRightBanana env fuel
  expect env .rightBanana "for(;;) lost ')'"
  skipBraces env fuel "for(;;) \x7b\x7d lost '\x7b'" "for(;;) \x7b\x7d lost '\x7d'"

/-- `!flag.is_break && !e->is_return && !e->is_error` -/
def EzState.goesOn (s : EzState V) : Bool := !s.flag.isBreak && !s.e.returns

/-- The loop of `_expression_for_do` behind the first iteration. -/
def forLoop (env : EzEnv V) (fuel : ℕ) (expression : EzM V V) (pCond pOp pComma : ForMark) :
    EzM V Unit := do
  let _ ← FuelRun.rounds fuel (fun cond => FuelRun.branch (fun s => s.goesOn && cond) (do
    let cond ← forGetCond env expression pCond
    FuelRun.skipWhen (fun _ => !cond) do
      forDoComma env fuel expression pComma
      updateFlag fun flag => { flag with isContinue := false }
      FuelRun.skipWhen (fun s => s.flag.isBreak) (forDoOp env fuel expression pOp)
    pure (cond, true)) (pure (cond, false))) true
  pure ()

/-- `_expression_for_do` -/
def expressionForDo (env : EzEnv V) (fuel : ℕ) (expression : EzM V V) : EzM V Unit := withFlag do
  let pCond ← forInit env fuel expression
  let cond ← forGetCond env expression pCond
  let pOp ← forMark
  expect env .semicolon "for(;;) lost ';'"
  expressionSkipUntilRightBanana env fuel
  expect env .rightBanana "for(;;) lost ')'"
  let pComma ← forMark
  expect env .leftBraces "for(;;) \x7b\x7d lost '\x7b'"
  FuelRun.branch (fun _ => cond) (forDoComma env fuel expression pComma)
    (expressionSkipUntilRightBraces env fuel)
  expect env .rightBraces "for(;;) \x7b\x7d lost '\x7d'"
  FuelRun.skipWhen (fun s => !(s.goesOn && cond)) do
    forDoOp env fuel expression pOp
    forLoop env fuel expression pCond pOp pComma
  forSkipComma env fuel pComma

/-- `_expression_for` -/
def expressionFor (env : EzEnv V) (fuel : ℕ) (expression : EzM V V) : EzM V Unit :=
  FuelRun.branch (fun s => s.e.isCheck) (expressionForCheck env fuel expression)
    (FuelRun.branch (fun s => s.flag.skip || s.e.returns) (expressionSkipForAll env fuel)
      (expressionForDo env fuel expression))

/-- `_expression_max` -/
def expressionMax (env : EzEnv V) (fuel : ℕ) (expression : EzM V V) : EzM V V := do
  let max ← expression
  whileSym env fuel .dot (fun max => do
    let f1 ← expression
    pure (if env.less max f1 then f1 else max)) max

/-- `_expression_min` -/
def expressionMin (env : EzEnv V) (fuel : ℕ) (expression : EzM V V) : EzM V V := do
  let min ← expression
  whileSym env fuel .dot (fun min => do
    let f1 ← expression
    pure (if env.less f1 min then f1 else min)) min

/-- `_expression_print_value` without the text that is printed. -/
def expressionPrintValue (env : EzEnv V) (expression : EzM V V) : EzM V Unit :=
  FuelRun.branch (fun s => s.e.sym = .string) (do
    note (.arguments .funcPrint)
    note (.call .print)
    getSym env) (do
    let _ ← expression
    note (.arguments .funcPrint)
    note (.call .print))

/-- `_expression_print` -/
def expressionPrint (env : EzEnv V) (fuel : ℕ) (expression : EzM V V) : EzM V V := do
  expressionPrintValue env expression
  let n ← whileSym env fuel .dot (fun n => do
    expressionPrintValue env expression
    pure (n + 1)) 1
  pure (env.ofNat n)

/-- The registers of a custom function and their values. -/
structure CustomArgs (V : Type) where
  regs : List EzReg := []
  regNumber : ℕ → V
  regString : ℕ → EzString := fun _ => .null

/-- The argument for one register of a custom function, evaluated by the caller. -/
def customArg (env : EzEnv V) (expression : EzM V V) (args : CustomArgs V) (reg : EzReg) :
    EzM V (CustomArgs V) := do
  let index := args.regs.length
  match reg.type with
  | .number => do
    let x ← expression
    pure { args with
      regs := args.regs ++ [reg], regNumber := Function.update args.regNumber index x }
  | .string => do
    let s ← FuelRun.read
    getSym env
    pure { args with
      regs := args.regs ++ [reg], regString := Function.update args.regString index (tokenString s.e) }
  | .unuse => pure { args with regs := args.regs ++ [reg] }

/-- The loop over the registers of a custom function; a register without argument has no type. -/
def customArgs (env : EzEnv V) (expression : EzM V V) : List EzReg → CustomArgs V → EzM V (CustomArgs V)
  | [], args => pure args
  | reg :: regs, args => do
    let args ← if args.regs = [] then customArg env expression args reg
      else FuelRun.branch (fun s => s.e.sym = .dot) (do
        getSym env
        customArg env expression args reg) (pure
        { args with regs := args.regs ++ [{ reg with type := .unuse }] })
    customArgs env expression regs args

/-- An interpreter for a text, with everything else zero. -/
def ezExpInit (env : EzEnv V) (tkz : EzTokenizer V) (param : Option (List Char)) : EzExp V :=
  { tokenizer := tkz, param := param, returnValue := env.zero, number := env.zero,
    regNumber := fun _ => env.zero }

/-- The part of `_expression_custom` that runs the code of the function and comes back to the caller. -/
def customRun (env : EzEnv V) (fuel : ℕ) (expression : EzM V V) (e : EzExp V) : EzM V V := do
  let main ← FuelRun.read
  FuelRun.update fun s => { s with
    e := e, flag := {}, unreached := s.unreached || s.e.isCheck || s.flag.skip || s.e.isReturn
    inner := true }
  getSym env
  let f1 ← expressionComma env fuel expression
  let result ← FuelRun.branch (fun s => s.e.isReturn) (do
    let s ← FuelRun.read
    pure s.e.returnValue) (do
    expect env .eof "unexpected symbol"
    pure f1)
  FuelRun.update fun s => { s with
    e := main.e, flag := main.flag, unreached := main.unreached, inner := main.inner }
  pure result

/-- `_expression_custom` -/
def expressionCustom (env : EzEnv V) (fuel : ℕ) (expression : EzM V V) (custom : Option EzCustom) :
    EzM V V := do
  match custom with
  | .none => pure env.zero
  | some custom => do
    let s ← FuelRun.read
    let loaded := tokenizerInit env.scan env.zero (custom.code.getD []) s.tables
    FuelRun.update fun s => { s with tables := loaded.1 }
    note (.load (tokenizerInitStop env.scan env.zero (custom.code.getD []) s.tables))
    let args ← FuelRun.branch (fun s => s.e.sym = .rightBanana || custom.regs = [])
      (pure { regNumber := fun _ => env.zero }) (do
        let args ← customArgs env expression custom.regs { regNumber := fun _ => env.zero }
        whileSym env fuel .dot (fun _ => do
          let _ ← expression
          pure ()) ()
        pure args)
    note (.arguments .funcCustom)
    let e := ezExpInit env loaded.2 s.e.param
    customRun env fuel expression { e with
      tokenizer := { e.tokenizer with regs := args.regs ++ e.tokenizer.regs.drop args.regs.length }
      regNumber := args.regNumber, regString := args.regString }

end Interpreter

end DasEdge.Expression
