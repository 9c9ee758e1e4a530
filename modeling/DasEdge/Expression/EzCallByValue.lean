import DasEdge.Expression.EzWalk
import Mathlib.Order.Defs.LinearOrder
import Mathlib.Order.Nat

/-!
# Calls of custom functions

`_expression_custom` evaluates the arguments in the caller's interpreter and runs the code of the
function in an interpreter of its own, whose first registers are the parameters. The value of a number
is that of its expression, and the value of a string is the text of a literal or what a register holds;
but for both the code copies the text of the token, and a register's token has none.
-/

namespace DasEdge.Expression

open DasEdge.Library FuelRun

variable {V : Type}

/-- The value of an argument, with whether a string comes from a literal or from a register. -/
inductive EzArgument (V : Type) where
  | number (x : V) | literal (s : EzString) | register (s : EzString)
  deriving DecidableEq

namespace EzArgument

/-- The number that a parameter holds. -/
def numberOf (zero : V) : EzArgument V → V
  | number x => x
  | _ => zero

/-- The string that a parameter holds. -/
def stringOf : EzArgument V → EzString
  | literal s | register s => s
  | number _ => .null

/-- The string that the code hands over. -/
def passed : EzArgument V → EzString
  | literal s => s
  | _ => .null

end EzArgument

/-- What the parameters hold by position, and the others nothing. -/
def byPosition {α : Type} (f : EzArgument V → α) (nothing : α) (arguments : List (EzArgument V)) :
    ℕ → α := fun i => (arguments[i]?.map f).getD nothing

/-- One more argument. -/
theorem byPosition_append {α : Type} (f : EzArgument V → α) (nothing : α)
    (arguments : List (EzArgument V)) (a : EzArgument V) :
    byPosition f nothing (arguments ++ [a]) =
      Function.update (byPosition f nothing arguments) arguments.length (f a) := by
  funext i
  rcases lt_trichotomy i arguments.length with hi | rfl | hi
  · rw [Function.update_of_ne (Nat.ne_of_lt hi), byPosition, byPosition, List.getElem?_append_left hi]
  · rw [Function.update_self, byPosition, List.getElem?_concat_length]
    rfl
  · rw [Function.update_of_ne (Nat.ne_of_gt hi), byPosition, byPosition,
      List.getElem?_eq_none (by simpa using Nat.succ_le_of_lt hi), List.getElem?_eq_none hi.le]

/-- One more argument that leaves its register at nothing. -/
theorem byPosition_append_of_eq {α : Type} {f : EzArgument V → α} {nothing : α}
    (arguments : List (EzArgument V)) {a : EzArgument V} (ha : f a = nothing) :
    byPosition f nothing (arguments ++ [a]) = byPosition f nothing arguments := by
  have hlast : byPosition f nothing arguments arguments.length = nothing := by
    rw [byPosition, List.getElem?_eq_none le_rfl]
    rfl
  rw [byPosition_append, ha]
  exact (congrArg (Function.update _ _) hlast.symm).trans (Function.update_eq_self _ _)

section Spec

variable (env : EzEnv V) (expression : EzM V V)

/-- The value of an argument for a parameter of a type, evaluated by the caller. -/
def readArgument (type : EzVtype) : EzM V (EzArgument V) :=
  match type with
  | .number => do
    let x ← expression
    pure (.number x)
  | _ => do
    let s ← FuelRun.read
    getSym env
    match s.e.sym with
    | .reg n => pure (.register (s.e.regString n))
    | _ => pure (.literal (tokenString s.e))

/-- The arguments for parameters are read one by one, with commas between them. -/
inductive ArgumentsRead : List EzReg → EzState V → List (EzArgument V) → EzState V → Prop
  | last {reg : EzReg} {s t : EzState V} {a : EzArgument V} (type : reg.type ≠ .unuse)
    (read : readArgument env expression reg.type s = (some a, t)) (done : t.e.sym ≠ .dot) :
    ArgumentsRead [reg] s [a] t
  | more {reg : EzReg} {regs : List EzReg} {s t u : EzState V} {a : EzArgument V}
    {arguments : List (EzArgument V)} (type : reg.type ≠ .unuse)
    (read : readArgument env expression reg.type s = (some a, t)) (comma : t.e.sym = .dot)
    (rest : ArgumentsRead regs (getSym env t).2 arguments u) :
    ArgumentsRead (reg :: regs) s (a :: arguments) u

/-- A call with one argument for each parameter, read from behind `(` on. -/
inductive CallArguments : List EzReg → EzState V → List (EzArgument V) → EzState V → Prop
  | none {s : EzState V} (closed : s.e.sym = .rightBanana) : CallArguments [] s [] s
  | some {regs : List EzReg} {s t : EzState V} {arguments : List (EzArgument V)}
    (opened : s.e.sym ≠ .rightBanana) (read : ArgumentsRead env expression regs s arguments t) :
    CallArguments regs s arguments t

end Spec

/-- The caller behind loading the definitions of the code. -/
def loadCustom (env : EzEnv V) (custom : EzCustom) (s : EzState V) : EzState V :=
  { s with tables := (tokenizerInit env.scan env.zero (custom.code.getD []) s.tables).1 }.record
    (.load (tokenizerInitStop env.scan env.zero (custom.code.getD []) s.tables))

/-- A fresh interpreter at the start of a code, whose registers are the parameters with the values of
the arguments. -/
def freshExp (env : EzEnv V) (code : List Char) (param : Option (List Char)) (regs : List EzReg)
    (arguments : List (EzArgument V)) : EzExp V :=
  { ezExpInit env { line := code, actualNumber := env.zero, regs := regs } param with
    regNumber := byPosition (EzArgument.numberOf env.zero) env.zero arguments
    regString := byPosition EzArgument.stringOf .null arguments }

/-- The part of `_expression_custom` in front of the run of the code: the interpreter for it. -/
def customPrepare (env : EzEnv V) (fuel : ℕ) (expression : EzM V V) (custom : EzCustom) :
    EzM V (EzExp V) := do
  let s ← FuelRun.read
  let loaded := tokenizerInit env.scan env.zero (custom.code.getD []) s.tables
  FuelRun.update fun s => { s with tables := loaded.1 }
  note (.load (tokenizerInitStop env.scan env.zero (custom.code.getD []) s.tables))
  let args ← FuelRun.branch (fun s => s.e.sym = .rightBanana || custom.regs = [])
    (pure { regNumber := fun _ => env.zero }) (do
      let args ← customArgs env expression custom.regs { regNumber := fun _ => env.zero }
      whileSym env fuel .dot (fun _ => do
        let _ ← expression
        pure ()) ()
      pure args)
  note (.arguments .funcCustom)
  let e := ezExpInit env loaded.2 s.e.param
  pure { e with
    tokenizer := { e.tokenizer with regs := args.regs ++ e.tokenizer.regs.drop args.regs.length }
    regNumber := args.regNumber, regString := args.regString }

/-- The run of a custom function's code on its interpreter. -/
def customCode (env : EzEnv V) (fuel : ℕ) (expression : EzM V V) : EzM V V := do
  getSym env
  let f1 ← expressionComma env fuel expression
  FuelRun.branch (fun s => s.e.isReturn) (do
    let s ← FuelRun.read
    pure s.e.returnValue) (do
    expect env .eof "unexpected symbol"
    pure f1)

/-- `_expression_custom` prepares an interpreter and runs the code inside it. -/
theorem expressionCustom_eq (env : EzEnv V) (fuel : ℕ) (expression : EzM V V) (custom : EzCustom) :
    expressionCustom env fuel expression (some custom) =
      customPrepare env fuel expression custom >>= fun e =>
        insideCustom e (customCode env fuel expression) := by
  have hrun : ∀ e, customRun env fuel expression e = insideCustom e (customCode env fuel expression) :=
    customRun_eq env fuel expression
  unfold expressionCustom customPrepare
  simp only [bind_bind, pure_andThen, hrun]

/-- Skipping a line comment leaves the text of the token alone. -/
theorem skipLineComment_actualString (tkz : EzTokenizer V) :
    tkz.skipLineComment.actualString = tkz.actualString := by
  unfold EzTokenizer.skipLineComment
  dsimp only
  split
  · rfl
  · rfl

/-- Skipping blanks leaves the text of the token alone. -/
theorem skipBlank_actualString (tkz : EzTokenizer V) : tkz.skipBlank.actualString = tkz.actualString := by
  have hcomments : ∀ fuel (tkz : EzTokenizer V), (tkz.skipComments fuel).actualString =
      tkz.actualString := by
    intro fuel
    induction fuel with
    | zero => exact fun _ => rfl
    | succ fuel ih =>
      intro tkz
      unfold EzTokenizer.skipComments
      split
      · exact (ih tkz.skipLineComment.skipSpace).trans (skipLineComment_actualString tkz)
      · split
        · exact (ih tkz.skipMultilineComment.skipSpace).trans rfl
        · rfl
  exact (hcomments _ tkz.skipSpace).trans rfl

/-- The token of a register has no text. -/
theorem readToken_reg {scan : EzScan V} {keywords : List (List Char × EzToken)} {tkz after : EzTokenizer V}
    {n : ℕ} (h : tkz.readToken scan keywords = (.token (.reg n), after)) : after.actualString = none := by
  have hstart := skipBlank_actualString { tkz with actualString := none }
  unfold EzTokenizer.readToken at h
  generalize { tkz with actualString := none }.skipBlank = start at h hstart
  dsimp only at h hstart
  split at h
  · cases h
  · split at h
    · obtain ⟨-, rfl⟩ := Prod.mk.inj h
      unfold EzTokenizer.parseReg
      dsimp only
      split
      · exact hstart
      · split
        · exact hstart
        · split
          · exact hstart
          · split
            · exact hstart
            · exact hstart
    · split at h
      · obtain ⟨-, rfl⟩ := Prod.mk.inj h
        exact hstart
      · split at h
        · obtain ⟨-, rfl⟩ := Prod.mk.inj h
          exact hstart
        · split at h
          · unfold EzTokenizer.parseString at h
            dsimp only at h
            split at h
            · cases h
            · cases h
          · split at h
            · unfold EzTokenizer.parseAlias at h
              dsimp only at h
              split at h
              · cases h
              · cases h
            · split at h
              · cases h
              · unfold EzTokenizer.parseKeyword at h
                dsimp only at h
                split at h
                · cases h
                · split at h
                  · cases h
                  · cases h
                  · cases h
                  · obtain ⟨-, rfl⟩ := Prod.mk.inj h
                    exact hstart

/-- The token of a register that is read next has no text. -/
theorem getNextToken_reg {scan : EzScan V} {keywords : List (List Char × EzToken)} {fuel : ℕ}
    {tkz after : EzTokenizer V} {n : ℕ} (h : tkz.getNextToken scan keywords fuel = (.reg n, after)) :
    after.actualString = none := by
  induction fuel generalizing tkz with
  | zero => cases h
  | succ fuel ih =>
    unfold EzTokenizer.getNextToken at h
    split at h
    · next t after' hread =>
      obtain ⟨rfl, rfl⟩ := Prod.mk.inj h
      exact readToken_reg hread
    · exact ih h

/-- Raising an error leaves the symbol and the tokenizer alone. -/
theorem raise_token (msg : Option String) (s : EzState V) :
    (raise msg s).2.e.sym = s.e.sym ∧ (raise msg s).2.e.tokenizer = s.e.tokenizer := by
  simp only [raise, note, updateExp, update_bind_apply, update_apply]
  split
  · exact ⟨rfl, rfl⟩
  · exact ⟨rfl, rfl⟩

/-- Behind reading a register there is no text of a token. -/
theorem getSym_reg (env : EzEnv V) (s : EzState V) {n : ℕ} (h : (getSym env s).2.e.sym = .reg n) :
    tokenString (getSym env s).2.e = .null := by
  obtain ⟨next, hnext⟩ : ∃ next, next = nextSym env { s with e := { s.e with lastSym := s.e.sym } } :=
    ⟨_, rfl⟩
  have hread : getSym env s = FuelRun.skipWhen (fun s => s.e.sym ≠ .error) (do
      let s ← FuelRun.read
      raise s.e.tokenizer.error) next := hnext ▸ rfl
  rw [hread, FuelRun.skipWhen, FuelRun.branch] at h ⊢
  have hreg : next.e.sym = .reg n → tokenString next.e = .null := by
    intro hsym
    have htoken : next.e.tokenizer.actualString = none := by
      rw [hnext] at hsym ⊢
      exact getNextToken_reg (Prod.ext hsym rfl)
    rw [tokenString, htoken]
  split at h
  · next htest =>
    rw [if_pos htest]
    exact hreg h
  · next htest =>
    rw [if_neg htest]
    have hraise := raise_token next.e.tokenizer.error next
    have hsym : next.e.sym = .reg n := hraise.1.symm.trans h
    have hstring := hreg hsym
    rw [tokenString] at hstring ⊢
    exact hraise.2.symm ▸ hstring

/-- The registers for the parameters that have been read. -/
def readArgs (env : EzEnv V) (regs : List EzReg) (arguments : List (EzArgument V)) : CustomArgs V where
  regs := regs
  regNumber := byPosition (EzArgument.numberOf env.zero) env.zero arguments
  regString := byPosition EzArgument.passed .null arguments

/-- One more number. -/
theorem readArgs_number (env : EzEnv V) {regs : List EzReg} {arguments : List (EzArgument V)}
    (hlength : regs.length = arguments.length) (reg : EzReg) (x : V) :
    readArgs env (regs ++ [reg]) (arguments ++ [.number x]) = { readArgs env regs arguments with
      regs := regs ++ [reg], regNumber :=
      Function.update (readArgs env regs arguments).regNumber regs.length x } := by
  have hstring : byPosition EzArgument.passed .null (arguments ++ [.number x]) =
      byPosition EzArgument.passed .null arguments := byPosition_append_of_eq arguments rfl
  rw [readArgs, byPosition_append, hstring, hlength]
  rfl

/-- One more string. -/
theorem readArgs_string (env : EzEnv V) {regs : List EzReg} {arguments : List (EzArgument V)}
    (hlength : regs.length = arguments.length) (reg : EzReg) {a : EzArgument V}
    (ha : a.numberOf env.zero = env.zero) :
    readArgs env (regs ++ [reg]) (arguments ++ [a]) = { readArgs env regs arguments with
      regs := regs ++ [reg], regString :=
      Function.update (readArgs env regs arguments).regString regs.length a.passed } := by
  rw [readArgs, byPosition_append_of_eq _ ha, byPosition_append, hlength]
  rfl

/-- An argument goes to the next register. -/
theorem customArg_of_read {env : EzEnv V} {expression : EzM V V} {reg : EzReg} {s t : EzState V}
    {a : EzArgument V} {regs : List EzReg} {arguments : List (EzArgument V)}
    (hlength : regs.length = arguments.length) (htype : reg.type ≠ .unuse)
    (hread : readArgument env expression reg.type s = (some a, t))
    (hfresh : ∀ n, s.e.sym = .reg n → tokenString s.e = .null) :
    customArg env expression (readArgs env regs arguments) reg s =
      (some (readArgs env (regs ++ [reg]) (arguments ++ [a])), t) := by
  unfold customArg
  unfold readArgument at hread
  cases hreg : reg.type with
  | unuse => exact absurd hreg htype
  | number =>
    rw [hreg] at hread
    dsimp only at hread ⊢
    rw [bind_apply] at hread ⊢
    rcases hexp : expression s with ⟨result, t'⟩
    rw [hexp] at hread
    cases result with
    | none => cases hread
    | some x =>
      obtain ⟨hx, rfl⟩ := Prod.mk.inj hread
      obtain rfl := Option.some.inj hx
      rw [readArgs_number env hlength]
      rfl
  | string =>
    rw [hreg] at hread
    dsimp only at hread ⊢
    have hsym : getSym env s = (some (), (getSym env s).2) := Prod.ext (getSym_result env s) rfl
    rw [read_bind_apply, bind_of_some _ hsym] at hread ⊢
    cases hs : s.e.sym with
    | reg n =>
      rw [hs] at hread
      obtain ⟨ha, rfl⟩ := Prod.mk.inj hread
      obtain rfl := Option.some.inj ha
      rw [hfresh n hs, readArgs_string env hlength _ rfl]
      rfl
    | _ =>
      rw [hs] at hread
      obtain ⟨ha, rfl⟩ := Prod.mk.inj hread
      obtain rfl := Option.some.inj ha
      rw [readArgs_string env hlength _ rfl]
      rfl

/-- At least one argument is read. -/
theorem ArgumentsRead.ne_nil {env : EzEnv V} {expression : EzM V V} {regs : List EzReg}
    {s t : EzState V} {arguments : List (EzArgument V)}
    (h : ArgumentsRead env expression regs s arguments t) : regs ≠ [] := by
  cases h with
  | last | more => simp

/-- The registers from one on, whose argument is not preceded by a comma. -/
def customArgsFrom (env : EzEnv V) (expression : EzM V V) (args : CustomArgs V) :
    List EzReg → EzM V (CustomArgs V)
  | [] => pure args
  | reg :: regs => do
    let args ← customArg env expression args reg
    customArgs env expression regs args

/-- Behind a comma the next registers get their arguments. -/
theorem customArgs_comma (env : EzEnv V) (expression : EzM V V) {regs : List EzReg} (hregs : regs ≠ [])
    {args : CustomArgs V} (hargs : args.regs ≠ []) {s : EzState V} (hs : s.e.sym = .dot) :
    customArgs env expression regs args s =
      customArgsFrom env expression args regs (getSym env s).2 := by
  have hsym : getSym env s = (some (), (getSym env s).2) := Prod.ext (getSym_result env s) rfl
  cases regs with
  | nil => exact absurd rfl hregs
  | cons reg regs =>
    unfold customArgs
    dsimp only
    rw [if_neg hargs, customArgsFrom, bind_apply, bind_apply, FuelRun.branch,
      if_pos (decide_eq_true hs), bind_of_some _ hsym]

/-- Arguments that are read go to the registers one after the other. -/
theorem customArgsFrom_of_read {env : EzEnv V} {expression : EzM V V} {regs : List EzReg}
    {s t : EzState V} {arguments : List (EzArgument V)}
    (h : ArgumentsRead env expression regs s arguments t)
    (hfresh : ∀ n, s.e.sym = .reg n → tokenString s.e = .null) {done : List EzReg}
    {before : List (EzArgument V)} (hlength : done.length = before.length) :
    customArgsFrom env expression (readArgs env done before) regs s =
      (some (readArgs env (done ++ regs) (before ++ arguments)), t) := by
  induction h generalizing done before with
  | last htype hread _ =>
    rw [customArgsFrom, bind_of_some _ (customArg_of_read hlength htype hread hfresh)]
    rfl
  | @more reg regs s t u a arguments htype hread hcomma hrest ih =>
    have hlength' : (done ++ [reg]).length = (before ++ [a]).length := by simp [hlength]
    have hnext := ih (fun n => getSym_reg env t) hlength'
    rw [customArgsFrom, bind_of_some _ (customArg_of_read hlength htype hread hfresh)]
    have hargs : (readArgs env (done ++ [reg]) (before ++ [a])).regs ≠ [] := by simp [readArgs]
    rw [customArgs_comma env expression hrest.ne_nil hargs hcomma, hnext, List.append_assoc, List.append_assoc]
    rfl

/-- The interpreter that the code is run on. -/
def customExp (env : EzEnv V) (loaded : EzTokenizer V) (param : Option (List Char)) (regs : List EzReg)
    (arguments : List (EzArgument V)) : EzExp V :=
  { ezExpInit env loaded param with
    tokenizer := { loaded with regs := regs ++ loaded.regs.drop regs.length }
    regNumber := byPosition (EzArgument.numberOf env.zero) env.zero arguments
    regString := byPosition EzArgument.passed .null arguments }

/-- Arguments that are read go to the registers of a call, and nothing else is evaluated. -/
theorem callArgs_of_read {env : EzEnv V} (fuel : ℕ) {expression : EzM V V} {regs : List EzReg}
    {s t : EzState V} {arguments : List (EzArgument V)}
    (h : CallArguments env expression regs s arguments t)
    (hfresh : ∀ n, s.e.sym = .reg n → tokenString s.e = .null) :
    FuelRun.branch (fun s => s.e.sym = .rightBanana || regs = [])
      (pure { regNumber := fun _ => env.zero }) (do
        let args ← customArgs env expression regs { regNumber := fun _ => env.zero }
        whileSym env (fuel + 1) .dot (fun _ => do
          let _ ← expression
          pure ()) ()
        pure args) s = (some (readArgs env regs arguments), t) := by
  cases h with
  | none hclosed =>
    rw [FuelRun.branch, if_pos (by simp)]
    rfl
  | some hopened hread =>
    have hend : t.e.sym ≠ .dot := by
      clear hopened hfresh
      induction hread with
      | last _ _ hdone => exact hdone
      | more _ _ _ _ ih => exact ih
    have hargs : customArgs env expression regs { regNumber := fun _ => env.zero } s =
        (some (readArgs env regs arguments), t) := by
      have hfrom : customArgsFrom env expression (readArgs env [] []) regs s =
          (some (readArgs env regs arguments), t) := customArgsFrom_of_read hread hfresh rfl
      have hnonempty := hread.ne_nil
      cases regs with
      | nil => exact absurd rfl hnonempty
      | cons reg regs => exact hfrom
    have hloop : whileSym env (fuel + 1) .dot (fun _ => do
        let _ ← expression
        pure ()) () t = (some (), t) := by
      rw [whileSym, FuelRun.rounds, bind_apply, FuelRun.branch, if_neg (by simpa using hend)]
      rfl
    rw [FuelRun.branch, if_neg (by simpa using ⟨hopened, hread.ne_nil⟩), bind_of_some _ hargs,
      bind_of_some _ hloop]
    rfl

/-- What `_expression_custom` prepares for a call with one argument for each parameter. -/
theorem customPrepare_of_call {env : EzEnv V} (fuel : ℕ) {expression : EzM V V} {custom : EzCustom}
    {s t : EzState V} {arguments : List (EzArgument V)}
    (h : CallArguments env expression custom.regs (loadCustom env custom s) arguments t)
    (hfresh : ∀ n, s.e.sym = .reg n → tokenString s.e = .null) :
    customPrepare env (fuel + 1) expression custom s =
      (some (customExp env (tokenizerInit env.scan env.zero (custom.code.getD []) s.tables).2 s.e.param
        custom.regs arguments), t.record (.arguments .funcCustom)) := by
  have hargs := callArgs_of_read fuel h hfresh
  unfold customPrepare
  rw [read_bind_apply]
  dsimp only
  rw [update_bind_apply]
  exact bind_of_some _ hargs

/-- The interpreter of the code is a fresh one with the values of the arguments exactly when the
definitions of the code load and the strings in registers are null. -/
theorem customExp_eq_iff (env : EzEnv V) (code : List Char) (tables : EzTables)
    (param : Option (List Char)) (regs : List EzReg) (arguments : List (EzArgument V)) :
    customExp env (tokenizerInit env.scan env.zero code tables).2 param regs arguments =
        freshExp env code param regs arguments ↔
      tokenizerInitStop env.scan env.zero code tables ≠ .loadFunctionError ∧
        ∀ text, .register text ∈ arguments → text = .null := by
  constructor
  · intro heq
    have herror : (tokenizerInit env.scan env.zero code tables).2.error = none :=
      congrArg (fun e => e.tokenizer.error) heq
    have hstring : byPosition EzArgument.passed .null arguments =
        byPosition EzArgument.stringOf .null arguments := congrArg EzExp.regString heq
    refine ⟨fun hstop => ?_, fun text hmem => ?_⟩
    · rw [← tokenizerInit_error_iff, herror] at hstop
      cases hstop
    · obtain ⟨i, hi⟩ := List.getElem?_of_mem hmem
      have hat := congrFun hstring i
      simp only [byPosition, hi, Option.map_some, Option.getD_some] at hat
      exact hat.symm
  · rintro ⟨hstop, hnull⟩
    have hstring : byPosition EzArgument.passed .null arguments =
        byPosition EzArgument.stringOf .null arguments := by
      funext i
      rw [byPosition, byPosition]
      cases hi : arguments[i]? with
      | none => rfl
      | some a =>
        cases a with
        | register text => exact (hnull text (List.mem_of_getElem? hi)).symm
        | _ => rfl
    rw [customExp, hstring, tokenizerInit_of_loaded hstop, List.drop_nil, List.append_nil]
    rfl

/-- A call from a state with arguments that leave the caller in another one: the code starts in a fresh
interpreter in which each parameter holds the value of its argument, the value of the call is that of
the code there, and the caller's interpreter and flags are as behind the arguments. -/
structure CallsByValue (env : EzEnv V) (fuel : ℕ) (expression : EzM V V) (custom : EzCustom)
    (s : EzState V) (arguments : List (EzArgument V)) (t : EzState V) : Prop where
  start : customPrepare env fuel expression custom s =
    (some (freshExp env (custom.code.getD []) s.e.param custom.regs arguments),
      t.record (.arguments .funcCustom))
  value : (expressionCustom env fuel expression (some custom) s).1 =
    (customCode env fuel expression (enterCustom
      (freshExp env (custom.code.getD []) s.e.param custom.regs arguments)
      (t.record (.arguments .funcCustom)))).1
  caller : ∀ x u, expressionCustom env fuel expression (some custom) s = (some x, u) →
    u.e = t.e ∧ u.flag = t.flag

/-- A function of a text and a number. -/
def labelledSuccessor : EzCustom where
  regs := [⟨['s'], .string⟩, ⟨['n'], .number⟩]
  code := some "\x7breturn $n+1;\x7d;".toList

/-- A function of a text. -/
def labelled : EzCustom where
  regs := [⟨['t'], .string⟩]
  code := some "\x7breturn 1;\x7d;".toList

/-- A caller behind `f(` whose string register holds a text. -/
def stringCaller : EzState Int :=
  { ezExpStart intEnv false "@s)".toList none ezTablesInit with
    e := { (ezExpStart intEnv false "@s)".toList none ezTablesInit).e with
      regString := fun _ => .text "abc".toList
      tokenizer := { line := "@s)".toList, actualNumber := 0, regs := [⟨['s'], .string⟩] } } }

end DasEdge.Expression
