import Mathlib.Data.List.Basic

/-!
# The tokenizer of the expression interpreter

`ez_tokenizer.c`: reading a token moves the cursor `p` over a text that ends with a null character.
A byte is the character of its code, and what lies behind the end of the text reads as null. The
keyword table and the custom functions are lists with the latest entry first, as in the buckets of
the hash tables. What `sscanf` makes of a number is a parameter.
-/

namespace DasEdge.Expression

/-- The built-in functions without arguments. -/
inductive EzFunction0 where
  | rand | reboot | time | timezone | year | month | day | hour | minute | second
  deriving DecidableEq, Repr

/-- The built-in functions of one number. -/
inductive EzFunction1 where
  | diGet | doGet | floor | ceil | abs | sin | cos | int | uint | tan | sqr | sgn | log | exp | atn | bcd2n
  deriving DecidableEq, Repr

/-- The assignments `T_SET_FIRST` to `T_SET_LAST`. -/
inductive EzSet where
  | equal | dplus | dminus | shiftLeftNum | shiftRightNum | multiplyNum | divideNum | modNum | plusNum
  | minusNum | orNum | andNum | xorNum
  deriving DecidableEq, Repr

/-- The operations `T_OP_FIRST` to `T_OP_LAST`. -/
inductive EzOp where
  | multiply | divide | mod | shiftLeft | shiftRight | notLess | notGreater | greater | less | notSame | same
  | andand | oror | or | and | xor
  deriving DecidableEq, Repr

/-- `ez_token` -/
inductive EzToken where
  | none | return | plus | minus | leftBanana | rightBanana | leftBracket | rightBracket | leftBraces | rightBraces
  | dot | semicolon | string | number | break | continue
  | function0 (f : EzFunction0) | function1
    (f : EzFunction1) | funcDoSet | funcBnot | funcNot | funcPrint | funcVar
  | funcVarAlias | funcMin | funcMax | func3If | funcFor | ifFuncIf | ifFuncElse | funcCustom | funcFunction
  | set (t : EzSet) | op (t : EzOp) | reg (n : ℕ) | loadFunctionError | error | eof
  deriving DecidableEq, Repr

/-- `ez_vtype` -/
inductive EzVtype where
  | unuse | number | string
  deriving DecidableEq, Repr

/-- `reg_name_to_token` of a register in use. -/
structure EzReg where
  name : List Char
  type : EzVtype
  deriving DecidableEq, Repr

/-- `struct ez_custom_node` -/
structure EzCustom where
  regs : List EzReg := []
  code : Option (List Char) := .none
  deriving DecidableEq, Repr

/-- The tables of keywords and of custom functions. -/
structure EzTables where
  keywords : List (List Char × EzToken)
  customs : List (List Char × EzCustom)
  deriving DecidableEq, Repr

/-- `ez_tokenizer`; `actualString` is the text at `actual_string` of length `actual_size`. -/
structure EzTokenizer (V : Type) where
  line : List Char
  p : ℕ := 0
  lnNum : ℕ := 0
  actualNumber : V
  actualString : Option (List Char) := .none
  actualCustomKeyword : List Char := []
  regs : List EzReg := []
  error : Option String := .none

/-- What a number token needs from the C library: `sscanf` on the buffer, and `NAN`. -/
structure EzScan (V : Type) where
  sscanf : List Char → V
  nan : V

/-- `EZ_EXP_REG_COUNT` -/
def ezExpRegCount : ℕ := 64

/-- `EZ_EXP_REG_NAME_LIMIT` -/
def ezExpRegNameLimit : ℕ := 16

/-- `EZ_KEYWORD_SIZE` -/
def ezKeywordSize : ℕ := 32

/-- `keyword_to_tokens` -/
def keywordToTokens : List (List Char × EzToken) :=
  [("return".toList, .return), ("floor".toList, .function1 .floor), ("ceil".toList, .function1 .ceil),
   ("abs".toList, .function1 .abs), ("sin".toList, .function1 .sin), ("cos".toList, .function1 .cos),
   ("uint".toList, .function1 .uint), ("int".toList, .function1 .int), ("tan".toList, .function1 .tan),
   ("sqr".toList, .function1 .sqr), ("sgn".toList, .function1 .sgn), ("log".toList, .function1 .log),
   ("exp".toList, .function1 .exp), ("atn".toList, .function1 .atn),
   ("bcd2n".toList, .function1 .bcd2n),
   ("minute".toList, .function0 .minute), ("min".toList, .funcMin), ("max".toList, .funcMax),
   ("ifelse".toList, .func3If), ("if".toList, .ifFuncIf), ("else".toList, .ifFuncElse),
   ("function".toList, .funcFunction), ("for".toList, .funcFor), ("break".toList, .break),
   ("continue".toList, .continue), ("print".toList, .funcPrint), ("rand".toList, .function0 .rand),
   ("fvar".toList, .funcVar), ("diget".toList, .function1 .diGet), ("doset".toList, .funcDoSet),
   ("doget".toList, .function1 .doGet), ("reboot".toList, .function0 .reboot),
   ("time".toList, .function0 .time),
   ("timezone".toList, .function0 .timezone), ("year".toList, .function0 .year),
   ("month".toList, .function0 .month),
   ("day".toList, .function0 .day), ("hour".toList, .function0 .hour),
   ("second".toList, .function0 .second)]

/-- The table after `ez_tokenizer_global_init`. -/
def ezTablesInit : EzTables := ⟨keywordToTokens.reverse, []⟩

/-- `isspace` -/
def isSpace (c : Char) : Bool := c = ' ' || (9 ≤ c.toNat && c.toNat ≤ 13)

/-- `ez_isdigit` -/
def isDigit (c : Char) : Bool := 48 ≤ c.toNat && c.toNat ≤ 57

/-- `ez_isxdigit` -/
def isXdigit (c : Char) : Bool :=
  isDigit c || (97 ≤ c.toNat && c.toNat ≤ 102) || (65 ≤ c.toNat && c.toNat ≤ 70)

/-- `__is_char_token`; `none` stands for `T_NONE`. -/
def isCharToken (c : Char) : Option EzToken :=
  match c with
  | '=' => some (.set .equal)
  | '+' => some .plus
  | '-' => some .minus
  | '*' => some (.op .multiply)
  | '/' => some (.op .divide)
  | '%' => some (.op .mod)
  | '(' => some .leftBanana
  | ')' => some .rightBanana
  | '>' => some (.op .greater)
  | '<' => some (.op .less)
  | '~' => some .funcBnot
  | '&' => some (.op .and)
  | '|' => some (.op .or)
  | '^' => some (.op .xor)
  | '!' => some .funcNot
  | '[' => some .leftBracket
  | ']' => some .rightBracket
  | '\x7b' => some .leftBraces
  | '\x7d' => some .rightBraces
  | ',' => some .dot
  | ';' => some .semicolon
  | '\x00' => some .eof
  | _ => .none

/-- `__is_equal_char_token` -/
def isEqualCharToken (ch0 equal : Char) : Option EzToken :=
  if equal = '=' then
    match ch0 with
    | '*' => some (.set .multiplyNum)
    | '/' => some (.set .divideNum)
    | '%' => some (.set .modNum)
    | '+' => some (.set .plusNum)
    | '-' => some (.set .minusNum)
    | '|' => some (.set .orNum)
    | '&' => some (.set .andNum)
    | '^' => some (.set .xorNum)
    | '>' => some (.op .notLess)
    | '<' => some (.op .notGreater)
    | '!' => some (.op .notSame)
    | _ => .none
  else .none

/-- `__is_same_char_token` -/
def isSameCharToken (ch0 same : Char) : Option EzToken :=
  if same = ch0 then
    match ch0 with
    | '+' => some (.set .dplus)
    | '-' => some (.set .dminus)
    | '<' => some (.op .shiftLeft)
    | '>' => some (.op .shiftRight)
    | '&' => some (.op .andand)
    | '|' => some (.op .oror)
    | '=' => some (.op .same)
    | _ => .none
  else .none

/-- `__is_shift_num_token` -/
def isShiftNumToken (ch0 same equal : Char) : Option EzToken :=
  if equal = '=' && same = ch0 then
    match ch0 with
    | '<' => some (.set .shiftLeftNum)
    | '>' => some (.set .shiftRightNum)
    | _ => .none
  else .none

/-- `keyword_chars`, in which `'G'` stands twice and `'J'` not at all; bytes above 127 pass as well. -/
def isKeywordChar (c : Char) : Bool :=
  (97 ≤ c.toNat && c.toNat ≤ 122) || (65 ≤ c.toNat && c.toNat ≤ 90 && c ≠ 'J') || isDigit c || c =
    '_' || 127 < c.toNat

section Tokenizer

variable {V : Type}

namespace EzTokenizer

/-- The character at an offset from the cursor. -/
def ch (tkz : EzTokenizer V) (k : ℕ) : Char := tkz.line.getD (tkz.p + k) '\x00'

/-- The text from the cursor to the end. -/
def rest (tkz : EzTokenizer V) : List Char := (tkz.line.drop tkz.p).takeWhile (· ≠ '\x00')

/-- Moves the cursor. -/
def advance (tkz : EzTokenizer V) (k : ℕ) : EzTokenizer V := { tkz with p := tkz.p + k }

/-- Moves the cursor and counts the lines that it passes. -/
def advanceLines (tkz : EzTokenizer V) (k : ℕ) : EzTokenizer V :=
  { tkz with p := tkz.p + k, lnNum := tkz.lnNum + (tkz.rest.take k).count '\n' }

/-- `__skip_space` -/
def skipSpace (tkz : EzTokenizer V) : EzTokenizer V :=
  tkz.advanceLines (tkz.rest.takeWhile isSpace).length

/-- `__skip_line_comments` when there is one. -/
def skipLineComment (tkz : EzTokenizer V) : EzTokenizer V :=
  let body := (tkz.advance 2).advance ((tkz.advance 2).rest.takeWhile (· ≠ '\n')).length
  if body.ch 0 = '\n' then body.advanceLines 1 else body

/-- The characters of a comment before the one that ends it. -/
def commentLength (c : Char) : List Char → ℕ
  | a :: b :: rest => if a = c ∧ b = '/' then 0 else 1 + commentLength c (b :: rest)
  | _ => 0

/-- `__skip_multiline_comments` when there is one; at the end of the text it steps over two more. -/
def skipMultilineComment (tkz : EzTokenizer V) : EzTokenizer V :=
  let body := tkz.advance 2
  (body.advanceLines (commentLength (tkz.ch 1) body.rest)).advance 2

/-- The loop that skips comments and the space behind each. -/
def skipComments : ℕ → EzTokenizer V → EzTokenizer V
  | 0, tkz => tkz
  | fuel + 1, tkz =>
    if tkz.ch 0 = '/' ∧ tkz.ch 1 = '/' then skipComments fuel tkz.skipLineComment.skipSpace
    else if tkz.ch 0 = '/' ∧ (tkz.ch 1 = '*' ∨ tkz.ch 1 = '-') then
      skipComments fuel tkz.skipMultilineComment.skipSpace
    else tkz

/-- Skips space and comments. -/
def skipBlank (tkz : EzTokenizer V) : EzTokenizer V := skipComments tkz.line.length tkz.skipSpace

/-- `__parse_reg` -/
def parseReg (tkz : EzTokenizer V) : EzToken × EzTokenizer V :=
  let lexeme := tkz.rest.takeWhile fun c => !(isSpace c || (isCharToken c).isSome)
  let after := tkz.advance lexeme.length
  if after.ch 0 = '\x00' then
    (.error, { after with
      error := some (if tkz.ch 0 = '$' then "$xxx miss name like '$i'"
      else "@xxx miss name like '@str'") })
  else if ezExpRegNameLimit < lexeme.length - 1 then
    (.error, { after with
      error := some (if tkz.ch 0 = '$' then "$xxx name max size:16" else "@xxx name max size:16") })
  else
    match tkz.regs.findIdx? fun reg => reg.name.isPrefixOf (tkz.rest.drop 1) with
    | some i => (.reg i, after)
    | .none =>
      if tkz.regs.length = ezExpRegCount then (.error, { after with error := some "max reg num :64" })
      else
        (.reg tkz.regs.length, { after with
          regs := tkz.regs ++ [⟨lexeme.drop 1, if tkz.ch 0 = '$' then .number else .string⟩] })

/-- A quoted text. -/
def parseString (tkz : EzTokenizer V) : EzToken × EzTokenizer V :=
  let text := (tkz.advance 1).rest.takeWhile (· ≠ tkz.ch 0)
  let after := tkz.advance (1 + text.length)
  if after.ch 0 = '\x00' then (.string, after)
  else (.string, { after.advance 1 with actualString := some text })

/-- A name behind `#`. -/
def parseAlias (tkz : EzTokenizer V) : EzToken × EzTokenizer V :=
  let text := (tkz.advance 1).rest.takeWhile fun c => !(isSpace c || (isCharToken c).isSome) && c ≠ '@'
  let after := tkz.advance (1 + text.length)
  if after.ch 0 = '\x00' then (.funcVarAlias, after)
  else (.funcVarAlias, { after with actualString := some text })

/-- A number: `sscanf` reads a copy of the text from its first digit on. -/
def parseNumber (scan : EzScan V) (tkz : EzTokenizer V) : EzToken × EzTokenizer V :=
  let length :=
    if tkz.ch 0 = '0' ∧
      (tkz.ch 1 = 'x' ∨ tkz.ch 1 = 'X') then 2 + ((tkz.advance 2).rest.takeWhile isXdigit).length
    else (tkz.rest.takeWhile fun c => isDigit c || c = '.').length
  (.number, { tkz.advance length with actualNumber := scan.sscanf (tkz.rest.take 32) })

/-- What stands at the cursor: a token, or the keyword `function`, which the caller handles. -/
inductive Lexeme where
  | token (t : EzToken)
  | functionKeyword

/-- A keyword, a custom function, or a name that is neither. -/
def parseKeyword (keywords : List (List Char × EzToken)) (tkz : EzTokenizer V) :
    Lexeme × EzTokenizer V :=
  let keyword := (tkz.rest.take (ezKeywordSize + 1)).takeWhile isKeywordChar
  let after := tkz.advance keyword.length
  if keyword = [] then (.token .error, tkz)
  else
    match keywords.lookup keyword with
    | .none => (.token .funcFunction, after)
    | some .funcFunction => (.functionKeyword, after)
    | some .funcCustom => (.token .funcCustom, { after with actualCustomKeyword := keyword })
    | some t => (.token t, after)

/-- The token of several special characters at the cursor, with its length. -/
def operatorToken (tkz : EzTokenizer V) : Option (EzToken × ℕ) :=
  match isShiftNumToken (tkz.ch 0) (tkz.ch 1) (tkz.ch 2) with
  | some t => some (t, 3)
  | .none =>
    match isSameCharToken (tkz.ch 0) (tkz.ch 1) with
    | some t => some (t, 2)
    | .none =>
      match isEqualCharToken (tkz.ch 0) (tkz.ch 1) with
      | some t => some (t, 2)
      | .none => .none

/-- `__tokenizer_get_next_token_ex` up to the handling of the keyword `function`. -/
def readToken (scan : EzScan V) (keywords : List (List Char × EzToken)) (tkz : EzTokenizer V) :
    Lexeme × EzTokenizer V :=
  let tkz := { tkz with actualString := .none }.skipBlank
  if tkz.ch 0 = '\x00' then (.token .eof, tkz)
  else if tkz.ch 0 = '$' ∨ tkz.ch 0 = '@' then (.token tkz.parseReg.1, tkz.parseReg.2)
  else
    match tkz.operatorToken with
    | some (t, k) => (.token t, tkz.advance k)
    | .none =>
      match isCharToken (tkz.ch 0) with
      | some t => (.token t, { tkz.advance 1 with actualNumber := scan.nan })
      | .none =>
        if tkz.ch 0 = '"' ∨ tkz.ch 0 = '\'' then (.token tkz.parseString.1, tkz.parseString.2)
        else if tkz.ch 0 = '#' then (.token tkz.parseAlias.1, tkz.parseAlias.2)
        else if isDigit (tkz.ch 0) then (.token (tkz.parseNumber scan).1, (tkz.parseNumber scan).2)
        else tkz.parseKeyword keywords

/-- The rounds of `__skip_function`, with the braces that are counted so far. -/
def skipFunction : ℕ → ℕ → ℕ → EzTokenizer V → EzTokenizer V
  | 0, _, _, tkz => tkz
  | fuel + 1, left, right, tkz =>
    if tkz.ch 0 = '\x00' then tkz
    else
      let start := tkz.skipBlank
      let text := start.rest.takeWhile (· ≠ '\n')
      let left := left + text.count '\x7b'
      let right := right + text.count '\x7d'
      if 0 < left ∧ left = right then start.advance text.length
      else skipFunction fuel left right (start.advance text.length)

/-- `ez_tokenizer_get_next_token` -/
def getNextToken (scan : EzScan V) (keywords : List (List Char × EzToken)) :
    ℕ → EzTokenizer V → EzToken × EzTokenizer V
  | 0, tkz => (.eof, tkz)
  | fuel + 1, tkz =>
    match tkz.readToken scan keywords with
    | (.token t, after) => (t, after)
    | (.functionKeyword, after) =>
      getNextToken scan keywords fuel (skipFunction (after.line.length + 1) 0 0 after)

/-- `ez_tokenizer_return` with the `unsigned short` size. -/
def tokenizerReturn (tkz : EzTokenizer V) : EzTokenizer V :=
  { tkz with p := tkz.line.length % 65536 - 1 }

end EzTokenizer

/-- The position and the text of a function body while its end is looked for. -/
structure BodyScan where
  left : ℕ := 0
  right : ℕ := 0
  leftP : ℕ := 0

/-- The parameters of a function definition, read from behind `(` on into the registers so far, and
whether all of them have a type. -/
def loadParams : ℕ → List Char → List EzReg → List EzReg × Bool
  | 0, _, regs => (regs, true)
  | fuel + 1, text, regs =>
    match text with
    | [] => (regs, true)
    | '\x7b' :: _ => (regs, true)
    | _ =>
      let text := text.dropWhile isSpace
      let name := (text.takeWhile fun c => c ≠ '\x7b' && !isSpace c && c ≠ ',' && c ≠ ')').take
        (ezExpRegNameLimit + 1)
      let after := (text.drop name.length).dropWhile fun c => c ≠ '\x7b' && c ≠ ','
      let after := if after.head? = some ',' then after.drop 1 else after
      let add (type : EzVtype) :=
        if regs.length < ezExpRegCount then regs ++ [⟨name.drop 1, type⟩] else regs
      match name.head? with
      | some '$' => loadParams fuel after (add .number)
      | some '@' => loadParams fuel after (add .string)
      | _ => (regs, false)

/-- The body loop of `__load_function`: the cursor behind it, and the code when its end was found. -/
def loadBody : ℕ → BodyScan → EzTokenizer V → EzTokenizer V × Option (List Char)
  | 0, _, tkz => (tkz, .none)
  | fuel + 1, body, tkz =>
    if tkz.ch 0 = '\x00' then (tkz, .none)
    else
      let start := tkz.skipBlank
      let text := start.rest.takeWhile (· ≠ '\n')
      let leftP := if body.left = 0 then start.p + (text.takeWhile (· ≠ '\x7b')).length else body.leftP
      let left := body.left + text.count '\x7b'
      let right := body.right + text.count '\x7d'
      let after := start.advance text.length
      let after := if after.ch 0 = '\n' then { after with lnNum := after.lnNum + 1 } else after
      if 0 < left ∧ left = right then (after, some ((after.line.take after.p).drop leftP))
      else loadBody fuel ⟨left, right, leftP⟩ after

/-- `__load_function` -/
def loadFunction (tables : EzTables) (tkz : EzTokenizer V) : EzTables × EzTokenizer V :=
  let tkz := tkz.skipSpace
  let key := (tkz.rest.takeWhile fun c => !isSpace c && c ≠ '(').take (ezKeywordSize + 1)
  let params := ((tkz.rest.drop key.length).dropWhile (· ≠ '(')).drop 1
  if key = [] then (tables, tkz)
  else
    let keywords := (key, .funcCustom) :: tables.keywords
    match loadParams (params.length + 1) params [] with
    | (regs, false) =>
      (⟨keywords, (key, { regs := regs }) :: tables.customs⟩,
      { tkz with error := some "unknown type of function" })
    | (regs, true) =>
      match loadBody (tkz.line.length + 1) {} tkz with
      | (after, .none) => (⟨keywords, (key, { regs := regs }) :: tables.customs⟩, after)
      | (after, some code) =>
        (⟨keywords, (key, { regs := regs, code := some (code ++ [';']) }) :: tables.customs⟩, after)

/-- The loading loop of `ez_tokenizer_init`: the tables, and the tokenizer when it stops with an
error. -/
def loadFunctions (scan : EzScan V) : ℕ → EzTables → EzTokenizer V → EzTables × Option (EzTokenizer V)
  | 0, tables, _ => (tables, .none)
  | fuel + 1, tables, tkz =>
    match tkz.readToken scan tables.keywords with
    | (.token .eof, _) => (tables, .none)
    | (.token .error, _) => (tables, .none)
    | (.token _, after) => loadFunctions scan fuel tables after
    | (.functionKeyword, after) =>
      let loaded := loadFunction tables after
      if loaded.2.error.isSome then (loaded.1, some loaded.2)
        else loadFunctions scan fuel loaded.1 loaded.2

/-- `ez_tokenizer_init` -/
def tokenizerInit (scan : EzScan V) (zero : V) (input : List Char) (tables : EzTables) :
    EzTables × EzTokenizer V :=
  match loadFunctions scan (input.length + 1) tables { line := input, actualNumber := zero } with
  | (tables, some tkz) => (tables, tkz)
  | (tables, .none) => (tables, { line := input, actualNumber := zero })

/-- The token that the loading loop of `ez_tokenizer_init` stops at. -/
def loadStop (scan : EzScan V) : ℕ → EzTables → EzTokenizer V → EzToken
  | 0, _, _ => .eof
  | fuel + 1, tables, tkz =>
    match tkz.readToken scan tables.keywords with
    | (.token .eof, _) => .eof
    | (.token .error, _) => .error
    | (.token _, after) => loadStop scan fuel tables after
    | (.functionKeyword, after) =>
      let loaded := loadFunction tables after
      if loaded.2.error.isSome then .loadFunctionError else loadStop scan fuel loaded.1 loaded.2

/-- The token that `ez_tokenizer_init` stops at for a text. -/
def tokenizerInitStop (scan : EzScan V) (zero : V) (input : List Char) (tables : EzTables) : EzToken :=
  loadStop scan (input.length + 1) tables { line := input, actualNumber := zero }

/-- Loading stops with a tokenizer exactly at the token for that. -/
theorem loadFunctions_isSome_iff (scan : EzScan V) (fuel : ℕ) (tables : EzTables)
    (tkz : EzTokenizer V) :
    (loadFunctions scan fuel tables tkz).2.isSome = true ↔
      loadStop scan fuel tables tkz = .loadFunctionError := by
  induction fuel generalizing tables tkz with
  | zero => simp [loadFunctions, loadStop]
  | succ fuel ih =>
    unfold loadFunctions loadStop
    split
    · simp
    · simp
    · exact ih _ _
    · dsimp only
      split
      · simp
      · exact ih _ _

/-- The tokenizer that loading stops with has an error. -/
theorem loadFunctions_error (scan : EzScan V) (fuel : ℕ) (tables : EzTables) (tkz : EzTokenizer V)
    {loaded : EzTokenizer V} (h : (loadFunctions scan fuel tables tkz).2 = some loaded) :
    loaded.error.isSome = true := by
  induction fuel generalizing tables tkz with
  | zero => cases h
  | succ fuel ih =>
    unfold loadFunctions at h
    split at h
    · cases h
    · cases h
    · exact ih _ _ h
    · dsimp only at h
      split at h
      · next herror =>
        cases h
        exact herror
      · exact ih _ _ h

/-- The tokenizer is given an error by `ez_tokenizer_init` exactly when a definition does not load. -/
theorem tokenizerInit_error_iff (scan : EzScan V) (zero : V) (input : List Char) (tables : EzTables) :
    (tokenizerInit scan zero input tables).2.error.isSome = true ↔
      tokenizerInitStop scan zero input tables = .loadFunctionError := by
  rw [tokenizerInitStop, ← loadFunctions_isSome_iff, tokenizerInit]
  rcases hload : loadFunctions scan (input.length + 1) tables { line := input, actualNumber := zero }
    with ⟨tables', loaded⟩
  cases loaded with
  | none => simp
  | some loaded => simp [loadFunctions_error scan _ tables _ (congrArg Prod.snd hload)]

/-- Where every definition loads, `ez_tokenizer_init` puts the tokenizer to the start of the text. -/
theorem tokenizerInit_of_loaded {scan : EzScan V} {zero : V} {input : List Char} {tables : EzTables}
    (h : tokenizerInitStop scan zero input tables ≠ .loadFunctionError) :
    (tokenizerInit scan zero input tables).2 = { line := input, actualNumber := zero } := by
  rw [tokenizerInitStop, Ne, ← loadFunctions_isSome_iff] at h
  rw [tokenizerInit]
  rcases hload : loadFunctions scan (input.length + 1) tables { line := input, actualNumber := zero }
    with ⟨tables', loaded⟩
  rw [hload] at h
  cases loaded with
  | none => rfl
  | some loaded => exact absurd rfl h

end Tokenizer

end DasEdge.Expression
