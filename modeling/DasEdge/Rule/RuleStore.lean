import DasEdge.Expression.EzTokenizer
import DasEdge.Library.HashChain
import Mathlib.Data.Int.Notation
import Mathlib.Data.Nat.Notation

/-!
# The rule store

`rule.c` keeps rules by name in a chained hash table, and for each rule up to two custom functions
of the expression interpreter in the table of `ez_custom_function.c`: the input function under the
rule's name and the output function under the name with `_o`. A name that fills its array up has no
null character there; string functions then go on with what lies behind the array, which is an input
here. Allocations succeed.
-/

namespace DasEdge.Rule

open DasEdge.Expression DasEdge.Library

/-- `RULE_NAME_SIZE` -/
def ruleNameSize : ℕ := ezKeywordSize - 2

/-- What string functions see of an array that `strncpy` copies a text to. -/
def cArray (size : ℕ) (text behind : List Char) : List Char :=
  if text.length < size then text else text.take size ++ behind

/-- `__get_hash`, with `RULE_HASH_LIMIT` and `CUSTOM_HASH_LIMIT`. -/
def getHash (str : List Char) : ℕ :=
  ((str.foldl (fun hash c => hash * 131 + c.toNat.toUInt32) (0 : UInt32)) % 97).toNat

/-- The data of a rule besides its name. -/
structure RuleData where
  enable : ℤ
  type : ℤ
  pIn : Option (List Char)
  cIn : Option (List Char)
  pOut : Option (List Char)
  cOut : Option (List Char)
  sys : ℤ
  deriving DecidableEq

/-- `struct rule_node` -/
structure RuleNode extends RuleData where
  name : List Char
  deriving DecidableEq

/-- `RULE_TYPE_ERR` -/
def ruleTypeErr : ℤ := -1

/-- `RULE_SYS_ERR` -/
def ruleSysErr : ℤ := -1

/-- What lies behind the arrays that the functions of a new rule copy names to. -/
structure RuleBehind where
  ruleKey : List Char := []
  inKey : List Char := []
  inNode : List Char := []
  outKey : List Char := []
  outNode : List Char := []

/-- The tables `s_rule_table` and `s_custom_table`. -/
structure RuleStore where
  rules : ChainTable (List Char) RuleNode
  customs : ChainTable (List Char) EzCustom

/-- `ez_custom_new` -/
def ezCustomNew (customs : ChainTable (List Char) EzCustom) (key : List Char) (custom : EzCustom)
    (behind : List Char) :
    ChainTable (List Char) EzCustom :=
  customs.insert (getHash key) (cArray (ezKeywordSize + 1) key behind) custom

/-- `ez_custom_get` -/
def ezCustomGet (customs : ChainTable (List Char) EzCustom) (key : List Char) : Option EzCustom :=
  customs.lookup (getHash key) key

/-- `ez_custom_del` -/
def ezCustomDel (customs : ChainTable (List Char) EzCustom) (key : List Char) :
    ChainTable (List Char) EzCustom :=
  customs.erase (getHash key) key

/-- The loop of `ez_exp_custom_new` over the parameters, into the registers so far. -/
def customParams : ℕ → List Char → List EzReg → List EzReg
  | 0, _, regs => regs
  | fuel + 1, text, regs =>
    if text = [] then regs
    else
      let text := text.dropWhile isSpace
      let name :=
        (text.takeWhile fun c => !isSpace c && c ≠ ',' && c ≠ ')').take (ezExpRegNameLimit + 1)
      let after := ((text.drop name.length).dropWhile (· ≠ ',')).drop 1
      let add (type : EzVtype) :=
        if regs.length < ezExpRegCount then regs ++ [⟨name.drop 1, type⟩] else regs
      match name.head? with
      | some '$' => customParams fuel after (add .number)
      | some '@' => customParams fuel after (add .string)
      | _ => customParams fuel after regs

/-- The registers of a custom function, from what stands behind `(` on. -/
def customRegs (text : List Char) : List EzReg :=
  let text := text.dropWhile isSpace
  if text.head? = some ')' then [] else customParams (text.length + 1) text []

/-- `ez_exp_custom_new` -/
def ezExpCustomNew (customs : ChainTable (List Char) EzCustom)
    (func code behindKey behindNode : List Char) :
    ChainTable (List Char) EzCustom :=
  let text := func.dropWhile isSpace
  let key := (text.takeWhile fun c => !isSpace c && c ≠ '(').take (ezKeywordSize + 1)
  let params := ((text.drop key.length).dropWhile (· ≠ '(')).drop 1
  if key = [] then customs
  else
    ezCustomNew customs (cArray (ezKeywordSize + 1) key behindKey) { regs := customRegs params, code := some (code ++ [';']) }
      behindNode

/-- The name of the output function. -/
def outName (name : List Char) : List Char := name ++ ['_', 'o']

/-- The text of a function: its name with its parameters. -/
def funcText (name : List Char) (params : Option (List Char)) : List Char :=
  name ++ '(' :: (params.getD [] ++ [')'])

/-- `__add_custom_exp` -/
def addCustomExp (customs : ChainTable (List Char) EzCustom) (rule : RuleNode) (behind : RuleBehind) :
    ChainTable (List Char) EzCustom :=
  let customs :=
    match rule.cIn with
    | some code => ezExpCustomNew customs (funcText rule.name rule.pIn) code behind.inKey behind.inNode
    | none => customs
  match rule.cOut with
  | some code =>
    ezExpCustomNew customs (funcText (outName rule.name) rule.pOut) code behind.outKey
      behind.outNode
  | none => customs

/-- `__del_custom_exp` -/
def delCustomExp (customs : ChainTable (List Char) EzCustom) (rule : RuleNode) :
    ChainTable (List Char) EzCustom :=
  ezCustomDel (ezCustomDel customs rule.name) (outName rule.name)

/-- `rule_new`: the new rule, and the tables. The array of a rule's name is followed by a byte that was
cleared. -/
def ruleNew (s : RuleStore) (name : Option (List Char)) (data : RuleData) (behind : RuleBehind) :
    Option RuleNode × RuleStore :=
  match name with
  | none => (none, s)
  | some name =>
    let rule : RuleNode := { data with name := cArray (ruleNameSize + 1) name [] }
    (some rule,
      { rules := s.rules.insert (getHash name) (cArray (ruleNameSize + 1) name behind.ruleKey) rule
        customs := addCustomExp s.customs rule behind })

/-- `rule_del` -/
def ruleDel (s : RuleStore) (name : List Char) : ℤ × RuleStore :=
  match s.rules.lookup (getHash name) name with
  | none => (-1, s)
  | some rule =>
    (0, { rules := s.rules.erase (getHash name) name, customs := delCustomExp s.customs rule })

/-- `rule_get` -/
def ruleGet (s : RuleStore) (name : Option (List Char)) : Option RuleNode :=
  match name with
  | none => none
  | some name => if name = [] then none else s.rules.lookup (getHash name) name

/-- What the fields of a JSON object give. -/
structure RuleJson where
  en : Option ℤ := none
  name : Option (List Char) := none
  type : Option ℤ := none
  pIn : Option (List Char) := none
  cIn : Option (List Char) := none
  pOut : Option (List Char) := none
  cOut : Option (List Char) := none
  sys : Option ℤ := none

/-- A text that is not empty. -/
def someText (text : Option (List Char)) : Option (List Char) := text.filter (· ≠ [])

/-- `jsonParseRuleInfo`, for all fields but the name. -/
def jsonParseRuleInfo (json : RuleJson) : RuleData where
  enable := json.en.getD 0
  type := json.type.getD ruleTypeErr
  pIn := someText json.pIn
  cIn := someText json.cIn
  pOut := someText json.pOut
  cOut := someText json.cOut
  sys := json.sys.getD ruleSysErr

/-- `setRuleWithJson`: the old rule goes by the whole name, the new one comes with the name that its
array holds. -/
def setRuleWithJson (s : RuleStore) (json : RuleJson) (behind : RuleBehind) : RuleStore :=
  match json.name with
  | none => s
  | some name =>
    (ruleNew (ruleDel s name).2 (some (cArray (ruleNameSize + 1) name []))
      (jsonParseRuleInfo json) behind).2

/-- The calls of the store. -/
inductive RuleOp where
  | new (name : Option (List Char)) (data : RuleData) (behind : RuleBehind)
  | del (name : List Char)
  | get (name : Option (List Char))
  | set (json : RuleJson) (behind : RuleBehind)

/-- What a call returns. -/
inductive RuleOut where
  | node (rule : Option RuleNode)
  | result (result : ℤ)
  | done
  deriving DecidableEq

/-- One call. -/
def RuleStore.step (s : RuleStore) : RuleOp → RuleOut × RuleStore
  | .new name data behind => (.node (ruleNew s name data behind).1, (ruleNew s name data behind).2)
  | .del name => (.result (ruleDel s name).1, (ruleDel s name).2)
  | .get name => (.node (ruleGet s name), s)
  | .set json behind => (.done, setRuleWithJson s json behind)

/-- The tables behind `rule_init` without a configuration. -/
def RuleStore.empty : RuleStore := ⟨fun _ => [], fun _ => []⟩

/-! ### The rules as a map -/

/-- One call on a map from names to rules. -/
def ruleMapStep (m : List Char → Option RuleNode) : RuleOp → RuleOut × (List Char → Option RuleNode)
  | .new none _ _ => (.node none, m)
  | .new (some name) data _ =>
    (.node (some { data with name := name }),
      Function.update m name (some { data with name := name }))
  | .del name => (.result (if (m name).isSome then 0 else -1), Function.update m name none)
  | .get name => (.node (name.bind m), m)
  | .set json _ =>
    (.done, match json.name with
      | none => m
      | some name => Function.update m name (some { jsonParseRuleInfo json with name := name }))

/-- A custom function from parameters and code. -/
def ruleCustom (params : Option (List Char)) (code : List Char) : EzCustom :=
  { regs := customRegs (params.getD [] ++ [')']), code := some (code ++ [';']) }

/-- The custom functions of the rules of a map: a name has the input function of its rule, or else
the output function of the rule that it is made from. -/
def customMap (m : List Char → Option RuleNode) (key : List Char) : Option EzCustom :=
  ((m key).bind fun rule => rule.cIn.map (ruleCustom rule.pIn)).or
    (if ['_', 'o'] <:+ key then (m key.dropLast.dropLast).bind fun rule =>
      rule.cOut.map (ruleCustom rule.pOut) else none)

end DasEdge.Rule
