import DasEdge.Library.GuardedRun
import DasEdge.Rule.RuleStore

/-!
# The rule store as a map

A new rule is put in front of an older one with its name, and names that do not fit their array are
looked up whole. The output function of one rule may have the name of another rule's input function,
and a rule that is deleted takes both functions with it whether they are its own or not. In a run in
which none of this happens the table of rules is a map, and the custom functions are those of its
rules.
-/

namespace DasEdge.Rule

open DasEdge.Expression DasEdge.Library

/-- A name that fits its array and, when the rule has functions, is read back from their text. -/
def FitsName (name : List Char) (data : RuleData) : Prop :=
  name ≠ [] ∧ name.length ≤ ruleNameSize ∧
    (data.cIn.isSome ∨ data.cOut.isSome → ∀ c ∈ name, isSpace c = false ∧ c ≠ '(')

instance decidableFitsName (name : List Char) (data : RuleData) : Decidable (FitsName name data) :=
  have : Decidable (∀ c ∈ name, isSpace c = false ∧ c ≠ '(') := List.decidableBAll _ _
  inferInstanceAs (Decidable (name ≠ [] ∧ name.length ≤ ruleNameSize ∧
    (data.cIn.isSome ∨ data.cOut.isSome → ∀ c ∈ name, isSpace c = false ∧ c ≠ '(')))

/-- The names of a new rule's functions are not taken. -/
def FreeNames (customs : ChainTable (List Char) EzCustom) (name : List Char) (data : RuleData) : Prop :=
  (data.cIn.isSome → ezCustomGet customs name = none) ∧
    (data.cOut.isSome → ezCustomGet customs (outName name) = none)

instance decidableFreeNames (customs : ChainTable (List Char) EzCustom) (name : List Char)
    (data : RuleData) :
    Decidable (FreeNames customs name data) := by
  unfold FreeNames; infer_instance

/-- Functions that have the names of a rule's functions are the rule's own. -/
def OwnsNames (s : RuleStore) (name : List Char) : Prop :=
  ∀ rule ∈ s.rules.lookup (getHash name) name,
    (rule.cIn = none → ezCustomGet s.customs name = none) ∧
    (rule.cOut = none → ezCustomGet s.customs (outName name) = none)

instance decidableOwnsNames (s : RuleStore) (name : List Char) : Decidable (OwnsNames s name) := by
  unfold OwnsNames; infer_instance

/-- The conditions under which a call keeps the tables a map and its functions. -/
def RuleStore.Meets (s : RuleStore) : RuleOp → Prop
  | .new none _ _ => True
  | .new (some name) data _ =>
    FitsName name data ∧ s.rules.lookup (getHash name) name = none ∧ FreeNames s.customs name data
  | .del name => OwnsNames s name
  | .get _ => True
  | .set json _ =>
    match json.name with
    | none => True
    | some name =>
      OwnsNames s name ∧ FitsName name (jsonParseRuleInfo json) ∧
        FreeNames (ruleDel s name).2.customs name (jsonParseRuleInfo json)

instance RuleStore.decidableMeets (s : RuleStore) (op : RuleOp) : Decidable (s.Meets op) := by
  unfold RuleStore.Meets
  split
  · infer_instance
  · infer_instance
  · infer_instance
  · infer_instance
  · split
    · infer_instance
    · infer_instance

/-- The tables hold the rules of a map and their functions. -/
structure RuleRefines (s : RuleStore) (m : List Char → Option RuleNode) : Prop where
  rules : ChainTable.Represents getHash s.rules m
  customs : ChainTable.Represents getHash s.customs (customMap m)
  names : ∀ name rule, m name = some rule → rule.name = name ∧ FitsName name rule.toRuleData
  disjoint : ∀ name rule other, m name = some rule → m (outName name) = some other →
    rule.cOut = none ∨ other.cIn = none

/-- A text that fits its array. -/
theorem cArray_of_lt {size : ℕ} {text : List Char} (h : text.length < size) (behind : List Char) :
    cArray size text behind = text := if_pos h

/-- The characters of an output function's name. -/
theorem outName_mem {name : List Char} (h : ∀ c ∈ name, isSpace c = false ∧ c ≠ '(') :
    ∀ c ∈ outName name, isSpace c = false ∧ c ≠ '(' := by
  intro c hc
  rcases List.mem_append.mp hc with hc | hc
  · exact h c hc
  · rcases List.mem_cons.mp hc with rfl | hc
    · decide
    · rw [List.mem_singleton.mp hc]
      decide

/-- A function is registered under the name in front of its parameters. -/
theorem ezExpCustomNew_eq {key : List Char} (hne : key ≠ []) (hlength : key.length ≤ ezKeywordSize)
    (hplain : ∀ c ∈ key, isSpace c = false ∧ c ≠ '(') (customs : ChainTable (List Char) EzCustom)
    (params : Option (List Char))
    (code behindKey behindNode : List Char) :
    ezExpCustomNew customs (funcText key params) code behindKey behindNode =
      customs.insert (getHash key) key (ruleCustom params code) := by
  obtain ⟨first, rest, rfl⟩ := List.exists_cons_of_ne_nil hne
  have hskip : (funcText (first :: rest) params).dropWhile isSpace =
  funcText (first :: rest) params := by
    unfold funcText
    rw [List.cons_append, List.dropWhile_cons_of_neg (by simp [(hplain first List.mem_cons_self).1])]
  have htake : (funcText (first :: rest) params).takeWhile (fun c => !isSpace c && c ≠ '(') =
    first :: rest := by
    unfold funcText
    rw [List.takeWhile_append_of_pos (fun c hc => by simp [hplain c hc])]
    simp
  have hlt : (first :: rest).length < ezKeywordSize + 1 := Nat.lt_succ_of_le hlength
  have hparams : (((funcText (first :: rest) params).drop (first :: rest).length).dropWhile
  (· ≠ '(')).drop 1 =
      params.getD [] ++ [')'] := by
    unfold funcText
    rw [List.drop_left]
    simp
  simp only [ezExpCustomNew, hskip, htake, List.take_of_length_le (Nat.le_of_lt hlt), hparams]
  rw [if_neg (List.cons_ne_nil _ _), cArray_of_lt hlt, ezCustomNew, cArray_of_lt hlt]
  rfl

/-- A name and its output function's name. -/
theorem outName_ne (name : List Char) : outName name ≠ name := fun h => by
  have hlength := congrArg List.length h
  simp [outName] at hlength

/-- The name that an output function's name is made from. -/
theorem outName_dropLast (name : List Char) : (outName name).dropLast.dropLast = name := by
  have hsplit : outName name = name ++ ['_'] ++ ['o'] := by simp [outName]
  rw [hsplit, List.dropLast_concat, List.dropLast_concat]

/-- The functions of a map without a name's own entry. -/
theorem customMap_of_none {m : List Char → Option RuleNode} {key : List Char} (h : m key = none) :
    customMap m key =
      if ['_', 'o'] <:+ key then (m key.dropLast.dropLast).bind fun rule =>
      rule.cOut.map (ruleCustom rule.pOut) else none := by
  unfold customMap
  rw [h]
  rfl

/-- The function under an output function's name. -/
theorem customMap_outName (m : List Char → Option RuleNode) (name : List Char) :
    customMap m (outName name) =
      ((m (outName name)).bind fun rule => rule.cIn.map (ruleCustom rule.pIn)).or
        ((m name).bind fun rule => rule.cOut.map (ruleCustom rule.pOut)) := by
  have hsuffix : ['_', 'o'] <:+ outName name := List.suffix_append name _
  unfold customMap
  rw [if_pos hsuffix, outName_dropLast]

/-- The functions under all other names do not depend on a name's rule. -/
theorem customMap_update_of_ne (m : List Char → Option RuleNode) {name key : List Char}
    (rule : Option RuleNode)
    (hkey : key ≠ name) (hout : key ≠ outName name) :
    customMap (Function.update m name rule) key = customMap m key := by
  unfold customMap
  rw [Function.update_of_ne hkey]
  split
  · next hsuffix =>
    have hother : key.dropLast.dropLast ≠ name := by
      rintro rfl
      obtain ⟨front, rfl⟩ := hsuffix
      exact hout (congrArg outName (outName_dropLast front)).symm
    rw [Function.update_of_ne hother]
  · rfl

/-- A name that is made from another one is not that one. -/
theorem dropLast_ne {name : List Char} (h : ['_', 'o'] <:+ name) : name.dropLast.dropLast ≠ name := by
  intro heq
  have hshort := h.length_le
  have hlength := congrArg List.length heq
  simp only [List.length_dropLast, List.length_cons, List.length_nil] at hshort hlength
  omega

/-- The function under a name when its rule is another one. -/
theorem customMap_update_self (m : List Char → Option RuleNode) (name : List Char)
    (rule : Option RuleNode) :
    customMap (Function.update m name rule) name =
      (rule.bind fun rule => rule.cIn.map (ruleCustom rule.pIn)).or
        (if ['_', 'o'] <:+ name then
          (m name.dropLast.dropLast).bind fun rule => rule.cOut.map (ruleCustom rule.pOut)
            else none) := by
  unfold customMap
  rw [Function.update_self]
  split
  · next hsuffix => rw [Function.update_of_ne (dropLast_ne hsuffix)]
  · rfl

/-- The function under an output function's name when the rule of the name is another one. -/
theorem customMap_update_outName (m : List Char → Option RuleNode) (name : List Char)
    (rule : Option RuleNode) :
    customMap (Function.update m name rule) (outName name) =
      ((m (outName name)).bind fun rule => rule.cIn.map (ruleCustom rule.pIn)).or
        (rule.bind fun rule => rule.cOut.map (ruleCustom rule.pOut)) := by
  rw [customMap_outName, Function.update_self, Function.update_of_ne (outName_ne name)]

/-- The name of a rule's output function is not the name of another rule's input function. -/
theorem RuleRefines.input_none {s : RuleStore} {m : List Char → Option RuleNode}
    (h : RuleRefines s m) {name : List Char}
    {rule : RuleNode} (hrule : m name = some rule) (hcOut : rule.cOut ≠ none) :
    ((m (outName name)).bind fun rule => rule.cIn.map (ruleCustom rule.pIn)) = none := by
  cases hother : m (outName name) with
  | none => rfl
  | some other =>
    have hnone := (h.disjoint name rule other hrule hother).resolve_left hcOut
    rw [Option.bind_some, hnone]
    rfl

/-- The name of a rule's input function is not the name of another rule's output function. -/
theorem RuleRefines.output_none {s : RuleStore} {m : List Char → Option RuleNode}
    (h : RuleRefines s m) {name : List Char}
    {rule : RuleNode} (hrule : m (outName name) = some rule) (hcIn : rule.cIn ≠ none) :
    ((m name).bind fun rule => rule.cOut.map (ruleCustom rule.pOut)) = none := by
  cases hmaker : m name with
  | none => rfl
  | some maker =>
    have hnone := (h.disjoint name maker rule hmaker hrule).resolve_right hcIn
    rw [Option.bind_some, hnone]
    rfl

/-- Without the rule of a name the map has no function under the name and its output function's
name, when these were the rule's own. -/
theorem RuleRefines.customMap_delete {s : RuleStore} {m : List Char → Option RuleNode}
    (h : RuleRefines s m) {name : List Char}
    {rule : RuleNode} (hrule : m name = some rule) (hin : rule.cIn = none → customMap m name = none)
    (hout : rule.cOut = none → customMap m (outName name) = none) :
    Function.update (Function.update (customMap m) name none) (outName name) none =
      customMap (Function.update m name none) := by
  funext key
  by_cases hkeyOut : key = outName name
  · subst hkeyOut
    rw [Function.update_self, customMap_update_outName, Option.bind_none, Option.or_none]
    by_cases hcOut : rule.cOut = none
    · have hfree := hout hcOut
      rw [customMap_outName, Option.or_eq_none_iff] at hfree
      exact hfree.1.symm
    · exact (h.input_none hrule hcOut).symm
  · rw [Function.update_of_ne hkeyOut]
    by_cases hkey : key = name
    · subst hkey
      rw [Function.update_self, customMap_update_self, Option.bind_none, Option.none_or]
      split
      · next hsuffix =>
        obtain ⟨base, rfl⟩ := hsuffix
        have hbase : (base ++ ['_', 'o']).dropLast.dropLast = base := outName_dropLast base
        rw [hbase]
        by_cases hcIn : rule.cIn = none
        · have hfree : customMap m (outName base) = none := hin hcIn
          rw [customMap_outName, Option.or_eq_none_iff] at hfree
          exact hfree.2.symm
        · exact (h.output_none hrule hcIn).symm
      · rfl
    · rw [Function.update_of_ne hkey, customMap_update_of_ne m none hkey hkeyOut]

/-- The functions of a new rule are put in under its names. -/
theorem addCustomExp_eq {rule : RuleNode} (hfits : FitsName rule.name rule.toRuleData)
    (customs : ChainTable (List Char) EzCustom)
    (behind : RuleBehind) :
    addCustomExp customs rule behind =
      (customs.insertSome (getHash rule.name) rule.name (rule.cIn.map (ruleCustom rule.pIn))).insertSome
        (getHash (outName rule.name)) (outName rule.name) (rule.cOut.map (ruleCustom rule.pOut)) := by
  obtain ⟨hne, hlength, hplain⟩ := hfits
  have hneOut : outName rule.name ≠ [] := List.append_ne_nil_of_left_ne_nil hne _
  have hlengthOut : (outName rule.name).length ≤ ezKeywordSize := by
    rw [outName, List.length_append]
    exact Nat.add_le_add_right hlength 2
  have hlengthIn : rule.name.length ≤ ezKeywordSize := Nat.le_trans hlength (Nat.sub_le _ _)
  unfold addCustomExp
  cases hcIn : rule.cIn with
  | none =>
    cases hcOut : rule.cOut with
    | none => rfl
    | some code =>
      exact ezExpCustomNew_eq hneOut hlengthOut
        (outName_mem (hplain (.inr (by rw [hcOut]; rfl)))) _ _ _ _ _
  | some codeIn =>
    have hnew :=
      ezExpCustomNew_eq hne hlengthIn (hplain (.inl (by rw [hcIn]; rfl))) customs rule.pIn codeIn
      behind.inKey
      behind.inNode
    cases hcOut : rule.cOut with
    | none => exact hnew
    | some codeOut =>
      simp only [hnew, Option.map_some]
      exact ezExpCustomNew_eq hneOut hlengthOut
        (outName_mem (hplain (.inr (by rw [hcOut]; rfl)))) _ _ _ _ _

/-- With a new rule the map has the rule's functions, when their names were not taken. -/
theorem customMap_new {m : List Char → Option RuleNode} {rule : RuleNode} (hnone : m rule.name = none)
    (hout : rule.cOut.isSome → customMap m (outName rule.name) = none) :
    Function.update (Function.update (customMap m) rule.name
      ((rule.cIn.map (ruleCustom rule.pIn)).or (customMap m rule.name))) (outName rule.name)
      ((rule.cOut.map (ruleCustom rule.pOut)).or (customMap m (outName rule.name))) =
        customMap (Function.update m rule.name (some rule)) := by
  funext key
  by_cases hkeyOut : key = outName rule.name
  · subst hkeyOut
    rw [Function.update_self, customMap_update_outName, customMap_outName, hnone, Option.bind_none,
      Option.or_none,
      Option.bind_some]
    cases hcOut : rule.cOut with
    | none => rw [Option.map_none, Option.none_or, Option.or_none]
    | some code =>
      have hfree := hout (by rw [hcOut]; rfl)
      rw [customMap_outName, Option.or_eq_none_iff] at hfree
      rw [hfree.1, Option.or_none, Option.none_or]
  · rw [Function.update_of_ne hkeyOut]
    by_cases hkey : key = rule.name
    · subst hkey
      rw [Function.update_self, customMap_update_self, customMap_of_none hnone, Option.bind_some]
    · rw [Function.update_of_ne hkey, customMap_update_of_ne m _ hkey hkeyOut]

/-- The functions of a new rule are put in. -/
theorem represents_addCustomExp {customs : ChainTable (List Char) EzCustom}
    {m : List Char → Option RuleNode}
    (h : ChainTable.Represents getHash customs (customMap m)) (rule : RuleNode)
    (hnone : m rule.name = none)
    (hfits : FitsName rule.name rule.toRuleData)
    (hfree : FreeNames customs rule.name rule.toRuleData) (behind : RuleBehind) :
    ChainTable.Represents getHash (addCustomExp customs rule behind)
      (customMap (Function.update m rule.name (some rule))) := by
  obtain ⟨hin, hout⟩ := hfree
  unfold ezCustomGet at hin hout
  rw [h.lookup_eq] at hin hout
  have hfirst :=
    h.insertSome (rule.cIn.map (ruleCustom rule.pIn)) (fun hsome => hin (by simpa using hsome))
  have hother : Function.update (customMap m) rule.name
    ((rule.cIn.map (ruleCustom rule.pIn)).or (customMap m rule.name))
      (outName rule.name) = customMap m (outName rule.name) :=
        Function.update_of_ne (outName_ne rule.name) _ _
  have hsecond := hfirst.insertSome (rule.cOut.map (ruleCustom rule.pOut)) (fun hsome => by
    rw [hother]
    exact hout (by simpa using hsome))
  rw [hother] at hsecond
  rw [addCustomExp_eq hfits, ← customMap_new hnone hout]
  exact hsecond

/-- The names of a new rule's functions are no other rule's. -/
theorem RuleRefines.disjoint_new {s : RuleStore} {m : List Char → Option RuleNode}
    (h : RuleRefines s m) (rule : RuleNode)
    (hfree : FreeNames s.customs rule.name rule.toRuleData) {name : List Char} {first second : RuleNode}
    (hfirst : Function.update m rule.name (some rule) name = some first)
    (hsecond : Function.update m rule.name (some rule) (outName name) = some second) :
    first.cOut = none ∨ second.cIn = none := by
  obtain ⟨hin, hout⟩ := hfree
  unfold ezCustomGet at hin hout
  rw [h.customs.lookup_eq] at hin hout
  by_cases hname : name = rule.name
  · subst hname
    rw [Function.update_self] at hfirst
    rw [Function.update_of_ne (outName_ne rule.name)] at hsecond
    cases hfirst
    cases hcOut : rule.cOut with
    | none => exact .inl rfl
    | some code =>
      -- the name of the output function is not the name of a rule's input function
      have hnone := hout (by rw [hcOut]; rfl)
      rw [customMap_outName, Option.or_eq_none_iff, hsecond, Option.bind_some,
        Option.map_eq_none_iff] at hnone
      exact .inr hnone.1
  · rw [Function.update_of_ne hname] at hfirst
    by_cases hnameOut : outName name = rule.name
    · rw [hnameOut, Function.update_self] at hsecond
      cases hsecond
      cases hcIn : rule.cIn with
      | none => exact .inr rfl
      | some code =>
        -- the name of the input function is not the name of a rule's output function
        have hnone := hin (by rw [hcIn]; rfl)
        rw [← hnameOut, customMap_outName, Option.or_eq_none_iff, hfirst, Option.bind_some,
          Option.map_eq_none_iff] at hnone
        exact .inl hnone.2
    · rw [Function.update_of_ne hnameOut] at hsecond
      exact h.disjoint name first second hfirst hsecond

/-- A new rule. -/
theorem RuleRefines.new {s : RuleStore} {m : List Char → Option RuleNode} (h : RuleRefines s m)
    {name : List Char}
    {data : RuleData} (hfits : FitsName name data) (hnone : m name = none)
    (hfree : FreeNames s.customs name data)
    (behind : RuleBehind) :
    (ruleNew s (some name) data behind).1 = some { data with name := name } ∧
      RuleRefines (ruleNew s (some name) data behind).2
      (Function.update m name (some { data with name := name })) := by
  have hlt : name.length < ruleNameSize + 1 := Nat.lt_succ_of_le hfits.2.1
  have hnode : ruleNew s (some name) data behind = (some { data with name := name },
      { rules := s.rules.insert (getHash name) name { data with name := name }
        customs := addCustomExp s.customs { data with name := name } behind }) := by
    unfold ruleNew
    simp only [cArray_of_lt hlt]
  rw [hnode]
  refine ⟨rfl, ?_⟩
  constructor
  case rules => exact h.rules.insert hnone _
  case customs => exact represents_addCustomExp h.customs { data with name := name } hnone hfits
                    hfree behind
  case names =>
    intro key rule hrule
    by_cases hkey : key = name
    · subst hkey
      rw [Function.update_self] at hrule
      cases hrule
      exact ⟨rfl, hfits⟩
    · rw [Function.update_of_ne hkey] at hrule
      exact h.names key rule hrule
  case disjoint => exact fun _ _ _ => h.disjoint_new { data with name := name } hfree

/-- A rule goes. -/
theorem RuleRefines.del {s : RuleStore} {m : List Char → Option RuleNode} (h : RuleRefines s m)
    {name : List Char}
    (howns : OwnsNames s name) :
    (ruleDel s name).1 = (if (m name).isSome then 0 else -1) ∧
      RuleRefines (ruleDel s name).2 (Function.update m name none) := by
  unfold OwnsNames ezCustomGet at howns
  rw [h.rules.lookup_eq, h.customs.lookup_eq, h.customs.lookup_eq] at howns
  unfold ruleDel
  rw [h.rules.lookup_eq]
  cases hrule : m name with
  | none =>
    rw [← hrule, Function.update_eq_self, hrule]
    exact ⟨rfl, h⟩
  | some rule =>
    obtain ⟨hin, hout⟩ := howns rule hrule
    have hname := (h.names name rule hrule).1
    refine ⟨rfl, ?_⟩
    constructor
    case rules => exact h.rules.erase name
    case customs =>
      have hboth : delCustomExp s.customs rule =
          (s.customs.erase (getHash name) name).erase (getHash (outName name)) (outName name) := by
        unfold delCustomExp
        rw [hname]
        rfl
      change ChainTable.Represents getHash (delCustomExp s.customs rule) _
      rw [hboth, ← h.customMap_delete hrule hin hout]
      exact (h.customs.erase name).erase (outName name)
    case names =>
      intro key other hother
      by_cases hkey : key = name
      · rw [hkey, Function.update_self] at hother
        cases hother
      · rw [Function.update_of_ne hkey] at hother
        exact h.names key other hother
    case disjoint =>
      intro key first second hfirst hsecond
      have hkept {key : List Char} {rule : RuleNode}
        (hsome : Function.update m name none key = some rule) :
          m key = some rule := by
        by_cases hkey : key = name
        · rw [hkey, Function.update_self] at hsome
          cases hsome
        · rwa [Function.update_of_ne hkey] at hsome
      exact h.disjoint key first second (hkept hfirst) (hkept hsecond)

/-- The empty tables hold no rules. -/
theorem ruleRefines_empty : RuleRefines .empty fun _ => none where
  rules := ChainTable.represents_empty getHash
  customs := by
    have hnone : customMap (fun _ => none) = fun _ => none := by
      funext key
      exact (customMap_of_none rfl).trans (ite_self none)
    rw [hnone]
    exact ChainTable.represents_empty getHash
  names _ _ hrule := nomatch hrule
  disjoint _ _ _ hrule := nomatch hrule

/-- The rules of the map have names. -/
theorem RuleRefines.nil {s : RuleStore} {m : List Char → Option RuleNode} (h : RuleRefines s m) :
    m [] = none := by
  cases hrule : m [] with
  | none => rfl
  | some rule => exact absurd rfl (h.names [] rule hrule).2.1

/-- What a call returns and leaves. -/
theorem RuleRefines.step {s : RuleStore} {m : List Char → Option RuleNode} (h : RuleRefines s m)
    (op : RuleOp)
    (hmeets : s.Meets op) : (s.step op).1 = (ruleMapStep m op).1 ∧
    RuleRefines (s.step op).2 (ruleMapStep m op).2 := by
  cases op with
  | new name data behind =>
    cases name with
    | none => exact ⟨rfl, h⟩
    | some name =>
      obtain ⟨hfits, hnone, hfree⟩ := hmeets
      rw [h.rules.lookup_eq] at hnone
      obtain ⟨hnode, hnext⟩ := h.new hfits hnone hfree behind
      exact ⟨congrArg RuleOut.node hnode, hnext⟩
  | del name =>
    obtain ⟨hresult, hnext⟩ := h.del hmeets
    exact ⟨congrArg RuleOut.result hresult, hnext⟩
  | get name =>
    refine ⟨congrArg RuleOut.node ?_, h⟩
    cases name with
    | none => rfl
    | some name =>
      change (if name = [] then none else s.rules.lookup (getHash name) name) = m name
      split
      · next hempty => rw [hempty, h.nil]
      · exact h.rules.lookup_eq name
  | set json behind =>
    refine ⟨rfl, ?_⟩
    simp only [RuleStore.step, ruleMapStep, setRuleWithJson]
    cases hname : json.name with
    | none => exact h
    | some name =>
      simp only [RuleStore.Meets, hname] at hmeets
      obtain ⟨howns, hfits, hfree⟩ := hmeets
      obtain ⟨-, hdel⟩ := h.del howns
      obtain ⟨-, hnew⟩ := hdel.new hfits (Function.update_self name none m) hfree behind
      rw [Function.update_idem] at hnew
      simp only [cArray_of_lt (Nat.lt_succ_of_le hfits.2.1)]
      exact hnew

/-- In a run whose calls meet the conditions the rules are a map, with their functions. -/
theorem rule_store_refines (ops : List RuleOp)
    (hmeets : GuardedRun (fun s op => some (RuleStore.step s op)) RuleStore.Meets .empty ops) :
    (runTotal RuleStore.step .empty ops).1 = (runTotal ruleMapStep (fun _ => none) ops).1 ∧
      RuleRefines (runTotal RuleStore.step .empty ops).2 (runTotal ruleMapStep (fun _ => none) ops).2 :=
  runTotal_refines RuleStore.step ruleMapStep RuleStore.Meets RuleRefines
    (fun _ _ op hrel => hrel.step op) _ _ ops
    ruleRefines_empty hmeets

/-- A rule with both functions is set, read, replaced and deleted. -/
theorem rule_store_refines_lamp :
    (runTotal RuleStore.step .empty
      [.set { name := some ['a'], cIn := some ['1'], cOut := some ['2'] } {}, .get (some ['a']),
        .set { name := some ['a'], cIn := some ['3'] } {}, .del ['a'], .get (some ['a'])]).1 =
      (runTotal ruleMapStep (fun _ => none)
        [.set { name := some ['a'], cIn := some ['1'], cOut := some ['2'] } {}, .get (some ['a']),
          .set { name := some ['a'], cIn := some ['3'] } {}, .del ['a'], .get (some ['a'])]).1 :=
  (rule_store_refines
    [.set { name := some ['a'], cIn := some ['1'], cOut := some ['2'] } {}, .get (some ['a']),
      .set { name := some ['a'], cIn := some ['3'] } {}, .del ['a'], .get (some ['a'])] (by decide)).1

/-- A rule without functions that is deleted takes the input function of the rule that has the name
of its output function. -/
theorem rule_store_loses_function :
    ¬ ∀ ops : List RuleOp,
      (runTotal RuleStore.step .empty ops).1 = (runTotal ruleMapStep (fun _ => none) ops).1 ∧
        ChainTable.Represents getHash (runTotal RuleStore.step .empty ops).2.rules
          (runTotal ruleMapStep (fun _ => none) ops).2 ∧
        ChainTable.Represents getHash (runTotal RuleStore.step .empty ops).2.customs
          (customMap (runTotal ruleMapStep (fun _ => none) ops).2) := by
  intro hall
  obtain ⟨-, -, hcustoms⟩ := hall
    [.set { name := some ['x', '_', 'o'], cIn := some ['1'] } {}, .set { name := some ['x'] } {},
      .del ['x']]
  have hlookup := hcustoms.lookup_eq ['x', '_', 'o']
  revert hlookup
  decide

end DasEdge.Rule
