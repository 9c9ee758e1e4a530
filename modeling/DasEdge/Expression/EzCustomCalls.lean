import DasEdge.Expression.EzTokenizerProgress
import DasEdge.Rule.RuleStore

/-!
# Calls of custom functions

`ez_custom_new` puts a name into the hash table of the keywords, from where nothing takes it out
again, and the tokenizer cuts names out of the text by the table `keyword_chars`. The name of a custom
function is read as such exactly when it has no `J`, the letter that the table misses.
-/

namespace DasEdge.Expression

open DasEdge.Library DasEdge.Rule

/-- `__get_hash` of `ez_hash.c`, with `HASH_LIMIT`. -/
def tokenHash (str : List Char) : ℕ :=
  ((str.foldl (fun hash c => hash * 131 + c.toNat.toUInt32) (0 : UInt32)) % 727).toNat

/-- `ez_hash_set`; `behind` is what lies behind the array of the key. -/
def ezHashSet (tokens : ChainTable (List Char) EzToken) (key : List Char) (token : EzToken)
    (behind : List Char) : ChainTable (List Char) EzToken :=
  tokens.insert (tokenHash key) (cArray (ezKeywordSize + 1) key behind) token

/-- `ez_hash_get` -/
def ezHashGet (tokens : ChainTable (List Char) EzToken) (key : List Char) : Option EzToken :=
  tokens.lookup (tokenHash key) key

/-- `ez_hash_init` -/
def ezHashInit : ChainTable (List Char) EzToken :=
  keywordToTokens.foldl (fun tokens keyword => ezHashSet tokens keyword.1 keyword.2 []) fun _ => []

/-- `s_token_table` and `s_custom_table`. -/
structure EzNames where
  tokens : ChainTable (List Char) EzToken
  customs : ChainTable (List Char) EzCustom

/-- The calls of `ez_custom_new` and `ez_custom_del`; what lies behind the arrays that `ez_custom_new`
copies a key to is an input. -/
inductive CustomCall where
  | new (key : List Char) (code : Option (List Char)) (behindToken behindKey : List Char)
  | del (key : List Char)

/-- The tables after a call. -/
def ezNamesStep (s : EzNames) : CustomCall → EzNames
  | .new key code behindToken behindKey =>
    { tokens := ezHashSet s.tokens key .funcCustom behindToken
      customs := ezCustomNew s.customs key { code := code.map (· ++ [';']) } behindKey }
  | .del key => { s with customs := ezCustomDel s.customs key }

/-- The tables after calls, from those of `ez_exp_init` on. -/
def ezNames (calls : List CustomCall) : EzNames :=
  calls.foldl ezNamesStep ⟨ezHashInit, fun _ => []⟩

/-- The keyword that a call enters. -/
def CustomCall.keyword : CustomCall → Option (List Char × EzToken)
  | .new key _ behindToken _ => some (cArray (ezKeywordSize + 1) key behindToken, .funcCustom)
  | .del _ => none

/-- The keywords after calls, with the latest entry first. -/
def customKeywords (calls : List CustomCall) : List (List Char × EzToken) :=
  (calls.filterMap CustomCall.keyword).reverse ++ keywordToTokens.reverse

/-- A letter of the ASCII set. -/
def isLetter (c : Char) : Bool := (97 ≤ c.toNat && c.toNat ≤ 122) || (65 ≤ c.toNat && c.toNat ≤ 90)

/-- A name of letters, digits and underscores that starts with a letter, is not too long and is no
keyword. -/
structure CustomName (name : List Char) : Prop where
  chars : ∀ c ∈ name, (isLetter c || isDigit c || c = '_') = true
  start : ∃ c rest, name = c :: rest ∧ isLetter c = true
  length : name.length ≤ ezKeywordSize
  fresh : name ∉ keywordToTokens.map Prod.fst

/-- A token read at a cursor is that of the custom function with a name, and leaves the cursor behind
the name. -/
structure ReadsCustom {V : Type} (tkz : EzTokenizer V) (name : List Char)
    (read : EzToken × EzTokenizer V) : Prop where
  token : read.1 = .funcCustom
  keyword : read.2.actualCustomKeyword = name
  cursor : read.2.p = tkz.p + name.length

/-- The entries of chains agree with a list for keys that fit into their array. -/
def AgreesWith (tokens : ChainTable (List Char) EzToken) (keywords : List (List Char × EzToken)) :
    Prop :=
  ∀ key, key.length ≤ ezKeywordSize → ezHashGet tokens key = keywords.lookup key

/-- A key that fits is stored as it is, and one that does not is longer than all that fit. -/
theorem cArray_eq_iff {key other behind : List Char} (h : key.length ≤ ezKeywordSize) :
    cArray (ezKeywordSize + 1) other behind = key ↔ other = key := by
  unfold cArray
  split
  · rfl
  · next hlong =>
    constructor
    · intro heq
      have hlength := congrArg List.length heq
      rw [List.length_append, List.length_take] at hlength
      omega
    · rintro rfl
      exact absurd (Nat.lt_succ_of_le h) hlong

/-- An entry in front of both. -/
theorem AgreesWith.set {tokens : ChainTable (List Char) EzToken} {keywords : List (List Char × EzToken)}
    (h : AgreesWith tokens keywords) (key : List Char) (token : EzToken) (behind : List Char) :
    AgreesWith (ezHashSet tokens key token behind)
      ((cArray (ezKeywordSize + 1) key behind, token) :: keywords) := by
  intro sought hsought
  rw [List.lookup_cons]
  by_cases heq : key = sought
  · subst heq
    have hstored : cArray (ezKeywordSize + 1) key behind = key := (cArray_eq_iff hsought).mpr rfl
    simp [ezHashGet, ezHashSet, ChainTable.lookup, ChainTable.insert, hstored]
  · have hother : cArray (ezKeywordSize + 1) key behind ≠ sought := fun hstored =>
      heq ((cArray_eq_iff hsought).mp hstored)
    have hbeq : (sought == cArray (ezKeywordSize + 1) key behind) = false :=
      beq_eq_false_iff_ne.mpr (Ne.symm hother)
    rw [hbeq, ← h sought hsought]
    simp only [ezHashGet, ezHashSet, ChainTable.lookup, ChainTable.insert]
    by_cases hpos : tokenHash sought = tokenHash key
    · rw [hpos, Function.update_self, List.find?_cons_of_neg (by simpa using hother)]
    · rw [Function.update_of_ne hpos]

/-- Keywords that fit, entered one by one. -/
theorem AgreesWith.foldl_set {tokens : ChainTable (List Char) EzToken}
    {keywords entered : List (List Char × EzToken)} (h : AgreesWith tokens keywords)
    (hlength : ∀ e ∈ entered, e.1.length ≤ ezKeywordSize) :
    AgreesWith (entered.foldl (fun tokens keyword => ezHashSet tokens keyword.1 keyword.2 []) tokens)
      (entered.reverse ++ keywords) := by
  induction entered generalizing tokens keywords with
  | nil => exact h
  | cons e entered ih =>
    have hset := h.set e.1 e.2 []
    rw [(cArray_eq_iff (hlength e List.mem_cons_self)).mpr rfl] at hset
    rw [List.foldl_cons, List.reverse_cons, List.append_assoc]
    exact ih hset fun e' he => hlength e' (List.mem_cons_of_mem _ he)

/-- Calls of the custom functions. -/
theorem AgreesWith.foldl_step {s : EzNames} {keywords : List (List Char × EzToken)}
    (h : AgreesWith s.tokens keywords) (calls : List CustomCall) :
    AgreesWith (calls.foldl ezNamesStep s).tokens
      ((calls.filterMap CustomCall.keyword).reverse ++ keywords) := by
  induction calls generalizing s keywords with
  | nil => exact h
  | cons call calls ih =>
    cases call with
    | new key code behindToken behindKey =>
      have hrest := ih (s := ezNamesStep s (.new key code behindToken behindKey))
        (h.set key .funcCustom behindToken)
      simpa only [List.foldl_cons, List.filterMap_cons, CustomCall.keyword, List.reverse_cons,
        List.append_assoc, List.singleton_append] using hrest
    | del key =>
      have hrest := ih (s := ezNamesStep s (.del key)) h
      simpa only [List.foldl_cons, List.filterMap_cons, CustomCall.keyword] using hrest

/-- The chains after calls agree with the list of keywords. -/
theorem ezNames_agrees (calls : List CustomCall) :
    AgreesWith (ezNames calls).tokens (customKeywords calls) := by
  have hempty : AgreesWith (fun _ => []) [] := fun _ _ => rfl
  have hkeywords : AgreesWith ezHashInit (keywordToTokens.reverse ++ []) :=
    hempty.foldl_set (by decide)
  rw [List.append_nil] at hkeywords
  exact hkeywords.foldl_step (s := ⟨ezHashInit, fun _ => []⟩) calls

/-- The entry of a key whose entries have one value. -/
theorem lookup_of_forall {keywords : List (List Char × EzToken)} {name : List Char} {token : EzToken}
    (hentry : (name, token) ∈ keywords) (hall : ∀ e ∈ keywords, e.1 = name → e.2 = token) :
    keywords.lookup name = some token := by
  induction keywords with
  | nil => cases hentry
  | cons e keywords ih =>
    rw [List.lookup_cons]
    by_cases heq : e.1 = name
    · rw [heq, beq_self_eq_true, ← hall e List.mem_cons_self heq]
    · rw [beq_eq_false_iff_ne.mpr (Ne.symm heq)]
      rcases List.mem_cons.mp hentry with rfl | hentry
      · exact absurd rfl heq
      · exact ih hentry fun e' he => hall e' (List.mem_cons_of_mem _ he)

/-- A name that is no keyword and was entered by a call is the keyword of a custom function. -/
theorem lookup_customKeywords {name : List Char} (hname : CustomName name) {calls : List CustomCall}
    {code : Option (List Char)} {behindToken behindKey : List Char}
    (hcall : .new name code behindToken behindKey ∈ calls) :
    (customKeywords calls).lookup name = some .funcCustom := by
  refine lookup_of_forall ?_ fun e he heq => ?_
  · refine List.mem_append_left _ (List.mem_reverse.mpr (List.mem_filterMap.mpr ⟨_, hcall, ?_⟩))
    rw [CustomCall.keyword, (cArray_eq_iff hname.length).mpr rfl]
  · rcases List.mem_append.mp he with he | he
    · obtain ⟨call, -, hkeyword⟩ := List.mem_filterMap.mp (List.mem_reverse.mp he)
      cases call with
      | new key code behindToken behindKey =>
        obtain rfl := Option.some.inj hkeyword
        rfl
      | del key => cases hkeyword
    · exact absurd (heq ▸ List.mem_map_of_mem (List.mem_reverse.mp he)) hname.fresh

/-- A letter is no space, no token and no digit. -/
theorem isLetter_plain {c : Char} (h : isLetter c = true) :
    isSpace c = false ∧ isCharToken c = none ∧ isDigit c = false := by
  simp only [isLetter, Bool.or_eq_true, Bool.and_eq_true, decide_eq_true_eq] at h
  refine ⟨?_, ?_, ?_⟩
  · simp only [isSpace, Bool.or_eq_false_iff, Bool.and_eq_false_iff, decide_eq_false_iff_not]
    refine ⟨?_, by omega⟩
    rintro rfl
    revert h
    decide
  · unfold isCharToken
    split
    all_goals first | rfl | exact absurd h (by decide)
  · simp only [isDigit, Bool.and_eq_false_iff, decide_eq_false_iff_not]
    omega

/-- A letter starts no operator. -/
theorem operatorToken_of_letter {V : Type} {tkz : EzTokenizer V} (h : isLetter (tkz.ch 0) = true) :
    tkz.operatorToken = none := by
  have hne : ∀ c, isLetter c = false → tkz.ch 0 ≠ c := by
    rintro c hc rfl
    rw [h] at hc
    cases hc
  have hshift : isShiftNumToken (tkz.ch 0) (tkz.ch 1) (tkz.ch 2) = none := by
    unfold isShiftNumToken
    split
    · split
      · exact absurd ‹_› (hne '<' (by decide))
      · exact absurd ‹_› (hne '>' (by decide))
      · rfl
    · rfl
  have hsame : isSameCharToken (tkz.ch 0) (tkz.ch 1) = none := by
    unfold isSameCharToken
    split
    · split
      all_goals first | rfl | exact absurd ‹tkz.ch 0 = _› (hne _ (by decide))
    · rfl
  have hequal : isEqualCharToken (tkz.ch 0) (tkz.ch 1) = none := by
    unfold isEqualCharToken
    split
    · split
      all_goals first | rfl | exact absurd ‹tkz.ch 0 = _› (hne _ (by decide))
    · rfl
  rw [EzTokenizer.operatorToken, hshift, hsame, hequal]

section Reading

variable {V : Type} {tkz : EzTokenizer V} {c : Char} {text : List Char}

/-- The character at the cursor is the first of the rest. -/
theorem ch_of_rest (hrest : tkz.rest = c :: text) : tkz.ch 0 = c ∧ c ≠ '\x00' := by
  have hne : tkz.ch 0 ≠ '\x00' := by
    intro hzero
    rw [EzTokenizer.rest] at hrest
    rw [EzTokenizer.ch, Nat.add_zero] at hzero
    cases hdrop : tkz.line.drop tkz.p with
    | nil =>
      rw [hdrop] at hrest
      cases hrest
    | cons d ds =>
      have hd : tkz.line.getD tkz.p '\x00' = d := by
        rw [List.getD_eq_getElem?_getD, ← Nat.add_zero tkz.p, ← List.getElem?_drop, hdrop]
        rfl
      rw [hdrop, ← hd, hzero, List.takeWhile_cons_of_neg (by simp)] at hrest
      cases hrest
  obtain ⟨-, text', hrest'⟩ := rest_of_ch hne
  rw [hrest] at hrest'
  obtain ⟨rfl, -⟩ := List.cons_eq_cons.mp hrest'
  exact ⟨rfl, hne⟩

/-- Before a character that is no space and starts no comment nothing is skipped. -/
theorem skipBlank_of_plain (hrest : tkz.rest = c :: text) (hspace : isSpace c = false) (hslash : c ≠ '/') :
    tkz.skipBlank = tkz := by
  have hskip : tkz.skipSpace = tkz := by
    rw [EzTokenizer.skipSpace, hrest, List.takeWhile_cons_of_neg (by simp [hspace])]
    simp [EzTokenizer.advanceLines]
  have hch : tkz.ch 0 ≠ '/' := (ch_of_rest hrest).1 ▸ hslash
  rw [EzTokenizer.skipBlank, hskip]
  cases tkz.line.length with
  | zero => rfl
  | succ fuel => simp [EzTokenizer.skipComments, hch]

/-- At a letter a keyword is read. -/
theorem readToken_of_letter (scan : EzScan V) (keywords : List (List Char × EzToken))
    (hrest : tkz.rest = c :: text) (hletter : isLetter c = true) :
    tkz.readToken scan keywords = { tkz with actualString := none }.parseKeyword keywords := by
  obtain ⟨start, hstart⟩ : ∃ start, start = { tkz with actualString := none } := ⟨_, rfl⟩
  have hrest' : start.rest = c :: text := by rw [hstart]; exact hrest
  obtain ⟨hch, hzero⟩ := ch_of_rest hrest'
  obtain ⟨hspace, htoken, hdigit⟩ := isLetter_plain hletter
  have hne : ∀ d, isLetter d = false → c ≠ d := by
    rintro d hd rfl
    rw [hletter] at hd
    cases hd
  rw [← hch] at hletter
  rw [EzTokenizer.readToken, ← hstart, skipBlank_of_plain hrest' hspace (hne _ (by decide))]
  simp only [operatorToken_of_letter hletter]
  simp only [hch, htoken, hdigit, if_neg hzero, hne '$' (by decide), hne '@' (by decide),
    hne '"' (by decide), hne '\'' (by decide), hne '#' (by decide), or_self, if_false,
    Bool.false_eq_true]

/-- A keyword ends at the first character that is not in the table. -/
theorem keyword_of_rest {name : List Char} (hrest : tkz.rest = name ++ c :: text)
    (hchars : ∀ d ∈ name, isKeywordChar d = true) (hend : isKeywordChar c = false)
    (hlength : name.length ≤ ezKeywordSize) :
    (tkz.rest.take (ezKeywordSize + 1)).takeWhile isKeywordChar = name := by
  have hroom : ezKeywordSize + 1 - name.length = ezKeywordSize - name.length + 1 := by omega
  rw [hrest, List.take_append, List.take_of_length_le (by omega), hroom, List.take_succ_cons,
    List.takeWhile_append_of_pos hchars, List.takeWhile_cons_of_neg (by simp [hend]), List.append_nil]

/-- Characters of names are in the table, `J` apart. -/
theorem isKeywordChar_of_name {d : Char} (h : (isLetter d || isDigit d || d = '_') = true)
    (hne : d ≠ 'J') : isKeywordChar d = true := by
  simp only [isLetter, Bool.or_eq_true, Bool.and_eq_true, decide_eq_true_eq] at h
  simp only [isKeywordChar, Bool.or_eq_true, Bool.and_eq_true, decide_eq_true_eq]
  rcases h with ((⟨hlo, hhi⟩ | ⟨hlo, hhi⟩) | hdigit) | rfl
  · exact .inl (.inl (.inl (.inl ⟨hlo, hhi⟩)))
  · exact .inl (.inl (.inl (.inr ⟨⟨hlo, hhi⟩, hne⟩)))
  · exact .inl (.inl (.inr hdigit))
  · exact .inl (.inr rfl)

/-- A name without `J` is read as a custom function. -/
theorem readsCustom_of_name (scan : EzScan V) {keywords : List (List Char × EzToken)} {name : List Char}
    (hname : CustomName name) (hlookup : keywords.lookup name = some .funcCustom) (hJ : 'J' ∉ name)
    (hrest : tkz.rest = name ++ '(' :: text) (fuel : ℕ) :
    ReadsCustom tkz name (tkz.getNextToken scan keywords (fuel + 1)) := by
  obtain ⟨d, ds, rfl, hletter⟩ := hname.start
  have hkeyword : (({ tkz with actualString := none }.rest).take (ezKeywordSize + 1)).takeWhile
      isKeywordChar = d :: ds :=
    keyword_of_rest hrest (fun d hd => isKeywordChar_of_name (hname.chars d hd) fun heq => hJ (heq ▸ hd))
      (by decide) hname.length
  have hread := readToken_of_letter scan keywords hrest hletter
  rw [EzTokenizer.parseKeyword, hkeyword] at hread
  simp only [hlookup, reduceCtorEq, if_false] at hread
  rw [EzTokenizer.getNextToken, hread]
  exact ⟨rfl, rfl, rfl⟩

/-- What comes of the characters that are read as a keyword. -/
theorem parseKeyword_spec {keywords : List (List Char × EzToken)} {first : List Char} (hne : first ≠ [])
    (hkeyword : (tkz.rest.take (ezKeywordSize + 1)).takeWhile isKeywordChar = first) :
    ∃ lexeme after, tkz.parseKeyword keywords = (lexeme, after) ∧ after.line = tkz.line ∧
      after.p = tkz.p + first.length ∧
      (lexeme = .functionKeyword ∨
        ∃ t, lexeme = .token t ∧ (t = .funcCustom → after.actualCustomKeyword = first)) := by
  rw [EzTokenizer.parseKeyword, hkeyword]
  simp only [if_neg hne]
  split
  · exact ⟨_, _, rfl, rfl, rfl, .inr ⟨_, rfl, fun h => by cases h⟩⟩
  · exact ⟨_, _, rfl, rfl, rfl, .inl rfl⟩
  · exact ⟨_, _, rfl, rfl, rfl, .inr ⟨_, rfl, fun _ => rfl⟩⟩
  · next t hnot hcustom _ =>
    exact ⟨_, _, rfl, rfl, rfl, .inr ⟨t, rfl, fun h => absurd h hcustom⟩⟩

/-- What a test takes behind the first characters that it takes. -/
theorem takeWhile_drop {test : Char → Bool} {chars first last : List Char}
    (h : chars.takeWhile test = first ++ last) :
    (chars.drop first.length).takeWhile test = last := by
  induction first generalizing chars with
  | nil => exact h
  | cons d first ih =>
    cases chars with
    | nil => cases h
    | cons e chars =>
      rw [List.takeWhile_cons] at h
      split at h
      · exact ih (List.cons_eq_cons.mp h).2
      · cases h

/-- The text from a later place on. -/
theorem rest_advance {first last : List Char} (hrest : tkz.rest = first ++ last) :
    (tkz.advance first.length).rest = last := by
  rw [EzTokenizer.rest, EzTokenizer.advance, ← List.drop_drop]
  exact takeWhile_drop hrest

/-- Skipping a function goes behind the line of text that it starts in. -/
theorem skipFunction_far {first : List Char} (fuel : ℕ) (hrest : tkz.rest = c :: first ++ text)
    (hspace : isSpace c = false) (hslash : c ≠ '/') (hline : '\n' ∉ c :: first) :
    tkz.p + (c :: first).length ≤ (EzTokenizer.skipFunction (fuel + 1) 0 0 tkz).p := by
  obtain ⟨hch, hzero⟩ := ch_of_rest hrest
  have hlength : (c :: first).length ≤ (tkz.rest.takeWhile (· ≠ '\n')).length := by
    rw [hrest, List.takeWhile_append_of_pos fun d hd => by
      simpa using fun heq : d = '\n' => hline (heq ▸ hd), List.length_append]
    exact Nat.le_add_right _ _
  rw [EzTokenizer.skipFunction, hch, if_neg hzero, skipBlank_of_plain hrest hspace hslash]
  simp only
  split
  · exact Nat.add_le_add_left hlength _
  · exact Nat.le_trans (Nat.add_le_add_left hlength tkz.p) (moves_skipFunction fuel _ _
      (tkz.advance (tkz.rest.takeWhile (· ≠ '\n')).length)).2

/-- A name with a `J` is not. -/
theorem not_readsCustom_of_name (scan : EzScan V) (keywords : List (List Char × EzToken))
    {name : List Char} (hname : CustomName name) (hJ : 'J' ∈ name)
    (hrest : tkz.rest = name ++ '(' :: text) (fuel : ℕ) :
    ¬ ReadsCustom tkz name (tkz.getNextToken scan keywords (fuel + 1)) := by
  intro hreads
  obtain ⟨first, last, hsplit, hfirst⟩ := List.eq_append_cons_of_mem hJ
  obtain ⟨d, ds, hcons, hletter⟩ := hname.start
  have hread := readToken_of_letter scan keywords (hrest.trans (congrArg (· ++ '(' :: text) hcons)) hletter
  have hcut : tkz.rest = first ++ 'J' :: (last ++ '(' :: text) := by
    rw [hrest, hsplit, List.append_assoc]
    rfl
  have hshort : first.length < name.length := by
    rw [hsplit, List.length_append, List.length_cons]
    omega
  have hkeyword : (({ tkz with actualString := none }.rest).take (ezKeywordSize + 1)).takeWhile
      isKeywordChar = first :=
    keyword_of_rest hcut (fun d hd => isKeywordChar_of_name
      (hname.chars d (hsplit ▸ List.mem_append_left _ hd)) fun heq => hfirst (heq ▸ hd))
      (by decide) (hshort.le.trans hname.length)
  rw [EzTokenizer.getNextToken, hread] at hreads
  by_cases hempty : first = []
  · rw [EzTokenizer.parseKeyword, hkeyword, if_pos hempty] at hreads
    cases hreads.token
  · obtain ⟨lexeme, after, hparse, hline, hp, hlexeme⟩ := parseKeyword_spec hempty hkeyword
    rw [hparse] at hreads
    rcases hlexeme with rfl | ⟨t, rfl, ht⟩
    · -- the line that a function is skipped in has the name and what stands behind it
      have hrest' : after.rest = 'J' :: (last ++ ['(']) ++ text := by
        have hlast : (tkz.advance first.length).rest = 'J' :: (last ++ '(' :: text) := rest_advance hcut
        rw [EzTokenizer.rest, hline, hp]
        simpa [EzTokenizer.rest, EzTokenizer.advance] using hlast
      have hskip := skipFunction_far after.line.length hrest' (by decide) (by decide) ?_
      · have htaken := (getNextToken_taken scan keywords fuel
          (EzTokenizer.skipFunction (after.line.length + 1) 0 0 after)).1.2
        have hcursor := hreads.cursor
        rw [hsplit] at hcursor
        simp only [List.length_append, List.length_cons, List.length_nil] at hskip hcursor
        simp only at hp
        omega
      · intro hmem
        rcases List.mem_cons.mp hmem with h | hmem
        · cases h
        · rcases List.mem_append.mp hmem with hmem | hmem
          · have hchar := hname.chars '\n' (hsplit ▸ List.mem_append_right _ (List.mem_cons_of_mem _ hmem))
            revert hchar
            decide
          · revert hmem
            decide
    · have hcustom := hreads.keyword
      rw [ht hreads.token] at hcustom
      rw [hcustom] at hshort
      exact Nat.lt_irrefl _ hshort

/-- Behind a call of `ez_custom_new`, whatever else is entered and deleted, the name is read as a custom
function, up to its bracket, if it has no `J`, and only then. -/
theorem custom_read_iff (scan : EzScan V) (fuel : ℕ) {calls : List CustomCall} {name : List Char}
    {code : Option (List Char)} {behindToken behindKey : List Char} (hname : CustomName name)
    (hcall : .new name code behindToken behindKey ∈ calls) (hrest : tkz.rest = name ++ '(' :: text) :
    AgreesWith (ezNames calls).tokens (customKeywords calls) ∧
      (ReadsCustom tkz name (tkz.getNextToken scan (customKeywords calls) (fuel + 1)) ↔ 'J' ∉ name) := by
  refine ⟨ezNames_agrees calls, fun hreads hJ => ?_, fun hJ => ?_⟩
  · exact not_readsCustom_of_name scan (customKeywords calls) hname hJ hrest fuel hreads
  · exact readsCustom_of_name scan hname (lookup_customKeywords hname hcall) hJ hrest fuel

end Reading

/-- A name that can be called. -/
theorem customName_lamp : CustomName "lamp_1".toList where
  chars := List.all_eq_true.mp rfl
  start := ⟨'l', _, rfl, rfl⟩
  length := by decide
  fresh := by decide

/-- It is read, with another name entered and deleted. -/
theorem custom_read_lamp :
    ReadsCustom (V := Unit) { line := "lamp_1(2);".toList, actualNumber := () } "lamp_1".toList
      (EzTokenizer.getNextToken ⟨fun _ => (), ()⟩
        (customKeywords [.new "lamp_1".toList none [] [], .new "J".toList none [] [], .del "J".toList])
        1 { line := "lamp_1(2);".toList, actualNumber := () }) :=
  (custom_read_iff ⟨fun _ => (), ()⟩ 0 customName_lamp List.mem_cons_self rfl).2.mpr (by decide)

/-- The name `J` is not. -/
theorem custom_J_not_read :
    ¬ ∀ (calls : List CustomCall) (name : List Char) (code : Option (List Char))
      (behindToken behindKey : List Char) (tkz : EzTokenizer Unit) (text : List Char), CustomName name →
      .new name code behindToken behindKey ∈ calls → tkz.rest = name ++ '(' :: text →
      ReadsCustom tkz name (tkz.getNextToken ⟨fun _ => (), ()⟩ (customKeywords calls) 1) := by
  intro h
  have hreads := h [.new "J".toList none [] []] "J".toList none [] []
    { line := "J(2);".toList, actualNumber := () } "2);".toList
    ⟨List.all_eq_true.mp rfl, ⟨'J', [], rfl, rfl⟩, by decide, by decide⟩ List.mem_cons_self rfl
  have htoken := hreads.token
  revert htoken
  decide

end DasEdge.Expression
