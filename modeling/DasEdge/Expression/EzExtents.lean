import DasEdge.Expression.EzCursor
import Mathlib.Data.Nat.Digits.Defs

/-!
# Where a function definition ends

`__load_function` and `__skip_function` look for the end of a body line by line: what counts of a line
is all behind the space and the comments that it starts with, and the body is over at the end of the
first line where as many braces are closed as are opened. The tokenizer, which reads the body when the
function is called, knows comments and quoted texts wherever they stand, and takes what is behind the
brace that matches the first one for code of its own.
-/

namespace DasEdge.Expression

section Braces

/-- What the tokenizer reads a character as a part of. -/
inductive Lex where
  | code | name | quote (q : Char) | opens (kind : Char) | lineComment | comment (kind : Char) | closes
  deriving DecidableEq, Repr

/-- What comes behind a character of the code itself. -/
def Lex.behindCode (c ahead : Char) : Lex :=
  if c = '/' ∧ (ahead = '/' ∨ ahead = '*' ∨ ahead = '-') then .opens ahead
  else if c = '"' ∨ c = '\'' then .quote c
  else if c = '$' ∨ c = '@' ∨ c = '#' then .name
  else .code

/-- What the next character is a part of. -/
def Lex.next (c ahead : Char) : Lex → Lex
  | .code => behindCode c ahead
  | .name => if isSpace c || (isCharToken c).isSome then behindCode c ahead else .name
  | .quote q => if c = q then .code else .quote q
  | .opens kind => if kind = '/' then .lineComment else .comment kind
  | .lineComment => if c = '\n' then .code else .lineComment
  | .comment kind => if c = kind ∧ ahead = '/' then .closes else .comment kind
  | .closes => .code

/-- A brace is read as one; a name ends in front of it. -/
def Lex.reads : Lex → Bool
  | .code => true
  | .name => true
  | _ => false

/-- The text with spaces for the characters of comments and quoted texts. -/
def codeView : Lex → List Char → List Char
  | _, [] => []
  | lex, c :: rest =>
    (if lex.reads then c else ' ') :: codeView (lex.next c (rest.headD '\x00')) rest

/-- The number of open braces behind a character. -/
def braceDepth (depth : ℕ) (c : Char) : ℕ :=
  if c = '\x7b' then depth + 1 else if c = '\x7d' then depth - 1 else depth

/-- The number of characters up to the brace that closes the last open one. -/
def closing : ℕ → List Char → Option ℕ
  | _, [] => none
  | depth, c :: rest =>
    if braceDepth depth c = 0 then some 1 else (closing (braceDepth depth c) rest).map (· + 1)

/-- The place of the first brace of a text, and the place behind the brace that matches it. -/
def bodyBraces (text : List Char) : Option (ℕ × ℕ) :=
  let view := codeView .code text
  let first := (view.takeWhile (· ≠ '\x7b')).length
  (closing 0 (view.drop first)).map fun size => (first, first + size)

example : bodyBraces " f($a) \x7b // \x7d\n return \"\x7d\"; \x7d $b".toList = some (7, 28) := by decide

/-- The view is as long as the text. -/
@[simp] theorem codeView_length (lex : Lex) (text : List Char) :
    (codeView lex text).length = text.length := by
  induction text generalizing lex with
  | nil => rfl
  | cons c rest ih => rw [codeView, List.length_cons, List.length_cons, ih]

/-- The matching brace is in the text. -/
theorem closing_le {depth size : ℕ} {text : List Char} (h : closing depth text = some size) :
    0 < size ∧ size ≤ text.length := by
  induction text generalizing depth size with
  | nil => cases h
  | cons c rest ih =>
    rw [closing] at h
    split at h
    · cases h
      exact ⟨Nat.one_pos, Nat.succ_le_succ (Nat.zero_le _)⟩
    · obtain ⟨size', hsize, rfl⟩ := Option.map_eq_some_iff.mp h
      exact ⟨Nat.succ_pos _, Nat.succ_le_succ (ih hsize).2⟩

/-- The body is a text of at least one character. -/
theorem bodyBraces_bounds {text : List Char} {first last : ℕ}
    (h : bodyBraces text = some (first, last)) :
    first < last ∧ last ≤ text.length := by
  obtain ⟨size, hsize, heq⟩ := Option.map_eq_some_iff.mp h
  obtain ⟨rfl, rfl⟩ := Prod.mk.inj heq
  obtain ⟨hpos, hle⟩ := closing_le hsize
  rw [List.length_drop, codeView_length] at hle
  omega

end Braces

section Lines

/-- What counts of a line: the text behind the space and the comments at its start. -/
structure CountedLine where
  start : ℕ
  text : List Char
  deriving DecidableEq, Repr

/-- The number of a character in the lines. -/
def countIn (c : Char) (lines : List CountedLine) : ℕ := (lines.map (·.text.count c)).sum

/-- The place of the first opening brace of the lines. -/
def firstBrace : List CountedLine → Option ℕ
  | [] => none
  | line :: lines =>
    if '\x7b' ∈ line.text then some (line.start + (line.text.takeWhile (· ≠ '\x7b')).length)
    else firstBrace lines

/-- The end of the last line. -/
def linesEnd (lines : List CountedLine) : Option ℕ :=
  lines.getLast?.map fun line => line.start + line.text.length

/-- Braces that are opened and closed as often. -/
abbrev Balanced (left right : ℕ) : Prop := 0 < left ∧ left = right

/-- With the braces so far, those of the first `n` lines are balanced, and not so those of fewer. -/
structure EndsAfter (left right : ℕ) (lines : List CountedLine) (n : ℕ) : Prop where
  pos : 0 < n
  within : n ≤ lines.length
  balanced : Balanced (left + countIn '\x7b' (lines.take n)) (right + countIn '\x7d' (lines.take n))
  earliest : ∀ k, 0 < k → k < n →
    ¬ Balanced (left + countIn '\x7b' (lines.take k)) (right + countIn '\x7d' (lines.take k))

variable {left right n : ℕ} {line : CountedLine} {lines : List CountedLine}

/-- The count of a line and of the ones behind it. -/
theorem countIn_cons (c : Char) (line : CountedLine) (lines : List CountedLine) :
    countIn c (line :: lines) = line.text.count c + countIn c lines := by
  rw [countIn, List.map_cons, List.sum_cons, countIn]

/-- A body that is over at the end of its first line. -/
theorem EndsAfter.first
    (h : Balanced (left + line.text.count '\x7b') (right + line.text.count '\x7d')) :
    EndsAfter left right (line :: lines) n ↔ n = 1 := by
  refine ⟨fun hends => ?_, ?_⟩
  · by_contra hne
    refine hends.earliest 1 Nat.one_pos (by have := hends.pos; omega) ?_
    rw [List.take_succ_cons, List.take_zero, countIn_cons, countIn_cons]
    exact h
  · rintro rfl
    refine ⟨Nat.one_pos, Nat.succ_le_succ (Nat.zero_le _), ?_, fun k hpos hlt => by omega⟩
    rw [List.take_succ_cons, List.take_zero, countIn_cons, countIn_cons]
    exact h

/-- A body that goes on behind its first line. -/
theorem EndsAfter.behind
    (h : ¬ Balanced (left + line.text.count '\x7b') (right + line.text.count '\x7d')) :
    EndsAfter left right (line :: lines) n ↔ ∃ m, n = m + 1 ∧
      EndsAfter (left + line.text.count '\x7b') (right + line.text.count '\x7d') lines m := by
  have hcount (k : ℕ) : Balanced (left + countIn '\x7b' ((line :: lines).take (k + 1)))
        (right + countIn '\x7d' ((line :: lines).take (k + 1))) ↔
      Balanced (left + line.text.count '\x7b' + countIn '\x7b' (lines.take k))
        (right + line.text.count '\x7d' + countIn '\x7d' (lines.take k)) := by
    rw [List.take_succ_cons, countIn_cons, countIn_cons, Nat.add_assoc, Nat.add_assoc]
  constructor
  · intro hends
    obtain ⟨m, rfl⟩ : ∃ m, n = m + 1 := ⟨n - 1, by have := hends.pos; omega⟩
    refine ⟨m, rfl, Nat.pos_of_ne_zero ?_, Nat.le_of_succ_le_succ hends.within,
      (hcount m).mp hends.balanced, fun k hpos hlt => ?_⟩
    · rintro rfl
      exact h ((hcount 0).mp hends.balanced)
    · exact fun hbalanced => hends.earliest (k + 1) (Nat.succ_pos k) (Nat.succ_lt_succ hlt)
        ((hcount k).mpr hbalanced)
  · rintro ⟨m, rfl, hends⟩
    refine ⟨Nat.succ_pos m, Nat.succ_le_succ hends.within, (hcount m).mpr hends.balanced,
      fun k hpos hlt hbalanced => ?_⟩
    obtain ⟨k, rfl⟩ : ∃ j, k = j + 1 := ⟨k - 1, by omega⟩
    by_cases hk : k = 0
    · subst hk
      exact h ((hcount 0).mp hbalanced)
    · exact hends.earliest k (Nat.pos_of_ne_zero hk) (Nat.lt_of_succ_lt_succ hlt)
        ((hcount k).mp hbalanced)

/-- Balanced lines have a brace. -/
theorem firstBrace_isSome (h : 0 < countIn '\x7b' lines) :
    ∃ place, firstBrace lines = some place := by
  induction lines with
  | nil => exact absurd h (Nat.lt_irrefl 0)
  | cons line lines ih =>
    rw [firstBrace]
    by_cases hmem : '\x7b' ∈ line.text
    · exact ⟨_, if_pos hmem⟩
    · rw [if_neg hmem]
      rw [countIn_cons, List.count_eq_zero_of_not_mem hmem, Nat.zero_add] at h
      exact ih h

/-- There is a line up to which the braces are balanced. -/
theorem EndsAfter.take_ne_nil (h : EndsAfter left right lines n) : lines.take n ≠ [] := by
  intro hnil
  rcases List.take_eq_nil_iff.mp hnil with hzero | hempty
  · exact absurd h.pos (by omega)
  · exact absurd h.pos (Nat.not_lt.mpr (by simpa [hempty] using h.within))

/-- Lines end where the last of them does. -/
theorem linesEnd_cons (line : CountedLine) (h : lines ≠ []) :
    linesEnd (line :: lines) = linesEnd lines := by
  rw [linesEnd, List.getLast?_cons_of_ne_nil h, linesEnd]

end Lines

section Places

variable {V : Type} {a b : EzTokenizer V}

/-- Two tokenizers at the same place of the same text. -/
structure SamePlace (a b : EzTokenizer V) : Prop where
  line : a.line = b.line
  p : a.p = b.p

namespace SamePlace

/-- They see the same characters. -/
theorem ch (h : SamePlace a b) (k : ℕ) : a.ch k = b.ch k := by
  rw [EzTokenizer.ch, h.line, h.p, EzTokenizer.ch]

/-- They have the same text before them. -/
theorem rest (h : SamePlace a b) : a.rest = b.rest := by
  rw [EzTokenizer.rest, h.line, h.p, EzTokenizer.rest]

/-- They move together. -/
theorem advance (h : SamePlace a b) (k : ℕ) : SamePlace (a.advance k) (b.advance k) :=
  ⟨h.line, congrArg (· + k) h.p⟩

/-- They move together over lines, which they may count differently. -/
theorem advanceLines (h : SamePlace a b) (k : ℕ) : SamePlace (a.advanceLines k) (b.advanceLines k) :=
  ⟨h.line, congrArg (· + k) h.p⟩

/-- They skip the same space. -/
theorem skipSpace (h : SamePlace a b) : SamePlace a.skipSpace b.skipSpace := by
  rw [EzTokenizer.skipSpace, h.rest]
  exact h.advanceLines _

/-- They skip the same line comment. -/
theorem skipLineComment (h : SamePlace a b) : SamePlace a.skipLineComment b.skipLineComment := by
  have hbody := (h.advance 2).advance ((b.advance 2).rest.takeWhile (· ≠ '\n')).length
  rw [EzTokenizer.skipLineComment, EzTokenizer.skipLineComment, (h.advance 2).rest]
  simp only [hbody.ch 0]
  split
  · exact hbody.advanceLines 1
  · exact hbody

/-- They skip the same comment of several lines. -/
theorem skipMultilineComment (h : SamePlace a b) :
    SamePlace a.skipMultilineComment b.skipMultilineComment := by
  rw [EzTokenizer.skipMultilineComment, EzTokenizer.skipMultilineComment, h.ch, (h.advance 2).rest]
  exact ((h.advance 2).advanceLines _).advance 2

/-- They skip the same comments. -/
theorem skipComments (h : SamePlace a b) (fuel : ℕ) :
    SamePlace (EzTokenizer.skipComments fuel a) (EzTokenizer.skipComments fuel b) := by
  induction fuel generalizing a b with
  | zero => exact h
  | succ fuel ih =>
    rw [EzTokenizer.skipComments, EzTokenizer.skipComments, h.ch, h.ch]
    split
    · exact ih h.skipLineComment.skipSpace
    · split
      · exact ih h.skipMultilineComment.skipSpace
      · exact h

/-- They skip the same space and comments. -/
theorem skipBlank (h : SamePlace a b) : SamePlace a.skipBlank b.skipBlank := by
  rw [EzTokenizer.skipBlank, EzTokenizer.skipBlank, h.line]
  exact h.skipSpace.skipComments _

end SamePlace

/-- Space that is skipped is not skipped again. -/
theorem skipSpace_twice (tkz : EzTokenizer V) : SamePlace tkz.skipSpace tkz.skipSpace.skipSpace := by
  have hrest : tkz.skipSpace.rest = tkz.rest.dropWhile isSpace :=
    rest_advance (List.takeWhile_append_dropWhile).symm
  have hnone : (tkz.rest.dropWhile isSpace).takeWhile isSpace = [] := by
    rw [List.takeWhile_eq_nil_iff]
    intro hlt
    have := List.dropWhile_get_zero_not isSpace tkz.rest hlt
    simpa using this
  refine ⟨rfl, ?_⟩
  rw [EzTokenizer.skipSpace.eq_def tkz.skipSpace, hrest, hnone]
  rfl

/-- The lines of a text from the cursor on, as both passes go over them. -/
def countedLines : ℕ → EzTokenizer V → List CountedLine
  | 0, _ => []
  | fuel + 1, tkz =>
    if tkz.ch 0 = '\x00' then []
    else
      let start := tkz.skipBlank
      let text := start.rest.takeWhile (· ≠ '\n')
      ⟨start.p, text⟩ :: countedLines fuel (start.advance text.length)

/-- The lines depend on the place only. -/
theorem SamePlace.countedLines (h : SamePlace a b) (fuel : ℕ) :
    Expression.countedLines fuel a = Expression.countedLines fuel b := by
  induction fuel generalizing a b with
  | zero => rfl
  | succ fuel ih =>
    have hblank := h.skipBlank
    rw [Expression.countedLines, Expression.countedLines, h.ch]
    simp only [hblank.rest, hblank.p, ih (hblank.advance _)]

/-- `__skip_function` stands at the end of the line where the counted braces are balanced first. -/
theorem skipFunction_ends {tkz : EzTokenizer V} {fuel left right n : ℕ}
    (h : EndsAfter left right (countedLines fuel tkz) n) :
    linesEnd ((countedLines fuel tkz).take n) =
      some (EzTokenizer.skipFunction fuel left right tkz).p := by
  induction fuel generalizing tkz left right n with
  | zero => exact absurd h.pos (Nat.not_lt.mpr h.within)
  | succ fuel ih =>
    rw [countedLines] at h ⊢
    rw [EzTokenizer.skipFunction]
    split at h
    · exact absurd h.pos (Nat.not_lt.mpr h.within)
    next hne =>
    rw [if_neg hne, if_neg hne]
    simp only at h ⊢
    obtain ⟨text, htext⟩ : ∃ text, text = tkz.skipBlank.rest.takeWhile (· ≠ '\n') :=
      ⟨_, rfl⟩
    rw [← htext] at h ⊢
    by_cases hbalanced : Balanced (left + text.count '\x7b') (right + text.count '\x7d')
    · obtain rfl := (EndsAfter.first hbalanced).mp h
      rw [if_pos hbalanced]
      rfl
    · obtain ⟨m, rfl, hends⟩ := (EndsAfter.behind hbalanced).mp h
      rw [if_neg hbalanced, List.take_succ_cons, linesEnd_cons _ hends.take_ne_nil]
      exact ih hends

/-- Where the body starts when these are its lines. -/
def bodyStart (body : BodyScan) (lines : List CountedLine) : ℕ :=
  if body.left = 0 then (firstBrace lines).getD 0 else body.leftP

/-- A line break is counted without a move. -/
theorem samePlace_lineBreak (tkz : EzTokenizer V) :
    SamePlace (if tkz.ch 0 = '\n' then { tkz with lnNum := tkz.lnNum + 1 } else tkz) tkz := by
  split
  · exact ⟨rfl, rfl⟩
  · exact ⟨rfl, rfl⟩

/-- A line of the body is behind the brace that it starts with, or has it. -/
theorem bodyStart_cons (body : BodyScan) (line : CountedLine) (lines : List CountedLine) (right : ℕ) :
    bodyStart ⟨body.left + line.text.count '\x7b', right, if body.left = 0 then
        line.start + (line.text.takeWhile (· ≠ '\x7b')).length else body.leftP⟩ lines =
      bodyStart body (line :: lines) := by
  simp only [bodyStart, firstBrace]
  by_cases hleft : body.left = 0
  · rw [if_pos hleft, if_pos hleft, hleft, Nat.zero_add]
    by_cases hmem : '\x7b' ∈ line.text
    · rw [if_pos hmem, if_neg (List.count_pos_iff.mpr hmem).ne', Option.getD_some]
    · rw [if_neg hmem, if_pos (List.count_eq_zero_of_not_mem hmem)]
  · rw [if_neg hleft, if_neg hleft, if_neg (by omega)]

/-- `__load_function` stands there, too, and takes the text from the first counted brace up to that
place for the body. -/
theorem loadBody_ends {tkz : EzTokenizer V} {fuel n : ℕ} {body : BodyScan}
    (h : EndsAfter body.left body.right (countedLines fuel tkz) n) :
    ∃ after, loadBody fuel body tkz = (after, some ((tkz.line.take after.p).drop
        (bodyStart body ((countedLines fuel tkz).take n)))) ∧
      linesEnd ((countedLines fuel tkz).take n) = some after.p := by
  induction fuel generalizing tkz body n with
  | zero => exact absurd h.pos (Nat.not_lt.mpr h.within)
  | succ fuel ih =>
    rw [countedLines] at h ⊢
    rw [loadBody]
    split at h
    · exact absurd h.pos (Nat.not_lt.mpr h.within)
    next hne =>
    rw [if_neg hne, if_neg hne]
    have hblank := (moves_skipBlank tkz).1
    obtain ⟨start, hstart⟩ : ∃ start, start = tkz.skipBlank := ⟨_, rfl⟩
    obtain ⟨text, htext⟩ : ∃ text, text = start.rest.takeWhile (· ≠ '\n') := ⟨_, rfl⟩
    rw [← hstart] at hblank
    simp only [← hstart, ← htext] at h ⊢
    obtain ⟨after, hafter⟩ : ∃ after, after = if (start.advance text.length).ch 0 = '\n' then
        { start.advance text.length with lnNum := (start.advance text.length).lnNum + 1 }
        else start.advance text.length := ⟨_, rfl⟩
    have hsame : SamePlace after (start.advance text.length) := hafter ▸ samePlace_lineBreak _
    have hline : after.line = tkz.line := hsame.line.trans hblank
    have hp : after.p = start.p + text.length := hsame.p
    rw [← hafter]
    by_cases hbalanced : Balanced (body.left + text.count '\x7b') (body.right + text.count '\x7d')
    · obtain rfl := (EndsAfter.first hbalanced).mp h
      rw [if_pos hbalanced]
      refine ⟨after, ?_, congrArg some hp.symm⟩
      rw [hline, List.take_succ_cons, List.take_zero, ← bodyStart_cons body _ _ 0, bodyStart]
      simp only [if_neg hbalanced.1.ne']
    · obtain ⟨m, rfl, hends⟩ := (EndsAfter.behind hbalanced).mp h
      rw [if_neg hbalanced, List.take_succ_cons, linesEnd_cons _ hends.take_ne_nil]
      rw [← hsame.countedLines] at hends ⊢
      obtain ⟨last, hload, hend⟩ := @ih _ _ ⟨_, _, if body.left = 0 then
        start.p + (text.takeWhile (· ≠ '\x7b')).length else body.leftP⟩ hends
      refine ⟨last, ?_, hend⟩
      rw [hload, hline, ← bodyStart_cons body ⟨start.p, text⟩ _
        (body.right + text.count '\x7d')]

/-- It takes no body when the counted braces are never balanced. -/
theorem loadBody_unended {tkz : EzTokenizer V} {fuel : ℕ} {body : BodyScan}
    (h : ∀ n, ¬ EndsAfter body.left body.right (countedLines fuel tkz) n) :
    (loadBody fuel body tkz).2 = none := by
  induction fuel generalizing tkz body with
  | zero => rfl
  | succ fuel ih =>
    rw [countedLines] at h
    rw [loadBody]
    by_cases hzero : tkz.ch 0 = '\x00'
    · rw [if_pos hzero]
    rw [if_neg hzero] at h ⊢
    obtain ⟨start, hstart⟩ : ∃ start, start = tkz.skipBlank := ⟨_, rfl⟩
    obtain ⟨text, htext⟩ : ∃ text, text = start.rest.takeWhile (· ≠ '\n') := ⟨_, rfl⟩
    simp only [← hstart, ← htext] at h ⊢
    have hbalanced : ¬ Balanced (body.left + text.count '\x7b') (body.right + text.count '\x7d') :=
      fun hbalanced => h 1 ((EndsAfter.first hbalanced).mpr rfl)
    rw [if_neg hbalanced]
    have hsame := samePlace_lineBreak (start.advance text.length)
    refine ih fun n hends => h (n + 1) ((EndsAfter.behind hbalanced).mpr ⟨n, rfl, ?_⟩)
    rw [hsame.countedLines] at hends
    exact hends

end Places

section Definitions

variable {V : Type} {tkz run : EzTokenizer V} {first last : ℕ}

/-- The places of the first brace behind the keyword `function` and behind the brace that matches it. -/
def definitionBody (tkz : EzTokenizer V) : Option (ℕ × ℕ) :=
  (bodyBraces tkz.rest).map fun braces => (tkz.p + braces.1, tkz.p + braces.2)

/-- The body is a part of the text. -/
theorem definitionBody_bounds (h : definitionBody tkz = some (first, last)) :
    first < last ∧ last ≤ tkz.line.length := by
  obtain ⟨braces, hbraces, heq⟩ := Option.map_eq_some_iff.mp h
  obtain ⟨rfl, rfl⟩ := Prod.mk.inj heq
  obtain ⟨hlt, hle⟩ := bodyBraces_bounds hbraces
  have hrest : tkz.rest.length ≤ (tkz.line.drop tkz.p).length := (List.takeWhile_sublist _).length_le
  rw [List.length_drop] at hrest
  omega

/-- The lines of the text from a definition on. -/
def definitionLines (tkz : EzTokenizer V) : List CountedLine :=
  countedLines (tkz.line.length + 1) tkz.skipSpace

/-- The definition behind the keyword has a name and only parameters with types, and its body is
laid out for the count of braces by lines: the first brace that counts is the one that the body
starts with, and where the counted braces are balanced first, a line ends right behind the one that
it ends with. -/
structure LaidOut (tkz : EzTokenizer V) (first last : ℕ) : Prop where
  looked : bodyLooked tkz.skipSpace = true
  ends : ∃ n, EndsAfter 0 0 (definitionLines tkz) n ∧
    firstBrace ((definitionLines tkz).take n) = some first ∧
    linesEnd ((definitionLines tkz).take n) = some last

/-- Both passes go on right behind the body of the definition, and the function is registered with the
text of the body, which gets a semicolon. -/
structure ExtentsAgree (tables : EzTables) (tkz : EzTokenizer V) (first last : ℕ) : Prop where
  loaded : (loadFunction tables tkz).2.p = last
  skipped : ∀ run : EzTokenizer V, SamePlace run tkz →
    (EzTokenizer.skipFunction (run.line.length + 1) 0 0 run).p = last
  code : ∃ regs, (loadFunction tables tkz).1.customs = (definitionName tkz.skipSpace,
    { regs := regs, code := some ((tkz.line.take last).drop first ++ [';']) }) :: tables.customs

/-- A definition whose body is looked for. -/
theorem loadFunction_looked (tables : EzTables) (h : bodyLooked tkz.skipSpace = true) :
    ∃ regs, loadFunction tables tkz =
      (⟨(definitionName tkz.skipSpace, .funcCustom) :: tables.keywords,
        (definitionName tkz.skipSpace, { regs := regs, code :=
          (loadBody (tkz.line.length + 1) {} tkz.skipSpace).2.map (· ++ [';']) }) :: tables.customs⟩,
        (loadBody (tkz.line.length + 1) {} tkz.skipSpace).1) := by
  obtain ⟨hname, htyped⟩ := Bool.and_eq_true_iff.mp h
  obtain ⟨start, hstart⟩ : ∃ start, start = tkz.skipSpace := ⟨_, rfl⟩
  have hline : start.line = tkz.line := by rw [hstart]; rfl
  have hkey : (start.rest.takeWhile fun c => !isSpace c && c ≠ '(').take (ezKeywordSize + 1) =
    definitionName start := rfl
  have hparams : ((start.rest.drop (definitionName start).length).dropWhile (· ≠ '(')).drop 1 =
    definitionParams start := rfl
  rw [← hstart] at hname htyped ⊢
  rw [loadFunction]
  simp only [← hstart, hkey, hparams, hline, if_neg (of_decide_eq_true hname)]
  rcases hload : loadParams ((definitionParams start).length + 1) (definitionParams start) [] with
    ⟨regs, typed⟩
  rw [hload] at htyped
  obtain rfl : typed = true := htyped
  rcases hbody : loadBody (tkz.line.length + 1) {} start with ⟨after, code⟩
  cases code with
  | none => exact ⟨regs, rfl⟩
  | some code => exact ⟨regs, rfl⟩

/-- Any other definition has no code. -/
theorem loadFunction_refused (tables : EzTables) (h : bodyLooked tkz.skipSpace = false)
    {name : List Char} {regs : List EzReg} {code : List Char} :
    (loadFunction tables tkz).1.customs ≠
      (name, { regs := regs, code := some code }) :: tables.customs := by
  obtain ⟨start, hstart⟩ : ∃ start, start = tkz.skipSpace := ⟨_, rfl⟩
  have hkey : (start.rest.takeWhile fun c => !isSpace c && c ≠ '(').take (ezKeywordSize + 1) =
    definitionName start := rfl
  have hparams : ((start.rest.drop (definitionName start).length).dropWhile (· ≠ '(')).drop 1 =
    definitionParams start := rfl
  rw [← hstart] at h
  rw [loadFunction]
  simp only [← hstart, hkey, hparams]
  by_cases hname : definitionName start = []
  · rw [if_pos hname]
    exact fun heq => absurd (congrArg List.length heq) (by simp)
  · rw [if_neg hname]
    rcases hload : loadParams ((definitionParams start).length + 1) (definitionParams start) [] with
      ⟨regs', typed⟩
    rw [bodyLooked, hload] at h
    obtain rfl : typed = false := by simpa [hname] using h
    intro heq
    simp at heq

/-- The lines are the same in front of space that both passes skip. -/
theorem countedLines_skipSpace (hlooked : bodyLooked tkz.skipSpace = true) (fuel : ℕ) :
    countedLines (fuel + 1) tkz = countedLines (fuel + 1) tkz.skipSpace := by
  have hbehind : tkz.skipSpace.ch 0 ≠ '\x00' := by
    cases hrest : tkz.skipSpace.rest with
    | nil =>
      rw [bodyLooked, definitionName, hrest] at hlooked
      cases hlooked
    | cons c text => exact (ch_of_rest hrest).1 ▸ (ch_of_rest hrest).2
  have hhere : tkz.ch 0 ≠ '\x00' := by
    cases hrest : tkz.rest with
    | nil =>
      have hstay : SamePlace tkz.skipSpace tkz := by
        rw [EzTokenizer.skipSpace, hrest]
        exact ⟨rfl, rfl⟩
      exact hstay.ch 0 ▸ hbehind
    | cons c text => exact (ch_of_rest hrest).1 ▸ (ch_of_rest hrest).2
  have hblank : SamePlace tkz.skipBlank tkz.skipSpace.skipBlank :=
    (skipSpace_twice tkz).skipComments tkz.line.length
  rw [countedLines, countedLines, if_neg hhere, if_neg hbehind]
  simp only [hblank.rest, hblank.p, (hblank.advance _).countedLines]

/-- The two passes agree on the extent of a definition exactly when it is laid out for them. -/
theorem extentsAgree_iff (tables : EzTables) (h : definitionBody tkz = some (first, last)) :
    ExtentsAgree tables tkz first last ↔ LaidOut tkz first last := by
  obtain ⟨hlt, hle⟩ := definitionBody_bounds h
  constructor
  · rintro ⟨hloaded, -, regs, hcode⟩
    by_cases hlooked : bodyLooked tkz.skipSpace = true
    · obtain ⟨regs', hload⟩ := loadFunction_looked tables hlooked
      rw [hload] at hloaded hcode
      by_cases hsome : ∃ n, EndsAfter 0 0 (definitionLines tkz) n
      · obtain ⟨n, hends⟩ := hsome
        obtain ⟨after, hbody, hend⟩ :=
          @loadBody_ends V tkz.skipSpace (tkz.line.length + 1) n {} hends
        rw [hbody] at hloaded hcode
        obtain rfl : after.p = last := hloaded
        refine ⟨hlooked, n, hends, ?_, hend⟩
        obtain ⟨place, hplace⟩ := firstBrace_isSome (by simpa using hends.balanced.1)
        have hstart : bodyStart {} ((definitionLines tkz).take n) = place := by
          rw [bodyStart, if_pos rfl, hplace, Option.getD_some]
        simp only [List.cons.injEq, Prod.mk.injEq, EzCustom.mk.injEq, Option.map_some,
          Option.some.injEq, List.append_cancel_right_eq, true_and, and_true] at hcode
        have htext : (tkz.line.take after.p).drop place = (tkz.line.take after.p).drop first :=
          hstart ▸ hcode.2
        have hlength := congrArg List.length htext
        rw [List.length_drop, List.length_drop, List.length_take] at hlength
        rw [hplace, show place = first by omega]
      · have hnone :=
          @loadBody_unended V tkz.skipSpace (tkz.line.length + 1) {} (not_exists.mp hsome)
        rw [hnone] at hcode
        simp at hcode
    · exact absurd hcode (loadFunction_refused tables (Bool.not_eq_true _ ▸ hlooked))
  · rintro ⟨hlooked, n, hends, hfirst, hlast⟩
    obtain ⟨regs, hload⟩ := loadFunction_looked tables hlooked
    obtain ⟨after, hbody, hend⟩ := @loadBody_ends V tkz.skipSpace (tkz.line.length + 1) n {} hends
    obtain rfl : after.p = last := Option.some.inj (hend.symm.trans hlast)
    refine ⟨by rw [hload, hbody], fun run hrun => ?_, regs, ?_⟩
    · have hlines := (hrun.countedLines (tkz.line.length + 1)).trans (countedLines_skipSpace hlooked _)
      rw [definitionLines] at hends
      rw [← hlines] at hends hend
      rw [hrun.line]
      exact Option.some.inj ((skipFunction_ends hends).symm.trans hend)
    · have hstart : bodyStart {} ((definitionLines tkz).take n) = first := by
        rw [bodyStart, if_pos rfl, hfirst, Option.getD_some]
      rw [hload, hbody, ← hstart]
      rfl

/-- The tables and the tokenizer for each function definition that the loading pass meets. -/
def loadedDefinitions (scan : EzScan V) :
    ℕ → EzTables → EzTokenizer V → List (EzTables × EzTokenizer V)
  | 0, _, _ => []
  | fuel + 1, tables, tkz =>
    match tkz.readToken scan tables.keywords with
    | (.token .eof, _) => []
    | (.token .error, _) => []
    | (.token _, after) => loadedDefinitions scan fuel tables after
    | (.functionKeyword, after) =>
      let loaded := loadFunction tables after
      (tables, after) ::
        if loaded.2.error.isSome then [] else loadedDefinitions scan fuel loaded.1 loaded.2

/-- A property of each definition with a body that the loading pass meets in a script. -/
def EachDefinition (scan : EzScan V) (zero : V) (input : List Char) (tables : EzTables)
    (P : EzTables → EzTokenizer V → ℕ → ℕ → Prop) : Prop :=
  ∀ d ∈ loadedDefinitions scan (input.length + 1) tables { line := input, actualNumber := zero },
    ∀ first last, definitionBody d.2 = some (first, last) → P d.1 d.2 first last

/-- The two passes agree on the extents of the functions of a script exactly when each definition is
laid out for the count of braces by lines. -/
theorem extents_agree_iff (scan : EzScan V) (zero : V) (input : List Char) (tables : EzTables) :
    EachDefinition scan zero input tables ExtentsAgree ↔
      EachDefinition scan zero input tables fun _ => LaidOut :=
  ⟨fun h d hd first last hbody => (extentsAgree_iff d.1 hbody).mp (h d hd first last hbody),
    fun h d hd first last hbody => (extentsAgree_iff d.1 hbody).mpr (h d hd first last hbody)⟩

end Definitions

/-- What stands behind the body on its last line is registered with the function. -/
theorem extents_disagree :
    ¬ EachDefinition ⟨fun _ => (), ()⟩ () "function f($a)\x7breturn $a;\x7d $x=1;".toList
      ezTablesInit ExtentsAgree := by
  intro h
  obtain ⟨tkz, htkz⟩ : ∃ tkz, tkz = cursorAt "function f($a)\x7breturn $a;\x7d $x=1;".toList 8 :=
    ⟨_, rfl⟩
  have hmem : (ezTablesInit, tkz) ∈ loadedDefinitions ⟨fun _ => (), ()⟩ (31 + 1) ezTablesInit
      (cursorAt "function f($a)\x7breturn $a;\x7d $x=1;".toList 0) := by
    rw [htkz]
    exact List.mem_of_head? rfl
  have hbody : definitionBody tkz = some (14, 26) := by
    rw [htkz]
    decide
  have hcodes : (loadFunction ezTablesInit tkz).1.customs.map (fun custom => custom.2.code) =
      [some "\x7breturn $a;\x7d $x=1;;".toList] := by
    rw [htkz]
    decide
  obtain ⟨regs, hcode⟩ := (h _ hmem 14 26 hbody).code
  rw [hcode] at hcodes
  have htext : (tkz.line.take 26).drop 14 ++ [';'] = "\x7breturn $a;\x7d $x=1;;".toList :=
    Option.some.inj (List.cons.inj hcodes).1
  rw [htkz] at htext
  exact absurd htext (by decide)

end DasEdge.Expression
