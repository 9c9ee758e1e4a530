import DasEdge.Expression.EzRegisters
import DasEdge.Expression.EzTokenizerProgress
import DasEdge.Library.BoundedReads
import Mathlib.Data.List.TakeWhile

/-!
# The cursor of the tokenizer

The loops of `ez_tokenizer.c` over the text with its null character, read by read. Up to a comment
of several lines that is met and not ended, reading a token stays in the text and leaves the cursor
where the tokenizer on texts does. Behind such a comment the cursor is behind the null character, and
`__skip_space` reads there.
-/

namespace DasEdge.Expression

open DasEdge.Library

/-- A text in memory. -/
def textMem (text : List Char) : List Char := text ++ ['\x00']

/-- `__skip_space` -/
def skipSpaceAt (text : List Char) (p : ℕ) : Option ℕ :=
  scanWhile '\x00' (textMem text) isSpace (text.length + 1) p

/-- `__skip_line_comments`: the place behind a comment, if there is one. -/
def skipLineCommentsAt (text : List Char) (p : ℕ) : Option (Option ℕ) :=
  (textMem text)[p]?.bind fun c0 =>
    if c0 = '/' then
      (textMem text)[p + 1]?.bind fun c1 =>
        if c1 = '/' then
          (scanWhile '\x00' (textMem text) (· ≠ '\n') (text.length + 1) (p + 2)).bind fun q =>
            (textMem text)[q]?.bind fun c => some (some (if c = '\n' then q + 1 else q))
        else some none
    else some none

/-- The inner loop of `__skip_multiline_comments`. -/
def commentEndAt (text : List Char) (c : Char) : ℕ → ℕ → Option ℕ
  | 0, _ => none
  | fuel + 1, p => (textMem text)[p]?.bind fun c0 =>
    if c0 = '\x00' then some p
    else (textMem text)[p + 1]?.bind fun c1 =>
      if c1 = '\x00' then some p
      else if c = c0 ∧ c1 = '/' then some p else commentEndAt text c fuel (p + 1)

/-- `__skip_multiline_comments` -/
def skipMultilineCommentsAt (text : List Char) (p : ℕ) : Option (Option ℕ) :=
  (textMem text)[p]?.bind fun c0 =>
    if c0 = '/' then
      (textMem text)[p + 1]?.bind fun c1 =>
        if c1 = '*' ∨ c1 = '-' then
          (commentEndAt text c1 (text.length + 1) (p + 2)).bind fun q => some (some (q + 2))
        else some none
    else some none

/-- The loop over comments, with the space behind each, up to the end of the text. -/
def skipCommentsAt (text : List Char) : ℕ → ℕ → Option ℕ
  | 0, _ => none
  | fuel + 1, p => (skipLineCommentsAt text p).bind fun line =>
    (match line with
      | some q => some (some q)
      | none => skipMultilineCommentsAt text p).bind fun comment =>
    match comment with
    | none => some p
    | some q => (skipSpaceAt text q).bind fun r =>
      (textMem text)[r]?.bind fun c => if c = '\x00' then some r else skipCommentsAt text fuel r

/-- The space and the comments in front of a token. -/
def skipBlankAt (text : List Char) (p : ℕ) : Option ℕ :=
  (skipSpaceAt text p).bind fun q => skipCommentsAt text (text.length + 1) q

/-- A comment of several lines at the cursor is ended. -/
def CommentEnds {V : Type} (tkz : EzTokenizer V) : Prop := [tkz.ch 1, '/'] <:+: (tkz.advance 2).rest

/-- The comments that a loop over comments meets are ended. -/
def CommentsEnd {V : Type} : ℕ → EzTokenizer V → Prop
  | 0, _ => True
  | fuel + 1, tkz =>
    if tkz.ch 0 = '/' ∧ tkz.ch 1 = '/' then CommentsEnd fuel tkz.skipLineComment.skipSpace
    else if tkz.ch 0 = '/' ∧ (tkz.ch 1 = '*' ∨ tkz.ch 1 = '-') then
      CommentEnds tkz ∧ CommentsEnd fuel tkz.skipMultilineComment.skipSpace
    else True

/-- The comments in front of a token are ended. -/
def BlankEnds {V : Type} (tkz : EzTokenizer V) : Prop := CommentsEnd tkz.line.length tkz.skipSpace

instance {V : Type} (tkz : EzTokenizer V) : Decidable (CommentEnds tkz) :=
  inferInstanceAs (Decidable ([tkz.ch 1, '/'] <:+: (tkz.advance 2).rest))

/-- Whether the comments are ended can be computed. -/
instance decidableCommentsEnd {V : Type} : ∀ (fuel : ℕ) (tkz : EzTokenizer V),
    Decidable (CommentsEnd fuel tkz)
  | 0, _ => isTrue trivial
  | fuel + 1, tkz =>
    have := decidableCommentsEnd fuel tkz.skipLineComment.skipSpace
    have := decidableCommentsEnd fuel tkz.skipMultilineComment.skipSpace
    inferInstanceAs (Decidable (
      if tkz.ch 0 = '/' ∧ tkz.ch 1 = '/' then CommentsEnd fuel tkz.skipLineComment.skipSpace
      else if tkz.ch 0 = '/' ∧ (tkz.ch 1 = '*' ∨ tkz.ch 1 = '-') then
        CommentEnds tkz ∧ CommentsEnd fuel tkz.skipMultilineComment.skipSpace
      else True))

instance {V : Type} (tkz : EzTokenizer V) : Decidable (BlankEnds tkz) :=
  decidableCommentsEnd tkz.line.length tkz.skipSpace

/-- The cursor is in a text that has no null character. -/
structure InText {V : Type} (tkz : EzTokenizer V) : Prop where
  text : '\x00' ∉ tkz.line
  cursor : tkz.p ≤ tkz.line.length

/-- A loop leaves the cursor where the tokenizer on texts does, in the text, when the comments that it
meets are ended, and reads behind the null character when one is not. -/
structure Follows {V : Type} (ends : Prop) (result : Option ℕ) (after : EzTokenizer V) : Prop where
  ended : ends → result = some after.p ∧ InText after
  unended : ¬ ends → result = none

section Blank

variable {V : Type} {tkz : EzTokenizer V}

/-- What is left is the text from the cursor on. -/
theorem InText.rest_eq (h : InText tkz) : tkz.rest = tkz.line.drop tkz.p := by
  rw [EzTokenizer.rest, List.takeWhile_eq_self_iff]
  intro c hc
  have hne : c ≠ '\x00' := fun heq => h.text (heq ▸ List.mem_of_mem_drop hc)
  simpa using hne

/-- A read near the cursor. -/
theorem InText.read {k : ℕ} (hp : tkz.p + k ≤ tkz.line.length) :
    (textMem tkz.line)[tkz.p + k]? = some (tkz.ch k) := getElem?_marked hp

/-- A read at the cursor. -/
theorem InText.read_cursor (h : InText tkz) : (textMem tkz.line)[tkz.p]? = some (tkz.ch 0) :=
  getElem?_marked h.cursor

/-- Behind a character that is not null there is one more to read. -/
theorem InText.succ_le {k : ℕ} (hp : tkz.p + k ≤ tkz.line.length) (hne : tkz.ch k ≠ '\x00') :
    tkz.p + (k + 1) ≤ tkz.line.length := by
  rcases Nat.lt_or_eq_of_le hp with hlt | heq
  · exact hlt
  · exact absurd (List.getD_eq_default _ _ (Nat.le_of_eq heq.symm)) hne

/-- The cursor moves on in the text. -/
theorem InText.advance (h : InText tkz) {k : ℕ} (hk : tkz.p + k ≤ tkz.line.length) :
    InText (tkz.advance k) := ⟨h.text, hk⟩

/-- What a test takes from the text at the cursor ends in the text. -/
theorem InText.takeWhile_le (h : InText tkz) (test : Char → Bool) :
    tkz.p + (tkz.rest.takeWhile test).length ≤ tkz.line.length := by
  have hlength := (List.takeWhile_prefix (l := tkz.rest) test).length_le
  have hcursor := h.cursor
  have hrest : tkz.rest.length = tkz.line.length - tkz.p := by rw [h.rest_eq, List.length_drop]
  omega

/-- A loop from the cursor on. -/
theorem InText.scan (h : InText tkz) (test : Char → Bool) :
    scanWhile '\x00' (textMem tkz.line) test (tkz.line.length + 1) tkz.p =
      some (tkz.p + (tkz.rest.takeWhile test).length) := by
  rw [h.rest_eq]
  exact scanWhile_text h.text h.cursor (by omega)

/-- `__skip_space` stays in the text. -/
theorem InText.skipSpaceAt_eq (h : InText tkz) :
    skipSpaceAt tkz.line tkz.p = some tkz.skipSpace.p ∧ InText tkz.skipSpace :=
  ⟨h.scan isSpace, h.text, h.takeWhile_le isSpace⟩

/-- `__skip_line_comments` without a comment. -/
theorem InText.skipLineCommentsAt_none (h : InText tkz) (hnone : ¬ (tkz.ch 0 = '/' ∧ tkz.ch 1 = '/')) :
    skipLineCommentsAt tkz.line tkz.p = some none := by
  rw [skipLineCommentsAt, h.read_cursor, Option.bind_some]
  split
  · next hslash =>
    have hp : tkz.p + 1 ≤ tkz.line.length := InText.succ_le h.cursor (by rw [hslash]; decide)
    rw [InText.read hp, Option.bind_some, if_neg fun hsecond => hnone ⟨hslash, hsecond⟩]
  · rfl

/-- `__skip_line_comments` stays in the text. -/
theorem InText.skipLineCommentsAt_some (h : InText tkz) (hslash : tkz.ch 0 = '/' ∧ tkz.ch 1 = '/') :
    skipLineCommentsAt tkz.line tkz.p = some (some tkz.skipLineComment.p) ∧
      InText tkz.skipLineComment := by
  have hone : tkz.p + 1 ≤ tkz.line.length := InText.succ_le h.cursor (by rw [hslash.1]; decide)
  have htwo : tkz.p + 2 ≤ tkz.line.length := InText.succ_le hone (by rw [hslash.2]; decide)
  have hbody : InText (tkz.advance 2) := h.advance htwo
  have hscan := hbody.scan (· ≠ '\n')
  have hend := hbody.takeWhile_le (· ≠ '\n')
  have hafter := hbody.advance hend
  obtain ⟨body, hbodyEq⟩ : ∃ body, body = (tkz.advance 2).advance
    ((tkz.advance 2).rest.takeWhile (· ≠ '\n')).length := ⟨_, rfl⟩
  have hline : body.line = tkz.line := by rw [hbodyEq]; rfl
  rw [← hbodyEq] at hafter
  have hlast : (textMem tkz.line)[body.p]? = some (body.ch 0) := hline ▸ hafter.read_cursor
  have hscan' : scanWhile '\x00' (textMem tkz.line) (· ≠ '\n') (tkz.line.length + 1) (tkz.p + 2) =
      some body.p := by rw [hbodyEq]; exact hscan
  rw [skipLineCommentsAt, h.read_cursor, Option.bind_some, if_pos hslash.1, InText.read hone,
    Option.bind_some,
    if_pos hslash.2, hscan', Option.bind_some, hlast, Option.bind_some, EzTokenizer.skipLineComment,
    ← hbodyEq]
  split
  · next hnewline =>
    exact ⟨rfl, hafter.text, InText.succ_le hafter.cursor (by rw [hnewline]; decide)⟩
  · exact ⟨rfl, hafter⟩

/-- A comment is ended exactly when its end is found in front of the last character. -/
theorem commentLength_le_iff (c : Char) (text : List Char) :
    EzTokenizer.commentLength c text + 2 ≤ text.length ↔ [c, '/'] <:+: text := by
  induction text with
  | nil => simp [EzTokenizer.commentLength]
  | cons a text ih =>
    cases text with
    | nil =>
      have hshort : ¬ [c, '/'] <:+: [a] := fun hinfix => absurd hinfix.length_le (by simp)
      simp [EzTokenizer.commentLength, hshort]
    | cons b rest =>
      rw [EzTokenizer.commentLength, List.infix_cons_iff]
      split
      · next heq =>
        rw [heq.1, heq.2]
        simp
      · next hne =>
        have hfirst : ¬ [c, '/'] <+: a :: b :: rest := by
          intro hstart
          obtain ⟨hc, hstart⟩ := List.cons_prefix_cons.mp hstart
          exact hne ⟨hc.symm, (List.cons_prefix_cons.mp hstart).1.symm⟩
        rw [or_iff_right hfirst, ← ih]
        simp only [List.length_cons]
        omega

/-- At the null character nothing is left. -/
theorem InText.rest_nil (h : InText tkz) (hzero : tkz.ch 0 = '\x00') : tkz.rest = [] := by
  rw [h.rest_eq, List.drop_eq_nil_iff]
  by_contra hlt
  refine h.text ?_
  rw [← hzero, EzTokenizer.ch, Nat.add_zero, List.getD_eq_getElem _ _ (Nat.lt_of_not_le hlt)]
  exact List.getElem_mem _

/-- Before it there is a character, and the text behind it. -/
theorem InText.rest_cons (h : InText tkz) (hne : tkz.ch 0 ≠ '\x00') :
    InText (tkz.advance 1) ∧ tkz.rest = tkz.ch 0 :: (tkz.advance 1).rest := by
  have hp : tkz.p + 1 ≤ tkz.line.length := InText.succ_le h.cursor hne
  have hnext := h.advance hp
  refine ⟨hnext, ?_⟩
  rw [h.rest_eq, hnext.rest_eq, EzTokenizer.ch, Nat.add_zero, List.getD_eq_getElem _ _ hp]
  exact List.drop_eq_getElem_cons hp

/-- The end of a comment is looked for in the text. -/
theorem InText.commentEndAt_eq (h : InText tkz) (c : Char) {fuel : ℕ}
    (hfuel : tkz.line.length < tkz.p + fuel) :
    commentEndAt tkz.line c fuel tkz.p = some (tkz.p + EzTokenizer.commentLength c tkz.rest) := by
  induction fuel generalizing tkz with
  | zero => exact absurd h.cursor (by omega)
  | succ fuel ih =>
    rw [commentEndAt, h.read_cursor, Option.bind_some]
    by_cases hzero : tkz.ch 0 = '\x00'
    · rw [if_pos hzero, h.rest_nil hzero]
      rfl
    · obtain ⟨hnext, hrest⟩ := h.rest_cons hzero
      rw [if_neg hzero, InText.read hnext.cursor, Option.bind_some, hrest]
      by_cases hlast : tkz.ch 1 = '\x00'
      · rw [if_pos hlast, hnext.rest_nil hlast]
        rfl
      · obtain ⟨-, hrest'⟩ := hnext.rest_cons hlast
        have hfuel' : (tkz.advance 1).line.length < (tkz.advance 1).p + fuel := by
          change tkz.line.length < tkz.p + 1 + fuel
          omega
        have hstep : commentEndAt tkz.line c fuel (tkz.p + 1) =
            some (tkz.p + 1 + EzTokenizer.commentLength c (tkz.advance 1).rest) := ih hnext hfuel'
        have hch : (tkz.advance 1).ch 0 = tkz.ch 1 := rfl
        rw [if_neg hlast, hrest', EzTokenizer.commentLength, hch]
        by_cases hend : tkz.ch 0 = c ∧ tkz.ch 1 = '/'
        · rw [if_pos ⟨hend.1.symm, hend.2⟩, if_pos hend]
          rfl
        · rw [if_neg fun heq => hend ⟨heq.1.symm, heq.2⟩, if_neg hend, hstep, hrest', hch,
            Nat.add_assoc]

/-- `__skip_multiline_comments` without a comment. -/
theorem InText.skipMultilineCommentsAt_none (h : InText tkz)
    (hnone : ¬ (tkz.ch 0 = '/' ∧ (tkz.ch 1 = '*' ∨ tkz.ch 1 = '-'))) :
    skipMultilineCommentsAt tkz.line tkz.p = some none := by
  rw [skipMultilineCommentsAt, h.read_cursor, Option.bind_some]
  split
  · next hslash =>
    have hp : tkz.p + 1 ≤ tkz.line.length := InText.succ_le h.cursor (by rw [hslash]; decide)
    rw [InText.read hp, Option.bind_some, if_neg fun hsecond => hnone ⟨hslash, hsecond⟩]
  · rfl

/-- `__skip_multiline_comments` gets behind the comment; that is in the text when the comment is ended,
and behind the null character when it is not. -/
theorem InText.skipMultilineCommentsAt_some (h : InText tkz)
    (hslash : tkz.ch 0 = '/' ∧ (tkz.ch 1 = '*' ∨ tkz.ch 1 = '-')) :
    skipMultilineCommentsAt tkz.line tkz.p = some (some tkz.skipMultilineComment.p) ∧
      (InText tkz.skipMultilineComment ↔ CommentEnds tkz) := by
  have hone : tkz.p + 1 ≤ tkz.line.length := InText.succ_le h.cursor (by rw [hslash.1]; decide)
  have htwo : tkz.p + 2 ≤ tkz.line.length :=
    InText.succ_le hone (by rcases hslash.2 with h | h <;> rw [h] <;> decide)
  have hbody : InText (tkz.advance 2) := h.advance htwo
  have hend : commentEndAt tkz.line (tkz.ch 1) (tkz.line.length + 1) (tkz.p + 2) =
      some (tkz.p + 2 + EzTokenizer.commentLength (tkz.ch 1) (tkz.advance 2).rest) :=
    hbody.commentEndAt_eq (tkz.ch 1)
      (by change tkz.line.length < tkz.p + 2 + (tkz.line.length + 1); omega)
  have hlength : (tkz.advance 2).rest.length = tkz.line.length - (tkz.p + 2) := by
    rw [hbody.rest_eq, List.length_drop]
    rfl
  have hplace : tkz.skipMultilineComment.p =
      tkz.p + 2 + EzTokenizer.commentLength (tkz.ch 1) (tkz.advance 2).rest + 2 := rfl
  rw [skipMultilineCommentsAt, h.read_cursor, Option.bind_some, if_pos hslash.1, InText.read hone,
    Option.bind_some, if_pos hslash.2, hend, Option.bind_some, CommentEnds, ← commentLength_le_iff]
  refine ⟨rfl, fun hin => ?_, fun hle => ⟨h.text, ?_⟩⟩
  · have hcursor := hin.cursor
    rw [hplace] at hcursor
    change _ ≤ tkz.line.length at hcursor
    omega
  · rw [hplace]
    change _ ≤ tkz.line.length
    omega

/-- Behind the null character a loop reads outside. -/
theorem scanWhile_behind {text : List Char} {test : Char → Bool} {fuel p : ℕ} (hp : text.length < p) :
    scanWhile '\x00' (textMem text) test fuel p = none := by
  cases fuel with
  | zero => rfl
  | succ fuel =>
    rw [scanWhile, textMem, getElem?_behind hp]
    rfl

/-- Where no comment starts the loop over comments stands still. -/
theorem skipComments_of_none (hline : ¬ (tkz.ch 0 = '/' ∧ tkz.ch 1 = '/'))
    (hmulti : ¬ (tkz.ch 0 = '/' ∧ (tkz.ch 1 = '*' ∨ tkz.ch 1 = '-'))) (m : ℕ) :
    EzTokenizer.skipComments m tkz = tkz ∧ CommentsEnd m tkz := by
  cases m with
  | zero => exact ⟨rfl, trivial⟩
  | succ m =>
    rw [EzTokenizer.skipComments, CommentsEnd, if_neg hline, if_neg hmulti, if_neg hline, if_neg hmulti]
    exact ⟨rfl, trivial⟩

/-- Space and more comments behind a comment. -/
theorem Follows.after_comment {line : List Char} {next : EzTokenizer V} {fuel m : ℕ}
    (hline : next.line = line) (h : InText next)
    (ih : Follows (CommentsEnd m next.skipSpace) (skipCommentsAt line fuel next.skipSpace.p)
      (EzTokenizer.skipComments m next.skipSpace)) :
    Follows (CommentsEnd m next.skipSpace)
      ((skipSpaceAt line next.p).bind fun r =>
        (textMem line)[r]?.bind fun c => if c = '\x00' then some r else skipCommentsAt line fuel r)
      (EzTokenizer.skipComments m next.skipSpace) := by
  obtain ⟨hspace, hin⟩ := h.skipSpaceAt_eq
  have hread : (textMem line)[next.skipSpace.p]? = some (next.skipSpace.ch 0) :=
    hline ▸ hin.read_cursor
  rw [hline] at hspace
  rw [hspace, Option.bind_some, hread, Option.bind_some]
  by_cases hzero : next.skipSpace.ch 0 = '\x00'
  · have hslash : next.skipSpace.ch 0 ≠ '/' := by rw [hzero]; decide
    obtain ⟨hsame, hends⟩ := skipComments_of_none (fun h => hslash h.1) (fun h => hslash h.1) m
    rw [if_pos hzero, hsame]
    exact ⟨fun _ => ⟨rfl, hin⟩, fun hnot => absurd hends hnot⟩
  · rw [if_neg hzero]
    exact ih

/-- Skipping space moves. -/
theorem moves_skipSpace (tkz : EzTokenizer V) : Moves tkz tkz.skipSpace := moves_advanceLines _ _

/-- A comment takes two characters or more. -/
theorem skipLineComment_far (tkz : EzTokenizer V) : tkz.p + 2 ≤ tkz.skipLineComment.p := by
  unfold EzTokenizer.skipLineComment
  simp only
  split
  · exact Nat.le_trans (Nat.le_add_right _ _) (Nat.le_add_right _ _)
  · exact Nat.le_add_right _ _

/-- The same for a comment of several lines. -/
theorem skipMultilineComment_far (tkz : EzTokenizer V) : tkz.p + 2 ≤ tkz.skipMultilineComment.p :=
  Nat.le_trans (Nat.le_add_right _ _) (Nat.le_add_right _ _)

/-- The loop over comments. -/
theorem InText.skipCommentsAt_follows (h : InText tkz) {fuel m : ℕ} (hm : tkz.line.length ≤ tkz.p + m)
    (hfuel : tkz.line.length < tkz.p + fuel) :
    Follows (CommentsEnd m tkz) (skipCommentsAt tkz.line fuel tkz.p)
      (EzTokenizer.skipComments m tkz) := by
  induction fuel generalizing tkz m with
  | zero => exact absurd h.cursor (by omega)
  | succ fuel ih =>
    rw [skipCommentsAt]
    by_cases hline : tkz.ch 0 = '/' ∧ tkz.ch 1 = '/'
    · obtain ⟨hskip, hin⟩ := h.skipLineCommentsAt_some hline
      have hfar := skipLineComment_far tkz
      have hsame := (moves_skipLineComment tkz).1
      have hcursor := hin.cursor
      rw [hsame] at hcursor
      obtain ⟨m, rfl⟩ : ∃ k, m = k + 1 := ⟨m - 1, by omega⟩
      obtain ⟨hline', hfar'⟩ := moves_skipSpace tkz.skipLineComment
      rw [hsame] at hline'
      have hnext := ih hin.skipSpaceAt_eq.2 (m := m) (by rw [hline']; omega) (by rw [hline']; omega)
      rw [hline'] at hnext
      rw [hskip, Option.bind_some, Option.bind_some, CommentsEnd, EzTokenizer.skipComments,
        if_pos hline, if_pos hline]
      exact .after_comment hsame hin hnext
    · rw [h.skipLineCommentsAt_none hline, Option.bind_some]
      simp only
      by_cases hmulti : tkz.ch 0 = '/' ∧ (tkz.ch 1 = '*' ∨ tkz.ch 1 = '-')
      · obtain ⟨hskip, hin⟩ := h.skipMultilineCommentsAt_some hmulti
        have hfar := skipMultilineComment_far tkz
        have hsame := (moves_skipMultilineComment tkz).1
        rw [hskip, Option.bind_some]
        by_cases hends : CommentEnds tkz
        · have hin := hin.mpr hends
          have hcursor := hin.cursor
          rw [hsame] at hcursor
          obtain ⟨m, rfl⟩ : ∃ k, m = k + 1 := ⟨m - 1, by omega⟩
          obtain ⟨hline', hfar'⟩ := moves_skipSpace tkz.skipMultilineComment
          rw [hsame] at hline'
          have hnext := ih hin.skipSpaceAt_eq.2 (m := m) (by rw [hline']; omega) (by rw [hline']; omega)
          rw [hline'] at hnext
          rw [CommentsEnd, EzTokenizer.skipComments, if_neg hline, if_pos hmulti, if_neg hline,
            if_pos hmulti, and_iff_right hends]
          exact .after_comment hsame hin hnext
        · have hout : tkz.line.length < tkz.skipMultilineComment.p := by
            by_contra hle
            exact hends (hin.mp ⟨h.text, Nat.le_of_not_lt hle⟩)
          have htwo : tkz.p + 2 ≤ tkz.line.length := InText.succ_le
            (InText.succ_le h.cursor (by rw [hmulti.1]; decide))
            (by rcases hmulti.2 with h | h <;> rw [h] <;> decide)
          obtain ⟨m, rfl⟩ : ∃ k, m = k + 1 := ⟨m - 1, by omega⟩
          have hfault : skipSpaceAt tkz.line tkz.skipMultilineComment.p = none := scanWhile_behind hout
          simp only
          rw [hfault, CommentsEnd, if_neg hline, if_pos hmulti]
          exact ⟨fun h => absurd h.1 hends, fun _ => rfl⟩
      · obtain ⟨hsame, hends⟩ := skipComments_of_none hline hmulti m
        rw [h.skipMultilineCommentsAt_none hmulti, Option.bind_some, hsame]
        exact ⟨fun _ => ⟨rfl, h⟩, fun hnot => absurd hends hnot⟩

/-- The space and the comments in front of a token. -/
theorem InText.skipBlankAt_follows (h : InText tkz) :
    Follows (BlankEnds tkz) (skipBlankAt tkz.line tkz.p) tkz.skipBlank := by
  obtain ⟨hspace, hin⟩ := h.skipSpaceAt_eq
  rw [skipBlankAt, hspace, Option.bind_some]
  exact hin.skipCommentsAt_follows (Nat.le_add_left _ _) (by change tkz.line.length < _; omega)

end Blank

end DasEdge.Expression

/-!
# Token reads stay in the text

`__tokenizer_get_next_token_ex`, `__skip_function` and `__load_function`, read by read. A run of token
reads, plain or of the pass that loads functions, stays in the text exactly when each comment of
several lines that it meets is ended.
-/

namespace DasEdge.Expression

open DasEdge.Library

section Reads

variable (text : List Char)

/-- A loop over the text. -/
def scanText (test : Char → Bool) (p : ℕ) : Option ℕ :=
  scanWhile '\x00' (textMem text) test (text.length + 1) p

/-- The loop of `__skip_function`, with the braces that are counted so far; that of
`__load_function` over the body moves the cursor in the same way, and notes where the braces are. -/
def skipFunctionAt : ℕ → ℕ → ℕ → ℕ → Option ℕ
  | 0, _, _, _ => none
  | fuel + 1, left, right, p => (textMem text)[p]?.bind fun c =>
    if c = '\x00' then some p
    else (skipBlankAt text p).bind fun q => (scanText text (· ≠ '\n') q).bind fun r =>
      let left := left + ((text.drop q).take (r - q)).count '\x7b'
      let right := right + ((text.drop q).take (r - q)).count '\x7d'
      if 0 < left ∧ left = right then some r else skipFunctionAt fuel left right r

/-- The search of `__parse_reg` for the name at a place. -/
def searchRegsAt (p : ℕ) : List EzReg → Option Bool
  | [] => some false
  | reg :: regs => (beginsAt '\x00' (textMem text) reg.name p).bind fun found =>
    if found then some true else searchRegsAt p regs

/-- `__parse_reg`: the place behind the register. -/
def parseRegAt (regs : List EzReg) (q : ℕ) : Option ℕ :=
  (scanText text isRegChar q).bind fun r => (textMem text)[r]?.bind fun c =>
    if c = '\x00' ∨ ezExpRegNameLimit < r - (q + 1) then some r
    else (searchRegsAt text (q + 1) regs).map fun _ => r

/-- A quoted text. -/
def parseStringAt (quote : Char) (q : ℕ) : Option ℕ :=
  (scanText text (· ≠ quote) (q + 1)).bind fun r =>
    (textMem text)[r]?.map fun c => if c = '\x00' then r else r + 1

/-- A name behind `#`. -/
def parseAliasAt (q : ℕ) : Option ℕ :=
  (scanText text (fun c => isRegChar c && c ≠ '@') (q + 1)).bind fun r =>
    (textMem text)[r]?.map fun _ => r

/-- A number, with the copy of at most 32 characters. -/
def parseNumberAt (c0 c1 : Char) (q : ℕ) : Option ℕ :=
  (if c0 = '0' ∧ (c1 = 'x' ∨ c1 = 'X') then scanText text isXdigit (q + 2)
    else scanText text (fun c => isDigit c || c = '.') q).bind fun r =>
  (scanUpTo (textMem text) (· ≠ '\x00') 32 q).map fun _ => r

/-- A keyword: whether it is `function`, and the place behind it. -/
def parseKeywordAt (keywords : List (List Char × EzToken)) (q : ℕ) : Option (Bool × ℕ) :=
  (scanUpTo (textMem text) isKeywordChar (ezKeywordSize + 1) q).map fun r =>
    (decide (q < r ∧ keywords.lookup ((text.drop q).take (r - q)) = some .funcFunction), r)

/-- The length of the operator that starts with three characters. -/
def operatorLength (c0 c1 c2 : Char) : Option ℕ :=
  if (isShiftNumToken c0 c1 c2).isSome then some 3
  else if (isSameCharToken c0 c1).isSome then some 2
  else if (isEqualCharToken c0 c1).isSome then some 2
  else none

/-- `__tokenizer_get_next_token_ex` behind space and comments: whether the token is the keyword
`function`, and the place behind it. -/
def tokenAt (keywords : List (List Char × EzToken)) (regs : List EzReg) (q : ℕ) : Option (Bool × ℕ) :=
  (textMem text)[q]?.bind fun c0 =>
    if c0 = '\x00' then some (false, q)
    else if c0 = '$' ∨ c0 = '@' then (parseRegAt text regs q).map (false, ·)
    else (textMem text)[q + 1]?.bind fun c1 =>
      (if c1 = '\x00' then some '\x00' else (textMem text)[q + 2]?).bind fun c2 =>
        match operatorLength c0 c1 c2 with
        | some k => some (false, q + k)
        | none =>
          if (isCharToken c0).isSome then some (false, q + 1)
          else if c0 = '"' ∨ c0 = '\'' then (parseStringAt text c0 q).map (false, ·)
          else if c0 = '#' then (parseAliasAt text q).map (false, ·)
          else if isDigit c0 then (parseNumberAt text c0 c1 q).map (false, ·)
          else parseKeywordAt text keywords q

/-- `ez_tokenizer_get_next_token` -/
def getNextTokenAt (keywords : List (List Char × EzToken)) (regs : List EzReg) : ℕ → ℕ → Option ℕ
  | 0, _ => none
  | fuel + 1, p => (skipBlankAt text p).bind fun q =>
    (tokenAt text keywords regs q).bind fun read =>
      if read.1 then
        (skipFunctionAt text (text.length + 1) 0 0 read.2).bind (getNextTokenAt keywords regs fuel)
      else some read.2

/-- The parameters of a function definition: whether all of them have a type. -/
def loadParamsAt : ℕ → ℕ → Option Bool
  | 0, _ => none
  | fuel + 1, p => (textMem text)[p]?.bind fun c =>
    if c = '\x00' ∨ c = '\x7b' then some true
    else (scanText text (fun c => c ≠ '\x7b' && isSpace c) p).bind fun start =>
      (textMem text)[start]?.bind fun kind =>
      (scanUpTo (textMem text) (fun c => c ≠ '\x00' && (c ≠ '\x7b' && !isSpace c && c ≠ ',' && c ≠ ')'))
        (ezExpRegNameLimit + 1) start).bind fun stop =>
      (scanText text (fun c => c ≠ '\x7b' && c ≠ ',') stop).bind fun comma =>
      (textMem text)[comma]?.bind fun c =>
      if start < stop ∧ (kind = '$' ∨ kind = '@') then
        loadParamsAt fuel (if c = ',' then comma + 1 else comma)
      else some false

/-- `__load_function` up to the body: the cursor, and whether the body is looked for. -/
def loadHeadAt (p : ℕ) : Option (ℕ × Bool) :=
  (skipSpaceAt text p).bind fun q => (textMem text)[q]?.bind fun first =>
    if first = '\x00' then some (q, false)
    else
      (scanUpTo (textMem text) (fun c => c ≠ '\x00' && (!isSpace c && c ≠ '(')) (ezKeywordSize + 1)
        q).bind fun stop =>
      (scanText text (· ≠ '(') stop).bind fun bracket =>
      (textMem text)[bracket]?.bind fun c =>
      if q = stop then some (q, false)
      else (loadParamsAt text (text.length + 1) (if c = '(' then bracket + 1 else bracket)).map (q, ·)

/-- A read of the pass that loads functions. -/
def loadTokenAt (keywords : List (List Char × EzToken)) (regs : List EzReg) (p : ℕ) : Option ℕ :=
  (skipBlankAt text p).bind fun q =>
    (tokenAt text keywords regs q).bind fun read =>
      if read.1 then
        (loadHeadAt text read.2).bind fun head =>
          if head.2 then skipFunctionAt text (text.length + 1) 0 0 head.1 else some head.1
      else some read.2

end Reads

section Inside

variable {text : List Char} {p : ℕ}

/-- A loop over the text from a place in it. -/
theorem scanText_eq (hnul : '\x00' ∉ text) (hp : p ≤ text.length) (test : Char → Bool) :
    scanText text test p = some (p + ((text.drop p).takeWhile test).length) :=
  scanWhile_text hnul hp (by omega)

/-- It ends in the text. -/
theorem scanText_some (hnul : '\x00' ∉ text) (hp : p ≤ text.length) (test : Char → Bool) :
    ∃ r, scanText text test p = some r ∧ p ≤ r ∧ r ≤ text.length := by
  refine ⟨_, scanText_eq hnul hp test, Nat.le_add_right _ _, ?_⟩
  have hlength := (List.takeWhile_prefix (l := text.drop p) test).length_le
  rw [List.length_drop] at hlength
  omega

/-- A loop with a bound on its rounds ends in the text. -/
theorem scanUpTo_some (hp : p ≤ text.length) (test : Char → Bool)
    (hmark : test '\x00' = false) (n : ℕ) :
    ∃ r, scanUpTo (textMem text) test n p = some r ∧ p ≤ r ∧ r ≤ text.length := by
  refine ⟨_, scanUpTo_text hmark n hp, Nat.le_add_right _ _, ?_⟩
  have hlength := (List.takeWhile_prefix (l := (text.drop p).take n) test).length_le
  rw [List.length_take, List.length_drop] at hlength
  omega

/-- A read in the text, and one more behind a character that is not null. -/
theorem textMem_read (hp : p ≤ text.length) :
    ∃ c, (textMem text)[p]? = some c ∧ (c ≠ '\x00' → p + 1 ≤ text.length) := by
  refine ⟨_, getElem?_marked hp, fun hne => ?_⟩
  rcases Nat.lt_or_eq_of_le hp with hlt | heq
  · exact hlt
  · exact absurd (List.getD_eq_default _ _ (Nat.le_of_eq heq.symm)) hne

/-- The search for a register stays in the text. -/
theorem searchRegsAt_some (hp : p ≤ text.length) (regs : List EzReg) :
    ∃ found, searchRegsAt text p regs = some found := by
  induction regs with
  | nil => exact ⟨false, rfl⟩
  | cons reg regs ih =>
    obtain ⟨found, hfound⟩ : ∃ found, beginsAt '\x00' (textMem text) reg.name p = some found :=
      beginsAt_text reg.name hp
    rw [searchRegsAt, hfound, Option.bind_some]
    split
    · exact ⟨true, rfl⟩
    · exact ih

variable {q : ℕ}

/-- `__parse_reg` stays in the text. -/
theorem parseRegAt_some (hnul : '\x00' ∉ text) (hq : q + 1 ≤ text.length) (regs : List EzReg) :
    ∃ r, parseRegAt text regs q = some r ∧ q ≤ r ∧ r ≤ text.length := by
  obtain ⟨r, hscan, hle, hr⟩ := scanText_some hnul (Nat.le_of_succ_le hq) isRegChar
  obtain ⟨c, hread, -⟩ := textMem_read hr
  obtain ⟨found, hfound⟩ := searchRegsAt_some hq regs
  rw [parseRegAt, hscan, Option.bind_some, hread, Option.bind_some]
  split
  · exact ⟨r, rfl, hle, hr⟩
  · rw [hfound]
    exact ⟨r, rfl, hle, hr⟩

/-- A quoted text stays in the text. -/
theorem parseStringAt_some (hnul : '\x00' ∉ text) (hq : q + 1 ≤ text.length) (quote : Char) :
    ∃ r, parseStringAt text quote q = some r ∧ q ≤ r ∧ r ≤ text.length := by
  obtain ⟨r, hscan, hle, hr⟩ := scanText_some hnul hq (· ≠ quote)
  obtain ⟨c, hread, hnext⟩ := textMem_read hr
  rw [parseStringAt, hscan, Option.bind_some, hread, Option.map_some]
  refine ⟨_, rfl, ?_⟩
  split
  · exact ⟨by omega, hr⟩
  · next hne => exact ⟨by omega, hnext hne⟩

/-- A name behind `#` stays in the text. -/
theorem parseAliasAt_some (hnul : '\x00' ∉ text) (hq : q + 1 ≤ text.length) :
    ∃ r, parseAliasAt text q = some r ∧ q ≤ r ∧ r ≤ text.length := by
  obtain ⟨r, hscan, hle, hr⟩ := scanText_some hnul hq fun c => isRegChar c && c ≠ '@'
  obtain ⟨c, hread, -⟩ := textMem_read hr
  rw [parseAliasAt, hscan, Option.bind_some, hread]
  exact ⟨r, rfl, by omega, hr⟩

/-- A number stays in the text. -/
theorem parseNumberAt_some (hnul : '\x00' ∉ text) (hq : q + 1 ≤ text.length) {c1 : Char}
    (hnext : c1 ≠ '\x00' → q + 2 ≤ text.length) (c0 : Char) :
    ∃ r, parseNumberAt text c0 c1 q = some r ∧ q ≤ r ∧ r ≤ text.length := by
  obtain ⟨copied, hcopy, -, -⟩ :=
    scanUpTo_some (Nat.le_of_succ_le hq) (· ≠ '\x00') (by decide) 32
  have hscan : ∃ r, (if c0 = '0' ∧ (c1 = 'x' ∨ c1 = 'X') then scanText text isXdigit (q + 2)
      else scanText text (fun c => isDigit c || c = '.') q) = some r ∧ q ≤ r ∧ r ≤ text.length := by
    split
    · next hhex =>
      have hne : c1 ≠ '\x00' := by rcases hhex.2 with h | h <;> rw [h] <;> decide
      obtain ⟨r, hscan, hle, hr⟩ := scanText_some hnul (hnext hne) isXdigit
      exact ⟨r, hscan, by omega, hr⟩
    · exact scanText_some hnul (Nat.le_of_succ_le hq) fun c => isDigit c || c = '.'
  obtain ⟨r, hscan, hle, hr⟩ := hscan
  rw [parseNumberAt, hscan, Option.bind_some, hcopy]
  exact ⟨r, rfl, hle, hr⟩

/-- The second character of an operator of two is not null. -/
theorem isSameCharToken_ne_nul {c0 c1 : Char} (h : (isSameCharToken c0 c1).isSome)
    (hzero : c0 ≠ '\x00') :
    c1 ≠ '\x00' := by
  rintro rfl
  unfold isSameCharToken at h
  rw [if_neg (Ne.symm hzero)] at h
  cases h

/-- The same for an operator with an equal sign. -/
theorem isEqualCharToken_ne_nul {c0 c1 : Char} (h : (isEqualCharToken c0 c1).isSome) : c1 ≠ '\x00' := by
  rintro rfl
  unfold isEqualCharToken at h
  rw [if_neg (by decide)] at h
  cases h

/-- The third character of an operator of three is not null. -/
theorem isShiftNumToken_ne_nul {c0 c1 c2 : Char} (h : (isShiftNumToken c0 c1 c2).isSome) :
    c2 ≠ '\x00' := by
  rintro rfl
  unfold isShiftNumToken at h
  rw [if_neg (by simp)] at h
  cases h

/-- An operator ends in the text. -/
theorem operatorLength_le {c0 c1 c2 : Char} {k : ℕ} (h : operatorLength c0 c1 c2 = some k)
    (hzero : c0 ≠ '\x00') (hone : c1 ≠ '\x00' → q + 2 ≤ text.length)
    (htwo : c2 ≠ '\x00' → q + 3 ≤ text.length) : q + k ≤ text.length := by
  unfold operatorLength at h
  split at h
  · next hshift =>
    obtain rfl := Option.some.inj h
    exact htwo (isShiftNumToken_ne_nul hshift)
  · split at h
    · next hsame =>
      obtain rfl := Option.some.inj h
      exact hone (isSameCharToken_ne_nul hsame hzero)
    · split at h
      · next hequal =>
        obtain rfl := Option.some.inj h
        exact hone (isEqualCharToken_ne_nul hequal)
      · cases h

end Inside

section Keyword

variable {V : Type} {tkz : EzTokenizer V}

/-- The name at the cursor. -/
def keywordText (tkz : EzTokenizer V) : List Char :=
  (tkz.rest.take (ezKeywordSize + 1)).takeWhile isKeywordChar

/-- The keyword `function` is at the cursor. -/
def functionStarts (keywords : List (List Char × EzToken)) (tkz : EzTokenizer V) : Bool :=
  !isDigit (tkz.ch 0) && keywordText tkz ≠ [] && keywords.lookup (keywordText tkz) = some .funcFunction

/-- The place behind the name. -/
def afterKeyword (tkz : EzTokenizer V) : EzTokenizer V := tkz.advance (keywordText tkz).length

/-- A name starts with one of its characters. -/
theorem InText.isKeywordChar_of_name (h : InText tkz) (hname : keywordText tkz ≠ []) :
    isKeywordChar (tkz.ch 0) = true := by
  by_contra hchar
  refine hname ?_
  by_cases hzero : tkz.ch 0 = '\x00'
  · rw [keywordText, h.rest_nil hzero]
    rfl
  · rw [keywordText, (h.rest_cons hzero).2, List.take_succ_cons, List.takeWhile_cons, if_neg hchar]

/-- A character that is a token is none of a name. -/
theorem isKeywordChar_of_token {c : Char} (h : (isCharToken c).isSome) : isKeywordChar c = false := by
  unfold isCharToken at h
  split at h <;> first | rfl | cases h

/-- An operator starts with a character that is a token. -/
theorem isCharToken_of_operator {c0 c1 c2 : Char} {k : ℕ} (h : operatorLength c0 c1 c2 = some k) :
    (isCharToken c0).isSome := by
  unfold operatorLength at h
  split at h
  · next hshift =>
    unfold isShiftNumToken at hshift
    split at hshift
    · split at hshift <;> first | rfl | cases hshift
    · cases hshift
  · split at h
    · next hsame =>
      unfold isSameCharToken at hsame
      split at hsame
      · split at hsame <;> first | rfl | cases hsame
      · cases hsame
    · split at h
      · next hequal =>
        unfold isEqualCharToken at hequal
        split at hequal
        · split at hequal <;> first | rfl | cases hequal
        · cases hequal
      · cases h

/-- A keyword: whether it is `function`, and the place behind it. -/
theorem InText.parseKeywordAt_eq (h : InText tkz) (keywords : List (List Char × EzToken))
    (hdigit : isDigit (tkz.ch 0) = false) :
    parseKeywordAt tkz.line keywords tkz.p =
        some (functionStarts keywords tkz, (afterKeyword tkz).p) ∧ InText (afterKeyword tkz) := by
  have hname : ((tkz.line.drop tkz.p).take (ezKeywordSize + 1)).takeWhile isKeywordChar =
      keywordText tkz := by rw [keywordText, h.rest_eq]
  have hscan : scanUpTo (textMem tkz.line) isKeywordChar (ezKeywordSize + 1) tkz.p =
      some (tkz.p + (keywordText tkz).length) := by
    rw [← hname]
    exact scanUpTo_text (by decide) _ h.cursor
  have hlength : (keywordText tkz).length ≤ tkz.rest.length :=
    ((List.takeWhile_prefix _).length_le).trans (List.length_take_le' _ _)
  have hrest : tkz.rest.length = tkz.line.length - tkz.p := by rw [h.rest_eq, List.length_drop]
  have htaken : (tkz.line.drop tkz.p).take (keywordText tkz).length = keywordText tkz := by
    have hstart : keywordText tkz <+: tkz.rest :=
      (List.takeWhile_prefix _).trans (List.take_prefix _ _)
    rw [← h.rest_eq]
    exact (List.prefix_iff_eq_take.mp hstart).symm
  have hcursor := h.cursor
  refine ⟨?_, h.advance (by omega)⟩
  rw [parseKeywordAt, hscan, Option.map_some, Nat.add_sub_cancel_left, htaken, functionStarts, hdigit]
  simp [afterKeyword, EzTokenizer.advance, List.length_pos_iff]

/-- A token stays in the text. -/
theorem InText.tokenAt_eq (h : InText tkz) (keywords : List (List Char × EzToken))
    (regs : List EzReg) :
    ∃ r, tokenAt tkz.line keywords regs tkz.p = some (functionStarts keywords tkz, r) ∧
      (functionStarts keywords tkz = true → r = (afterKeyword tkz).p) ∧ r ≤ tkz.line.length := by
  have hno : ∀ {read : Option (Bool × ℕ)}, isKeywordChar (tkz.ch 0) = false ∨
    isDigit (tkz.ch 0) = true →
      (∃ r, read = some (false, r) ∧ tkz.p ≤ r ∧ r ≤ tkz.line.length) →
      ∃ r, read = some (functionStarts keywords tkz, r) ∧
        (functionStarts keywords tkz = true → r = (afterKeyword tkz).p) ∧ r ≤ tkz.line.length := by
    rintro _ hchar ⟨r, rfl, -, hr⟩
    have hstarts : functionStarts keywords tkz = false := by
      rcases hchar with hchar | hdigit
      · have hname : keywordText tkz = [] := by
          by_contra hname
          rw [h.isKeywordChar_of_name hname] at hchar
          cases hchar
        rw [functionStarts, hname]
        simp
      · rw [functionStarts, hdigit]
        rfl
    rw [hstarts]
    exact ⟨r, rfl, fun hfalse => absurd hfalse Bool.false_ne_true, hr⟩
  have hmap : ∀ {read : Option ℕ}, (∃ r, read = some r ∧ tkz.p ≤ r ∧ r ≤ tkz.line.length) →
      ∃ r, read.map (false, ·) = some (false, r) ∧ tkz.p ≤ r ∧ r ≤ tkz.line.length := by
    rintro _ ⟨r, rfl, hle, hr⟩
    exact ⟨r, rfl, hle, hr⟩
  rw [tokenAt, h.read_cursor, Option.bind_some]
  split
  · next hzero => exact hno (.inl (by rw [hzero]; rfl)) ⟨tkz.p, rfl, Nat.le_refl _, h.cursor⟩
  next hzero =>
  have hone : tkz.p + 1 ≤ tkz.line.length := InText.succ_le h.cursor hzero
  split
  · next hreg =>
    exact hno (.inl (by rcases hreg with heq | heq <;> rw [heq] <;> rfl))
      (hmap (parseRegAt_some h.text hone regs))
  have hsecond : ∃ c2, (if tkz.ch 1 = '\x00' then some '\x00' else (textMem tkz.line)[tkz.p + 2]?) =
      some c2 ∧ (c2 ≠ '\x00' → tkz.p + 3 ≤ tkz.line.length) := by
    split
    · exact ⟨_, rfl, fun hne => absurd rfl hne⟩
    · next hne => exact textMem_read (InText.succ_le hone hne)
  obtain ⟨c2, hc2, hnext2⟩ := hsecond
  rw [InText.read hone, Option.bind_some, hc2, Option.bind_some]
  split
  · next k hop =>
    exact hno (.inl (isKeywordChar_of_token (isCharToken_of_operator hop))) ⟨tkz.p + k, rfl,
      Nat.le_add_right _ _, operatorLength_le hop hzero (InText.succ_le hone) hnext2⟩
  split
  · next htoken =>
    exact hno (.inl (isKeywordChar_of_token htoken)) ⟨tkz.p + 1, rfl, Nat.le_add_right _ _, hone⟩
  split
  · next hquote =>
    exact hno (.inl (by rcases hquote with heq | heq <;> rw [heq] <;> rfl))
      (hmap (parseStringAt_some h.text hone (tkz.ch 0)))
  split
  · next halias =>
    exact hno (.inl (by rw [halias]; rfl)) (hmap (parseAliasAt_some h.text hone))
  split
  · next hdigit =>
    exact hno (.inr hdigit) (hmap (parseNumberAt_some h.text hone (InText.succ_le hone) (tkz.ch 0)))
  · next hdigit =>
    obtain ⟨hread, hin⟩ := h.parseKeywordAt_eq keywords (by simpa using hdigit)
    exact ⟨_, hread, fun _ => rfl, hin.cursor⟩

end Keyword

section Functions

variable {V : Type} {tkz : EzTokenizer V}

/-- The line behind the space and the comments at the cursor. -/
def lineText (tkz : EzTokenizer V) : List Char := tkz.skipBlank.rest.takeWhile (· ≠ '\n')

/-- The place behind that line. -/
def afterLine (tkz : EzTokenizer V) : EzTokenizer V := tkz.skipBlank.advance (lineText tkz).length

/-- The comments that the function at the cursor meets are ended, with the braces so far. -/
def FunctionEnds : ℕ → ℕ → ℕ → EzTokenizer V → Prop
  | 0, _, _, _ => True
  | fuel + 1, left, right, tkz => tkz.ch 0 ≠ '\x00' → BlankEnds tkz ∧
    (¬ (0 < left + (lineText tkz).count '\x7b' ∧
        left + (lineText tkz).count '\x7b' = right + (lineText tkz).count '\x7d') →
      FunctionEnds fuel (left + (lineText tkz).count '\x7b') (right + (lineText tkz).count '\x7d')
        (afterLine tkz))

/-- A round over a line moves the cursor on. -/
theorem InText.afterLine_far (h : InText tkz) (hin : InText tkz.skipBlank) (hne : tkz.ch 0 ≠ '\x00') :
    tkz.p < (afterLine tkz).p := by
  obtain ⟨hline, hfar⟩ := moves_skipBlank tkz
  have hplace : (afterLine tkz).p = tkz.skipBlank.p + (lineText tkz).length := rfl
  rcases Nat.lt_or_eq_of_le hfar with hlt | heq
  · omega
  have hch : tkz.skipBlank.ch 0 = tkz.ch 0 := by rw [EzTokenizer.ch, EzTokenizer.ch, hline, ← heq]
  have hnewline : tkz.ch 0 ≠ '\n' := by
    intro hnewline
    have hspace : tkz.p + 1 ≤ tkz.skipSpace.p := by
      have htaken : tkz.rest.takeWhile isSpace =
          tkz.ch 0 :: (tkz.advance 1).rest.takeWhile isSpace := by
        rw [(h.rest_cons hne).2, List.takeWhile_cons, if_pos (by rw [hnewline]; decide)]
      change tkz.p + 1 ≤ tkz.p + (tkz.rest.takeWhile isSpace).length
      rw [htaken, List.length_cons]
      omega
    have hle := (moves_skipComments tkz.line.length tkz.skipSpace).2
    change tkz.skipSpace.p ≤ tkz.skipBlank.p at hle
    omega
  have htaken : lineText tkz = tkz.ch 0 :: (tkz.skipBlank.advance 1).rest.takeWhile (· ≠ '\n') := by
    rw [lineText, (hin.rest_cons (hch ▸ hne)).2, hch, List.takeWhile_cons,
      if_pos (decide_eq_true hnewline)]
  rw [hplace, htaken, List.length_cons]
  omega

/-- A round of `__skip_function`. -/
theorem skipFunction_round (fuel left right : ℕ) (hne : tkz.ch 0 ≠ '\x00') :
    EzTokenizer.skipFunction (fuel + 1) left right tkz =
      if 0 < left + (lineText tkz).count '\x7b' ∧
          left + (lineText tkz).count '\x7b' = right + (lineText tkz).count '\x7d' then afterLine tkz
      else EzTokenizer.skipFunction fuel (left + (lineText tkz).count '\x7b')
        (right + (lineText tkz).count '\x7d') (afterLine tkz) := by
  rw [EzTokenizer.skipFunction, if_neg hne]
  rfl

/-- The loop of `__skip_function`. -/
theorem InText.skipFunctionAt_follows (h : InText tkz) {fuel left right : ℕ}
    (hfuel : tkz.line.length < tkz.p + fuel) :
    Follows (FunctionEnds fuel left right tkz) (skipFunctionAt tkz.line fuel left right tkz.p)
      (EzTokenizer.skipFunction fuel left right tkz) := by
  induction fuel generalizing left right tkz with
  | zero => exact absurd h.cursor (by omega)
  | succ fuel ih =>
    rw [skipFunctionAt, h.read_cursor, Option.bind_some, FunctionEnds]
    by_cases hzero : tkz.ch 0 = '\x00'
    · rw [if_pos hzero, EzTokenizer.skipFunction, if_pos hzero]
      exact ⟨fun _ => ⟨rfl, h⟩, fun hnot => absurd (fun hne => absurd hzero hne) hnot⟩
    rw [if_neg hzero, skipFunction_round fuel left right hzero]
    have hblank := h.skipBlankAt_follows
    by_cases hends : BlankEnds tkz
    · obtain ⟨hskip, hin⟩ := hblank.ended hends
      have hline : tkz.skipBlank.line = tkz.line := (moves_skipBlank tkz).1
      have hrest : tkz.line.drop tkz.skipBlank.p = tkz.skipBlank.rest := by rw [hin.rest_eq, hline]
      have hscan : scanText tkz.line (· ≠ '\n') tkz.skipBlank.p = some (afterLine tkz).p := by
        have hloop := hin.scan (· ≠ '\n')
        rw [hline] at hloop
        exact hloop
      have htaken : (tkz.line.drop tkz.skipBlank.p).take ((afterLine tkz).p - tkz.skipBlank.p) =
          lineText tkz := by
        have hlength : (afterLine tkz).p - tkz.skipBlank.p = (lineText tkz).length :=
          Nat.add_sub_cancel_left _ _
        rw [hlength, hrest]
        exact (List.prefix_iff_eq_take.mp (List.takeWhile_prefix _)).symm
      have hafter : InText (afterLine tkz) := hin.advance (hin.takeWhile_le (· ≠ '\n'))
      have hfar := h.afterLine_far hin hzero
      rw [hskip, Option.bind_some, hscan, Option.bind_some, htaken]
      simp only
      split
      · next hbalanced =>
        exact ⟨fun _ => ⟨rfl, hafter⟩,
          fun hnot => absurd (fun _ => ⟨hends, fun hopen => absurd hbalanced hopen⟩) hnot⟩
      · next hopen =>
        have hnext := @ih _ hafter (left + (lineText tkz).count '\x7b')
          (right + (lineText tkz).count '\x7d')
          (by change tkz.skipBlank.line.length < _; rw [hline]; omega)
        change Follows _ (skipFunctionAt tkz.skipBlank.line fuel _ _ _) _ at hnext
        rw [hline] at hnext
        exact ⟨fun hall => hnext.ended ((hall hzero).2 hopen), fun hnot => hnext.unended fun hrec =>
          hnot fun _ => ⟨hends, fun _ => hrec⟩⟩
    · rw [hblank.unended hends]
      exact ⟨fun hall => absurd (hall hzero).1 hends, fun _ => rfl⟩

end Functions

section Loading

/-- The name of a parameter in front of a text. -/
def paramName (text : List Char) : List Char :=
  ((text.dropWhile isSpace).takeWhile fun c => c ≠ '\x7b' && !isSpace c && c ≠ ',' && c ≠ ')').take
    (ezExpRegNameLimit + 1)

/-- The text up to the next comma or to the body. -/
def paramEnd (text : List Char) : List Char :=
  ((text.dropWhile isSpace).drop (paramName text).length).dropWhile fun c => c ≠ '\x7b' && c ≠ ','

/-- The text behind the comma. -/
def paramRest (text : List Char) : List Char :=
  if (paramEnd text).head? = some ',' then (paramEnd text).drop 1 else paramEnd text

/-- Whether all parameters have a type does not depend on the registers so far. -/
theorem loadParams_typed (fuel : ℕ) (text : List Char) (regs regs' : List EzReg) :
    (loadParams fuel text regs).2 = (loadParams fuel text regs').2 := by
  induction fuel generalizing text regs regs' with
  | zero => rfl
  | succ fuel ih =>
    unfold loadParams
    split
    · rfl
    · rfl
    · simp only
      split
      · exact ih _ _ _
      · exact ih _ _ _
      · rfl

/-- A parameter. -/
theorem loadParams_round (fuel : ℕ) {c : Char} (hc : c ≠ '\x7b') (rest : List Char)
    (regs : List EzReg) :
    (loadParams (fuel + 1) (c :: rest) regs).2 =
      if (paramName (c :: rest)).head? = some '$' ∨ (paramName (c :: rest)).head? = some '@' then
        (loadParams fuel (paramRest (c :: rest)) regs).2
      else false := by
  rw [loadParams]
  · simp only
    split
    · next h => exact (loadParams_typed _ _ _ regs).trans (if_pos (.inl h)).symm
    · next h => exact (loadParams_typed _ _ _ regs).trans (if_pos (.inr h)).symm
    · next hdollar hat => exact (if_neg fun h => h.elim hdollar hat).symm
  · intro heq
    cases heq
  · intro _ heq
    exact hc (List.cons.inj heq).1

section Params

variable {text : List Char}

/-- The head of the text at a place. -/
theorem textMem_head {p : ℕ} (hp : p ≤ text.length) :
    (textMem text)[p]? = some ((text.drop p).headD '\x00') := by
  rw [textMem, getElem?_marked hp, List.headD_eq_head?_getD, List.head?_drop,
    List.getD_eq_getElem?_getD]

/-- Where a loop over the text ends, and what is left there. -/
theorem scanText_drop (hnul : '\x00' ∉ text) {p : ℕ} (hp : p ≤ text.length) (test : Char → Bool) :
    ∃ r, scanText text test p = some r ∧ p ≤ r ∧ r ≤ text.length ∧
      text.drop r = (text.drop p).dropWhile test := by
  obtain ⟨r, hscan, hle, hr⟩ := scanText_some hnul hp test
  refine ⟨r, hscan, hle, hr, ?_⟩
  have hplace := (scanText_eq hnul hp test).symm.trans hscan
  rw [← Option.some.inj hplace, ← List.drop_drop, drop_takeWhile_length]

/-- The same for a loop with a bound on its rounds. -/
theorem scanUpTo_drop (hnul : '\x00' ∉ text) {p : ℕ} (hp : p ≤ text.length)
    (test : Char → Bool) (n : ℕ) :
    ∃ r, scanUpTo (textMem text) (fun c => c ≠ '\x00' && test c) n p = some r ∧
      r = p + (((text.drop p).takeWhile test).take n).length ∧ r ≤ text.length := by
  obtain ⟨r, hscan, hle, hr⟩ := scanUpTo_some hp (fun c => c ≠ '\x00' && test c) (by simp) n
  refine ⟨r, hscan, ?_, hr⟩
  have hplace := (scanUpTo_text (by simp) n hp).symm.trans hscan
  rw [← Option.some.inj hplace, ← List.take_takeWhile,
    takeWhile_ne_and test fun hmem => hnul (List.mem_of_mem_drop hmem)]

omit text in
/-- A parameter has a type exactly when its name starts with a prefix of registers. -/
theorem typed_iff {text : List Char} {start stop : ℕ}
    (hlength : stop = start + (paramName text).length) :
    (start < stop ∧ ((text.dropWhile isSpace).headD '\x00' = '$' ∨
        (text.dropWhile isSpace).headD '\x00' = '@')) ↔
      (paramName text).head? = some '$' ∨ (paramName text).head? = some '@' := by
  have hstart : paramName text <+: text.dropWhile isSpace :=
    (List.take_prefix _ _).trans (List.takeWhile_prefix _)
  cases hname : paramName text with
  | nil =>
    rw [hname] at hlength
    simp [hlength]
  | cons d name =>
    rw [hname] at hlength hstart
    obtain ⟨rest, hrest⟩ := hstart
    rw [← hrest]
    simp [hlength]

/-- The parameters of a function definition, up to the first one without a type. -/
theorem loadParamsAt_eq (hnul : '\x00' ∉ text) {fuel m p : ℕ} (hp : p ≤ text.length)
    (hfuel : text.length < p + fuel) (hm : text.length < p + m) (regs : List EzReg) :
    loadParamsAt text fuel p = some (loadParams m (text.drop p) regs).2 := by
  induction fuel generalizing m p with
  | zero => omega
  | succ fuel ih =>
    obtain ⟨m, rfl⟩ : ∃ k, m = k + 1 := ⟨m - 1, by omega⟩
    rw [loadParamsAt, textMem_head hp, Option.bind_some]
    cases hrest : text.drop p with
    | nil =>
      rw [if_pos (.inl rfl), loadParams]
    | cons c rest =>
      have hmem : c ∈ text := List.mem_of_mem_drop (hrest ▸ List.mem_cons_self)
      have hne : c ≠ '\x00' := fun heq => hnul (heq ▸ hmem)
      rw [List.headD_cons]
      by_cases hbody : c = '\x7b'
      · rw [if_pos (.inr hbody), hbody, loadParams]
      have hname : paramName (c :: rest) = paramName (text.drop p) := by rw [hrest]
      have hafter : paramRest (c :: rest) = paramRest (text.drop p) := by rw [hrest]
      obtain ⟨start, hscan, hge, hstart, hfirst⟩ := scanText_drop hnul hp isSpace
      obtain ⟨stop, hstop, hplace, hlast⟩ := scanUpTo_drop hnul hstart
        (fun c => c ≠ '\x7b' && !isSpace c && c ≠ ',' && c ≠ ')') (ezExpRegNameLimit + 1)
      obtain ⟨comma, hcomma, hge', hend, hleft⟩ :=
        scanText_drop hnul hlast fun c => c ≠ '\x7b' && c ≠ ','
      have hlength : stop = start + (paramName (text.drop p)).length := by
        rw [hplace, hfirst]
        rfl
      have hend' : text.drop comma = paramEnd (text.drop p) := by
        rw [hleft, hlength, ← List.drop_drop, hfirst]
        rfl
      have hkind := typed_iff hlength
      rw [← hfirst] at hkind
      have hspace : (fun c => decide (c ≠ '\x7b') && isSpace c) = isSpace := by
        funext d
        by_cases hd : d = '\x7b'
        · rw [hd]
          rfl
        · simp [hd]
      rw [if_neg (by tauto), loadParams_round m hbody, hname, hafter, hspace, hscan, Option.bind_some,
        textMem_head hstart, Option.bind_some, hstop, Option.bind_some, hcomma, Option.bind_some,
        textMem_head hend, Option.bind_some, hend']
      by_cases htyped : start < stop ∧
          ((text.drop start).headD '\x00' = '$' ∨ (text.drop start).headD '\x00' = '@')
      · rw [if_pos htyped, if_pos (hkind.mp htyped), paramRest]
        have hlt := htyped.1
        by_cases hcomma' : (paramEnd (text.drop p)).head? = some ','
        · have hread : (paramEnd (text.drop p)).headD '\x00' = ',' := by
            rw [List.headD_eq_head?_getD, hcomma']
            rfl
          have hnext : comma + 1 ≤ text.length := by
            rw [← hend'] at hcomma'
            by_contra hle
            rw [List.drop_eq_nil_of_le (by omega)] at hcomma'
            cases hcomma'
          rw [if_pos hread, if_pos hcomma', ← hend', List.drop_drop]
          exact ih hnext (by omega) (by omega)
        · have hread : (paramEnd (text.drop p)).headD '\x00' ≠ ',' := by
            intro hread
            rw [List.headD_eq_head?_getD] at hread
            cases hhead : (paramEnd (text.drop p)).head? with
            | none =>
              rw [hhead] at hread
              cases hread
            | some d =>
              rw [hhead, Option.getD_some] at hread
              exact hcomma' (hread ▸ hhead)
          rw [if_neg hread, if_neg hcomma', ← hend']
          exact ih hend (by omega) (by omega)
      · rw [if_neg htyped, if_neg fun h => htyped (hkind.mpr h)]

end Params

variable {V : Type} {tkz : EzTokenizer V}

/-- The name of the function definition at the cursor. -/
def definitionName (tkz : EzTokenizer V) : List Char :=
  (tkz.rest.takeWhile fun c => !isSpace c && c ≠ '(').take (ezKeywordSize + 1)

/-- The text of its parameters and of what is behind them. -/
def definitionParams (tkz : EzTokenizer V) : List Char :=
  ((tkz.rest.drop (definitionName tkz).length).dropWhile (· ≠ '(')).drop 1

/-- The pass that loads functions looks for the body of the definition at the cursor. -/
def bodyLooked (tkz : EzTokenizer V) : Bool :=
  definitionName tkz ≠ [] &&
    (loadParams ((definitionParams tkz).length + 1) (definitionParams tkz) []).2

/-- The place behind a bracket, when there is one. -/
theorem place_behind {line text : List Char} {bracket : ℕ} (hend : bracket ≤ line.length)
    (hleft : line.drop bracket = text.dropWhile (· ≠ '(')) :
    ∃ place, (if (line.drop bracket).headD '\x00' = '(' then bracket + 1 else bracket) = place ∧
      place ≤ line.length ∧ line.drop place = (text.dropWhile (· ≠ '(')).drop 1 := by
  refine ⟨_, rfl, ?_⟩
  cases hrest : line.drop bracket with
  | nil =>
    rw [hrest] at hleft
    rw [if_neg (by decide), hrest, ← hleft]
    exact ⟨hend, rfl⟩
  | cons c rest =>
    have hlt : bracket < line.length := by
      by_contra hle
      rw [List.drop_eq_nil_of_le (by omega)] at hrest
      cases hrest
    have hc : c = '(' := by
      rw [hrest] at hleft
      have hne : text.dropWhile (· ≠ '(') ≠ [] := by rw [← hleft]; simp
      have hhead := List.head_dropWhile_not (· ≠ '(') hne
      simp only [← hleft, List.head_cons] at hhead
      simpa using hhead
    rw [List.headD_cons, if_pos hc, ← hleft, List.drop_drop]
    exact ⟨hlt, rfl⟩

/-- `__load_function` up to the body. -/
theorem InText.loadHeadAt_eq (h : InText tkz) :
    loadHeadAt tkz.line tkz.p = some (tkz.skipSpace.p, bodyLooked tkz.skipSpace) := by
  obtain ⟨hspace, hin⟩ := h.skipSpaceAt_eq
  have hrest : tkz.line.drop tkz.skipSpace.p = tkz.skipSpace.rest := hin.rest_eq.symm
  have hread : (textMem tkz.line)[tkz.skipSpace.p]? = some (tkz.skipSpace.ch 0) := hin.read_cursor
  rw [loadHeadAt, hspace, Option.bind_some, hread, Option.bind_some]
  by_cases hzero : tkz.skipSpace.ch 0 = '\x00'
  · have hname : definitionName tkz.skipSpace = [] := by rw [definitionName, hin.rest_nil hzero]; rfl
    rw [if_pos hzero, bodyLooked, hname]
    rfl
  rw [if_neg hzero]
  obtain ⟨stop, hstop, hplace, hlast⟩ :=
    scanUpTo_drop h.text hin.cursor (fun c => !isSpace c && c ≠ '(') (ezKeywordSize + 1)
  obtain ⟨bracket, hbracket, -, hend, hleft⟩ := scanText_drop h.text hlast (· ≠ '(')
  rw [hrest] at hplace
  change stop = tkz.skipSpace.p + (definitionName tkz.skipSpace).length at hplace
  rw [hstop, Option.bind_some, hbracket, Option.bind_some, textMem_head hend, Option.bind_some]
  by_cases hname : definitionName tkz.skipSpace = []
  · rw [hname, List.length_nil, Nat.add_zero] at hplace
    rw [if_pos hplace.symm, bodyLooked, hname]
    rfl
  · have hlength := List.length_pos_iff.mpr hname
    have hleft' : tkz.line.drop bracket =
        (tkz.skipSpace.rest.drop (definitionName tkz.skipSpace).length).dropWhile (· ≠ '(') := by
      rw [hleft, hplace, ← List.drop_drop, hrest]
    obtain ⟨place, hplace', hbehind, hparams⟩ := place_behind hend hleft'
    rw [hplace', if_neg (by omega), bodyLooked]
    change tkz.line.drop place = definitionParams tkz.skipSpace at hparams
    have hcount : (definitionParams tkz.skipSpace).length = tkz.line.length - place := by
      rw [← hparams, List.length_drop]
    rw [loadParamsAt_eq h.text hbehind (by omega)
      (show tkz.line.length < place + ((definitionParams tkz.skipSpace).length + 1) by omega)
      [], hparams]
    simp [hname]

end Loading

section Runs

variable {V : Type} {tkz : EzTokenizer V}

/-- The comments that a plain read meets are ended. -/
def ReadEnds (keywords : List (List Char × EzToken)) : ℕ → EzTokenizer V → Prop
  | 0, _ => True
  | fuel + 1, tkz => BlankEnds tkz ∧ (functionStarts keywords tkz.skipBlank = true →
      FunctionEnds (tkz.line.length + 1) 0 0 (afterKeyword tkz.skipBlank) ∧
      ReadEnds keywords fuel
        (EzTokenizer.skipFunction (tkz.line.length + 1) 0 0 (afterKeyword tkz.skipBlank)))

/-- The comments that a read of the pass that loads functions meets are ended. -/
def LoadEnds (keywords : List (List Char × EzToken)) (tkz : EzTokenizer V) : Prop :=
  BlankEnds tkz ∧ (functionStarts keywords tkz.skipBlank = true →
    bodyLooked (afterKeyword tkz.skipBlank).skipSpace = true →
    FunctionEnds (tkz.line.length + 1) 0 0 (afterKeyword tkz.skipBlank).skipSpace)

/-- A read leaves the cursor in the text when the comments that it meets are ended, and reads behind the
null character when one is not. -/
structure StaysIn (ends : Prop) (text : List Char) (result : Option ℕ) : Prop where
  ended : ends → ∃ r, result = some r ∧ r ≤ text.length
  unended : ¬ ends → result = none

/-- What stays in the text. -/
theorem Follows.staysIn {ends : Prop} {result : Option ℕ} {after : EzTokenizer V}
    (h : Follows ends result after) : StaysIn ends after.line result :=
  ⟨fun hends => ⟨after.p, h.ended hends |>.1, h.ended hends |>.2.cursor⟩, h.unended⟩

/-- The cursor behind a name that is the keyword `function`. -/
theorem InText.afterKeyword (h : InText tkz) {keywords : List (List Char × EzToken)}
    (hstarts : functionStarts keywords tkz = true) :
    InText (Expression.afterKeyword tkz) ∧ tkz.p < (Expression.afterKeyword tkz).p := by
  have hdigit : isDigit (tkz.ch 0) = false := by
    by_contra hdigit
    rw [functionStarts, Bool.not_eq_false _ |>.mp hdigit] at hstarts
    cases hstarts
  have hname : keywordText tkz ≠ [] := by
    intro hname
    rw [functionStarts, hname] at hstarts
    simp at hstarts
  exact ⟨(h.parseKeywordAt_eq keywords hdigit).2,
    Nat.lt_add_of_pos_right (List.length_pos_iff.mpr hname)⟩

/-- The loop of `__skip_function` over what is left of a text. -/
theorem InText.skipFunctionAt_whole (h : InText tkz) {line : List Char} (hline : tkz.line = line) :
    Follows (FunctionEnds (line.length + 1) 0 0 tkz)
      (skipFunctionAt line (line.length + 1) 0 0 tkz.p)
      (EzTokenizer.skipFunction (line.length + 1) 0 0 tkz) := by
  subst hline
  exact h.skipFunctionAt_follows (by omega)

/-- A plain read. -/
theorem InText.getNextTokenAt_staysIn (h : InText tkz) (keywords : List (List Char × EzToken))
    (regs : List EzReg) {fuel : ℕ} (hfuel : tkz.line.length < tkz.p + fuel) :
    StaysIn (ReadEnds keywords fuel tkz) tkz.line
      (getNextTokenAt tkz.line keywords regs fuel tkz.p) := by
  induction fuel generalizing tkz with
  | zero => exact absurd h.cursor (by omega)
  | succ fuel ih =>
    rw [getNextTokenAt, ReadEnds]
    have hblank := h.skipBlankAt_follows
    by_cases hends : BlankEnds tkz
    · obtain ⟨hskip, hin⟩ := hblank.ended hends
      obtain ⟨hline, hfar⟩ := moves_skipBlank tkz
      obtain ⟨r, htoken, hplace, hr⟩ := hin.tokenAt_eq keywords regs
      rw [hline] at htoken hr
      rw [hskip, Option.bind_some, htoken, Option.bind_some, and_iff_right hends]
      by_cases hstarts : functionStarts keywords tkz.skipBlank = true
      · obtain ⟨hafter, hlt⟩ := hin.afterKeyword hstarts
        have hskipped := hafter.skipFunctionAt_whole hline
        rw [hstarts, if_pos rfl, hplace hstarts]
        simp only [forall_true_left]
        by_cases hfunction : FunctionEnds (tkz.line.length + 1) 0 0
          (Expression.afterKeyword tkz.skipBlank)
        · obtain ⟨hplace', hin'⟩ := hskipped.ended hfunction
          obtain ⟨hline', hfar'⟩ := moves_skipFunction (tkz.line.length + 1) 0 0
            (Expression.afterKeyword tkz.skipBlank)
          have hsame := hline'.trans hline
          have hnext := ih hin' (by rw [hsame]; omega)
          rw [hsame] at hnext
          rw [hplace', Option.bind_some, and_iff_right hfunction]
          exact hnext
        · rw [hskipped.unended hfunction]
          exact ⟨fun hall => absurd hall.1 hfunction, fun _ => rfl⟩
      · rw [Bool.not_eq_true] at hstarts
        rw [hstarts]
        exact ⟨fun _ => ⟨r, rfl, hr⟩, fun hnot => absurd (fun h => by cases h) hnot⟩
    · rw [hblank.unended hends]
      exact ⟨fun hall => absurd hall.1 hends, fun _ => rfl⟩

/-- A read of the pass that loads functions. -/
theorem InText.loadTokenAt_staysIn (h : InText tkz) (keywords : List (List Char × EzToken))
    (regs : List EzReg) :
    StaysIn (LoadEnds keywords tkz) tkz.line (loadTokenAt tkz.line keywords regs tkz.p) := by
  rw [loadTokenAt, LoadEnds]
  have hblank := h.skipBlankAt_follows
  by_cases hends : BlankEnds tkz
  · obtain ⟨hskip, hin⟩ := hblank.ended hends
    obtain ⟨hline, -⟩ := moves_skipBlank tkz
    obtain ⟨r, htoken, hplace, hr⟩ := hin.tokenAt_eq keywords regs
    rw [hline] at htoken hr
    rw [hskip, Option.bind_some, htoken, Option.bind_some, and_iff_right hends]
    by_cases hstarts : functionStarts keywords tkz.skipBlank = true
    · have hafter := (hin.afterKeyword hstarts).1
      have hhead : loadHeadAt tkz.line (Expression.afterKeyword tkz.skipBlank).p = _ :=
        hline ▸ hafter.loadHeadAt_eq
      have hspace := hafter.skipSpaceAt_eq.2
      have hbody := hspace.skipFunctionAt_whole hline
      have hcursor : (Expression.afterKeyword tkz.skipBlank).skipSpace.p ≤ tkz.line.length :=
        hline ▸ hspace.cursor
      rw [hstarts, if_pos rfl, hplace hstarts, hhead, Option.bind_some]
      simp only [forall_true_left]
      by_cases hlooked : bodyLooked (Expression.afterKeyword tkz.skipBlank).skipSpace = true
      · obtain ⟨hline', -⟩ := moves_skipFunction (tkz.line.length + 1) 0 0
          (Expression.afterKeyword tkz.skipBlank).skipSpace
        have hstays := hbody.staysIn
        rw [hline'.trans hline] at hstays
        rw [if_pos hlooked]
        exact ⟨fun hall => hstays.ended (hall hlooked), fun hnot => hstays.unended fun hall =>
          hnot fun _ => hall⟩
      · rw [if_neg hlooked]
        exact ⟨fun _ => ⟨_, rfl, hcursor⟩, fun hnot => absurd (fun h => absurd h hlooked) hnot⟩
    · rw [Bool.not_eq_true] at hstarts
      rw [hstarts]
      exact ⟨fun _ => ⟨r, rfl, hr⟩, fun hnot => absurd (fun h => by cases h) hnot⟩
  · rw [hblank.unended hends]
    exact ⟨fun hall => absurd hall.1 hends, fun _ => rfl⟩

/-- A token read: plain or of the pass that loads functions, with the names that are known. -/
structure EzRead where
  load : Bool
  keywords : List (List Char × EzToken)
  regs : List EzReg

/-- A token read moves the cursor. -/
def readAt (text : List Char) (p : ℕ) (read : EzRead) : Option (Unit × ℕ) :=
  (if read.load then loadTokenAt text read.keywords read.regs p
    else getNextTokenAt text read.keywords read.regs (text.length + 1) p).map ((), ·)

/-- The tokenizer at a place of a text. -/
def cursorAt (text : List Char) (p : ℕ) : EzTokenizer Unit :=
  { line := text, p := p, actualNumber := () }

/-- The comments of several lines that a read meets are ended. -/
def CommentsEnded (text : List Char) (p : ℕ) (read : EzRead) : Prop :=
  if read.load then LoadEnds read.keywords (cursorAt text p)
  else ReadEnds read.keywords (text.length + 1) (cursorAt text p)

/-- A read stays in the text exactly when the comments that it meets are ended. -/
theorem readAt_staysIn {text : List Char} (hnul : '\x00' ∉ text) {p : ℕ} (hp : p ≤ text.length)
    (read : EzRead) :
    (CommentsEnded text p read → ∃ o r, readAt text p read = some (o, r) ∧ r ≤ text.length) ∧
      (¬ CommentsEnded text p read → readAt text p read = none) := by
  have hin : InText (cursorAt text p) := ⟨hnul, hp⟩
  have hstays : StaysIn (CommentsEnded text p read) text
      (if read.load then loadTokenAt text read.keywords read.regs p
        else getNextTokenAt text read.keywords read.regs (text.length + 1) p) := by
    unfold CommentsEnded
    split
    · exact hin.loadTokenAt_staysIn read.keywords read.regs
    · exact hin.getNextTokenAt_staysIn read.keywords read.regs
        (Nat.lt_add_left p (Nat.lt_succ_self text.length))
  unfold readAt
  refine ⟨fun hends => ?_, fun hends => ?_⟩
  · obtain ⟨r, hread, hr⟩ := hstays.ended hends
    rw [hread]
    exact ⟨(), r, rfl, hr⟩
  · rw [hstays.unended hends]
    rfl

/-- Every token read of a run keeps the cursor in the text, and reads nothing behind the null character,
exactly when each read of the run meets no comment of several lines without an end. -/
theorem reads_stay_iff {text : List Char} (hnul : '\x00' ∉ text) (reads : List EzRead) :
    (∀ k, ∃ outs p, runBlocking (readAt text) 0 (reads.take k) = some (outs, p) ∧ p ≤ text.length) ↔
      GuardedRun (readAt text) (CommentsEnded text) 0 reads := by
  refine runBlocking_always_iff (readAt text) (CommentsEnded text) (· ≤ text.length) ?_ ?_
    (Nat.zero_le _) reads
  · intro p read hp hends
    exact (readAt_staysIn hnul hp read).1 hends
  · intro p read o p' hp hends hread
    rw [(readAt_staysIn hnul hp read).2 hends] at hread
    cases hread

end Runs

/-- A plain read and one of the pass that loads functions, behind a comment that is ended. -/
theorem reads_stay_example :
    ∃ outs p, runBlocking (readAt "/**/1 + 2".toList) 0 [⟨false, [], []⟩, ⟨true, [], []⟩] =
      some (outs, p) ∧ p ≤ "/**/1 + 2".toList.length := by
  have hfirst : CommentsEnded "/**/1 + 2".toList 0 ⟨false, [], []⟩ :=
    ⟨by decide, fun hstarts => absurd hstarts (by decide)⟩
  have hread : readAt "/**/1 + 2".toList 0 ⟨false, [], []⟩ = some ((), 5) := by decide
  have hsecond : CommentsEnded "/**/1 + 2".toList 5 ⟨true, [], []⟩ :=
    ⟨by decide, fun hstarts => absurd hstarts (by decide)⟩
  have hread' : readAt "/**/1 + 2".toList 5 ⟨true, [], []⟩ = some ((), 7) := by decide
  refine (reads_stay_iff (by decide) [⟨false, [], []⟩, ⟨true, [], []⟩]).mpr ?_ 2
  simp only [GuardedRun, hread, hread']
  exact ⟨hfirst, hsecond, trivial⟩

/-- A comment without an end takes the cursor behind the null character. -/
theorem reads_leave :
    ¬ ∀ (text : List Char) (reads : List EzRead), '\x00' ∉ text → ∀ k, ∃ outs p,
      runBlocking (readAt text) 0 (reads.take k) = some (outs, p) ∧ p ≤ text.length := by
  intro h
  obtain ⟨outs, p, hrun, -⟩ := h "/*".toList [⟨false, [], []⟩] (by decide) 1
  have hnone : runBlocking (readAt "/*".toList) 0 [⟨false, [], []⟩] = none := by decide
  rw [List.take_succ_cons, List.take_nil, hnone] at hrun
  cases hrun

end DasEdge.Expression
