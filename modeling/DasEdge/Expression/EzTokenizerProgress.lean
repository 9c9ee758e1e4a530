import DasEdge.Expression.EzTokenizer
import Mathlib.Data.List.GetD
import Mathlib.Order.Nat

/-!
# Reading a token moves the cursor

The cursor never goes back, the text stays the same, and every token but the end of the text and an
error takes at least one character.
-/

namespace DasEdge.Expression

section Progress

variable {V : Type}

/-- The same text, with the cursor at the same place or further on. -/
def Moves (tkz after : EzTokenizer V) : Prop := after.line = tkz.line ∧ tkz.p ≤ after.p

/-- Standing still is a move. -/
theorem Moves.refl (tkz : EzTokenizer V) : Moves tkz tkz := ⟨rfl, le_rfl⟩

/-- A move after a move is a move. -/
theorem Moves.trans {a b c : EzTokenizer V} (h : Moves a b) (h' : Moves b c) : Moves a c :=
  ⟨h'.1.trans h.1, h.2.trans h'.2⟩

/-- Advancing moves. -/
theorem moves_advance (tkz : EzTokenizer V) (k : ℕ) : Moves tkz (tkz.advance k) :=
  ⟨rfl, Nat.le_add_right _ _⟩

/-- Advancing over lines moves. -/
theorem moves_advanceLines (tkz : EzTokenizer V) (k : ℕ) : Moves tkz (tkz.advanceLines k) :=
  ⟨rfl, Nat.le_add_right _ _⟩

/-- Skipping a line comment moves. -/
theorem moves_skipLineComment (tkz : EzTokenizer V) : Moves tkz tkz.skipLineComment := by
  unfold EzTokenizer.skipLineComment
  have hbody : Moves tkz ((tkz.advance 2).advance ((tkz.advance 2).rest.takeWhile (· ≠ '\n')).length) :=
    (moves_advance _ _).trans (moves_advance _ _)
  simp only
  split
  · exact hbody.trans (moves_advanceLines _ _)
  · exact hbody

/-- Skipping a comment of several lines moves. -/
theorem moves_skipMultilineComment (tkz : EzTokenizer V) : Moves tkz tkz.skipMultilineComment :=
  (moves_advance _ _).trans ((moves_advanceLines _ _).trans (moves_advance _ _))

/-- Skipping comments moves. -/
theorem moves_skipComments (fuel : ℕ) (tkz : EzTokenizer V) :
    Moves tkz (EzTokenizer.skipComments fuel tkz) := by
  induction fuel generalizing tkz with
  | zero => exact Moves.refl tkz
  | succ fuel ih =>
    unfold EzTokenizer.skipComments
    split
    · exact (moves_skipLineComment tkz).trans ((moves_advanceLines _ _).trans (ih _))
    · split
      · exact (moves_skipMultilineComment tkz).trans ((moves_advanceLines _ _).trans (ih _))
      · exact Moves.refl tkz

/-- Skipping space and comments moves. -/
theorem moves_skipBlank (tkz : EzTokenizer V) : Moves tkz tkz.skipBlank :=
  (moves_advanceLines _ _).trans (moves_skipComments _ _)

/-- Skipping a function moves. -/
theorem moves_skipFunction (fuel left right : ℕ) (tkz : EzTokenizer V) :
    Moves tkz (EzTokenizer.skipFunction fuel left right tkz) := by
  induction fuel generalizing left right tkz with
  | zero => exact Moves.refl tkz
  | succ fuel ih =>
    unfold EzTokenizer.skipFunction
    have hline : Moves tkz (tkz.skipBlank.advance (tkz.skipBlank.rest.takeWhile (· ≠ '\n')).length) :=
      (moves_skipBlank tkz).trans (moves_advance _ _)
    split
    · exact Moves.refl tkz
    · simp only
      split
      · exact hline
      · exact hline.trans (ih _ _ _)

/-- A character before the end of the text is the first of the rest. -/
theorem rest_of_ch {tkz : EzTokenizer V} (h : tkz.ch 0 ≠ '\x00') :
    tkz.p < tkz.line.length ∧ ∃ text, tkz.rest = tkz.ch 0 :: text := by
  have hlt : tkz.p < tkz.line.length := by
    by_contra hge
    exact h (List.getD_eq_default _ _ (by simpa using hge))
  have hch : tkz.ch 0 = tkz.line[tkz.p] := List.getD_eq_getElem _ _ hlt
  refine ⟨hlt, (tkz.line.drop (tkz.p + 1)).takeWhile (· ≠ '\x00'), ?_⟩
  rw [EzTokenizer.rest, List.drop_eq_getElem_cons hlt, ← hch,
    List.takeWhile_cons_of_pos (by simpa using h)]

/-- A register takes at least its first character. -/
theorem parseReg_progress {tkz : EzTokenizer V} (h : tkz.ch 0 = '$' ∨ tkz.ch 0 = '@') :
    tkz.parseReg.2.line = tkz.line ∧ tkz.p < tkz.parseReg.2.p := by
  have hne : tkz.ch 0 ≠ '\x00' := by
    rcases h with h | h <;> rw [h] <;> decide
  obtain ⟨-, text, hrest⟩ := rest_of_ch hne
  have hstart : (!(isSpace (tkz.ch 0) || (isCharToken (tkz.ch 0)).isSome)) = true := by
    rcases h with h | h <;> rw [h] <;> decide
  have hlength : 0 < (tkz.rest.takeWhile fun c => !(isSpace c || (isCharToken c).isSome)).length := by
    rw [hrest, List.takeWhile_cons, if_pos hstart]
    exact Nat.succ_pos _
  have hafter : tkz.p < tkz.p + (tkz.rest.takeWhile fun c =>
      !(isSpace c || (isCharToken c).isSome)).length := by
    omega
  unfold EzTokenizer.parseReg
  simp only
  split
  · exact ⟨rfl, hafter⟩
  · split
    · exact ⟨rfl, hafter⟩
    · split
      · exact ⟨rfl, hafter⟩
      · split
        · exact ⟨rfl, hafter⟩
        · exact ⟨rfl, hafter⟩

/-- A quoted text takes at least its quote. -/
theorem parseString_progress (tkz : EzTokenizer V) :
    tkz.parseString.2.line = tkz.line ∧ tkz.p < tkz.parseString.2.p := by
  unfold EzTokenizer.parseString
  simp only
  by_cases hend : (tkz.advance (1 + ((tkz.advance 1).rest.takeWhile (· ≠ tkz.ch 0)).length)).ch 0 =
    '\x00'
  · rw [if_pos hend]
    exact ⟨rfl, by simp only [EzTokenizer.advance]; omega⟩
  · rw [if_neg hend]
    exact ⟨rfl, by simp only [EzTokenizer.advance]; omega⟩

/-- An alias takes at least its first character. -/
theorem parseAlias_progress (tkz : EzTokenizer V) :
    tkz.parseAlias.2.line = tkz.line ∧ tkz.p < tkz.parseAlias.2.p := by
  unfold EzTokenizer.parseAlias
  simp only
  by_cases hend : (tkz.advance (1 + ((tkz.advance 1).rest.takeWhile
      fun c => !(isSpace c || (isCharToken c).isSome) && c ≠ '@').length)).ch 0 = '\x00'
  · rw [if_pos hend]
    exact ⟨rfl, by simp only [EzTokenizer.advance]; omega⟩
  · rw [if_neg hend]
    exact ⟨rfl, by simp only [EzTokenizer.advance]; omega⟩

/-- A number takes at least its first digit. -/
theorem parseNumber_progress (scan : EzScan V) {tkz : EzTokenizer V} (h : isDigit (tkz.ch 0) = true) :
    (tkz.parseNumber scan).2.line = tkz.line ∧ tkz.p < (tkz.parseNumber scan).2.p := by
  have hne : tkz.ch 0 ≠ '\x00' := fun hzero => by rw [hzero] at h; exact absurd h (by decide)
  obtain ⟨-, text, hrest⟩ := rest_of_ch hne
  have hlength : 0 < (tkz.rest.takeWhile fun c => isDigit c || c = '.').length := by
    rw [hrest, List.takeWhile_cons_of_pos (by simp [h])]
    exact Nat.succ_pos _
  refine ⟨rfl, ?_⟩
  change tkz.p < tkz.p + _
  split <;> omega

/-- What a keyword takes: nothing for an error, and at least one character for everything else. -/
theorem parseKeyword_progress (keywords : List (List Char × EzToken)) (tkz : EzTokenizer V) :
    (tkz.parseKeyword keywords).2.line = tkz.line ∧ ((tkz.parseKeyword keywords).1 = .token .error ∧
      tkz.p ≤ (tkz.parseKeyword keywords).2.p ∨ tkz.p < (tkz.parseKeyword keywords).2.p) := by
  unfold EzTokenizer.parseKeyword
  simp only
  split
  · exact ⟨rfl, .inl ⟨rfl, le_rfl⟩⟩
  · next hne =>
    have hafter : tkz.p < tkz.p +
        ((tkz.rest.take (ezKeywordSize + 1)).takeWhile isKeywordChar).length := by
      have := List.length_pos_iff.mpr hne
      omega
    split
    · exact ⟨rfl, .inr hafter⟩
    · exact ⟨rfl, .inr hafter⟩
    · exact ⟨rfl, .inr hafter⟩
    · exact ⟨rfl, .inr hafter⟩

/-- An operator takes two or three characters. -/
theorem operatorToken_pos {tkz : EzTokenizer V} {t : EzToken} {k : ℕ}
    (h : tkz.operatorToken = some (t, k)) : 0 < k := by
  unfold EzTokenizer.operatorToken at h
  split at h
  · cases h
    decide
  · split at h
    · cases h
      decide
    · split at h
      · cases h
        decide
      · cases h

/-- What reading a token does to the cursor. -/
def TokenTaken (tkz after : EzTokenizer V) (t : EzToken) : Prop :=
  Moves tkz after ∧ (t = .eof ∨ t = .error ∨ tkz.p < after.p ∧ tkz.p < tkz.line.length)

/-- The token that a lexeme stands for as far as the cursor is concerned. -/
def EzTokenizer.Lexeme.kind : EzTokenizer.Lexeme → EzToken
  | .token t => t
  | .functionKeyword => .funcFunction

/-- Reading a lexeme. -/
theorem readToken_taken (scan : EzScan V) (keywords : List (List Char × EzToken))
    (tkz : EzTokenizer V) :
    TokenTaken tkz (tkz.readToken scan keywords).2 (tkz.readToken scan keywords).1.kind := by
  unfold EzTokenizer.readToken
  obtain ⟨start, hstart⟩ : ∃ start, start = { tkz with actualString := none }.skipBlank := ⟨_, rfl⟩
  have hblank : Moves tkz start := hstart ▸ moves_skipBlank { tkz with actualString := none }
  rw [← hstart]
  simp only
  split
  · exact ⟨hblank, .inl rfl⟩
  next hne =>
  have hlt := (rest_of_ch hne).1
  have htaken : ∀ (t : EzToken) (after : EzTokenizer V), after.line = start.line → start.p < after.p →
      TokenTaken tkz after t := by
    intro t after hline hp
    have hp' := hblank.2
    rw [hblank.1] at hlt
    exact ⟨⟨hline.trans hblank.1, by omega⟩, .inr (.inr ⟨by omega, by omega⟩)⟩
  split
  · next hreg =>
    obtain ⟨hline, hp⟩ := parseReg_progress hreg
    exact htaken _ _ hline hp
  · split
    · next t k hop =>
      have := operatorToken_pos hop
      exact htaken _ _ rfl (by simp only [EzTokenizer.advance]; omega)
    · split
      · exact htaken _ _ rfl (Nat.lt_succ_self _)
      · split
        · obtain ⟨hline, hp⟩ := parseString_progress start
          exact htaken _ _ hline hp
        · split
          · obtain ⟨hline, hp⟩ := parseAlias_progress start
            exact htaken _ _ hline hp
          · split
            · next hdigit =>
              obtain ⟨hline, hp⟩ := parseNumber_progress scan hdigit
              exact htaken _ _ hline hp
            · obtain ⟨hline, hkeyword⟩ := parseKeyword_progress keywords start
              rcases hkeyword with ⟨herror, hp⟩ | hp
              · rw [herror]
                exact ⟨hblank.trans ⟨hline, hp⟩, .inr (.inl rfl)⟩
              · exact htaken _ _ hline hp

/-- Reading a token. -/
theorem getNextToken_taken (scan : EzScan V) (keywords : List (List Char × EzToken)) (fuel : ℕ)
    (tkz : EzTokenizer V) :
    TokenTaken tkz (tkz.getNextToken scan keywords fuel).2 (tkz.getNextToken scan keywords fuel).1 := by
  induction fuel generalizing tkz with
  | zero => exact ⟨Moves.refl tkz, .inl rfl⟩
  | succ fuel ih =>
    unfold EzTokenizer.getNextToken
    have hread := readToken_taken scan keywords tkz
    rcases hlexeme : tkz.readToken scan keywords with ⟨lexeme, after⟩
    rw [hlexeme] at hread
    cases lexeme with
    | token t => exact hread
    | functionKeyword =>
      obtain ⟨hmoves, heof | herror | hp⟩ := hread
      · cases heof
      · cases herror
      · obtain ⟨hrest, htaken⟩ := ih (EzTokenizer.skipFunction (after.line.length + 1) 0 0 after)
        have hskip := moves_skipFunction (after.line.length + 1) 0 0 after
        refine ⟨hmoves.trans (hskip.trans hrest), htaken.imp_right (Or.imp_right fun _ => ⟨?_, hp.2⟩)⟩
        exact lt_of_lt_of_le hp.1 (hskip.trans hrest).2

end Progress

end DasEdge.Expression
