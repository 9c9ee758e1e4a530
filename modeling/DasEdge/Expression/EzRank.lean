import DasEdge.Expression.EzExpParser
import DasEdge.Expression.EzTokenizerProgress
import DasEdge.Library.FuelRank

/-!
# The rank of the interpreter

The rank is the text that is left, with a bonus for a symbol that has still to be consumed and a stock
for the one jump that `return` makes. Reading a symbol lowers it unless the text is at its end or at a
character that no token starts with.
-/

namespace DasEdge.Expression

open DasEdge.Library FuelRun

section Rank

variable {V : Type}

/-- A symbol that stands for consumed text. -/
def EzToken.live (t : EzToken) : Bool := t ≠ .eof && t ≠ .error

/-- What a symbol and the one before it add to the rank. -/
def symBonus (sym lastSym : EzToken) : ℕ :=
  if sym.live then 2 else if lastSym = .rightBraces then 1 else 0

/-- The text that is left, in thirds of a token. -/
def ezRank (s : EzState V) : ℕ :=
  (if s.e.isReturn then 0 else 3 * (s.e.tokenizer.line.length + 2) + 3) +
    3 * (s.e.tokenizer.line.length + 2 - s.e.tokenizer.p) + symBonus s.e.sym s.e.lastSym

/-- A round of `_expression_comma` has started behind a closing brace on a name that is neither a
keyword nor a custom function. -/
def Spins (s : EzState V) : Prop := ∃ event ∈ s.log, event.step = .round .rightBraces .funcFunction

/-- A `for` or the call of a custom function has been reached. -/
def LoopsOrCalls (s : EzState V) : Prop :=
  ∃ event ∈ s.log, event.step = .factor .funcFor ∨ event.step = .factor .funcCustom

/-- The marks for the termination of the interpreter. -/
def ezMarks (V : Type) : Marks (EzState V) := ⟨ezRank, fun s => Spins s ∨ LoopsOrCalls s, Spins⟩

/-- A change that keeps the events and does not raise the rank ends. -/
theorem ends_update {f : EzState V → EzState V} (n : ℕ) (hlog : ∀ s, (f s).log = s.log)
    (hrank : ∀ s, ezRank (f s) ≤ ezRank s) : Ends (ezMarks V) n (FuelRun.update f) := by
  intro s
  refine ⟨⟨fun h => ?_, fun _ h => ?_⟩, fun _ => .inr ⟨rfl, hrank s⟩⟩
  · simpa only [ezMarks, Spins, LoopsOrCalls, update_apply, hlog] using h
  · simpa only [ezMarks, Spins, update_apply, hlog] using h

/-- A change that keeps the events tracks. -/
theorem tracks_update {f : EzState V → EzState V} (hlog : ∀ s, (f s).log = s.log) :
    Tracks (ezMarks V) (FuelRun.update f) := by
  intro s
  refine ⟨fun h => ?_, fun _ h => ?_⟩
  · simpa only [ezMarks, Spins, LoopsOrCalls, update_apply, hlog] using h
  · simpa only [ezMarks, Spins, update_apply, hlog] using h

/-- Recording a step that is not the start of a spinning round. -/
theorem ends_note {step : EzStep V} (n : ℕ) (h : step ≠ .round .rightBraces .funcFunction) :
    Ends (ezMarks V) n (note step) := by
  intro s
  refine ⟨⟨?_, ?_⟩, fun _ => .inr ⟨rfl, le_rfl⟩⟩
  · rintro (⟨event, hmem, hstep⟩ | ⟨event, hmem, hstep⟩)
    · exact .inl ⟨event, List.mem_cons_of_mem _ hmem, hstep⟩
    · exact .inr ⟨event, List.mem_cons_of_mem _ hmem, hstep⟩
  · rintro - ⟨event, hmem, hstep⟩
    rcases List.mem_cons.mp hmem with rfl | hmem
    · exact absurd hstep h
    · exact ⟨event, hmem, hstep⟩

/-- A change of the interpreter that leaves the cursor, the symbols and the return flag alone. -/
theorem ends_updateExp {f : EzExp V → EzExp V} (n : ℕ)
    (h : ∀ e, (f e).tokenizer = e.tokenizer ∧ (f e).sym = e.sym ∧ (f e).lastSym = e.lastSym ∧
      (f e).isReturn = e.isReturn) : Ends (ezMarks V) n (updateExp f) := by
  refine ends_update n (fun _ => rfl) fun s => ?_
  obtain ⟨htokenizer, hsym, hlast, hreturn⟩ := h s.e
  simp only [ezRank, htokenizer, hsym, hlast, hreturn, le_refl]

/-- A change of the flags. -/
theorem ends_updateFlag (f : EzFlag → EzFlag) (n : ℕ) : Ends (ezMarks V) n (updateFlag f) :=
  ends_update n (fun _ => rfl) fun _ => le_rfl

/-- Setting the number. -/
theorem ends_setNumber (x : V) (n : ℕ) : Ends (ezMarks V) n (setNumber x) :=
  ends_updateExp n fun _ => ⟨rfl, rfl, rfl, rfl⟩

/-- Raising an error. -/
theorem ends_raise (msg : Option String) (n : ℕ) : Ends (ezMarks V) n (raise msg) := by
  unfold raise
  refine (ends_note n (by simp)).bind fun _ => ends_updateExp n fun e => ?_
  split
  · exact ⟨rfl, rfl, rfl, rfl⟩
  · exact ⟨rfl, rfl, rfl, rfl⟩

/-- A symbol adds at most two. -/
theorem symBonus_le (sym lastSym : EzToken) : symBonus sym lastSym ≤ 2 := by
  unfold symBonus
  split_ifs <;> decide

/-- A symbol that is not live, behind one that is consumed or behind a closing brace. -/
theorem symBonus_shift {next sym lastSym : EzToken} (hnext : next.live = false) :
    symBonus next sym ≤ symBonus sym lastSym ∧
      (sym.live = true ∨ lastSym = .rightBraces → symBonus next sym < symBonus sym lastSym) := by
  have hbraces : sym = .rightBraces → sym.live = true := fun h => by rw [h]; rfl
  unfold symBonus
  rw [hnext, if_neg Bool.false_ne_true]
  by_cases hsym : sym = .rightBraces
  · rw [if_pos hsym, if_pos (hbraces hsym)]
    exact ⟨by decide, fun _ => by decide⟩
  · rw [if_neg hsym]
    refine ⟨Nat.zero_le _, ?_⟩
    rintro (hlive | hlast)
    · rw [if_pos hlive]
      decide
    · rw [if_pos hlast]
      split_ifs <;> decide

/-- What reading the next token does to the parts that the rank is made of. -/
theorem nextSym_spec (env : EzEnv V) (s : EzState V) :
    (nextSym env s).e.tokenizer.line.length = s.e.tokenizer.line.length ∧
      s.e.tokenizer.p ≤ (nextSym env s).e.tokenizer.p ∧
      ((nextSym env s).e.sym.live = false ∨
        3 * (s.e.tokenizer.line.length + 2 - (nextSym env s).e.tokenizer.p) + 3 ≤
          3 * (s.e.tokenizer.line.length + 2 - s.e.tokenizer.p)) := by
  obtain ⟨⟨hline, hp⟩, htaken⟩ :=
    getNextToken_taken env.scan s.tables.keywords (s.e.tokenizer.line.length + 1) s.e.tokenizer
  refine ⟨congrArg List.length hline, hp, ?_⟩
  rcases htaken with heof | herror | ⟨hlt, hend⟩
  · exact .inl (by simp only [nextSym, heof]; rfl)
  · exact .inl (by simp only [nextSym, herror]; rfl)
  · right
    simp only [nextSym]
    omega

/-- Reading the next token does not raise the rank. -/
theorem ezRank_nextSym (env : EzEnv V) (s : EzState V) : ezRank (nextSym env s) ≤ ezRank s := by
  obtain ⟨hline, hp, hlive⟩ := nextSym_spec env s
  have hlast : (nextSym env s).e.lastSym = s.e.lastSym := rfl
  have hreturn : (nextSym env s).e.isReturn = s.e.isReturn := rfl
  unfold ezRank
  rw [hline, hlast, hreturn]
  rcases hlive with hlive | hdrop
  · have hbonus : symBonus (nextSym env s).e.sym s.e.lastSym ≤ symBonus s.e.sym s.e.lastSym := by
      unfold symBonus
      rw [hlive, if_neg Bool.false_ne_true]
      split_ifs <;> omega
    omega
  · have := symBonus_le (nextSym env s).e.sym s.e.lastSym
    omega

/-- The state behind the reading of a symbol, before its error is raised. -/
def symRead (env : EzEnv V) (s : EzState V) : EzState V :=
  nextSym env { s with e := { s.e with lastSym := s.e.sym } }

/-- Reading a symbol does not raise the rank, and lowers it behind a symbol that is consumed or behind a
closing brace. -/
theorem ezRank_symRead (env : EzEnv V) (s : EzState V) : ezRank (symRead env s) ≤ ezRank s ∧
    (s.e.sym.live = true ∨ s.e.lastSym = .rightBraces → ezRank (symRead env s) < ezRank s) := by
  obtain ⟨hline, hp, hlive⟩ := nextSym_spec env { s with e := { s.e with lastSym := s.e.sym } }
  have hlast : (symRead env s).e.lastSym = s.e.sym := rfl
  have hreturn : (symRead env s).e.isReturn = s.e.isReturn := rfl
  rw [← symRead] at hline hp hlive
  dsimp only at hline hp hlive
  unfold ezRank
  rw [hline, hlast, hreturn]
  rcases hlive with hlive | hdrop
  · obtain ⟨hle, hlt⟩ := @symBonus_shift _ s.e.sym s.e.lastSym hlive
    exact ⟨by omega, fun h => by have := hlt h; omega⟩
  · have := symBonus_le (symRead env s).e.sym s.e.sym
    exact ⟨by omega, fun _ => by omega⟩

/-- Raising the error of the tokenizer when the symbol is one. -/
def raiseRead : EzM V Unit := FuelRun.skipWhen (fun s => s.e.sym ≠ .error) do
  let s ← FuelRun.read
  raise s.e.tokenizer.error

/-- Raising the error of the tokenizer ends. -/
theorem ends_raiseRead (n : ℕ) : Ends (ezMarks V) n raiseRead :=
  Ends.skipWhen (Ends.read fun s => ends_raise s.e.tokenizer.error n)

/-- Raising the error of the tokenizer gives a result and leaves the rank alone. -/
theorem raiseRead_result (s : EzState V) : (raiseRead s).1 = some () ∧
    ezRank (raiseRead s).2 = ezRank s := by
  unfold raiseRead FuelRun.skipWhen FuelRun.branch raise
  split
  · exact ⟨rfl, rfl⟩
  · refine ⟨rfl, ?_⟩
    simp only [read_bind_apply, note, updateExp, update_bind_apply, update_apply]
    split
    · rfl
    · rfl

/-- Reading a symbol is reading the text, then raising the error that was found. -/
theorem getSym_apply (env : EzEnv V) (s : EzState V) : getSym env s = raiseRead (symRead env s) := rfl

/-- Reading a symbol ends. -/
theorem ends_getSym (env : EzEnv V) (n : ℕ) : Ends (ezMarks V) n (getSym env) := by
  have hread : Ends (ezMarks V) n (FuelRun.update (symRead env)) :=
    ends_update n (fun _ => rfl) fun s => (ezRank_symRead env s).1
  exact hread.bind fun _ => ends_raiseRead n

/-- Reading a symbol lowers the rank behind a symbol that is consumed or behind a closing brace. -/
theorem drops_getSym (env : EzEnv V) (n : ℕ) {s : EzState V}
    (h : s.e.sym.live = true ∨ s.e.lastSym = .rightBraces) : DropsAt (ezMarks V) n (getSym env) s := by
  refine ⟨(ends_getSym env n s).1, fun _ => .inr ?_⟩
  obtain ⟨hsome, hrank⟩ := raiseRead_result (symRead env s)
  rw [getSym_apply, hsome]
  exact ⟨rfl, lt_of_eq_of_lt hrank ((ezRank_symRead env s).2 h)⟩

end Rank

end DasEdge.Expression
