import DasEdge.Expression.EzRank

/-!
# The functions of the interpreter end

With an expression below that ends from ranks below `n`, every function of the interpreter but `for`
and the call of a custom function ends from these ranks. A `for` and a custom function go back to text
that was read before; for them only the marks are tracked.
-/

namespace DasEdge.Expression

open DasEdge.Library FuelRun

section Ends

variable {V : Type} (env : EzEnv V)

/-- Accepting a symbol ends. -/
theorem ends_accept (t : EzToken) (n : ℕ) : Ends (ezMarks V) n (accept env t) :=
  Ends.branch ((ends_getSym env n).bind fun _ => ends_pure n true) (ends_pure n false)

/-- Expecting a symbol ends. -/
theorem ends_expect (t : EzToken) (msg : String) (n : ℕ) : Ends (ezMarks V) n (expect env t msg) := by
  unfold expect
  apply (ends_accept env t n).bind
  intro accepted
  cases accepted with
  | true => exact ends_pure n ()
  | false => exact ends_raise (some msg) n

/-- Reading a symbol at a given one lowers the rank. -/
theorem drops_getSym_of_sym (n : ℕ) {t : EzToken} (ht : t.live = true) {s : EzState V}
    (hs : s.e.sym = t) :
    DropsAt (ezMarks V) n (getSym env) s := drops_getSym env n (.inl (hs ▸ ht))

/-- A loop on a symbol ends when its body does. -/
theorem ends_whileSym {n fuel : ℕ} (hfuel : n ≤ fuel) {t : EzToken} (ht : t.live = true) {α : Type}
    {body : α → EzM V α} (hbody : ∀ a, Ends (ezMarks V) n (body a)) (start : α) :
    Ends (ezMarks V) n (whileSym env fuel t body start) := by
  unfold whileSym
  apply Ends.rounds hfuel
  intro a s
  apply RoundAt.branch
  · intro hs
    have hdrop := drops_getSym_of_sym env n ht (of_decide_eq_true hs)
    exact (hdrop.bind_ends fun _ => (hbody a).bind fun b => ends_pure n (b, true)).round
  · exact fun _ => roundAt_leave n a s

/-- A symbol that stands for text was read by moving the cursor. -/
theorem ezRank_getSym_live {s : EzState V} (h : (getSym env s).2.e.sym.live = true) :
    ezRank (getSym env s).2 < ezRank s := by
  have hsym : (getSym env s).2.e.sym = (symRead env s).e.sym := by
    rw [getSym_apply]
    unfold raiseRead FuelRun.skipWhen FuelRun.branch raise
    split
    · rfl
    · simp only [read_bind_apply, note, updateExp, update_bind_apply, update_apply]
      split
      · rfl
      · rfl
  rw [hsym] at h
  rw [getSym_apply, (raiseRead_result _).2]
  obtain ⟨hline, hp, hlive⟩ := nextSym_spec env { s with e := { s.e with lastSym := s.e.sym } }
  rw [← symRead] at hline hp hlive
  have hdrop := hlive.resolve_left (by rw [h]; decide)
  have hreturn : (symRead env s).e.isReturn = s.e.isReturn := rfl
  have hbonus := symBonus_le (symRead env s).e.sym (symRead env s).e.lastSym
  dsimp only at hdrop hline
  unfold ezRank
  rw [hline, hreturn]
  omega

/-- Skipping to a closing bracket ends. -/
theorem ends_skipUntil {n fuel : ℕ} (hfuel : n ≤ fuel) {opening closing : EzToken}
    (hopening : opening.live = true)
    (hclosing : closing.live = true) : Ends (ezMarks V) n (skipUntil env fuel opening closing) := by
  unfold skipUntil
  apply Ends.read
  intro start
  refine Ends.bind (Ends.rounds hfuel (fun count s => ?_) _) fun _ => ends_pure n ()
  split
  · exact roundAt_leave n count s
  · apply (ends_getSym env n s).round
    intro _
    rw [read_bind_apply]
    have hlive : ∀ {t : EzToken}, t.live = true → (getSym env s).2.e.sym = t →
        ezRank (getSym env s).2 < ezRank s := fun ht h => ezRank_getSym_live env (h ▸ ht)
    split_ifs with hopened hclosed hend
    · exact ⟨_, rfl, fun _ => hlive hopening hopened⟩
    · exact ⟨_, rfl, fun _ => hlive hclosing hclosed⟩
    · exact ⟨_, rfl, fun h => by cases h⟩
    · refine ⟨_, rfl, fun _ => ezRank_getSym_live env ?_⟩
      push Not at hend
      unfold EzToken.live
      simp only [ne_eq, hend.1, hend.2, not_false_eq_true, decide_true, Bool.and_self]

/-- Skipping to a closing bracket ends. -/
theorem ends_expressionSkipUntilRightBanana {n fuel : ℕ} (hfuel : n ≤ fuel) :
    Ends (ezMarks V) n (expressionSkipUntilRightBanana env fuel) := ends_skipUntil env hfuel rfl rfl

/-- Skipping to a closing brace ends. -/
theorem ends_expressionSkipUntilRightBraces {n fuel : ℕ} (hfuel : n ≤ fuel) :
    Ends (ezMarks V) n (expressionSkipUntilRightBraces env fuel) := ends_skipUntil env hfuel rfl rfl

/-- Arguments in brackets end. -/
theorem ends_inBananas {n fuel : ℕ} (hfuel : n ≤ fuel) (lostLeft lostRight : String)
    {arguments : EzM V Unit}
    (h : Ends (ezMarks V) n arguments) :
    Ends (ezMarks V) n (inBananas env fuel lostLeft lostRight arguments) := by
  unfold inBananas
  apply (ends_expect env .leftBanana lostLeft n).bind
  intro _
  apply (Ends.branch (ends_expressionSkipUntilRightBanana env hfuel) h).bind
  exact fun _ => ends_expect env .rightBanana lostRight n

/-- Arguments in brackets track. -/
theorem tracks_inBananas (fuel : ℕ) (lostLeft lostRight : String) {arguments : EzM V Unit}
    (h : Tracks (ezMarks V) arguments) :
    Tracks (ezMarks V) (inBananas env fuel lostLeft lostRight arguments) := by
  unfold inBananas
  apply (ends_expect env .leftBanana lostLeft fuel).tracks.bind
  intro _
  apply ((ends_expressionSkipUntilRightBanana env (le_refl fuel)).tracks.branch h).bind
  exact fun _ => (ends_expect env .rightBanana lostRight fuel).tracks

/-- A block that is skipped ends. -/
theorem ends_skipBraces {n fuel : ℕ} (hfuel : n ≤ fuel) (lostLeft lostRight : String) :
    Ends (ezMarks V) n (skipBraces env fuel lostLeft lostRight) := by
  unfold skipBraces
  apply (ends_expect env .leftBraces lostLeft n).bind
  intro _
  apply (ends_expressionSkipUntilRightBraces env hfuel).bind
  exact fun _ => ends_expect env .rightBraces lostRight n

/-- Accepting the symbol that stands there lowers the rank. -/
theorem drops_accept (n : ℕ) {t : EzToken} (ht : t.live = true) {s : EzState V} (hs : s.e.sym = t) :
    DropsAt (ezMarks V) n (accept env t) s := by
  have hdrop := (drops_getSym_of_sym env n ht hs).bind_ends fun _ => ends_pure n true
  have hread : accept env t s = (getSym env >>= fun _ => pure true) s := if_pos (decide_eq_true hs)
  rw [DropsAt, TracksAt, hread]
  exact hdrop

/-- Accepting another symbol than the one that stands there does nothing. -/
theorem accept_of_ne {t : EzToken} {s : EzState V} (hs : s.e.sym ≠ t) :
    accept env t s = (some false, s) :=
  if_neg (by simpa using hs)

variable (V) in
/-- An expression that ends from ranks below `n`, and what it does with the symbol it starts at. -/
structure Consumes (n : ℕ) (expression : EzM V V) : Prop where
  ends : Ends (ezMarks V) n expression
  drops : ∀ s : EzState V, s.e.sym ≠ .eof → s.e.sym ≠ .funcFunction →
    (s.e.sym.live = true ∨ s.e.lastSym = .rightBraces) → DropsAt (ezMarks V) n expression s
  idle : ∀ s : EzState V, s.e.sym = .funcFunction → (expression s).1.isSome →
    (expression s).2.e.sym = .funcFunction ∧ (expression s).2.e.lastSym = s.e.lastSym

/-- One round of `_expression_comma`. -/
def commaRound (expression : EzM V V) (f1 : V) : EzM V (V × Bool) :=
  FuelRun.branch (fun s => s.e.sym = .semicolon || s.e.lastSym = .rightBraces) (do
    let s ← FuelRun.read
    note (.round s.e.lastSym s.e.sym)
    let _ ← accept env .semicolon
    FuelRun.branch (fun s => s.e.sym = .semicolon) (pure (f1, true))
      (FuelRun.branch (fun s => s.e.sym = .rightBraces || s.e.sym = .eof) (pure (f1, false)) (do
        let f1 ← expression
        pure (f1, true)))) (pure (f1, false))

/-- The place where `_expression_comma` goes round for ever. -/
def Trapped (s : EzState V) : Prop := s.e.lastSym = .rightBraces ∧ s.e.sym = .funcFunction

/-- Outside the trap a round of `_expression_comma` consumes a symbol or leaves the loop. -/
theorem commaRound_roundAt {n : ℕ} {expression : EzM V V} (h : Consumes V n expression) (f1 : V)
    {s : EzState V}
    (hs : ¬ Trapped s) : RoundAt (ezMarks V) n (commaRound env expression f1) s := by
  apply RoundAt.branch
  · intro hgo
    have hnote : EndsAt (ezMarks V) n (note (.round s.e.lastSym s.e.sym)) s := by
      apply ends_note
      intro hstep
      injection hstep with hlast hsym
      exact hs ⟨hlast, hsym⟩
    have hrest : Ends (ezMarks V) n (FuelRun.branch (fun s => s.e.sym = .semicolon) (pure (f1, true))
        (FuelRun.branch (fun s => s.e.sym = .rightBraces || s.e.sym = .eof) (pure (f1, false)) (do
          let f1 ← expression
          pure (f1, true)))) := by
      apply Ends.branch (ends_pure n _)
      apply Ends.branch (ends_pure n _)
      exact h.ends.bind fun f1 => ends_pure n (f1, true)
    apply RoundAt.read
    refine hnote.bind_roundAt fun _ => ?_
    obtain ⟨t, ht, he⟩ : ∃ t, (note (.round s.e.lastSym s.e.sym) s).2 = t ∧ t.e = s.e := ⟨_, rfl, rfl⟩
    rw [ht]
    rw [← he] at hgo
    rw [Trapped, ← he] at hs
    by_cases hsemicolon : t.e.sym = .semicolon
    · exact ((drops_accept env n rfl hsemicolon).bind_ends fun _ => hrest).round
    · have hlast : t.e.lastSym = .rightBraces := by simpa [hsemicolon] using hgo
      refine (ends_accept env .semicolon n t).bind_roundAt fun _ => ?_
      rw [accept_of_ne env hsemicolon]
      apply RoundAt.branch
      · exact fun h => absurd (of_decide_eq_true h) hsemicolon
      intro _
      apply RoundAt.branch
      · exact fun _ => roundAt_leave n f1 _
      · intro hclosed
        have hends : t.e.sym ≠ .rightBraces ∧ t.e.sym ≠ .eof := by simpa using hclosed
        have hdrop := h.drops t hends.2 (fun hsym => hs ⟨hlast, hsym⟩) (.inr hlast)
        exact (hdrop.bind_ends fun f1 => ends_pure n (f1, true)).round
  · exact fun _ => roundAt_leave n f1 s

/-- In the trap a round of `_expression_comma` evaluates one more expression. -/
theorem commaRound_at_trap (expression : EzM V V) (f1 : V) {s : EzState V} (hs : Trapped s) :
    commaRound env expression f1 s =
      (expression >>= fun f1 => pure (f1, true)) (note (.round .rightBraces .funcFunction) s).2 := by
  obtain ⟨hlast, hsym⟩ := hs
  obtain ⟨t, hnote, he⟩ : ∃ t, note (.round .rightBraces .funcFunction) s = (some (), t) ∧
    t.e = s.e := ⟨_, rfl, rfl⟩
  have htsym : t.e.sym = .funcFunction := by rw [he, hsym]
  have haccept : accept env .semicolon t = (some false, t) := accept_of_ne env (by simp [htsym])
  unfold commaRound
  rw [FuelRun.branch, if_pos (by simp [hlast]), read_bind_apply, hlast, hsym, bind_apply, hnote]
  simp only
  rw [bind_apply, haccept]
  simp only [FuelRun.branch, htsym]
  rfl

/-- In the trap `_expression_comma` goes on without an end. -/
theorem commaRound_trapped {n : ℕ} {expression : EzM V V} (h : Consumes V n expression) (f1 : V)
    {s : EzState V}
    (hs : Trapped s) : (ezMarks V).excused (commaRound env expression f1 s).2 ∧
      ∀ r, (commaRound env expression f1 s).1 = some r → r.2 = true ∧
        Trapped (commaRound env expression f1 s).2 := by
  rw [commaRound_at_trap env expression f1 hs, bind_apply]
  obtain ⟨hlast, hsym⟩ := hs
  have hspins : (ezMarks V).excused (note (.round .rightBraces .funcFunction) s).2 :=
    .inl ⟨_, List.mem_cons_self, rfl⟩
  have hidle := h.idle (note (.round .rightBraces .funcFunction) s).2 hsym
  have hexcused := (h.ends.tracks _).1 hspins
  rcases hm : expression (note (.round .rightBraces .funcFunction) s).2 with ⟨result, u⟩
  rw [hm] at hidle hexcused
  cases result with
  | none => exact ⟨hexcused, fun r hr => by cases hr⟩
  | some x =>
    refine ⟨hexcused, fun r hr => ?_⟩
    cases hr
    obtain ⟨husym, hulast⟩ := hidle rfl
    exact ⟨rfl, hulast.trans hlast, husym⟩

/-- `_expression_comma` ends, unless it gets into the trap. -/
theorem ends_expressionComma {n fuel : ℕ} (hfuel : n ≤ fuel) {expression : EzM V V}
    (h : Consumes V n expression) :
    Ends (ezMarks V) n (expressionComma env fuel expression) := by
  unfold expressionComma
  apply h.ends.bind
  intro f1
  exact Ends.rounds_of_trap hfuel Trapped (fun f1 s hs => commaRound_roundAt env h f1 hs)
    (fun f1 s hs => commaRound_trapped env h f1 hs) f1

end Ends

end DasEdge.Expression
