import DasEdge.Library.CString

/-!
# Formats of `sscanf`

A conversion takes the longest piece of a text that is one of its items or the beginning of one, and
fails if the piece is no item. What it takes is told by an automaton. A text ends with its null
character, which no automaton goes over, so a reading that has not come to an end when the bytes run
out asks for what lies behind them. Then there is no result here.
-/

namespace DasEdge.Library

variable {σ φ : Type*}

/-- The longest run of an automaton over at most `width` bytes: its last state, what it took and
what it left. -/
def matchRun (step : σ → UInt8 → Option σ) : σ → Option ℕ → List UInt8 →
    Option (σ × List UInt8 × List UInt8)
  | s, width, [] => if width = some 0 then some (s, [], []) else none
  | s, width, c :: text =>
    if width = some 0 then some (s, [], c :: text)
    else
      match step s c with
      | none => some (s, [], c :: text)
      | some next =>
        (matchRun step next (width.map (· - 1)) text).map fun r => (r.1, c :: r.2.1, r.2.2)

/-- The text behind its leading spaces. -/
def skipSpace : List UInt8 → Option (List UInt8)
  | [] => none
  | c :: text => if isSpaceByte c then skipSpace text else some (c :: text)

/-- What has been taken of a `%d`. -/
inductive IntPart
  | start | sign | digits
  deriving DecidableEq

/-- One character more of a `%d`. -/
def intStep (part : IntPart) (c : UInt8) : Option IntPart :=
  if isDigitByte c then some .digits
  else if part = .start ∧ (c = 43 ∨ c = 45) then some .sign
  else none

/-- What has been taken of a `%f`: a decimal or a hexadecimal number, `infinity`, or `nan` with a
text in parentheses. -/
inductive FloatPart
  | start | sign | zero | digits | point | fraction
  | hex | hexDigits | hexPoint | hexFraction
  | exponent | exponentSign | exponentDigits
  | infinity (taken : ℕ) | nan (taken : ℕ) | nanText | nanEnd
  deriving DecidableEq

/-- `isxdigit` -/
def isHexDigitByte (c : UInt8) : Bool := isDigitByte c || decide (97 ≤ toLower c ∧ toLower c ≤ 102)

/-- A character of the text in the parentheses of a `nan`. -/
def isNanByte (c : UInt8) : Bool := isDigitByte c || decide (97 ≤ toLower c ∧ toLower c ≤ 122 ∨ c = 95)

/-- The next character of a word. -/
def wordStep (word : List UInt8) (make : ℕ → FloatPart) (taken : ℕ) (c : UInt8) : Option FloatPart :=
  if word[taken]? = some (toLower c) then some (make (taken + 1)) else none

/-- The beginning of a `%f` behind its sign. -/
def floatBegin (c : UInt8) : Option FloatPart :=
  if c = 48 then some .zero
  else if isDigitByte c then some .digits
  else if c = 46 then some .point
  else if toLower c = 105 then some (.infinity 1)
  else if toLower c = 110 then some (.nan 1)
  else none

/-- One character more behind the first digits of a number, with the letter of its exponent. -/
def floatDigits (isDigit : UInt8 → Bool) (same : FloatPart) (point : Option FloatPart)
    (letter c : UInt8) : Option FloatPart :=
  if isDigit c then some same
  else if c = 46 then point
  else if toLower c = letter then some .exponent
  else none

/-- One character more of a `%f`. -/
def floatStep : FloatPart → UInt8 → Option FloatPart
  | .start, c => if c = 43 ∨ c = 45 then some .sign else floatBegin c
  | .sign, c => floatBegin c
  | .zero, c =>
    if toLower c = 120 then some .hex else floatDigits isDigitByte .digits (some .fraction) 101 c
  | .digits, c => floatDigits isDigitByte .digits (some .fraction) 101 c
  | .point, c => if isDigitByte c then some .fraction else none
  | .fraction, c => floatDigits isDigitByte .fraction none 101 c
  | .hex, c => if isHexDigitByte c then some .hexDigits else if c = 46 then some .hexPoint else none
  | .hexDigits, c => floatDigits isHexDigitByte .hexDigits (some .hexFraction) 112 c
  | .hexPoint, c => if isHexDigitByte c then some .hexFraction else none
  | .hexFraction, c => floatDigits isHexDigitByte .hexFraction none 112 c
  | .exponent, c =>
    if c = 43 ∨ c = 45 then some .exponentSign else if isDigitByte c then some .exponentDigits else none
  | .exponentSign, c => if isDigitByte c then some .exponentDigits else none
  | .exponentDigits, c => if isDigitByte c then some .exponentDigits else none
  | .infinity taken, c => wordStep [105, 110, 102, 105, 110, 105, 116, 121] .infinity taken c
  | .nan taken, c => if taken = 3 ∧ c = 40 then some .nanText else wordStep [110, 97, 110] .nan taken c
  | .nanText, c => if c = 41 then some .nanEnd else if isNanByte c then some .nanText else none
  | .nanEnd, _ => none

/-- Whether what has been taken is a number. -/
def floatEnds : FloatPart → Bool
  | .zero | .digits | .fraction | .hexDigits | .hexFraction | .exponentDigits | .nanEnd => true
  | .infinity taken => decide (taken = 3 ∨ taken = 8)
  | .nan taken => decide (taken = 3)
  | _ => false

/-- A part of a format: any spaces, a character, `%d` with its width, `%f`, and `%[^c]`. -/
inductive Directive (φ : Type*)
  | space
  | char (c : UInt8)
  | int (width : Option ℕ) (dest : φ)
  | float (dest : φ)
  | upTo (c : UInt8) (dest : φ)

/-- Where a part of a format stores what it takes. -/
def Directive.dest : Directive φ → Option φ
  | .space => none
  | .char _ => none
  | .int _ dest => some dest
  | .float dest => some dest
  | .upTo _ dest => some dest

/-- The item at the front of a text and what lies behind it, or `some none` if there is none. -/
def readItem (step : σ → UInt8 → Option σ) (ends : σ → Bool) (start : σ) (width : Option ℕ)
    (text : List UInt8) :
    Option (Option (List UInt8 × List UInt8)) :=
  (matchRun step start width text).map fun r => if ends r.1 then some r.2 else none

/-- One more character of a `%[^c]`. -/
def upToStep (c : UInt8) (_ : Bool) (d : UInt8) : Option Bool :=
  if d = c ∨ d = 0 then none else some true

/-- What a part of a format takes from the front of a text and what it leaves, or `some none` if the
text differs from it. -/
def Directive.read : Directive φ → List UInt8 → Option (Option (List UInt8 × List UInt8))
  | .space, text => (skipSpace text).map fun rest => some ([], rest)
  | .char _, [] => none
  | .char c, d :: text => some (if d = c ∧ d ≠ 0 then some ([], text) else none)
  | .int width _, text => (skipSpace text).bind (readItem intStep (· = .digits) .start width)
  | .float _, text => (skipSpace text).bind (readItem floatStep floatEnds .start none)
  | .upTo c _, text => readItem (upToStep c) id false none text

/-- `sscanf`: where something is stored and the characters of which it is made, in order, until the
text differs from the format. -/
def scan : List (Directive φ) → List UInt8 → Option (List (φ × List UInt8))
  | [], _ => some []
  | directive :: format, text =>
    match directive.read text with
    | none => none
    | some none => some []
    | some (some (taken, rest)) =>
      (scan format rest).map fun stored => directive.dest.toList.map (·, taken) ++ stored

/-- A run that comes to an end takes the same of a longer text. -/
theorem matchRun_append {step : σ → UInt8 → Option σ} {s : σ} {width : Option ℕ} {text : List UInt8}
    {r : σ × List UInt8 × List UInt8} (h : matchRun step s width text = some r) (more : List UInt8) :
    matchRun step s width (text ++ more) = some (r.1, r.2.1, r.2.2 ++ more) := by
  induction text generalizing s width r with
  | nil =>
    rw [matchRun] at h
    split at h
    · next hwidth =>
      cases h
      cases more with
      | nil => rw [List.append_nil, matchRun, if_pos hwidth]
      | cons c more =>
        rw [List.nil_append, matchRun, if_pos hwidth]
    · cases h
  | cons c text ih =>
    rw [List.cons_append, matchRun]
    rw [matchRun] at h
    split at h
    · next hwidth =>
      cases h
      rw [if_pos hwidth]
      rfl
    · next hwidth =>
      rw [if_neg hwidth]
      cases hstep : step s c with
      | none =>
        rw [hstep] at h
        cases h
        rfl
      | some next =>
        rw [hstep] at h
        obtain ⟨r', hrest, rfl⟩ := Option.map_eq_some_iff.mp h
        simp only [ih hrest, Option.map_some]

/-- An automaton that does not go over the null character comes to an end in a text that has one,
and leaves it. -/
theorem matchRun_terminated {step : σ → UInt8 → Option σ} (hstop : ∀ s, step s 0 = none) (s : σ)
    (width : Option ℕ)
    {text : List UInt8} (hnull : 0 ∈ text) : ∃ r, matchRun step s width text = some r ∧ 0 ∈ r.2.2 := by
  induction text generalizing s width with
  | nil => cases hnull
  | cons c text ih =>
    rw [matchRun]
    split
    · exact ⟨_, rfl, hnull⟩
    · cases hstep : step s c with
      | none => exact ⟨_, rfl, hnull⟩
      | some next =>
        have htext : 0 ∈ text := by
          rcases List.mem_cons.mp hnull with rfl | htext
          · rw [hstop] at hstep
            cases hstep
          · exact htext
        obtain ⟨r, hrest, hmem⟩ := ih next (width.map (· - 1)) htext
        exact ⟨(r.1, c :: r.2.1, r.2.2), by simp only [hrest, Option.map_some], hmem⟩

/-- Spaces that end in a text end at the same place in a longer one. -/
theorem skipSpace_append {text rest : List UInt8} (h : skipSpace text = some rest) (more : List UInt8) :
    skipSpace (text ++ more) = some (rest ++ more) := by
  induction text with
  | nil => cases h
  | cons c text ih =>
    rw [skipSpace] at h
    rw [List.cons_append, skipSpace]
    split at h
    · next hspace => rw [if_pos hspace, ih h]
    · next hspace =>
      cases h
      rw [if_neg hspace, List.cons_append]

/-- Spaces end in a text that has a null character. -/
theorem skipSpace_terminated {text : List UInt8} (hnull : 0 ∈ text) :
    ∃ rest, skipSpace text = some rest ∧ 0 ∈ rest := by
  induction text with
  | nil => cases hnull
  | cons c text ih =>
    rw [skipSpace]
    split
    · next hspace =>
      rcases List.mem_cons.mp hnull with rfl | htext
      · exact absurd hspace (by decide)
      · exact ih htext
    · exact ⟨c :: text, rfl, hnull⟩

/-- A `%d` does not go over the null character. -/
theorem intStep_null (part : IntPart) : intStep part 0 = none := by cases part <;> rfl

/-- A word of letters does not go over the null character. -/
theorem wordStep_null {word : List UInt8} (hword : 0 ∉ word) (make : ℕ → FloatPart) (taken : ℕ) :
    wordStep word make taken 0 = none :=
  if_neg fun h => hword (List.mem_of_getElem? h)

/-- A `%f` does not go over the null character. -/
theorem floatStep_null (part : FloatPart) : floatStep part 0 = none := by
  cases part with
  | infinity taken => exact wordStep_null (by decide) _ taken
  | nan taken =>
    rw [floatStep, if_neg fun h => absurd h.2 (by decide)]
    exact wordStep_null (by decide) _ taken
  | _ => rfl

/-- A `%[^c]` does not go over the null character. -/
theorem upToStep_null (c : UInt8) (taken : Bool) : upToStep c taken 0 = none := if_pos (.inr rfl)

/-- An item that is read is the same at the front of a longer text. -/
theorem readItem_append {step : σ → UInt8 → Option σ} {ends : σ → Bool} {start : σ}
    {width : Option ℕ} {text : List UInt8}
    {r : Option (List UInt8 × List UInt8)} (h : readItem step ends start width text = some r)
    (more : List UInt8) :
    readItem step ends start width (text ++ more) =
      some (r.map fun part => (part.1, part.2 ++ more)) := by
  obtain ⟨run, hrun, rfl⟩ := Option.map_eq_some_iff.mp h
  rw [readItem, matchRun_append hrun more, Option.map_some]
  cases ends run.1 <;> rfl

/-- An item is read or not in a text that has a null character, which is left. -/
theorem readItem_terminated {step : σ → UInt8 → Option σ} (hstop : ∀ s, step s 0 = none)
    (ends : σ → Bool) (start : σ)
    (width : Option ℕ) {text : List UInt8} (hnull : 0 ∈ text) :
    ∃ r, readItem step ends start width text = some r ∧ ∀ part, r = some part → 0 ∈ part.2 := by
  obtain ⟨run, hrun, hmem⟩ := matchRun_terminated hstop start width hnull
  refine ⟨_, by rw [readItem, hrun, Option.map_some], fun part hpart => ?_⟩
  split at hpart
  · cases hpart
    exact hmem
  · cases hpart

/-- What a part of a format reads in a text it reads in a longer one. -/
theorem Directive.read_append {directive : Directive φ} {text : List UInt8}
    {r : Option (List UInt8 × List UInt8)}
    (h : directive.read text = some r) (more : List UInt8) :
    directive.read (text ++ more) = some (r.map fun part => (part.1, part.2 ++ more)) := by
  cases directive with
  | space =>
    obtain ⟨rest, hrest, rfl⟩ := Option.map_eq_some_iff.mp h
    rw [read, skipSpace_append hrest more]
    rfl
  | char c =>
    cases text with
    | nil => cases h
    | cons d text =>
      obtain rfl := Option.some.inj h
      rw [List.cons_append, read]
      split <;> rfl
  | int width dest =>
    obtain ⟨rest, hrest, hitem⟩ := Option.bind_eq_some_iff.mp h
    rw [read, skipSpace_append hrest more, Option.bind_some, readItem_append hitem more]
  | float dest =>
    obtain ⟨rest, hrest, hitem⟩ := Option.bind_eq_some_iff.mp h
    rw [read, skipSpace_append hrest more, Option.bind_some, readItem_append hitem more]
  | upTo c dest => exact readItem_append h more

/-- A part of a format does not read behind the null character of a text. -/
theorem Directive.read_terminated (directive : Directive φ) {text : List UInt8} (hnull : 0 ∈ text) :
    ∃ r, directive.read text = some r ∧ ∀ part, r = some part → 0 ∈ part.2 := by
  cases directive with
  | space =>
    obtain ⟨rest, hrest, hmem⟩ := skipSpace_terminated hnull
    refine ⟨_, by rw [read, hrest, Option.map_some], ?_⟩
    rintro _ ⟨⟩
    exact hmem
  | char c =>
    obtain ⟨d, text, rfl⟩ := List.exists_cons_of_ne_nil (List.ne_nil_of_mem hnull)
    refine ⟨_, rfl, fun part hpart => ?_⟩
    split at hpart
    · next hd =>
      cases hpart
      exact (List.mem_cons.mp hnull).resolve_left (Ne.symm hd.2)
    · cases hpart
  | int width dest =>
    obtain ⟨rest, hrest, hmem⟩ := skipSpace_terminated hnull
    rw [read, hrest, Option.bind_some]
    exact readItem_terminated intStep_null _ _ width hmem
  | float dest =>
    obtain ⟨rest, hrest, hmem⟩ := skipSpace_terminated hnull
    rw [read, hrest, Option.bind_some]
    exact readItem_terminated floatStep_null _ _ none hmem
  | upTo c dest => exact readItem_terminated (upToStep_null c) _ _ none hnull

/-- What is scanned of a text is scanned of a longer one. -/
theorem scan_append {format : List (Directive φ)} {text : List UInt8} {stored : List (φ × List UInt8)}
    (h : scan format text = some stored) (more : List UInt8) :
    scan format (text ++ more) = some stored := by
  induction format generalizing text stored with
  | nil => exact h
  | cons directive format ih =>
    rw [scan] at h ⊢
    cases hread : directive.read text with
    | none =>
      rw [hread] at h
      cases h
    | some r =>
      rw [hread] at h
      rw [Directive.read_append hread more]
      cases r with
      | none => exact h
      | some part =>
        obtain ⟨rest, hrest, rfl⟩ := Option.map_eq_some_iff.mp h
        simp only [Option.map_some, ih hrest]

/-- A text that has its null character is scanned without the bytes behind it. -/
theorem scan_terminated (format : List (Directive φ)) {text : List UInt8} (hnull : 0 ∈ text) :
    ∃ stored, scan format text = some stored := by
  induction format generalizing text with
  | nil => exact ⟨[], rfl⟩
  | cons directive format ih =>
    obtain ⟨r, hread, hmem⟩ := directive.read_terminated hnull
    rw [scan, hread]
    cases r with
    | none => exact ⟨[], rfl⟩
    | some part =>
      obtain ⟨stored, hstored⟩ := ih (hmem part rfl)
      exact ⟨_, by simp only [hstored, Option.map_some]; rfl⟩

/-- A text is scanned up to its null character. -/
theorem scan_null (format : List (Directive φ)) (text more : List UInt8) :
    scan format (text ++ 0 :: more) = scan format (text ++ [0]) := by
  obtain ⟨stored, hstored⟩ :=
    scan_terminated format (show 0 ∈ text ++ [0] from List.mem_append_right _ List.mem_cons_self)
  rw [hstored, List.append_cons]
  exact scan_append hstored more

end DasEdge.Library
