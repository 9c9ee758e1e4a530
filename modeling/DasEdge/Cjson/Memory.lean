import DasEdge.Cjson.RoundTrip

/-!
# The parser and its memory

The pointer of `parse_string` passes over the characters of an escape without a look at them. When
the escapes of a text are complete, the parser reads nothing behind the zero at its end and writes
nothing behind what it has allocated, and it comes to an end. When one is not, the pointer may pass
over the quote that ended the first loop.
-/

namespace DasEdge.Cjson

open DasEdge.Library

/-- Each backslash has a character behind it, and one with the letter `u` four hexadecimal digits. -/
def EscapesComplete : List UInt8 → Prop
  | [] => True
  | [c] => c ≠ 92
  | c :: d :: rest =>
    if c = 92 then
      (d = 117 → 4 ≤ rest.length ∧ ∀ h ∈ rest.take 4, (hexValue h).isSome) ∧ EscapesComplete rest
    else EscapesComplete (d :: rest)

/-- The memory from a pointer into such a text on. -/
def InText (behind memory : List UInt8) : Prop :=
  ∃ text, memory = text ++ 0 :: behind ∧ (∀ b ∈ text, b ≠ 0) ∧ EscapesComplete text

/-- A hexadecimal digit is no zero, no backslash and no quote. -/
theorem ne_of_hexValue {c : UInt8} (h : (hexValue c).isSome) : c ≠ 34 ∧ c ≠ 0 ∧ c ≠ 92 := by
  refine ⟨?_, ?_, ?_⟩ <;> rintro rfl <;> cases h

/-- Without a backslash in front the escapes are those of the rest. -/
theorem EscapesComplete.tail {c : UInt8} {text : List UInt8} (h : EscapesComplete (c :: text))
    (hc : c ≠ 92) : EscapesComplete text := by
  cases text with
  | nil => trivial
  | cons d text =>
    rw [EscapesComplete, if_neg hc] at h
    exact h

section InText

variable {behind memory : List UInt8}

/-- There is a character at the pointer. -/
theorem InText.cons (h : InText behind memory) : ∃ c rest, memory = c :: rest := by
  obtain ⟨text, rfl, -, -⟩ := h
  cases text with
  | nil => exact ⟨0, behind, rfl⟩
  | cons c text => exact ⟨c, text ++ 0 :: behind, rfl⟩

variable {c : UInt8} {rest : List UInt8} (h : InText behind (c :: rest))

include h

/-- Behind a character that neither ends the text nor begins an escape the text goes on. -/
theorem InText.tail (hnul : c ≠ 0) (hback : c ≠ 92) : InText behind rest := by
  obtain ⟨text, hlist, hclean, hcomplete⟩ := h
  cases text with
  | nil => exact absurd (List.cons.inj hlist).1 hnul
  | cons d text =>
    obtain ⟨rfl, rfl⟩ := List.cons.inj hlist
    exact ⟨text, rfl, (List.forall_mem_cons.mp hclean).2, hcomplete.tail hback⟩

/-- Behind a backslash there is a character, and the text goes on behind that. -/
theorem InText.escape (hback : c = 92) :
    ∃ d tail, rest = d :: tail ∧ InText behind tail ∧
      (d = 117 → ∃ digits tail', tail = digits ++ tail' ∧ digits.length = 4 ∧
        (∀ h ∈ digits, (hexValue h).isSome) ∧ InText behind tail') := by
  obtain ⟨text, hlist, hclean, hcomplete⟩ := h
  match text with
  | [] => exact absurd (hback.symm.trans (List.cons.inj hlist).1) (by decide)
  | [b] =>
    obtain ⟨rfl, -⟩ := List.cons.inj hlist
    exact absurd hback hcomplete
  | b :: d :: text =>
    obtain ⟨rfl, rfl⟩ := List.cons.inj hlist
    rw [EscapesComplete, if_pos hback] at hcomplete
    have hclean' := fun b hb => hclean b (List.mem_cons_of_mem _ (List.mem_cons_of_mem _ hb))
    refine ⟨d, text ++ 0 :: behind, rfl, ⟨text, rfl, hclean', hcomplete.2⟩, fun hd => ?_⟩
    obtain ⟨hlength, hdigits⟩ := hcomplete.1 hd
    refine ⟨text.take 4, text.drop 4 ++ 0 :: behind, ?_, by rw [List.length_take]; omega, hdigits,
      text.drop 4, rfl, fun b hb => hclean' b (List.mem_of_mem_drop hb), ?_⟩
    · rw [← List.append_assoc, List.take_append_drop]
    · have htail : ∀ (digits text : List UInt8), (∀ h ∈ digits, (hexValue h).isSome) →
          EscapesComplete (digits ++ text) → EscapesComplete text := by
        intro digits text hdigits htext
        induction digits with
        | nil => exact htext
        | cons h digits ih =>
          obtain ⟨hh, hdigits⟩ := List.forall_mem_cons.mp hdigits
          exact ih hdigits (htext.tail (ne_of_hexValue hh).2.2)
      refine htail (text.take 4) _ hdigits ?_
      rw [List.take_append_drop]
      exact hcomplete.2

end InText

/-- The parser has stayed in the text, and has not gone back. -/
def Within (behind memory : List UInt8) {α : Type} (r : ReadResult α) : Prop :=
  r.Keeps fun _ rest => InText behind rest ∧ rest.length ≤ memory.length

section Within

variable {behind memory : List UInt8} {α β : Type}

/-- A result in the text. -/
theorem within_ok (value : α) {rest : List UInt8} (h : InText behind rest)
    (hlength : rest.length ≤ memory.length) : Within behind memory (.ok value rest) := ⟨h, hlength⟩

/-- Readers in sequence stay in the text when each one does. -/
theorem Within.bind {r : ReadResult α} {next : α → List UInt8 → ReadResult β}
    (h : Within behind memory r)
    (hnext : ∀ value rest, InText behind rest → rest.length ≤ memory.length →
      Within behind rest (next value rest)) : Within behind memory (r.bind next) := by
  refine ReadResult.Keeps.bind h fun value rest hrest => ?_
  exact (hnext value rest hrest.1 hrest.2).mono fun _ _ hlast => ⟨hlast.1, hlast.2.trans hrest.2⟩

/-- From further on in the text. -/
theorem Within.of_le {r : ReadResult α} {memory' : List UInt8} (h : Within behind memory' r)
    (hlength : memory'.length ≤ memory.length) : Within behind memory r :=
  h.mono fun _ _ hrest => ⟨hrest.1, hrest.2.trans hlength⟩

/-- A byte of the text is read. -/
theorem within_read {memory' : List UInt8} (h : InText behind memory')
    {next : UInt8 → List UInt8 → ReadResult α}
    (hnext : ∀ c rest, memory' = c :: rest → InText behind (c :: rest) →
      Within behind memory (next c rest)) : Within behind memory (.read memory' next) := by
  obtain ⟨c, rest, rfl⟩ := h.cons
  exact hnext c rest rfl h

end Within

/-- A digit is no zero and no backslash. -/
theorem ne_of_isDigitByte {c : UInt8} (h : isDigitByte c = true) : c ≠ 0 ∧ c ≠ 92 := by
  constructor <;> rintro rfl <;> cases h

/-- A loop over digits. -/
theorem within_readDigits {behind memory : List UInt8} (h : InText behind memory) (n count : ℕ) :
    Within behind memory (readDigits n count memory) := by
  induction memory generalizing n count with
  | nil =>
    obtain ⟨c, rest, hlist⟩ := h.cons
    cases hlist
  | cons c rest ih =>
    rw [readDigits]
    split
    · next hdigit =>
      obtain ⟨hnul, hback⟩ := ne_of_isDigitByte hdigit
      exact (ih (h.tail hnul hback) _ _).of_le (Nat.le_succ _)
    · exact within_ok _ h (Nat.le_refl _)

section Number

variable {behind memory : List UInt8} (h : InText behind memory)

include h

/-- The sign of a number. -/
theorem within_readSign {sign : UInt8} (hsign : sign ≠ 0 ∧ sign ≠ 92) :
    Within behind memory (readSign sign memory) := by
  refine within_read h fun c rest hlist hread => ?_
  subst hlist
  split
  · next heq =>
    subst heq
    exact within_ok _ (h.tail hsign.1 hsign.2) (Nat.le_succ _)
  · exact within_ok _ h (Nat.le_refl _)

/-- The fractional part of a number. -/
theorem within_readFraction (n : ℕ) : Within behind memory (readFraction n memory) := by
  refine within_read h fun c rest hlist hread => ?_
  subst hlist
  split
  · next hpoint =>
    subst hpoint
    have hrest := h.tail (by decide) (by decide)
    refine within_read hrest fun d tail htail _ => ?_
    split
    · exact (within_readDigits hrest _ _).of_le (Nat.le_succ _)
    · exact within_ok _ h (Nat.le_refl _)
  · exact within_ok _ h (Nat.le_refl _)

/-- The exponent of a number. -/
theorem within_readExponent : Within behind memory (readExponent memory) := by
  refine within_read h fun c rest hlist hread => ?_
  subst hlist
  split
  · next he =>
    have hrest : InText behind rest := by
      refine h.tail ?_ ?_ <;> rintro rfl <;> exact absurd he (by decide)
    refine within_read hrest fun d digits hdigits _ => ?_
    subst hdigits
    have hsigned : Within behind (d :: digits)
        (readDigits 0 0 (if d = 43 ∨ d = 45 then digits else d :: digits)) := by
      split
      · next hd =>
        refine (within_readDigits (hrest.tail ?_ ?_) _ _).of_le (Nat.le_succ _) <;> rintro rfl <;>
          exact absurd hd (by decide)
      · exact within_readDigits hrest _ _
    exact (hsigned.bind fun _ _ hend _ => within_ok _ hend (Nat.le_refl _)).of_le (Nat.le_succ _)
  · exact within_ok _ h (Nat.le_refl _)

/-- A number. -/
theorem within_parseNumber : Within behind memory (parseNumber memory) := by
  refine (within_readSign h (by decide)).bind fun negative num hnum _ => ?_
  refine (within_readSign hnum (by decide)).bind fun _ num hnum _ => ?_
  refine Within.bind ?_ fun whole num hnum _ => ?_
  · refine within_read hnum fun c rest hlist _ => ?_
    split
    · exact within_readDigits hnum _ _
    · exact within_ok _ hnum (Nat.le_refl _)
  refine (within_readFraction hnum _).bind fun digits num hnum _ => ?_
  exact (within_readExponent hnum).bind fun _ _ hend _ => within_ok _ hend (Nat.le_refl _)

end Number

/-- Four digits are read as a number of sixteen bits. -/
theorem parseHex4_digits {digits : List UInt8} (h : ∀ c ∈ digits, (hexValue c).isSome) (n : ℕ)
    (rest : List UInt8) : ∃ uc, parseHex4 digits.length n (digits ++ rest) = some uc := by
  induction digits generalizing n with
  | nil => exact ⟨n, rfl⟩
  | cons c digits ih =>
    obtain ⟨hc, hdigits⟩ := List.forall_mem_cons.mp h
    obtain ⟨digit, hdigit⟩ := Option.isSome_iff_exists.mp hc
    obtain ⟨uc, huc⟩ := ih hdigits (16 * n + digit)
    refine ⟨uc, ?_⟩
    rw [List.length_cons, List.cons_append, parseHex4, hdigit]
    exact huc

/-- A character takes one to four bytes. -/
theorem length_utf8Bytes (uc : ℕ) : (utf8Bytes uc).length = utf8Length uc := by
  have hwrite : ∀ (mark n uc : ℕ) (out : List UInt8), (utf8Write mark n uc out).length =
      n + 1 + out.length := by
    intro mark n
    induction n with
    | zero =>
      intro uc out
      rw [utf8Write, List.length_cons]
      omega
    | succ n ih =>
      intro uc out
      rw [utf8Write, ih, List.length_cons]
      omega
  have hpos : 0 < utf8Length uc := by
    rw [utf8Length]
    split
    · decide
    split
    · decide
    split <;> decide
  rw [utf8Bytes, hwrite, List.length_nil]
  omega

/-- A character takes at most four bytes. -/
theorem length_utf8Bytes_le (uc : ℕ) : (utf8Bytes uc).length ≤ 4 := by
  rw [length_utf8Bytes, utf8Length]
  split
  · decide
  split
  · decide
  split <;> decide

/-- The first loop comes to an end. -/
theorem InText.stringLength {behind memory : List UInt8} (h : InText behind memory) :
    ∃ len, stringLength memory = some len := by
  induction hlength : memory.length using Nat.strongRecOn generalizing memory with
  | ind n ih =>
    obtain ⟨c, rest, rfl⟩ := h.cons
    rw [List.length_cons] at hlength
    by_cases hstop : c = 34 ∨ c = 0
    · cases rest with
      | nil => exact ⟨0, if_pos hstop⟩
      | cons d rest => exact ⟨0, if_pos hstop⟩
    by_cases hback : c = 92
    · obtain ⟨d, tail, rfl, htail, -⟩ := h.escape hback
      rw [List.length_cons] at hlength
      obtain ⟨len, hlen⟩ := ih tail.length (by omega) htail rfl
      refine ⟨len + 1, ?_⟩
      rw [Cjson.stringLength, if_neg hstop, if_pos hback, hlen, Option.map_some]
    · have hrest := h.tail (fun hnul => hstop (Or.inr hnul)) hback
      obtain ⟨len, hlen⟩ := ih rest.length (by omega) hrest rfl
      obtain ⟨d, tail, rfl⟩ := hrest.cons
      refine ⟨len + 1, ?_⟩
      rw [Cjson.stringLength, if_neg hstop, if_neg hback, hlen, Option.map_some]

/-- An escape stays in the text, and the first loop has counted what it writes and what follows. -/
def EscapeFits (behind ptr : List UInt8) (len : ℕ) (r : Option (List UInt8 × List UInt8)) : Prop :=
  ∃ bytes rest len', r = some (bytes, rest) ∧ InText behind rest ∧ rest.length ≤ ptr.length ∧
    stringLength rest = some len' ∧ bytes.length + len' ≤ len

/-- Four digits of a text are passed over by both loops. -/
theorem hexDigits_read {behind digits tail : List UInt8} (hlength : digits.length = 4)
    (hdigits : ∀ c ∈ digits, (hexValue c).isSome) (htail : InText behind tail) :
    (∃ uc, parseHex4 4 0 (digits ++ tail) = some uc) ∧ (digits ++ tail).drop 4 = tail ∧
      ∃ len, stringLength tail = some len ∧ stringLength (digits ++ tail) = some (4 + len) := by
  obtain ⟨uc, huc⟩ := parseHex4_digits hdigits 0 tail
  obtain ⟨len, hlen⟩ := htail.stringLength
  rw [hlength] at huc
  refine ⟨⟨uc, huc⟩, List.drop_left' hlength, len, hlen, ?_⟩
  rw [stringLength_append (fun c hc => ne_of_hexValue (hdigits c hc)) hlen, hlength]

/-- A code in hexadecimal digits, or a pair of them. -/
theorem unescapeUnicode_fits {behind digits tail : List UInt8} (hlength : digits.length = 4)
    (hdigits : ∀ c ∈ digits, (hexValue c).isSome) (htail : InText behind tail) {len : ℕ}
    (hlen : stringLength (digits ++ tail) = some len) :
    EscapeFits behind (digits ++ tail) len (unescapeUnicode (digits ++ tail)) := by
  obtain ⟨⟨uc, huc⟩, hdrop, len', hlen', hcount⟩ := hexDigits_read hlength hdigits htail
  obtain rfl : 4 + len' = len := Option.some.inj (hcount.symm.trans hlen)
  have hle : tail.length ≤ (digits ++ tail).length := by
    rw [List.length_append]
    omega
  have hnone : EscapeFits behind (digits ++ tail) (4 + len') (some ([], tail)) :=
    ⟨[], tail, len', rfl, htail, hle, hlen', by rw [List.length_nil]; omega⟩
  rw [unescapeUnicode, huc, Option.bind_some]
  simp only [hdrop]
  split
  · exact hnone
  split
  · obtain ⟨c, tail, rfl⟩ := htail.cons
    rw [List.getElem?_cons_zero, Option.bind_some]
    split
    · exact hnone
    -- the second half of a pair
    · next hback =>
      obtain ⟨d, tail, rfl, htail', hunicode⟩ := htail.escape (not_not.mp hback)
      rw [List.getElem?_cons_succ, List.getElem?_cons_zero, Option.bind_some]
      split
      · exact hnone
      · next hu =>
        obtain ⟨digits', tail', rfl, hlength', hdigits', htail''⟩ := hunicode (not_not.mp hu)
        obtain ⟨⟨uc2, huc2⟩, hdrop', len'', hlen'', hcount'⟩ := hexDigits_read hlength' hdigits' htail''
        have hsum : len' = 4 + len'' + 1 := by
          obtain rfl := not_not.mp hback
          rw [stringLength, if_neg (by decide), if_pos rfl, hcount', Option.map_some] at hlen'
          exact (Option.some.inj hlen').symm
        have hle' : tail'.length ≤ (digits ++ c :: d :: (digits' ++ tail')).length := by
          simp only [List.length_append, List.length_cons]
          omega
        have hdrop'' : (c :: d :: (digits' ++ tail')).drop 6 = tail' := hdrop'
        have hsecond : (c :: d :: (digits' ++ tail')).drop 2 = digits' ++ tail' := rfl
        rw [hsecond, huc2, Option.bind_some]
        simp only [hdrop'']
        split
        · exact ⟨[], tail', len'', rfl, htail'', hle', hlen'', by rw [List.length_nil]; omega⟩
        · exact ⟨_, tail', len'', rfl, htail'', hle', hlen'', by
            have hbytes := length_utf8Bytes_le (0x10000 + (((uc &&& 0x3FF) <<< 10) ||| (uc2 &&& 0x3FF)))
            omega⟩
  · exact ⟨_, tail, len', rfl, htail, hle, hlen', Nat.add_le_add_right (length_utf8Bytes_le uc) len'⟩

/-- An escape. -/
theorem unescape_fits {behind ptr : List UInt8} (h : InText behind (92 :: ptr)) {len : ℕ}
    (hlen : stringLength (92 :: ptr) = some len) : EscapeFits behind ptr len (unescape ptr) := by
  obtain ⟨d, tail, rfl, htail, hunicode⟩ := h.escape rfl
  obtain ⟨len', hlen'⟩ := htail.stringLength
  rw [stringLength, if_neg (by decide), if_pos rfl, hlen', Option.map_some] at hlen
  obtain rfl := Option.some.inj hlen
  have hone : ∀ b : UInt8, EscapeFits behind (d :: tail) (len' + 1) (some ([b], tail)) := fun b =>
    ⟨[b], tail, len', rfl, htail, Nat.le_succ _, hlen', by rw [List.length_singleton]; omega⟩
  rw [unescape]
  split
  · exact hone _
  split
  · exact hone _
  split
  · exact hone _
  split
  · exact hone _
  split
  · exact hone _
  split
  · next hu =>
    obtain ⟨digits, tail', rfl, hlength, hdigits, htail'⟩ := hunicode hu
    obtain ⟨bytes, rest, len'', hread, hrest, hle, hlen'', hfits⟩ :=
      unescapeUnicode_fits hlength hdigits htail' hlen'
    exact ⟨bytes, rest, len'', hread, hrest, hle.trans (Nat.le_succ _), hlen'',
      hfits.trans (Nat.le_succ _)⟩
  · exact hone _

/-- The second loop stays in the text and in what is allocated. -/
theorem within_parseChars {behind ptr : List UInt8} (h : InText behind ptr) {room fuel len : ℕ}
    {out : List UInt8} (hlen : stringLength ptr = some len) (hroom : out.length + len < room)
    (hfuel : ptr.length ≤ fuel) : Within behind ptr (parseChars room fuel ptr out) := by
  induction fuel generalizing ptr out len with
  | zero =>
    obtain ⟨c, rest, rfl⟩ := h.cons
    exact absurd hfuel (Nat.not_succ_le_zero _)
  | succ fuel ih =>
    obtain ⟨c, rest, rfl⟩ := h.cons
    rw [List.length_cons] at hfuel
    rw [parseChars, ReadResult.read_cons]
    split
    · next hstop =>
      rw [if_pos (by omega)]
      split
      · next hquote =>
        subst hquote
        exact within_ok _ (h.tail (by decide) (by decide)) (Nat.le_succ _)
      · exact within_ok _ h (Nat.le_refl _)
    next hstop =>
    have hfits : EscapeFits behind rest len (if c = 92 then unescape rest else some ([c], rest)) := by
      split
      · next hback =>
        subst hback
        exact unescape_fits h hlen
      · next hback =>
        have hrest := h.tail (fun hnul => hstop (Or.inr hnul)) hback
        obtain ⟨len', hlen'⟩ := hrest.stringLength
        obtain ⟨d, tail, rfl⟩ := hrest.cons
        rw [stringLength, if_neg hstop, if_neg hback, hlen', Option.map_some] at hlen
        obtain rfl := Option.some.inj hlen
        exact ⟨[c], d :: tail, len', rfl, hrest, Nat.le_refl _,
          hlen', by rw [List.length_singleton]; omega⟩
    obtain ⟨bytes, rest', len', hread, hrest', hle, hlen', hcount⟩ := hfits
    rw [hread]
    simp only
    rw [if_pos (by omega)]
    refine (ih hrest' hlen' ?_ (by omega)).of_le (hle.trans (Nat.le_succ _))
    rw [List.length_append]
    omega

section Value

variable {behind memory : List UInt8} (h : InText behind memory)

include h

/-- A string. -/
theorem within_parseString : Within behind memory (parseString memory) := by
  refine within_read h fun c ptr hlist hread => ?_
  subst hlist
  split
  · trivial
  · next hquote =>
    obtain rfl := not_not.mp hquote
    have hptr := h.tail (by decide) (by decide)
    obtain ⟨len, hlen⟩ := hptr.stringLength
    rw [hlen]
    have hchars : Within behind ptr (parseChars (len + 1) ptr.length ptr []) :=
      within_parseChars hptr hlen (by rw [List.length_nil]; omega) (Nat.le_refl _)
    exact (hchars.bind fun _ _ hrest _ => within_ok _ hrest (Nat.le_refl _)).of_le (Nat.le_succ _)

/-- Blanks are passed over within the text. -/
theorem inText_skip : InText behind (skip memory) ∧ (skip memory).length ≤ memory.length := by
  induction memory with
  | nil =>
    obtain ⟨c, rest, hlist⟩ := h.cons
    cases hlist
  | cons c rest ih =>
    by_cases hblank : c ≠ 0 ∧ c ≤ 32
    · have hskip : skip (c :: rest) = skip rest :=
        skip_blanks (List.forall_mem_singleton.mpr hblank) rest
      have hback : c ≠ 92 := fun hc => absurd (hc ▸ hblank.2) (by decide)
      obtain ⟨hrest, hle⟩ := ih (h.tail hblank.1 hback)
      rw [hskip]
      exact ⟨hrest, hle.trans (Nat.le_succ _)⟩
    · have hskip : skip (c :: rest) = c :: rest := by
        rw [skip, List.dropWhile_cons_of_neg]
        simpa using hblank
      rw [hskip]
      exact ⟨h, Nat.le_refl _⟩

/-- A word. -/
theorem within_parseWord {word : List UInt8} (hword : ∀ c ∈ word, c ≠ 0 ∧ c ≠ 92) (item : CJson)
    {next : ReadResult CJson} (hnext : Within behind memory next) :
    Within behind memory (parseWord word item memory next) := by
  have hstarts : ∃ r, startsWith word memory = some r ∧
      ∀ rest ∈ r, InText behind rest ∧ rest.length ≤ memory.length := by
    clear hnext
    induction word generalizing memory with
    | nil => exact ⟨some memory, rfl, fun rest hrest => by cases hrest; exact ⟨h, Nat.le_refl _⟩⟩
    | cons c word ih =>
      obtain ⟨hc, hletters⟩ := List.forall_mem_cons.mp hword
      obtain ⟨d, rest, rfl⟩ := h.cons
      rw [startsWith]
      split
      · next heq =>
        subst heq
        obtain ⟨r, hr, hrest⟩ := ih (h.tail hc.1 hc.2) hletters
        refine ⟨r, hr, fun rest' hrest' => ?_⟩
        obtain ⟨hin, hle⟩ := hrest rest' hrest'
        exact ⟨hin, hle.trans (Nat.le_succ _)⟩
      · exact ⟨none, rfl, fun _ hrest => by cases hrest⟩
  obtain ⟨r, hr, hrest⟩ := hstarts
  rw [parseWord, hr]
  cases r with
  | none => exact hnext
  | some rest =>
    obtain ⟨hin, hle⟩ := hrest rest rfl
    exact within_ok _ hin hle

end Value

/-- With this fuel the parser stays in a text of the length that the fuel is enough for. -/
structure StaysWithin (behind : List UInt8) (toInt : NumberText → Int32) (fuel : ℕ) : Prop where
  value : ∀ memory, InText behind memory → 2 * memory.length + 1 ≤ fuel →
    Within behind memory (parseValue toInt fuel memory)
  array : ∀ memory, InText behind memory → 2 * memory.length + 2 ≤ fuel →
    Within behind memory (parseArrayItems toInt fuel memory)
  object : ∀ memory, InText behind memory → 2 * memory.length + 2 ≤ fuel →
    Within behind memory (parseObjectItems toInt fuel memory)

section Step

variable {behind : List UInt8} {toInt : NumberText → Int32} {fuel : ℕ} {memory : List UInt8}

/-- The items of an array or an object, or none, behind the bracket that begins it. -/
theorem within_items {α : Type} {items : List UInt8 → ReadResult α} {none : CJson} {some : α → CJson}
    {c close : UInt8} {rest : List UInt8} (h : InText behind memory) (hlist : memory = c :: rest)
    (hc : c ≠ 0 ∧ c ≠ 92) (hclose : close ≠ 0 ∧ close ≠ 92)
    (hitems : ∀ memory, InText behind memory → 2 * memory.length + 2 ≤ fuel →
      Within behind memory (items memory))
    (hfuel : 2 * memory.length + 1 ≤ fuel + 1) :
    Within behind memory (.read (skip rest) fun d rest' =>
      if d = close then .ok none rest'
      else (items (skip rest)).bind fun items rest => .ok (some items) rest) := by
  subst hlist
  rw [List.length_cons] at hfuel
  obtain ⟨hskip, hle⟩ := inText_skip (h.tail hc.1 hc.2)
  refine within_read hskip fun d rest' htext hd => ?_
  split
  · next heq =>
    subst heq
    refine within_ok _ (hd.tail hclose.1 hclose.2) ?_
    have hlength := congrArg List.length htext
    rw [List.length_cons] at hlength ⊢
    omega
  · have hread := hitems _ hskip (by omega)
    exact (hread.bind fun _ _ hrest _ => within_ok _ hrest (Nat.le_refl _)).of_le
      (hle.trans (Nat.le_succ _))

/-- What follows an item: another one behind a comma, or the end. -/
theorem within_next {α : Type} {items : List UInt8 → ReadResult α} {one : α} {more : α → α}
    {close : UInt8}
    (h : InText behind memory) (hclose : close ≠ 0 ∧ close ≠ 92)
    (hitems : ∀ memory, InText behind memory → 2 * memory.length + 2 ≤ fuel →
      Within behind memory (items memory))
    (hfuel : 2 * memory.length ≤ fuel) :
    Within behind memory (.read (skip memory) fun c rest =>
      if c = 44 then (items rest).bind fun items rest => .ok (more items) rest
      else if c = close then .ok one rest
      else .fail) := by
  obtain ⟨hskip, hle⟩ := inText_skip h
  refine within_read hskip fun c rest htext hc => ?_
  have hlength := congrArg List.length htext
  rw [List.length_cons] at hlength
  split
  · next hcomma =>
    subst hcomma
    have hread := hitems _ (hc.tail (by decide) (by decide)) (by omega)
    exact (hread.bind fun _ _ hrest _ => within_ok _ hrest (Nat.le_refl _)).of_le (by omega)
  split
  · next heq =>
    subst heq
    exact within_ok _ (hc.tail hclose.1 hclose.2) (by omega)
  · trivial

variable (ih : StaysWithin behind toInt fuel) (h : InText behind memory)

include ih h

/-- A value, with one call more. -/
theorem StaysWithin.value_succ (hfuel : 2 * memory.length + 1 ≤ fuel + 1) :
    Within behind memory (parseValue toInt (fuel + 1) memory) := by
  have hclean : ∀ word : List UInt8, word.all (fun c => decide (c ≠ 0 ∧ c ≠ 92)) = true →
      ∀ c ∈ word, c ≠ 0 ∧ c ≠ 92 := fun _ hall c hc => of_decide_eq_true (List.all_eq_true.mp hall c hc)
  have hnull := hclean (bytesOf "null") (by decide)
  have hfalse := hclean (bytesOf "false") (by decide)
  have htrue := hclean (bytesOf "true") (by decide)
  rw [parseValue]
  refine within_parseWord h hnull _ (within_parseWord h hfalse _ (within_parseWord h htrue _ ?_))
  refine within_read h fun c rest hlist hread => ?_
  split
  · exact (within_parseString h).bind fun _ _ hrest _ => within_ok _ hrest (Nat.le_refl _)
  split
  · exact (within_parseNumber h).bind fun _ _ hrest _ => within_ok _ hrest (Nat.le_refl _)
  split
  · next hc => exact within_items h hlist (by rw [hc]; decide) (by decide) ih.array hfuel
  split
  · next hc => exact within_items h hlist (by rw [hc]; decide) (by decide) ih.object hfuel
  · trivial

/-- The items of an array, with one call more. -/
theorem StaysWithin.array_succ (hfuel : 2 * memory.length + 2 ≤ fuel + 1) :
    Within behind memory (parseArrayItems toInt (fuel + 1) memory) := by
  obtain ⟨hskip, hle⟩ := inText_skip h
  rw [parseArrayItems]
  refine (Within.bind (ih.value _ hskip (by omega)) fun child rest hrest hle' => ?_).of_le hle
  exact within_next hrest (by decide) ih.array (by omega)

/-- The items of an object, with one call more. -/
theorem StaysWithin.object_succ (hfuel : 2 * memory.length + 2 ≤ fuel + 1) :
    Within behind memory (parseObjectItems toInt (fuel + 1) memory) := by
  obtain ⟨hskip, hle⟩ := inText_skip h
  rw [parseObjectItems]
  refine (Within.bind (within_parseString hskip) fun key rest hrest hkey => ?_).of_le hle
  obtain ⟨hcolons, hcolonsle⟩ := inText_skip hrest
  refine within_read hcolons fun c tail htext hc => ?_
  have hlength := congrArg List.length htext
  rw [List.length_cons] at hlength
  split
  · trivial
  next hcolon =>
  obtain rfl := not_not.mp hcolon
  obtain ⟨hvalues, hvaluesle⟩ := inText_skip (hc.tail (by decide) (by decide))
  refine (Within.bind (ih.value _ hvalues (by omega)) fun child rest' hrest' hvalue =>
    ?_).of_le (by omega)
  exact within_next hrest' (by decide) ih.object (by omega)

end Step

/-- The parser stays in every text that the fuel is enough for. -/
theorem staysWithin (behind : List UInt8) (toInt : NumberText → Int32) (fuel : ℕ) :
    StaysWithin behind toInt fuel := by
  induction fuel with
  | zero =>
    exact ⟨fun _ _ h => absurd h (Nat.not_succ_le_zero _),
      fun _ _ h => absurd h (Nat.not_succ_le_zero _),
      fun _ _ h => absurd h (Nat.not_succ_le_zero _)⟩
  | succ fuel ih =>
    exact ⟨fun _ h hfuel => ih.value_succ h hfuel, fun _ h hfuel => ih.array_succ h hfuel,
      fun _ h hfuel => ih.object_succ h hfuel⟩

/-- A text whose escapes are complete is parsed or refused: no byte behind its zero is read, no byte
behind what is allocated for a string is written, and the calls come to an end. -/
theorem cJSONParse_stays (toInt : NumberText → Int32) {text : List UInt8} (hclean : ∀ b ∈ text, b ≠ 0)
    (hcomplete : EscapesComplete text) (behind : List UInt8) :
    cJSONParse toInt (text ++ 0 :: behind) = .fail ∨
      ∃ item rest, cJSONParse toInt (text ++ 0 :: behind) = .ok item (rest ++ 0 :: behind) := by
  have h : InText behind (text ++ 0 :: behind) := ⟨text, rfl, hclean, hcomplete⟩
  obtain ⟨hskip, hle⟩ := inText_skip h
  have hwithin :=
    (staysWithin behind toInt (2 * (text ++ 0 :: behind).length + 1)).value _ hskip (by omega)
  rw [← cJSONParse] at hwithin
  cases hparse : cJSONParse toInt (text ++ 0 :: behind) with
  | ok item rest =>
    rw [hparse] at hwithin
    obtain ⟨⟨rest', rfl, -⟩, -⟩ := hwithin
    exact Or.inr ⟨item, rest', rfl⟩
  | fail => exact Or.inl rfl
  | fault =>
    rw [hparse] at hwithin
    exact hwithin.elim
  | spent =>
    rw [hparse] at hwithin
    exact hwithin.elim

/-- A text with a pair of escapes and blanks is read up to its zero. -/
theorem cJSONParse_stays_pair :
    cJSONParse cutToInt (bytesOf "[ \"\\ud83d\\ude00\" ] " ++ 0 :: [255]) = .fail ∨
      ∃ item rest, cJSONParse cutToInt (bytesOf "[ \"\\ud83d\\ude00\" ] " ++ 0 :: [255]) =
        .ok item (rest ++ 0 :: [255]) := by
  have hclean : (bytesOf "[ \"\\ud83d\\ude00\" ] ").all (fun b => decide (b ≠ 0)) = true := by decide
  refine cJSONParse_stays cutToInt
    (fun b hb => of_decide_eq_true (List.all_eq_true.mp hclean b hb)) ?_ [255]
  have hbytes : bytesOf "[ \"\\ud83d\\ude00\" ] " =
      [91, 32, 34, 92, 117, 100, 56, 51, 100, 92, 117, 100, 101, 48, 48, 34, 32, 93, 32] := by decide
  rw [hbytes]
  simp [EscapesComplete, hexValue]

end DasEdge.Cjson
