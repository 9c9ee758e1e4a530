import DasEdge.Expression.EzCustomCalls
import DasEdge.Library.Numerals

/-!
# Number tokens

The tokenizer takes the characters of a number one by one, and `sscanf` reads a copy of 32 characters from
the first digit on. The copy has a null character only where the text ends before, and `sscanf` does not
stop where the token does: it reads exponents, and behind hexadecimal digits a fraction, and it stops at
a second point.
-/

namespace DasEdge.Expression

open DasEdge.Library EzTokenizer

/-- The byte of a character. Those of a text are bytes. -/
def byteOf (c : Char) : UInt8 := (min c.toNat 255).toUInt8

/-- `number` after `strncpy(number, tkz->p, sizeof(number))`. -/
def numberBuffer (text : List Char) : List UInt8 := ((text.take 32).map byteOf ++ List.replicate 32 0).take 32

/-- The number that `sscanf(number, "%lf", &d)` stores, if it stores one. -/
def sscanfNumber (number : List Char) : Option ℚ :=
  (scan [Directive.float ()] (numberBuffer number)).bind fun stored =>
    stored.head?.bind fun item => spelledNumber item.2

/-- What a number token gets, with the `double` nearest to a number, and `d` as it is before. -/
def ezScanOf {V : Type} (round : ℚ → V) (d nan : V) : EzScan V where
  sscanf number := ((sscanfNumber number).map round).getD d
  nan := nan

/-- The text at a place, up to its null character. -/
def textFrom (line : List Char) (p : ℕ) : List Char := (line.drop p).takeWhile (· ≠ '\x00')

/-- The characters that a number token takes: those up to the cursor afterwards. -/
def numberTaken (line : List Char) (p : ℕ) : List Char :=
  (line.drop p).take ((({ line := line, p := p, actualNumber := () } : EzTokenizer Unit).parseNumber
    ⟨fun _ => (), ()⟩).2.p - p)

/-- Whatever doubles are, a number token at a place has the value of a number. -/
def NumberTokenIs (line : List Char) (p : ℕ) (q : ℚ) : Prop :=
  ∀ (V : Type) (round : ℚ → V) (d nan : V) (tkz : EzTokenizer V), tkz.line = line → tkz.p = p →
    (tkz.parseNumber (ezScanOf round d nan)).2.actualNumber = round q

/-- The value of a number token is that of the number which the characters that it takes spell, and the
copy that is read ends with a null character. -/
structure NumberTokenOk (line : List Char) (p : ℕ) : Prop where
  terminated : 0 ∈ numberBuffer (textFrom line p)
  value : ∃ q, spelledNumber ((numberTaken line p).map byteOf) = some q ∧ NumberTokenIs line p q

/-- A number begins with `0x`. -/
def hexNumber (text : List Char) : Bool :=
  decide (text.head? = some '0' ∧ (text[1]? = some 'x' ∨ text[1]? = some 'X'))

/-- The characters of a number at the front of a text. -/
def numberLexeme (text : List Char) : List Char :=
  if hexNumber text then text.take 2 ++ (text.drop 2).takeWhile isXdigit
  else text.takeWhile fun c => isDigit c || c = '.'

/-- What the copy has behind the number. -/
def numberFollowing (text : List Char) : List UInt8 := (numberBuffer text).drop (numberLexeme text).length

/-- The text ends before the copy does. A hexadecimal number has a digit, and behind it there is no
fraction or one of zeros, and no exponent or one that changes nothing. A decimal number has at most one
point, and behind it there is no exponent or one that changes nothing. -/
structure NumberApart (text : List Char) : Prop where
  short : text.length < 32
  hex : hexNumber text = true → ((text.drop 2).takeWhile isXdigit ≠ []) ∧
    (∀ c ∈ hexFraction (numberFollowing text), c = 48) ∧
      HarmlessExponent 112 (∀ c ∈ (text.drop 2).takeWhile isXdigit, c = '0')
        (behindHexFraction (numberFollowing text))
  decimal : hexNumber text = false → (numberLexeme text).count '.' ≤ 1 ∧
    HarmlessExponent 101 (∀ c ∈ numberLexeme text, c = '0' ∨ c = '.') (numberFollowing text)

/-- The code of a byte. -/
theorem byteOf_toNat (c : Char) : (byteOf c).toNat = min c.toNat 255 := by
  have hlt : min c.toNat 255 < UInt8.size := Nat.lt_succ_of_le (Nat.min_le_right _ _)
  rw [byteOf, Nat.toUInt8_eq, UInt8.toNat_ofNat_of_lt' hlt]

/-- A byte below the highest one is that of its character only. -/
theorem byteOf_eq_iff {c d : Char} {b : UInt8} (hd : byteOf d = b) (hlt : d.toNat < 255) :
    byteOf c = b ↔ c = d := by
  rw [← hd, ← UInt8.toNat_inj, byteOf_toNat, byteOf_toNat]
  refine ⟨fun h => ?_, fun h => by rw [h]⟩
  rw [← Char.ofNat_toNat c, ← Char.ofNat_toNat d]
  congr 1
  omega

/-- `ez_isdigit` and `isdigit` agree. -/
theorem isDigitByte_byteOf (c : Char) : isDigitByte (byteOf c) = isDigit c := by
  have hlow : (48 : UInt8).toNat = 48 := rfl
  have hhigh : (57 : UInt8).toNat = 57 := rfl
  rw [isDigitByte, isDigit, ← Bool.decide_and, decide_eq_decide, UInt8.le_iff_toNat_le,
    UInt8.le_iff_toNat_le, byteOf_toNat, hlow, hhigh]
  omega

/-- The code of a letter made small. -/
theorem toLower_toNat (b : UInt8) :
    (toLower b).toNat = if 65 ≤ b.toNat ∧ b.toNat ≤ 90 then b.toNat + 32 else b.toNat := by
  have hrange : 65 ≤ b ∧ b ≤ 90 ↔ 65 ≤ b.toNat ∧ b.toNat ≤ 90 := by
    rw [UInt8.le_iff_toNat_le, UInt8.le_iff_toNat_le]
    rfl
  have hshift : (32 : UInt8).toNat = 32 := rfl
  by_cases hletter : 65 ≤ b ∧ b ≤ 90
  · have hle := (hrange.mp hletter).2
    rw [toLower, if_pos hletter, if_pos (hrange.mp hletter), UInt8.toNat_add, hshift, Nat.mod_eq_of_lt (by omega)]
  · rw [toLower, if_neg hletter, if_neg fun h => hletter (hrange.mpr h)]

/-- `ez_isxdigit` and `isxdigit` agree. -/
theorem isHexDigitByte_byteOf (c : Char) : isHexDigitByte (byteOf c) = isXdigit c := by
  have hlow : (97 : UInt8).toNat = 97 := rfl
  have hhigh : (102 : UInt8).toNat = 102 := rfl
  rw [isHexDigitByte, isXdigit, isDigitByte_byteOf, Bool.or_assoc]
  congr 1
  rw [← Bool.decide_and, ← Bool.decide_and, ← Bool.decide_or, decide_eq_decide, UInt8.le_iff_toNat_le,
    UInt8.le_iff_toNat_le, toLower_toNat, byteOf_toNat, hlow, hhigh]
  split <;> omega

/-- The text behind the characters of a number is behind their bytes in the copy. -/
theorem numberBuffer_eq {text : List Char} (hshort : text.length < 32) :
    numberBuffer text = text.map byteOf ++ 0 :: List.replicate (31 - text.length) 0 := by
  have htake : text.take 32 = text := List.take_of_length_le (Nat.le_of_lt hshort)
  have hzeros : List.replicate (32 - text.length) (0 : UInt8) = 0 :: List.replicate (31 - text.length) 0 := by
    rw [← List.replicate_succ]
    congr 1
    omega
  rw [numberBuffer, htake, List.take_append, List.length_map,
    List.take_of_length_le (by rw [List.length_map]; omega), List.take_replicate,
    Nat.min_eq_left (by omega), hzeros]

/-- The copy ends with a null character when the text ends before it does. -/
theorem terminated_iff {text : List Char} (hnul : '\x00' ∉ text) : 0 ∈ numberBuffer text ↔ text.length < 32 := by
  refine ⟨fun h => ?_, fun hshort => ?_⟩
  · by_contra hlong
    have hlength : ((text.take 32).map byteOf).length = 32 := by
      rw [List.length_map, List.length_take]
      omega
    rw [numberBuffer, List.take_left' hlength, List.mem_map] at h
    obtain ⟨c, hc, hzero⟩ := h
    have hc0 : c = '\x00' := (byteOf_eq_iff rfl (by decide)).mp hzero
    exact hnul (hc0 ▸ List.mem_of_mem_take hc)
  · rw [numberBuffer_eq hshort]
    exact List.mem_append_right _ List.mem_cons_self

/-- The number is at the front of the text. -/
theorem numberLexeme_prefix (text : List Char) : numberLexeme text <+: text := by
  rw [numberLexeme]
  split
  · obtain ⟨more, hmore⟩ := List.takeWhile_prefix isXdigit (l := text.drop 2)
    exact ⟨more, by rw [List.append_assoc, hmore, List.take_append_drop]⟩
  · exact List.takeWhile_prefix _

/-- The copy is the number and what follows: the rest of the text, and null characters. -/
theorem numberFollowing_eq {text : List Char} (hshort : text.length < 32) : ∃ more zeros,
    text = numberLexeme text ++ more ∧ numberFollowing text = more.map byteOf ++ 0 :: zeros ∧
      numberBuffer text = (numberLexeme text).map byteOf ++ numberFollowing text := by
  obtain ⟨more, hmore⟩ := numberLexeme_prefix text
  have hbytes : text.map byteOf = (numberLexeme text).map byteOf ++ more.map byteOf := by
    rw [← List.map_append, hmore]
  have hfollowing : numberFollowing text =
      more.map byteOf ++ 0 :: List.replicate (31 - text.length) 0 := by
    rw [numberFollowing, numberBuffer_eq hshort, hbytes, List.append_assoc,
      List.drop_left' (List.length_map _)]
  exact ⟨more, _, hmore.symm, hfollowing,
    by rw [hfollowing, numberBuffer_eq hshort, hbytes, List.append_assoc]⟩

section Token

variable {V : Type} {tkz : EzTokenizer V} {c : Char} {text : List Char}

/-- A character at the cursor that is not null is the first of the rest. -/
theorem ch_eq_iff {d : Char} (hd : d ≠ '\x00') : tkz.ch 0 = d ↔ tkz.rest.head? = some d := by
  constructor
  · intro hch
    obtain ⟨-, text, hrest⟩ := rest_of_ch (hch ▸ hd)
    rw [hrest, hch]
    rfl
  · intro hhead
    obtain ⟨text, hrest⟩ := List.head?_eq_some_iff.mp hhead
    exact (ch_of_rest hrest).1

/-- The characters of a number token are those at the front of the text. -/
theorem parseNumber_eq (scan : EzScan V) (hrest : tkz.rest = c :: text) :
    (tkz.parseNumber scan).2 = { tkz.advance (numberLexeme (c :: text)).length with
      actualNumber := scan.sscanf ((c :: text).take 32) } := by
  have hnext : (tkz.advance 1).rest = text := rest_advance (show tkz.rest = [c] ++ text from hrest)
  have hx (d : Char) (hd : d ≠ '\x00') : tkz.ch 1 = d ↔ (c :: text)[1]? = some d := by
    have hch : (tkz.advance 1).ch 0 = d ↔ text.head? = some d := by rw [ch_eq_iff hd, hnext]
    rw [List.getElem?_cons_succ, ← List.head?_eq_getElem?]
    exact hch
  have hhex : (tkz.ch 0 = '0' ∧ (tkz.ch 1 = 'x' ∨ tkz.ch 1 = 'X')) ↔ hexNumber (c :: text) = true := by
    rw [ch_eq_iff (by decide), hrest, hx 'x' (by decide), hx 'X' (by decide), hexNumber, decide_eq_true_eq]
  rw [parseNumber, hrest]
  by_cases h : hexNumber (c :: text) = true
  · obtain ⟨d, text', rfl⟩ : ∃ d text', text = d :: text' := by
      cases text with
      | nil => simp [hexNumber] at h
      | cons d text' => exact ⟨d, text', rfl⟩
    have hbehind : (tkz.advance 2).rest = text' := rest_advance (show tkz.rest = [c, d] ++ text' from hrest)
    rw [if_pos (hhex.mpr h), hbehind, numberLexeme, if_pos h, List.length_append]
    rfl
  · rw [if_neg fun hch => h (hhex.mp hch), numberLexeme, if_neg h]

end Token

/-- A number token takes the characters at the front of the text. -/
theorem numberTaken_eq {line : List Char} {p : ℕ} {c : Char} {text : List Char}
    (htext : textFrom line p = c :: text) : numberTaken line p = numberLexeme (c :: text) := by
  have hrest : ({ line := line, p := p, actualNumber := () } : EzTokenizer Unit).rest = c :: text := htext
  obtain ⟨more, hmore⟩ := numberLexeme_prefix (c :: text)
  obtain ⟨behind, hbehind⟩ : textFrom line p <+: line.drop p := List.takeWhile_prefix _
  rw [numberTaken, parseNumber_eq _ hrest]
  simp only [advance, Nat.add_sub_cancel_left]
  rw [← hbehind, htext, ← hmore, List.append_assoc, hmore, List.take_left]

/-- A number token has a value, whatever doubles are, when `sscanf` stores it. -/
theorem numberTokenIs_iff {line : List Char} {p : ℕ} {c : Char} {text : List Char}
    (htext : textFrom line p = c :: text) (q : ℚ) :
    NumberTokenIs line p q ↔ sscanfNumber ((c :: text).take 32) = some q := by
  constructor
  · intro h
    have hrest : ({ line := line, p := p, actualNumber := 0 } : EzTokenizer ℚ).rest = c :: text := htext
    have hvalue := h ℚ id (q + 1) 0 { line := line, p := p, actualNumber := 0 } rfl rfl
    rw [parseNumber_eq _ hrest] at hvalue
    cases hscan : sscanfNumber ((c :: text).take 32) with
    | none =>
      simp only [ezScanOf, hscan, Option.map_none, Option.getD_none, id_eq] at hvalue
      exact absurd hvalue (by simp)
    | some r =>
      simp only [ezScanOf, hscan, Option.map_some, Option.getD_some, id_eq] at hvalue
      rw [hvalue]
  · rintro hscan V round d nan tkz rfl rfl
    rw [parseNumber_eq _ htext]
    simp only [ezScanOf, hscan, Option.map_some, Option.getD_some]

/-- What is behind the characters that pass a test begins with one that does not. -/
theorem head_behind {test : Char → Bool} {text more : List Char} (hmore : text = text.takeWhile test ++ more)
    {c : Char} (hc : more.head? = some c) : test c = false := by
  have hsame : more = text.dropWhile test :=
    List.append_cancel_left (hmore.symm.trans List.takeWhile_append_dropWhile.symm)
  have hhead := List.head?_dropWhile_not test text
  rw [← hsame, hc] at hhead
  simpa using hhead

/-- All characters are one when all bytes are. -/
theorem forall_byteOf {chars : List Char} {d : Char} {b : UInt8} (hd : byteOf d = b) (hlt : d.toNat < 255) :
    (∀ x ∈ chars.map byteOf, x = b) ↔ ∀ c ∈ chars, c = d := by
  rw [List.forall_mem_map]
  exact forall₂_congr fun c _ => byteOf_eq_iff hd hlt

/-- The head of what follows: a character of the text, or the null character. -/
theorem head_following {more : List Char} {zeros : List UInt8} {b : UInt8}
    (hb : (more.map byteOf ++ 0 :: zeros).head? = some b) :
    (∃ c, more.head? = some c ∧ b = byteOf c) ∨ b = 0 := by
  cases more with
  | nil => exact Or.inr (Option.some.inj hb).symm
  | cons c more => exact Or.inl ⟨c, rfl, (Option.some.inj hb).symm⟩

/-- A hexadecimal number in the copy. -/
theorem hexToken_iff {text : List Char} (hshort : text.length < 32) (hhex : hexNumber text = true) :
    (∃ q, spelledNumber ((numberLexeme text).map byteOf) = some q ∧
      numberFrom .start {} (numberBuffer text) = some q) ↔ NumberApart text := by
  obtain ⟨more, zeros, hmore, hfollowing, hbuffer⟩ := numberFollowing_eq hshort
  obtain ⟨x, rest, rfl, hx⟩ : ∃ x rest, text = '0' :: x :: rest ∧ (x = 'x' ∨ x = 'X') := by
    obtain ⟨hfirst, hsecond⟩ := of_decide_eq_true hhex
    match text, hfirst, hsecond with
    | [_], _, hsecond => simp at hsecond
    | c :: x :: rest, hfirst, hsecond =>
      exact ⟨x, rest, by rw [Option.some.inj hfirst], hsecond.imp Option.some.inj Option.some.inj⟩
  have hlexeme : numberLexeme ('0' :: x :: rest) = '0' :: x :: rest.takeWhile isXdigit := by
    rw [numberLexeme, if_pos hhex]
    rfl
  have hletter : toLower (byteOf x) = 120 := by rcases hx with rfl | rfl <;> rfl
  have hdigits : ∀ b ∈ (rest.takeWhile isXdigit).map byteOf, isHexDigitByte b = true := by
    rw [List.forall_mem_map]
    exact fun c hc => (isHexDigitByte_byteOf c).trans (List.mem_takeWhile_imp hc)
  have hsplit : rest = rest.takeWhile isXdigit ++ more := by
    rw [hlexeme] at hmore
    simpa using hmore
  have hbehind : ∀ b, (numberFollowing ('0' :: x :: rest)).head? = some b → isHexDigitByte b = false := by
    intro b hb
    rw [hfollowing] at hb
    rcases head_following hb with ⟨c, hc, rfl⟩ | rfl
    · rw [isHexDigitByte_byteOf, head_behind hsplit hc]
    · rfl
  have hnull : 0 ∈ numberFollowing ('0' :: x :: rest) := by
    rw [hfollowing]
    exact List.mem_append_right _ List.mem_cons_self
  have hzero : (∀ b ∈ (rest.takeWhile isXdigit).map byteOf, b = 48) ↔ ∀ c ∈ rest.takeWhile isXdigit, c = '0' :=
    forall_byteOf rfl (by decide)
  have hnumber := hexNumber_iff hletter hdigits hbehind hnull
  rw [HarmlessExponent.congr hzero, ne_eq, List.map_eq_nil_iff] at hnumber
  rw [hbuffer, hlexeme]
  refine hnumber.trans ⟨fun h => ⟨hshort, fun _ => h, fun hno => ?_⟩, fun h => h.hex hhex⟩
  rw [hhex] at hno
  cases hno

/-- A letter that is an `x` when made small. -/
theorem toLower_eq_x {c : Char} (h : toLower (byteOf c) = 120) : c = 'x' ∨ c = 'X' := by
  have hcode := congrArg UInt8.toNat h
  have hx : (120 : UInt8).toNat = 120 := rfl
  rw [toLower_toNat, byteOf_toNat, hx] at hcode
  have hcases : c.toNat = 120 ∨ c.toNat = 88 := by split at hcode <;> omega
  rcases hcases with hc | hc
  · exact Or.inl (by rw [← Char.ofNat_toNat c, hc])
  · exact Or.inr (by rw [← Char.ofNat_toNat c, hc])

/-- A decimal number in the copy. -/
theorem decimalToken_iff {c : Char} {text : List Char} (hc : isDigit c = true)
    (hshort : (c :: text).length < 32) (hhex : hexNumber (c :: text) = false) :
    (∃ q, spelledNumber ((numberLexeme (c :: text)).map byteOf) = some q ∧
      numberFrom .start {} (numberBuffer (c :: text)) = some q) ↔ NumberApart (c :: text) := by
  obtain ⟨more, zeros, hmore, hfollowing, hbuffer⟩ := numberFollowing_eq hshort
  have hlexeme : numberLexeme (c :: text) = (c :: text).takeWhile fun c => isDigit c || c = '.' := by
    rw [numberLexeme, if_neg (by simp [hhex])]
  have hpoint (d : Char) : byteOf d = 46 ↔ d = '.' := byteOf_eq_iff rfl (by decide)
  have hchars : ∀ b ∈ (numberLexeme (c :: text)).map byteOf, isDigitByte b = true ∨ b = 46 := by
    rw [List.forall_mem_map, hlexeme]
    intro d hd
    rw [isDigitByte_byteOf, hpoint]
    simpa using List.mem_takeWhile_imp hd
  have hfirst : ∃ b rest, (numberLexeme (c :: text)).map byteOf = b :: rest ∧ isDigitByte b = true := by
    rw [hlexeme, List.takeWhile_cons_of_pos (by simp [hc]), List.map_cons]
    exact ⟨_, _, rfl, (isDigitByte_byteOf c).trans hc⟩
  have hbehind : ∀ b, (numberFollowing (c :: text)).head? = some b → isDigitByte b = false ∧ b ≠ 46 ∧
      ((numberLexeme (c :: text)).map byteOf = [48] → toLower b ≠ 120) := by
    intro b hb
    rw [hfollowing] at hb
    rcases head_following hb with ⟨d, hd, rfl⟩ | rfl
    · have hstop := head_behind (hlexeme ▸ hmore) hd
      rw [Bool.or_eq_false_iff, decide_eq_false_iff_not] at hstop
      refine ⟨(isDigitByte_byteOf d).trans hstop.1, fun h => hstop.2 ((hpoint d).mp h), fun hzero hx => ?_⟩
      obtain ⟨e, he, hbyte⟩ := List.map_eq_singleton_iff.mp hzero
      obtain rfl : e = '0' := (byteOf_eq_iff rfl (by decide)).mp hbyte
      rw [he] at hmore
      obtain ⟨rfl, rfl⟩ := List.cons_eq_cons.mp hmore
      rw [hexNumber, decide_eq_false_iff_not] at hhex
      rw [List.head?_eq_getElem?] at hd
      rcases toLower_eq_x hx with rfl | rfl
      · exact hhex ⟨rfl, Or.inl hd⟩
      · exact hhex ⟨rfl, Or.inr hd⟩
    · exact ⟨rfl, by decide, fun _ => by decide⟩
  have hnull : 0 ∈ numberFollowing (c :: text) := by
    rw [hfollowing]
    exact List.mem_append_right _ List.mem_cons_self
  have hcount : ((numberLexeme (c :: text)).map byteOf).count 46 = (numberLexeme (c :: text)).count '.' := by
    rw [List.count, List.countP_map]
    exact List.countP_congr fun d _ => by simp [hpoint]
  have hzero : (∀ b ∈ (numberLexeme (c :: text)).map byteOf, b = 48 ∨ b = 46) ↔
      ∀ d ∈ numberLexeme (c :: text), d = '0' ∨ d = '.' := by
    rw [List.forall_mem_map]
    exact forall₂_congr fun d _ => or_congr (byteOf_eq_iff rfl (by decide)) (hpoint d)
  have hnumber := decimalNumber_iff hchars hfirst hbehind hnull
  rw [HarmlessExponent.congr hzero, hcount] at hnumber
  rw [hbuffer]
  refine hnumber.trans ⟨fun h => ⟨hshort, fun hyes => ?_, fun _ => h⟩, fun h => h.decimal hhex⟩
  rw [hhex] at hyes
  cases hyes

end DasEdge.Expression
