import DasEdge.Cjson.Parse
import Mathlib.Data.List.DropRight
import Mathlib.Data.List.TakeWhile
import Mathlib.Algebra.Order.Ring.Int

/-!
# What is printed is read back

Values are printed in one line or over several, with tabs. Either text is read back as the value it
was printed from, as far as C strings can hold the value: the characters of its texts are bytes, and
none of them is a zero.
-/

namespace DasEdge.Cjson

open DasEdge.Library

/-- Tabs, when the text is formatted. -/
def tabs (fmt : Bool) (n : ℕ) : List UInt8 := if fmt then List.replicate n 9 else []

/-- A character that only a formatted text has. -/
def whenFmt (fmt : Bool) (c : UInt8) : List UInt8 := if fmt then [c] else []

mutual

/-- `print_value`; a number is printed as the integer that is kept of it. -/
def printValue (fmt : Bool) (depth : ℕ) : CJson → List UInt8
  | .null => bytesOf "null"
  | .bool true => bytesOf "true"
  | .bool false => bytesOf "false"
  | .number n => bytesOf (toString n.toInt)
  | .string s => printString s
  | .array items => [91] ++ printArrayItems fmt (depth + 1) items ++ [93]
  | .object [] => [123] ++ whenFmt fmt 10 ++ tabs fmt (depth - 1) ++ [125]
  | .object (item :: items) =>
    [123] ++ whenFmt fmt 10 ++ printObjectItems fmt (depth + 1) (item :: items) ++
      tabs fmt depth ++ [125]

/-- The items of `print_array`. -/
def printArrayItems (fmt : Bool) (depth : ℕ) : List CJson → List UInt8
  | [] => []
  | [item] => printValue fmt depth item
  | item :: items =>
    printValue fmt depth item ++ [44] ++ whenFmt fmt 32 ++ printArrayItems fmt depth items

/-- The items of `print_object`. -/
def printObjectItems (fmt : Bool) (depth : ℕ) : List (String × CJson) → List UInt8
  | [] => []
  | [(key, item)] =>
    tabs fmt depth ++ printString key ++ [58] ++ whenFmt fmt 9 ++ printValue fmt depth item ++
      whenFmt fmt 10
  | (key, item) :: items =>
    tabs fmt depth ++ printString key ++ [58] ++ whenFmt fmt 9 ++ printValue fmt depth item ++ [44] ++
      whenFmt fmt 10 ++ printObjectItems fmt depth items

end

mutual

/-- Without a format the depth does not matter. -/
theorem printValue_unformatted (depth : ℕ) :
    ∀ item : CJson, printValue false depth item = item.printUnformatted
  | .null => rfl
  | .bool true => rfl
  | .bool false => rfl
  | .number _ => rfl
  | .string _ => rfl
  | .array items => by
    rw [printValue, CJson.printUnformatted, printArrayItems_unformatted (depth + 1) items]
  | .object [] => rfl
  | .object (item :: items) => by
    rw [printValue, CJson.printUnformatted, printObjectItems_unformatted (depth + 1) (item :: items)]
    simp only [whenFmt, tabs, Bool.false_eq_true, if_false, List.append_nil]

/-- `printValue_unformatted` for the items of an array. -/
theorem printArrayItems_unformatted (depth : ℕ) :
    ∀ items, printArrayItems false depth items = CJson.printArray items
  | [] => rfl
  | [item] => by rw [printArrayItems, CJson.printArray, printValue_unformatted depth item]
  | item :: item' :: items => by
    rw [printArrayItems, CJson.printArray, printValue_unformatted depth item,
      printArrayItems_unformatted depth (item' :: items)]
    · simp only [whenFmt, Bool.false_eq_true, if_false, List.append_nil]
    all_goals exact List.cons_ne_nil _ _

/-- `printValue_unformatted` for the items of an object. -/
theorem printObjectItems_unformatted (depth : ℕ) :
    ∀ items, printObjectItems false depth items = CJson.printObject items
  | [] => rfl
  | [(key, item)] => by
    rw [printObjectItems, CJson.printObject, printValue_unformatted depth item]
    simp only [whenFmt, tabs, Bool.false_eq_true, if_false, List.append_nil, List.nil_append]
  | (key, item) :: item' :: items => by
    rw [printObjectItems, CJson.printObject, printValue_unformatted depth item,
      printObjectItems_unformatted depth (item' :: items)]
    · simp only [whenFmt, tabs, Bool.false_eq_true, if_false, List.append_nil, List.nil_append]
    all_goals exact List.cons_ne_nil _ _

end

/-- A text that a C string can hold. -/
def PlainText (s : String) : Prop := ∃ bytes : List UInt8, s = textOf bytes ∧ ∀ b ∈ bytes, b ≠ 0

mutual

/-- A value whose texts C strings can hold. -/
def Plain : CJson → Prop
  | .string s => PlainText s
  | .array items => PlainItems items
  | .object items => PlainMembers items
  | _ => True

/-- `Plain` for the items of an array. -/
def PlainItems : List CJson → Prop
  | [] => True
  | item :: items => Plain item ∧ PlainItems items

/-- `Plain` for the items of an object. -/
def PlainMembers : List (String × CJson) → Prop
  | [] => True
  | (key, item) :: items => PlainText key ∧ Plain item ∧ PlainMembers items

end

/-- Nothing is passed over in front of a character that is no blank. -/
theorem skip_cons {c : UInt8} (h : 32 < c) (rest : List UInt8) : skip (c :: rest) = c :: rest := by
  rw [skip, List.dropWhile_cons_of_neg]
  simp only [ne_eq, Bool.decide_and, decide_not, Bool.and_eq_true, Bool.not_eq_true',
    decide_eq_false_iff_not,
    decide_eq_true_eq, not_and]
  exact fun _ => UInt8.not_le.mpr h

/-- Blanks are passed over. -/
theorem skip_blanks {blanks : List UInt8} (h : ∀ c ∈ blanks, c ≠ 0 ∧ c ≤ 32) (rest : List UInt8) :
    skip (blanks ++ rest) = skip rest := by
  rw [skip, List.dropWhile_append_of_pos]
  · rfl
  · simpa using h

/-- What only a formatted text has are blanks. -/
theorem skip_whenFmt (fmt : Bool) {c : UInt8} (h : c ≠ 0 ∧ c ≤ 32) (rest : List UInt8) :
    skip (whenFmt fmt c ++ rest) = skip rest := by
  cases fmt with
  | false => rfl
  | true => exact skip_blanks (List.forall_mem_singleton.mpr h) rest

/-- Tabs are blanks. -/
theorem skip_tabs (fmt : Bool) (n : ℕ) (rest : List UInt8) : skip (tabs fmt n ++ rest) = skip rest := by
  cases fmt with
  | false => rfl
  | true =>
    refine skip_blanks (fun c hc => ?_) rest
    rw [List.eq_of_mem_replicate hc]
    decide

/-- A digit of `%x` is read back. -/
theorem hexValue_digitChar {n : ℕ} (h : n < 16) :
    hexValue (UInt8.ofNat (Nat.digitChar n).toNat) = some n := by
  revert n
  decide

/-- The control character of a code is read back. -/
theorem unescape_control {b : UInt8} (h : b < 32) (hpos : b ≠ 0) (rest : List UInt8) :
    unescape (117 :: 48 :: 48 :: UInt8.ofNat (Nat.digitChar (b.toNat / 16)).toNat ::
      UInt8.ofNat (Nat.digitChar (b.toNat % 16)).toNat :: rest) = some ([b], rest) := by
  have hlt : b.toNat < 32 := UInt8.lt_iff_toNat_lt.mp h
  have hzero : b.toNat ≠ 0 := fun hb => hpos (UInt8.toNat_inj.mp hb)
  have hcode : 16 * (b.toNat / 16) + b.toNat % 16 = b.toNat := Nat.div_add_mod _ _
  have hhex : parseHex4 4 0 (48 :: 48 :: UInt8.ofNat (Nat.digitChar (b.toNat / 16)).toNat ::
      UInt8.ofNat (Nat.digitChar (b.toNat % 16)).toNat :: rest) = some b.toNat := by
    have h48 : hexValue 48 = some 0 := rfl
    simp only [parseHex4, h48, hexValue_digitChar (show b.toNat / 16 < 16 by omega),
      hexValue_digitChar (show b.toNat % 16 < 16 by omega), Nat.mul_zero, Nat.zero_add, hcode]
  have hone : utf8Length b.toNat = 1 := if_pos (by omega)
  have hbytes : utf8Bytes b.toNat = [b] := by
    have hmark : firstByteMark.getD 1 0 = 0 := rfl
    rw [utf8Bytes, hone, hmark]
    simp only [Nat.sub_self, utf8Write, Nat.or_zero, UInt8.ofNat_toNat]
  have hescape : unescape (117 :: 48 :: 48 :: UInt8.ofNat (Nat.digitChar (b.toNat / 16)).toNat ::
      UInt8.ofNat (Nat.digitChar (b.toNat % 16)).toNat :: rest) = unescapeUnicode (48 :: 48 ::
      UInt8.ofNat (Nat.digitChar (b.toNat / 16)).toNat ::
      UInt8.ofNat (Nat.digitChar (b.toNat % 16)).toNat :: rest) := rfl
  rw [hescape, unescapeUnicode, hhex, Option.bind_some]
  simp only [List.drop_succ_cons, List.drop_zero]
  rw [if_neg (by omega), if_neg (by omega), hbytes]

/-- A byte is printed as it is, or as a backslash and what is read back as the byte. -/
theorem escapeByte_cases {b : UInt8} (hpos : b ≠ 0) :
    (escapeByte b = [b] ∧ b ≠ 34 ∧ b ≠ 92) ∨
      ∃ c tail, escapeByte b = 92 :: c :: tail ∧ (∀ d ∈ tail, d ≠ 34 ∧ d ≠ 0 ∧ d ≠ 92) ∧
        ∀ rest, unescape (c :: (tail ++ rest)) = some ([b], rest) := by
  rw [escapeByte]
  split
  · exact Or.inr ⟨92, [], rfl, List.forall_mem_nil _, fun rest => by subst b; rfl⟩
  split
  · exact Or.inr ⟨34, [], rfl, List.forall_mem_nil _, fun rest => by subst b; rfl⟩
  split
  · exact Or.inr ⟨98, [], rfl, List.forall_mem_nil _, fun rest => by subst b; rfl⟩
  split
  · exact Or.inr ⟨102, [], rfl, List.forall_mem_nil _, fun rest => by subst b; rfl⟩
  split
  · exact Or.inr ⟨110, [], rfl, List.forall_mem_nil _, fun rest => by subst b; rfl⟩
  split
  · exact Or.inr ⟨114, [], rfl, List.forall_mem_nil _, fun rest => by subst b; rfl⟩
  split
  · exact Or.inr ⟨116, [], rfl, List.forall_mem_nil _, fun rest => by subst b; rfl⟩
  split
  · next hlt =>
    have hbound : b.toNat < 32 := UInt8.lt_iff_toNat_lt.mp hlt
    have hdigit : ∀ n < 16, (fun d : UInt8 => d ≠ 34 ∧ d ≠ 0 ∧ d ≠ 92)
      (UInt8.ofNat (Nat.digitChar n).toNat) := by decide
    refine Or.inr ⟨117, [48, 48, UInt8.ofNat (Nat.digitChar (b.toNat / 16)).toNat,
      UInt8.ofNat (Nat.digitChar (b.toNat % 16)).toNat], ?_, ?_, unescape_control hlt hpos⟩
    · have hdigits : bytesOf (String.ofList [Nat.digitChar (b.toNat / 16),
        Nat.digitChar (b.toNat % 16)]) =
          [UInt8.ofNat (Nat.digitChar (b.toNat / 16)).toNat,
            UInt8.ofNat (Nat.digitChar (b.toNat % 16)).toNat] := by
        rw [bytesOf, String.toList_ofList]
        rfl
      rw [hdigits]
      rfl
    intro d hd
    simp only [List.mem_cons, List.not_mem_nil, or_false] at hd
    obtain rfl | rfl | rfl | rfl := hd
    · decide
    · decide
    · exact hdigit _ (by omega)
    · exact hdigit _ (by omega)
  · next hquote hback _ _ _ _ _ _ =>
    exact Or.inl ⟨rfl, by assumption, by assumption⟩

/-- The first loop goes over characters that neither end the string nor are backslashes. -/
theorem stringLength_append {chars : List UInt8} (h : ∀ c ∈ chars, c ≠ 34 ∧ c ≠ 0 ∧ c ≠ 92)
    {rest : List UInt8} {len : ℕ} (hrest : stringLength rest = some len) :
    stringLength (chars ++ rest) = some (chars.length + len) := by
  induction chars with
  | nil => rw [List.nil_append, hrest, List.length_nil, Nat.zero_add]
  | cons c chars ih =>
    obtain ⟨⟨hquote, hnul, hback⟩, hchars⟩ := List.forall_mem_cons.mp h
    have htail := ih hchars
    rw [List.cons_append]
    cases hcase : chars ++ rest with
    | nil =>
      rw [hcase] at htail
      cases htail
    | cons d tail =>
      rw [hcase] at htail
      rw [stringLength, if_neg (not_or.mpr ⟨hquote, hnul⟩), if_neg hback, htail, Option.map_some,
        List.length_cons]
      congr 1
      omega

/-- Characters in quotes that both loops read as these bytes: the first one counts no fewer. -/
structure Spells (chars bytes : List UInt8) : Prop where
  nonempty : 0 < chars.length
  counted : ∀ rest len, stringLength rest = some len →
    ∃ len', bytes.length + len ≤ len' ∧ stringLength (chars ++ rest) = some len'
  written : ∀ room fuel rest out, out.length + bytes.length ≤ room →
    parseChars room (fuel + 1) (chars ++ rest) out = parseChars room fuel rest (out ++ bytes)

/-- A backslash with what is read behind it. -/
theorem Spells.escape {chars bytes : List UInt8} (count : ℕ) (hcount : bytes.length ≤ count + 1)
    (hcounted : ∀ rest len, stringLength rest = some len →
      stringLength (92 :: chars ++ rest) = some (count + 1 + len))
    (hread : ∀ rest, unescape (chars ++ rest) = some (bytes, rest)) : Spells (92 :: chars) bytes where
  nonempty := Nat.succ_pos _
  counted :=
    fun rest len hlen => ⟨count + 1 + len, Nat.add_le_add_right hcount len, hcounted rest len hlen⟩
  written := fun room fuel rest out hroom => by
    rw [List.cons_append, parseChars, ReadResult.read_cons, if_neg (by decide), if_pos rfl, hread]
    exact if_pos hroom

/-- A printed byte spells the byte. -/
theorem spells_escapeByte {b : UInt8} (hb : b ≠ 0) : Spells (escapeByte b) [b] := by
  obtain ⟨hplain, hquote, hback⟩ | ⟨c, tail, hescape, htail, hread⟩ := escapeByte_cases hb
  · rw [hplain]
    refine ⟨Nat.one_pos, fun rest len hlen => ⟨1 + len, Nat.le_refl _, ?_⟩,
      fun room fuel rest out hroom => ?_⟩
    · exact stringLength_append (List.forall_mem_singleton.mpr ⟨hquote, hb, hback⟩) hlen
    · rw [List.singleton_append, parseChars, ReadResult.read_cons, if_neg (not_or.mpr ⟨hquote, hb⟩),
        if_neg hback]
      exact if_pos hroom
  · rw [hescape]
    refine .escape tail.length (by rw [List.length_singleton]; omega) (fun rest len hlen => ?_) hread
    rw [List.cons_append, List.cons_append, stringLength, if_neg (by decide), if_pos rfl,
      stringLength_append htail hlen, Option.map_some]
    congr 1
    omega

section Pieces

variable {α : Type} {chars bytes : α → List UInt8} {pieces : List α}
  (h : ∀ piece ∈ pieces, Spells (chars piece) (bytes piece)) (rest : List UInt8)

include h

/-- The first loop counts a byte at least for each one that is spelled. -/
theorem stringLength_pieces : ∃ len, (pieces.flatMap bytes).length ≤ len ∧
    stringLength (pieces.flatMap chars ++ 34 :: rest) = some len := by
  induction pieces with
  | nil =>
    refine ⟨0, Nat.le_refl _, ?_⟩
    cases rest with
    | nil => rfl
    | cons d rest => rfl
  | cons piece pieces ih =>
    obtain ⟨hpiece, hpieces⟩ := List.forall_mem_cons.mp h
    obtain ⟨len, hle, hlen⟩ := ih hpieces
    obtain ⟨len', hle', hlen'⟩ := hpiece.counted _ len hlen
    refine ⟨len', ?_, by rw [List.flatMap_cons, List.append_assoc, hlen']⟩
    rw [List.flatMap_cons, List.length_append]
    omega

/-- The second loop writes the bytes that are spelled. -/
theorem parseChars_pieces {room fuel : ℕ} {out : List UInt8}
    (hroom : out.length + (pieces.flatMap bytes).length < room) (hfuel : pieces.length < fuel) :
    parseChars room fuel (pieces.flatMap chars ++ 34 :: rest) out =
      .ok (out ++ pieces.flatMap bytes) rest := by
  induction pieces generalizing fuel out with
  | nil =>
    obtain ⟨fuel, rfl⟩ := Nat.exists_eq_add_of_lt hfuel
    rw [List.flatMap_nil, List.flatMap_nil, List.append_nil]
    exact if_pos hroom
  | cons piece pieces ih =>
    obtain ⟨hpiece, hpieces⟩ := List.forall_mem_cons.mp h
    rw [List.length_cons] at hfuel
    rw [List.flatMap_cons, List.length_append] at hroom
    obtain ⟨fuel, rfl⟩ : ∃ k, fuel = k + 1 := ⟨fuel - 1, by omega⟩
    rw [List.flatMap_cons, List.flatMap_cons, List.append_assoc, hpiece.written _ _ _ _ (by omega),
      ih hpieces (by rw [List.length_append]; omega) (by omega), List.append_assoc]

/-- Bytes that are spelled between quotes are read. -/
theorem parseString_pieces :
    parseString (34 :: (pieces.flatMap chars ++ 34 :: rest)) =
      .ok (textOf ((pieces.flatMap bytes).takeWhile (· ≠ 0))) rest := by
  obtain ⟨len, hle, hlen⟩ := stringLength_pieces h rest
  have hlength : pieces.length ≤ (pieces.flatMap chars).length := by
    clear hle hlen
    induction pieces with
    | nil => exact Nat.le_refl _
    | cons piece pieces ih =>
      obtain ⟨hpiece, hpieces⟩ := List.forall_mem_cons.mp h
      have hpos := hpiece.nonempty
      have hrest := ih hpieces
      rw [List.flatMap_cons, List.length_append, List.length_cons]
      omega
  have hchars : parseChars (len + 1) (pieces.flatMap chars ++ 34 :: rest).length
      (pieces.flatMap chars ++ 34 :: rest) [] = .ok (pieces.flatMap bytes) rest := by
    refine parseChars_pieces h rest ?_ ?_
    · rw [List.length_nil]
      omega
    · rw [List.length_append, List.length_cons]
      omega
  rw [parseString, ReadResult.read_cons, if_neg (fun hne => hne rfl), hlen]
  simp only [hchars, ReadResult.bind_ok]

end Pieces

/-- A printed string is read back. -/
theorem parseString_printString {s : String} (h : PlainText s) (rest : List UInt8) :
    parseString (printString s ++ rest) = .ok s rest := by
  obtain ⟨bytes, rfl, hbytes⟩ := h
  have hlist : printString (textOf bytes) ++ rest = 34 :: (bytes.flatMap escapeByte ++ 34 :: rest) := by
    rw [printString, bytesOf_textOf]
    simp only [List.append_assoc, List.cons_append, List.nil_append]
  have hkeep : bytes.takeWhile (· ≠ 0) = bytes := by
    rw [List.takeWhile_eq_self_iff]
    simpa using hbytes
  rw [hlist, parseString_pieces (fun b hb => spells_escapeByte (hbytes b hb)) rest,
    List.flatMap_singleton', hkeep]

/-- A number ends here: the next character is not one that it can go on with. -/
def NumberEnds (rest : List UInt8) : Prop :=
  ∃ c tail, rest = c :: tail ∧ isDigitByte c = false ∧ c ≠ 46 ∧ c ≠ 101 ∧ c ≠ 69

/-- The characters of a number. -/
def decimal (n : ℕ) : List UInt8 := (Nat.toDigits 10 n).map fun c => UInt8.ofNat c.toNat

/-- A digit is read as its value. -/
theorem digitChar_byte {n : ℕ} (h : n < 10) :
    isDigitByte (UInt8.ofNat (Nat.digitChar n).toNat) = true ∧
      (UInt8.ofNat (Nat.digitChar n).toNat).toNat - 48 = n := by
  revert n
  decide

/-- The last digit apart. -/
theorem decimal_succ {n : ℕ} (h : 10 ≤ n) :
    decimal n = decimal (n / 10) ++ [UInt8.ofNat (Nat.digitChar (n % 10)).toNat] := by
  rw [decimal, Nat.toDigits_of_base_le (by decide) h, List.map_append]
  rfl

/-- A number below ten is one digit. -/
theorem decimal_of_lt {n : ℕ} (h : n < 10) : decimal n = [UInt8.ofNat (Nat.digitChar n).toNat] := by
  rw [decimal, Nat.toDigits_of_lt_base h]
  rfl

/-- Only zero begins with a zero. -/
theorem decimal_head {n : ℕ} (h : 0 < n) : ∃ c tail, decimal n = c :: tail ∧ 49 ≤ c ∧ c ≤ 57 := by
  induction n using Nat.strongRecOn with
  | ind n ih =>
    rcases Nat.lt_or_ge n 10 with hlt | hge
    · have hdigit : ∀ n < 10, 0 < n → (fun c : UInt8 => 49 ≤ c ∧ c ≤ 57)
          (UInt8.ofNat (Nat.digitChar n).toNat) := by decide
      exact ⟨_, [], decimal_of_lt hlt, hdigit n hlt h⟩
    · obtain ⟨c, tail, hdigits, hc⟩ := ih (n / 10) (by omega) (by omega)
      exact ⟨c, _, by rw [decimal_succ hge, hdigits, List.cons_append], hc⟩

/-- A loop over digits stops behind them. -/
theorem readDigits_of_ends {rest : List UInt8} (h : NumberEnds rest) (n count : ℕ) :
    readDigits n count rest = .ok (n, count) rest := by
  obtain ⟨c, tail, rfl, hdigit, -⟩ := h
  rw [readDigits, if_neg (by rw [hdigit]; exact Bool.false_ne_true)]

/-- The digits of a number, with what is read of the text behind them. -/
theorem readDigits_decimal (n : ℕ) (rest : List UInt8) :
    ∃ count, readDigits 0 0 (decimal n ++ rest) = readDigits n count rest := by
  induction n using Nat.strongRecOn generalizing rest with
  | ind n ih =>
    rcases Nat.lt_or_ge n 10 with hlt | hge
    · obtain ⟨hdigit, hvalue⟩ := digitChar_byte hlt
      refine ⟨1, ?_⟩
      rw [decimal_of_lt hlt, List.singleton_append, readDigits, if_pos hdigit, hvalue, Nat.mul_zero,
        Nat.zero_add]
    · obtain ⟨hdigit, hvalue⟩ := digitChar_byte (Nat.mod_lt n (show 0 < 10 by decide))
      obtain ⟨count, hread⟩ :=
        ih (n / 10) (by omega) (UInt8.ofNat (Nat.digitChar (n % 10)).toNat :: rest)
      refine ⟨count + 1, ?_⟩
      rw [decimal_succ hge, List.append_assoc, List.singleton_append, hread, readDigits, if_pos hdigit,
        hvalue, Nat.div_add_mod]

/-- A printed number without its sign. -/
theorem parseNumber_decimal (n : ℕ) {rest : List UInt8} (h : NumberEnds rest) (negative : Bool) :
    ((readSign 48 (decimal n ++ rest)).bind fun _ num =>
      (ReadResult.read num fun c _ =>
        if 49 ≤ c ∧ c ≤ 57 then readDigits 0 0 num else .ok (0, 0) num).bind fun whole num =>
      (readFraction whole.1 num).bind fun digits num =>
      (readExponent num).bind fun exponent num =>
        .ok (⟨negative, digits.1, digits.2, exponent.1, exponent.2⟩ : NumberText) num) =
      .ok ⟨negative, n, 0, false, 0⟩ rest := by
  have hends := h
  obtain ⟨c, tail, rfl, hdigit, hpoint, he, hE⟩ := h
  have hfraction : ∀ n, readFraction n (c :: tail) = .ok (n, 0) (c :: tail) := fun n => if_neg hpoint
  have hexponent : readExponent (c :: tail) = .ok (false, 0) (c :: tail) :=
    if_neg (not_or.mpr ⟨he, hE⟩)
  rcases Nat.eq_zero_or_pos n with rfl | hpos
  · have hrange : ¬ (49 ≤ c ∧ c ≤ 57) := by
      intro hc
      have hdigit' : isDigitByte c = true := decide_eq_true ⟨UInt8.le_trans (by decide) hc.1, hc.2⟩
      rw [hdigit] at hdigit'
      cases hdigit'
    have hzero : readSign 48 (decimal 0 ++ c :: tail) = .ok true (c :: tail) := rfl
    rw [hzero, ReadResult.bind_ok, ReadResult.read_cons, if_neg hrange, ReadResult.bind_ok, hfraction,
      ReadResult.bind_ok, hexponent, ReadResult.bind_ok]
  · obtain ⟨d, digits, hdigits, hd⟩ := decimal_head hpos
    obtain ⟨count, hread⟩ := readDigits_decimal n (c :: tail)
    have hsign : readSign 48 (decimal n ++ c :: tail) = .ok false (decimal n ++ c :: tail) := by
      rw [hdigits, List.cons_append]
      refine if_neg fun heq => ?_
      rw [heq] at hd
      exact absurd hd.1 (by decide)
    have hwhole : (ReadResult.read (decimal n ++ c :: tail) fun c' _ =>
        if 49 ≤ c' ∧ c' ≤ 57 then readDigits 0 0 (decimal n ++ c :: tail)
        else .ok (0, 0) (decimal n ++ c :: tail)) = .ok (n, count) (c :: tail) := by
      rw [← readDigits_of_ends hends, ← hread, hdigits, List.cons_append,
        ReadResult.read_cons, if_pos hd]
    rw [hsign, ReadResult.bind_ok, hwhole, ReadResult.bind_ok, hfraction, ReadResult.bind_ok, hexponent,
      ReadResult.bind_ok]

/-- The text of an integer. -/
def intText (n : ℤ) : NumberText := ⟨decide (n < 0), n.natAbs, 0, false, 0⟩

/-- An integer is printed with its sign in front. -/
theorem bytesOf_toString (n : ℤ) :
    bytesOf (toString n) = if n < 0 then 45 :: decimal n.natAbs else decimal n.natAbs := by
  have hnat : ∀ m : ℕ, bytesOf m.repr = decimal m := fun m => by rw [bytesOf, Nat.toList_repr]; rfl
  rw [Int.toString_eq_repr, Int.repr_eq_if]
  by_cases hneg : n < 0
  · rw [if_neg (Int.not_le.mpr hneg), if_pos hneg, ← hnat, show n.natAbs = (-n).toNat by omega, bytesOf,
      String.toList_append, List.map_append]
    rfl
  · rw [if_pos (Int.not_lt.mp hneg), if_neg hneg, ← hnat, show n.natAbs = n.toNat by omega]

/-- A printed integer is read back. -/
theorem parseNumber_printed (n : ℤ) {rest : List UInt8} (h : NumberEnds rest) :
    parseNumber (bytesOf (toString n) ++ rest) = .ok (intText n) rest := by
  rw [bytesOf_toString, parseNumber]
  split
  · next hneg =>
    have hsign : readSign 45 (45 :: decimal n.natAbs ++ rest) =
      .ok true (decimal n.natAbs ++ rest) := rfl
    rw [hsign, ReadResult.bind_ok, parseNumber_decimal _ h, intText, decide_eq_true hneg]
  · next hneg =>
    have hhead : ∃ c tail, decimal n.natAbs = c :: tail ∧ c ≠ 45 := by
      rcases Nat.eq_zero_or_pos n.natAbs with hzero | hpos
      · exact ⟨48, [], by rw [hzero]; rfl, by decide⟩
      · obtain ⟨c, tail, hdigits, hc, -⟩ := decimal_head hpos
        exact ⟨c, tail, hdigits, fun heq => absurd (heq ▸ hc) (by decide)⟩
    obtain ⟨c, tail, hdigits, hc⟩ := hhead
    have hsign : readSign 45 (decimal n.natAbs ++ rest) = .ok false (decimal n.natAbs ++ rest) := by
      rw [hdigits, List.cons_append]
      exact if_neg hc
    rw [hsign, ReadResult.bind_ok, parseNumber_decimal _ h, intText, decide_eq_false hneg]

/-- Another word is not read. -/
theorem parseWord_ne {w c : UInt8} (h : c ≠ w) (word : List UInt8) (item : CJson) (rest : List UInt8)
    (next : ReadResult CJson) : parseWord (w :: word) item (c :: rest) next = next := by
  rw [parseWord, startsWith, if_neg h]

/-- A word is read. -/
theorem parseWord_append (word : List UInt8) (item : CJson) (rest : List UInt8)
    (next : ReadResult CJson) : parseWord word item (word ++ rest) next = .ok item rest := by
  have hword : startsWith word (word ++ rest) = some (some rest) := by
    induction word with
    | nil => rfl
    | cons c word ih => rw [List.cons_append, startsWith, if_pos rfl, ih]
  rw [parseWord, hword]

section Value

variable (toInt : NumberText → Int32) (fuel : ℕ)

/-- What begins like no word is no word. -/
theorem parseValue_cons {c : UInt8} (hn : c ≠ 110) (hf : c ≠ 102) (ht : c ≠ 116) (rest : List UInt8) :
    parseValue toInt (fuel + 1) (c :: rest) =
      if c = 34 then (parseString (c :: rest)).bind fun s rest => .ok (.string s) rest
      else if c = 45 ∨ isDigitByte c then
        (parseNumber (c :: rest)).bind fun n rest => .ok (.number (toInt n)) rest
      else if c = 91 then
        .read (skip rest) fun d rest' =>
          if d = 93 then .ok (.array []) rest'
          else (parseArrayItems toInt fuel (skip rest)).bind fun items rest => .ok (.array items) rest
      else if c = 123 then
        .read (skip rest) fun d rest' =>
          if d = 125 then .ok (.object []) rest'
          else (parseObjectItems toInt fuel (skip rest)).bind fun items rest =>
            .ok (.object items) rest
      else .fail := by
  rw [parseValue]
  exact (parseWord_ne hn _ _ _ _).trans ((parseWord_ne hf _ _ _ _).trans (parseWord_ne ht _ _ _ _))

/-- `null` -/
theorem parseValue_null (rest : List UInt8) :
    parseValue toInt (fuel + 1) (bytesOf "null" ++ rest) = .ok .null rest := by
  rw [parseValue, parseWord_append]

/-- `false` -/
theorem parseValue_false (rest : List UInt8) :
    parseValue toInt (fuel + 1) (bytesOf "false" ++ rest) = .ok (.bool false) rest := by
  have hword : parseWord (bytesOf "null") .null (bytesOf "false" ++ rest) = id :=
    funext fun next => parseWord_ne (by decide) _ _ _ _
  rw [parseValue, hword, id, parseWord_append]

/-- `true` -/
theorem parseValue_true (rest : List UInt8) :
    parseValue toInt (fuel + 1) (bytesOf "true" ++ rest) = .ok (.bool true) rest := by
  have hword : parseWord (bytesOf "null") .null (bytesOf "true" ++ rest) = id :=
    funext fun next => parseWord_ne (by decide) _ _ _ _
  have hword' : parseWord (bytesOf "false") (.bool false) (bytesOf "true" ++ rest) = id :=
    funext fun next => parseWord_ne (by decide) _ _ _ _
  rw [parseValue, hword, id, hword', id, parseWord_append]

/-- A string. -/
theorem parseValue_string {s : String} (h : PlainText s) (rest : List UInt8) :
    parseValue toInt (fuel + 1) (printString s ++ rest) = .ok (.string s) rest := by
  have hread := parseString_printString h rest
  have hlist : printString s ++ rest = 34 :: ((bytesOf s).flatMap escapeByte ++ [34] ++ rest) := rfl
  rw [hlist] at hread ⊢
  rw [parseValue_cons toInt fuel (by decide) (by decide) (by decide), if_pos rfl, hread,
    ReadResult.bind_ok]

/-- An integer. -/
theorem parseValue_number (n : ℤ) {rest : List UInt8} (h : NumberEnds rest) :
    parseValue toInt (fuel + 1) (bytesOf (toString n) ++ rest) =
      .ok (.number (toInt (intText n))) rest := by
  have hhead : ∃ c tail, bytesOf (toString n) = c :: tail ∧ (c = 45 ∨ 48 ≤ c ∧ c ≤ 57) := by
    rw [bytesOf_toString]
    split
    · exact ⟨45, _, rfl, Or.inl rfl⟩
    · rcases Nat.eq_zero_or_pos n.natAbs with hzero | hpos
      · exact ⟨48, [], by rw [hzero]; rfl, Or.inr ⟨by decide, by decide⟩⟩
      · obtain ⟨c, tail, hdigits, hge, hle⟩ := decimal_head hpos
        exact ⟨c, tail, hdigits, Or.inr ⟨UInt8.le_trans (by decide) hge, hle⟩⟩
  have hread := parseNumber_printed n h
  obtain ⟨c, tail, hlist, hc⟩ := hhead
  have hne : ∀ d : UInt8, 58 ≤ d → c ≠ d := by
    rintro d hd rfl
    rcases hc with rfl | hc
    · exact absurd hd (by decide)
    · exact absurd (UInt8.le_trans hd hc.2) (by decide)
  have hquote : c ≠ 34 := by
    rintro rfl
    rcases hc with hc | hc
    · cases hc
    · exact absurd hc.1 (by decide)
  have hdigit : c = 45 ∨ isDigitByte c = true := hc.imp_right decide_eq_true
  rw [hlist, List.cons_append] at hread ⊢
  rw [parseValue_cons toInt fuel (hne 110 (by decide)) (hne 102 (by decide)) (hne 116 (by decide)),
    if_neg hquote, if_pos hdigit, hread, ReadResult.bind_ok]

end Value

/-- A printed value begins with a character that is neither a blank nor the end of an array. -/
theorem printValue_head (fmt : Bool) (depth : ℕ) (item : CJson) :
    ∃ c tail, printValue fmt depth item = c :: tail ∧ 32 < c ∧ c ≠ 93 := by
  match item with
  | .null => exact ⟨110, _, rfl, by decide⟩
  | .bool true => exact ⟨116, _, rfl, by decide⟩
  | .bool false => exact ⟨102, _, rfl, by decide⟩
  | .number n =>
    rw [printValue, bytesOf_toString]
    split
    · exact ⟨45, _, rfl, by decide⟩
    · rcases Nat.eq_zero_or_pos n.toInt.natAbs with hzero | hpos
      · exact ⟨48, [], by rw [hzero]; rfl, by decide⟩
      · obtain ⟨c, tail, hdigits, hge, hle⟩ := decimal_head hpos
        refine ⟨c, tail, hdigits, UInt8.lt_of_lt_of_le (by decide) hge, ?_⟩
        rintro rfl
        exact absurd hle (by decide)
  | .string s => exact ⟨34, _, rfl, by decide⟩
  | .array items => exact ⟨91, _, rfl, by decide⟩
  | .object [] => exact ⟨123, _, rfl, by decide⟩
  | .object (item :: items) => exact ⟨123, _, rfl, by decide⟩

/-- Nothing is passed over in front of a printed value. -/
theorem skip_printValue (fmt : Bool) (depth : ℕ) (item : CJson) (rest : List UInt8) :
    skip (printValue fmt depth item ++ rest) = printValue fmt depth item ++ rest := by
  obtain ⟨c, tail, hlist, hc, -⟩ := printValue_head fmt depth item
  rw [hlist, List.cons_append, skip_cons hc]

/-- A number ends in front of a character that is none of a number. -/
theorem numberEnds_cons {c : UInt8} (h : isDigitByte c = false ∧ c ≠ 46 ∧ c ≠ 101 ∧ c ≠ 69)
    (rest : List UInt8) : NumberEnds (c :: rest) := ⟨c, rest, rfl, h⟩

/-- A number ends in front of the end of an object. -/
theorem numberEnds_objectEnd (fmt : Bool) (n : ℕ) (rest : List UInt8) :
    NumberEnds (whenFmt fmt 10 ++ (tabs fmt n ++ 125 :: rest)) := by
  cases fmt with
  | false => exact numberEnds_cons (by decide) rest
  | true => exact numberEnds_cons (by decide) _

section Items

variable {toInt : NumberText → Int32} {fuel : ℕ} {value rest : List UInt8}

/-- Blanks in front of the blanks that are passed over do not matter. -/
theorem skip_skip (memory : List UInt8) : skip (skip memory) = skip memory :=
  List.dropWhile_idempotent _ _

/-- The items of an array may have blanks in front. -/
theorem parseArrayItems_skip :
    parseArrayItems toInt fuel (skip value) = parseArrayItems toInt fuel value := by
  cases fuel with
  | zero => rfl
  | succ fuel => rw [parseArrayItems, parseArrayItems, skip_skip]

/-- The items of an object may have blanks in front. -/
theorem parseObjectItems_skip :
    parseObjectItems toInt fuel (skip value) = parseObjectItems toInt fuel value := by
  cases fuel with
  | zero => rfl
  | succ fuel => rw [parseObjectItems, parseObjectItems, skip_skip]

/-- An array of items. -/
theorem parseValue_array {items : List CJson} (hhead : ∃ c tail, value = c :: tail ∧ 32 < c ∧ c ≠ 93)
    (hitems : parseArrayItems toInt fuel value = .ok items rest) :
    parseValue toInt (fuel + 1) (91 :: value) = .ok (.array items) rest := by
  obtain ⟨c, tail, rfl, hc, hne⟩ := hhead
  rw [parseValue_cons toInt fuel (by decide) (by decide) (by decide), if_neg (by decide),
    if_neg (by decide),
    if_pos rfl, skip_cons hc, ReadResult.read_cons, if_neg hne, hitems, ReadResult.bind_ok]

/-- An object of items. -/
theorem parseValue_object {items : List (String × CJson)}
    (hhead : ∃ c tail, skip value = c :: tail ∧ c ≠ 125)
    (hitems : parseObjectItems toInt fuel value = .ok items rest) :
    parseValue toInt (fuel + 1) (123 :: value) = .ok (.object items) rest := by
  obtain ⟨c, tail, hskip, hne⟩ := hhead
  rw [parseValue_cons toInt fuel (by decide) (by decide) (by decide), if_neg (by decide),
    if_neg (by decide),
    if_neg (by decide), if_pos rfl, parseObjectItems_skip, hitems, hskip, ReadResult.read_cons,
    if_neg hne,
    ReadResult.bind_ok]

/-- An item of an array, and the others behind it. -/
theorem parseArrayItems_cons {child : CJson} {items : List CJson} {more : List UInt8}
    (hvalue : parseValue toInt fuel (skip value) = .ok child (44 :: more))
    (hitems : parseArrayItems toInt fuel more = .ok items rest) :
    parseArrayItems toInt (fuel + 1) value = .ok (child :: items) rest := by
  rw [parseArrayItems, hvalue, ReadResult.bind_ok, skip_cons (by decide), ReadResult.read_cons,
    if_pos rfl,
    hitems, ReadResult.bind_ok]

/-- The last item of an array. -/
theorem parseArrayItems_last {child : CJson}
    (hvalue : parseValue toInt fuel (skip value) = .ok child (93 :: rest)) :
    parseArrayItems toInt (fuel + 1) value = .ok [child] rest := by
  rw [parseArrayItems, hvalue, ReadResult.bind_ok, skip_cons (by decide), ReadResult.read_cons,
    if_neg (by decide), if_pos rfl]

variable {key : String} {child : CJson} {text more : List UInt8} (hkey : PlainText key)
  (htext : skip text = printString key ++ 58 :: value)

include hkey htext

/-- An item of an object, and the others behind it. -/
theorem parseObjectItems_cons {items : List (String × CJson)}
    (hvalue : parseValue toInt fuel (skip value) = .ok child (44 :: more))
    (hitems : parseObjectItems toInt fuel more = .ok items rest) :
    parseObjectItems toInt (fuel + 1) text = .ok ((key, child) :: items) rest := by
  rw [parseObjectItems, htext, parseString_printString hkey, ReadResult.bind_ok, skip_cons (by decide),
    ReadResult.read_cons, if_neg (by decide), hvalue, ReadResult.bind_ok, skip_cons (by decide),
    ReadResult.read_cons, if_pos rfl, hitems, ReadResult.bind_ok]

/-- The last item of an object. -/
theorem parseObjectItems_last (hvalue : parseValue toInt fuel (skip value) = .ok child more)
    (hmore : skip more = 125 :: rest) :
    parseObjectItems toInt (fuel + 1) text = .ok [(key, child)] rest := by
  rw [parseObjectItems, htext, parseString_printString hkey, ReadResult.bind_ok, skip_cons (by decide),
    ReadResult.read_cons, if_neg (by decide), hvalue, ReadResult.bind_ok, hmore, ReadResult.read_cons,
    if_neg (by decide), if_pos rfl]

end Items

/-- The items of an array that has some begin like one. -/
theorem printArrayItems_head (fmt : Bool) (depth : ℕ) (item : CJson) (items : List CJson)
    (rest : List UInt8) :
    ∃ c tail, printArrayItems fmt depth (item :: items) ++ rest = c :: tail ∧ 32 < c ∧ c ≠ 93 := by
  obtain ⟨c, tail, hlist, hc⟩ := printValue_head fmt depth item
  cases items with
  | nil => exact ⟨c, tail ++ rest, by rw [printArrayItems, hlist, List.cons_append], hc⟩
  | cons item' items =>
    rw [printArrayItems, hlist]
    · exact ⟨c, _, rfl, hc⟩
    · exact List.cons_ne_nil _ _

/-- The items of an object that has some begin with a key. -/
theorem skip_printObjectItems (fmt : Bool) (depth : ℕ) (key : String) (item : CJson)
    (items : List (String × CJson)) (rest : List UInt8) :
    ∃ tail, skip (printObjectItems fmt depth ((key, item) :: items) ++ rest) = 34 :: tail := by
  have hquote : ∀ tail, skip (tabs fmt depth ++ (printString key ++ tail)) =
      34 :: ((bytesOf key).flatMap escapeByte ++ [34] ++ tail) := by
    intro tail
    rw [skip_tabs]
    exact skip_cons (by decide) _
  cases items with
  | nil =>
    rw [printObjectItems]
    simp only [List.append_assoc]
    exact ⟨_, hquote _⟩
  | cons item' items =>
    rw [printObjectItems]
    · simp only [List.append_assoc]
      exact ⟨_, hquote _⟩
    · exact List.cons_ne_nil _ _

/-- With this fuel, printed values and printed items are read back, and the memory behind them is
left. -/
structure ReadsBack (toInt : NumberText → Int32) (fmt : Bool) (fuel : ℕ) : Prop where
  value : ∀ item depth rest, Plain item → NumberEnds rest →
    2 * (printValue fmt depth item).length + 1 ≤ fuel →
    parseValue toInt fuel (printValue fmt depth item ++ rest) = .ok item rest
  array : ∀ item items depth rest, PlainItems (item :: items) →
    2 * (printArrayItems fmt depth (item :: items)).length + 2 ≤ fuel →
    parseArrayItems toInt fuel (printArrayItems fmt depth (item :: items) ++ ([93] ++ rest)) =
      .ok (item :: items) rest
  object : ∀ key item items depth n rest, PlainMembers ((key, item) :: items) →
    2 * (printObjectItems fmt depth ((key, item) :: items)).length + 2 ≤ fuel →
    parseObjectItems toInt fuel (printObjectItems fmt depth ((key, item) :: items) ++
      (tabs fmt n ++ 125 :: rest)) = .ok ((key, item) :: items) rest

section Step

variable {toInt : NumberText → Int32} (hint : ∀ n : Int32, toInt (intText n.toInt) = n) {fmt : Bool}
  {fuel : ℕ} (ih : ReadsBack toInt fmt fuel)

include ih

include hint in
/-- A value, with one call more. -/
theorem ReadsBack.value_succ (item : CJson) (depth : ℕ) (rest : List UInt8) (hplain : Plain item)
    (hrest : NumberEnds rest) (hfuel : 2 * (printValue fmt depth item).length + 1 ≤ fuel + 1) :
    parseValue toInt (fuel + 1) (printValue fmt depth item ++ rest) = .ok item rest := by
  match item with
  | .null => exact parseValue_null toInt fuel rest
  | .bool true => exact parseValue_true toInt fuel rest
  | .bool false => exact parseValue_false toInt fuel rest
  | .number n => rw [printValue, parseValue_number toInt fuel n.toInt hrest, hint]
  | .string s =>
    rw [Plain] at hplain
    rw [printValue, parseValue_string toInt fuel hplain]
  | .array [] =>
    rw [printValue, printArrayItems]
    exact parseValue_cons toInt fuel (by decide) (by decide) (by decide) _
  | .array (item :: items) =>
    rw [Plain] at hplain
    rw [printValue] at hfuel
    simp only [List.length_append, List.length_singleton] at hfuel
    have hitems := ih.array item items (depth + 1) rest hplain (by omega)
    rw [printValue, List.append_assoc, List.append_assoc]
    exact parseValue_array (printArrayItems_head fmt (depth + 1) item items _) hitems
  | .object [] =>
    have hskip : skip (whenFmt fmt 10 ++ (tabs fmt (depth - 1) ++ 125 :: rest)) = 125 :: rest := by
      rw [skip_whenFmt fmt (by decide), skip_tabs, skip_cons (by decide)]
    rw [printValue]
    simp only [List.append_assoc, List.cons_append, List.nil_append]
    rw [parseValue_cons toInt fuel (by decide) (by decide) (by decide), hskip]
    rfl
  | .object ((key, item) :: items) =>
    rw [Plain] at hplain
    rw [printValue] at hfuel
    simp only [List.length_append, List.length_singleton] at hfuel
    obtain ⟨tail, hhead⟩ :=
      skip_printObjectItems fmt (depth + 1) key item items (tabs fmt depth ++ 125 :: rest)
    have hitems := ih.object key item items (depth + 1) depth rest hplain (by omega)
    have hblank := skip_whenFmt fmt (show (10 : UInt8) ≠ 0 ∧ 10 ≤ 32 by decide)
      (printObjectItems fmt (depth + 1) ((key, item) :: items) ++ (tabs fmt depth ++ 125 :: rest))
    rw [printValue]
    simp only [List.append_assoc, List.cons_append, List.nil_append]
    refine parseValue_object ⟨34, tail, by rw [hblank, hhead], by decide⟩ ?_
    rw [← parseObjectItems_skip, hblank, parseObjectItems_skip, hitems]

/-- The items of an array, with one call more. -/
theorem ReadsBack.array_succ (item : CJson) (items : List CJson) (depth : ℕ) (rest : List UInt8)
    (hplain : PlainItems (item :: items))
    (hfuel : 2 * (printArrayItems fmt depth (item :: items)).length + 2 ≤ fuel + 1) :
    parseArrayItems toInt (fuel + 1) (printArrayItems fmt depth (item :: items) ++ ([93] ++ rest)) =
      .ok (item :: items) rest := by
  cases items with
  | nil =>
    rw [printArrayItems] at hfuel ⊢
    refine parseArrayItems_last ?_
    rw [skip_printValue]
    exact ih.value item depth (93 :: rest) hplain.1 (numberEnds_cons (by decide) rest) (by omega)
  | cons item' items =>
    rw [printArrayItems] at hfuel ⊢
    · simp only [List.length_append, List.length_singleton] at hfuel
      have hitems := ih.array item' items depth rest hplain.2 (by omega)
      have hvalue := ih.value item depth
        (44 :: (whenFmt fmt 32 ++ (printArrayItems fmt depth (item' :: items) ++ ([93] ++ rest))))
          hplain.1
        (numberEnds_cons (by decide) _) (by omega)
      simp only [List.append_assoc, List.singleton_append] at hitems hvalue ⊢
      refine parseArrayItems_cons (by rw [skip_printValue]; exact hvalue) ?_
      rw [← parseArrayItems_skip, skip_whenFmt fmt (by decide), parseArrayItems_skip, hitems]
    all_goals exact List.cons_ne_nil _ _

/-- The items of an object, with one call more. -/
theorem ReadsBack.object_succ (key : String) (item : CJson) (items : List (String × CJson))
    (depth n : ℕ)
    (rest : List UInt8) (hplain : PlainMembers ((key, item) :: items))
    (hfuel : 2 * (printObjectItems fmt depth ((key, item) :: items)).length + 2 ≤ fuel + 1) :
    parseObjectItems toInt (fuel + 1) (printObjectItems fmt depth ((key, item) :: items) ++
      (tabs fmt n ++ 125 :: rest)) = .ok ((key, item) :: items) rest := by
  obtain ⟨hkey, hitem, hitems⟩ := hplain
  -- blanks between the colon and the value
  have hskip : ∀ tail, skip (whenFmt fmt 9 ++ (printValue fmt depth item ++ tail)) =
      printValue fmt depth item ++ tail :=
    fun tail => by rw [skip_whenFmt fmt (by decide), skip_printValue]
  have htext : ∀ tail, skip (tabs fmt depth ++ (printString key ++ 58 :: tail)) =
      printString key ++ 58 :: tail := by
    intro tail
    rw [skip_tabs]
    exact skip_cons (by decide) _
  cases items with
  | nil =>
    rw [printObjectItems] at hfuel ⊢
    simp only [List.length_append, List.length_singleton] at hfuel
    have hvalue := ih.value item depth _ hitem (numberEnds_objectEnd fmt n rest) (by omega)
    have hend : skip (whenFmt fmt 10 ++ (tabs fmt n ++ 125 :: rest)) = 125 :: rest := by
      rw [skip_whenFmt fmt (by decide), skip_tabs, skip_cons (by decide)]
    rw [← hskip] at hvalue
    simp only [List.append_assoc, List.singleton_append]
    exact parseObjectItems_last hkey (htext _) hvalue hend
  | cons member items =>
    obtain ⟨key', item'⟩ := member
    rw [printObjectItems] at hfuel ⊢
    · simp only [List.length_append, List.length_singleton] at hfuel
      have hmore := ih.object key' item' items depth n rest hitems (by omega)
      have hvalue := ih.value item depth
        (44 :: (whenFmt fmt 10 ++ (printObjectItems fmt depth ((key', item') :: items) ++
          (tabs fmt n ++ 125 :: rest)))) hitem (numberEnds_cons (by decide) _) (by omega)
      rw [← hskip] at hvalue
      simp only [List.append_assoc, List.singleton_append]
      refine parseObjectItems_cons hkey (htext _) hvalue ?_
      rw [← parseObjectItems_skip, skip_whenFmt fmt (by decide), parseObjectItems_skip, hmore]
    all_goals exact List.cons_ne_nil _ _

end Step

/-- Printed values are read back with every fuel that is enough. -/
theorem readsBack {toInt : NumberText → Int32} (hint : ∀ n : Int32, toInt (intText n.toInt) = n)
    (fmt : Bool)
    (fuel : ℕ) : ReadsBack toInt fmt fuel := by
  induction fuel with
  | zero =>
    exact ⟨fun _ _ _ _ _ h => absurd h (Nat.not_succ_le_zero _),
      fun _ _ _ _ _ h => absurd h (Nat.not_succ_le_zero _),
      fun _ _ _ _ _ _ _ h => absurd h (Nat.not_succ_le_zero _)⟩
  | succ fuel ih => exact ⟨ih.value_succ hint, ih.array_succ, ih.object_succ⟩

/-- A printed text is parsed as the value it was printed from. -/
theorem cJSONParse_printValue {toInt : NumberText → Int32}
    (hint : ∀ n : Int32, toInt (intText n.toInt) = n) (fmt : Bool) (depth : ℕ) {item : CJson}
    (hplain : Plain item) (behind : List UInt8) :
    cJSONParse toInt (printValue fmt depth item ++ 0 :: behind) = .ok item (0 :: behind) := by
  rw [cJSONParse, skip_printValue]
  refine (readsBack hint fmt _).value item depth _ hplain (numberEnds_cons (by decide) _) ?_
  rw [List.length_append]
  omega

/-- `cJSON_Print` -/
def cJSONPrint (item : CJson) : List UInt8 := printValue true 0 item

/-- `cJSON_PrintUnformatted` -/
def cJSONPrintUnformatted (item : CJson) : List UInt8 := printValue false 0 item

/-- The number of a text, cut down towards zero to what an `int` holds. -/
def cutToInt (n : NumberText) : Int32 :=
  let power : ℤ := (if n.negativeExponent then -(n.exponent : ℤ) else n.exponent) - n.fraction
  let size : ℕ := if 0 ≤ power then n.digits * 10 ^ power.toNat else n.digits / 10 ^ (-power).toNat
  .ofInt (max (-2 ^ 31) (min (2 ^ 31 - 1) (if n.negative then -(size : ℤ) else size)))

/-- An `int` is kept. -/
theorem cutToInt_intText (n : Int32) : cutToInt (intText n.toInt) = n := by
  have hlow := n.le_toInt
  have hhigh := n.toInt_lt
  have hvalue : (if n.toInt < 0 then -(n.toInt.natAbs : ℤ) else n.toInt.natAbs) = n.toInt := by
    split <;> omega
  have hclamp : max (-2 ^ 31) (min (2 ^ 31 - 1) n.toInt) = n.toInt := by omega
  simp only [cutToInt, intText, Bool.false_eq_true, if_false, Nat.cast_zero, sub_zero, le_refl, if_true,
    Int.toNat_zero, pow_zero, Nat.mul_one, decide_eq_true_eq, hvalue, hclamp]
  exact Int32.ofInt_toInt n

/-- What `cJSON_Print` and `cJSON_PrintUnformatted` write is parsed as the value that they were given,
whatever lies in the memory behind the text. -/
theorem cJSONParse_cJSONPrint {toInt : NumberText → Int32}
    (hint : ∀ n : Int32, toInt (intText n.toInt) = n) {item : CJson} (hplain : Plain item)
    (behind : List UInt8) :
    cJSONParse toInt (cJSONPrint item ++ 0 :: behind) = .ok item (0 :: behind) ∧
      cJSONParse toInt (cJSONPrintUnformatted item ++ 0 :: behind) = .ok item (0 :: behind) :=
  ⟨cJSONParse_printValue hint true 0 hplain behind, cJSONParse_printValue hint false 0 hplain behind⟩

/-- A nested value with escapes and negative numbers comes back. -/
theorem cJSONParse_cJSONPrint_nested :
    cJSONParse cutToInt (cJSONPrint
      (.object [("a\"", .array [.number (-12), .string "\n\x01", .object []]),
        ("", .bool true)]) ++ 0 :: [65]) =
      .ok (.object [("a\"", .array [.number (-12), .string "\n\x01", .object []]),
      ("", .bool true)]) [0, 65] ∧
    cJSONParse cutToInt (cJSONPrintUnformatted
    (.object [("a\"", .array [.number (-12), .string "\n\x01",
        .object []]), ("", .bool true)]) ++ 0 :: [65]) =
      .ok (.object [("a\"", .array [.number (-12), .string "\n\x01", .object []]),
      ("", .bool true)]) [0, 65] := by
  refine cJSONParse_cJSONPrint cutToInt_intText ?_ [65]
  simp only [Plain, PlainMembers, PlainItems, and_true, true_and]
  exact ⟨⟨[97, 34], by decide, by simp⟩, ⟨[10, 1], by decide, by simp⟩, ⟨[], by decide, by simp⟩⟩

end DasEdge.Cjson
