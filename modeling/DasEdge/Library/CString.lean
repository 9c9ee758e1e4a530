import Mathlib.Algebra.Order.Ring.Int
import Mathlib.Data.Int.Notation
import Mathlib.Data.List.TakeWhile

/-!
# Texts of the C library

A text is the bytes before its null character. The functions of the C library that read texts, with
`int` and `long` of 32 bits.
-/

namespace DasEdge.Library

/-- `tolower` -/
def toLower (c : UInt8) : UInt8 := if 65 ≤ c ∧ c ≤ 90 then c + 32 else c

/-- `strncasecmp(s, t, strlen(t)) == 0` -/
def strBeginWith (s t : List UInt8) : Bool := decide ((s.take t.length).map toLower = t.map toLower)

/-- `isspace` -/
def isSpaceByte (c : UInt8) : Bool := decide (c = 32 ∨ (9 ≤ c ∧ c ≤ 13))

/-- `isdigit` -/
def isDigitByte (c : UInt8) : Bool := decide (48 ≤ c ∧ c ≤ 57)

/-- The number that the digits at the front of a text make. -/
def digitsValue (s : List UInt8) : ℕ :=
  (s.takeWhile isDigitByte).foldl (fun value c => 10 * value + (c.toNat - 48)) 0

/-- `atoi`, which is `strtol` with its limits. -/
def atoi (s : List UInt8) : ℤ :=
  match s.dropWhile isSpaceByte with
  | [] => 0
  | c :: rest =>
    if c = 45 then max (-2 ^ 31) (-(digitsValue rest : ℤ))
    else if c = 43 then min (2 ^ 31 - 1) (digitsValue rest : ℤ)
    else min (2 ^ 31 - 1) (digitsValue (c :: rest) : ℤ)

/-- A character that is no letter is only that in small letters. -/
theorem eq_of_toLower {c d : UInt8} (hd : d.toNat < 65) (h : toLower c = d) : c = d := by
  rw [toLower] at h
  split at h
  · next hupper =>
    have hge : 65 ≤ c.toNat := UInt8.le_iff_toNat_le.mp hupper.1
    have hle : c.toNat ≤ 90 := UInt8.le_iff_toNat_le.mp hupper.2
    have hsum : (c.toNat + 32) % 2 ^ 8 = d.toNat := by rw [← h, UInt8.toNat_add]; rfl
    omega
  · exact h

/-- A space is no digit. -/
theorem isDigitByte_of_isSpaceByte {c : UInt8} (h : isSpaceByte c = true) : isDigitByte c = false := by
  simp only [isSpaceByte, decide_eq_true_eq] at h
  simp only [isDigitByte, decide_eq_false_iff_not, UInt8.le_iff_toNat_le, ← UInt8.toNat_inj] at h ⊢
  rw [show UInt8.toNat 32 = 32 from rfl, show UInt8.toNat 9 = 9 from rfl,
    show UInt8.toNat 13 = 13 from rfl] at h
  rw [show UInt8.toNat 48 = 48 from rfl]
  omega

/-- Digits end before a character that is none. -/
theorem digitsValue_append {c : UInt8} (hdigit : isDigitByte c = false) (s rest : List UInt8) :
    digitsValue (s ++ c :: rest) = digitsValue s := by
  have htake : (s ++ c :: rest).takeWhile isDigitByte = s.takeWhile isDigitByte := by
    induction s with
    | nil => rw [List.nil_append, List.takeWhile_cons_of_neg (by simp [hdigit]), List.takeWhile_nil]
    | cons d s ih =>
      rw [List.cons_append, List.takeWhile_cons, List.takeWhile_cons, ih]
  rw [digitsValue, htake, digitsValue]

/-- `atoi` does not look behind a character that is no space, digit or sign. -/
theorem atoi_append {c : UInt8} (hspace : isSpaceByte c = false) (hdigit : isDigitByte c = false)
    (hminus : c ≠ 45) (hplus : c ≠ 43)
    (s rest : List UInt8) : atoi (s ++ c :: rest) = atoi s := by
  induction s with
  | nil =>
    have hnone : digitsValue (c :: rest) = 0 := digitsValue_append hdigit [] rest
    rw [List.nil_append, atoi, List.dropWhile_cons_of_neg (by simp [hspace])]
    simp only [if_neg hminus, if_neg hplus, hnone]
    rfl
  | cons d s ih =>
    cases hd : isSpaceByte d with
    | true =>
      rw [atoi, List.cons_append, List.dropWhile_cons_of_pos hd, ← atoi, ih, atoi, atoi,
        List.dropWhile_cons_of_pos hd]
    | false =>
      have hmore := digitsValue_append hdigit (d :: s) rest
      rw [List.cons_append] at hmore
      rw [List.cons_append, atoi, atoi, List.dropWhile_cons_of_neg (by simp [hd]),
        List.dropWhile_cons_of_neg (by simp [hd])]
      simp only [digitsValue_append hdigit s rest, hmore]

/-- `atoi` does not look behind a character that ends a number. -/
theorem atoi_takeWhile {c : UInt8} (hspace : isSpaceByte c = false) (hdigit : isDigitByte c = false)
    (hminus : c ≠ 45)
    (hplus : c ≠ 43) (s : List UInt8) : atoi (s.takeWhile (· ≠ c)) = atoi s := by
  have hsplit := List.takeWhile_append_dropWhile (p := (· ≠ c)) (l := s)
  cases hrest : s.dropWhile (· ≠ c) with
  | nil =>
    rw [hrest, List.append_nil] at hsplit
    rw [hsplit]
  | cons d rest =>
    have hd : d = c := by
      have hstop := List.head?_dropWhile_not (· ≠ c) s
      rw [hrest] at hstop
      simpa using hstop
    rw [hrest, hd] at hsplit
    calc
      atoi (s.takeWhile (· ≠ c)) = atoi (s.takeWhile (· ≠ c) ++ c :: rest) :=
        (atoi_append hspace hdigit hminus hplus _ rest).symm
      _ = atoi s := by rw [hsplit]

/-- Spaces before a number do not change it. -/
theorem atoi_dropWhile (s : List UInt8) : atoi (s.dropWhile (· = 32)) = atoi s := by
  induction s with
  | nil => rfl
  | cons c s ih =>
    by_cases hc : c = 32
    · have hspace : isSpaceByte c = true := by rw [hc]; rfl
      rw [List.dropWhile_cons_of_pos (by simp [hc]), ih, atoi, atoi, List.dropWhile_cons_of_pos hspace]
    · rw [List.dropWhile_cons_of_neg (by simp [hc])]

/-- The number in a text of spaces, digits and spaces. -/
theorem atoi_digits {before digits after : List UInt8}
    (hbefore : ∀ c ∈ before, isSpaceByte c = true) (hdigits : digits ≠ [])
    (hall : ∀ c ∈ digits, isDigitByte c = true) (hafter : ∀ c ∈ after, isSpaceByte c = true) :
    atoi (before ++ digits ++ after) = min (2 ^ 31 - 1) (digitsValue digits : ℤ) := by
  have hvalue : digitsValue (digits ++ after) = digitsValue digits := by
    cases after with
    | nil => rw [List.append_nil]
    | cons c after =>
      exact digitsValue_append (isDigitByte_of_isSpaceByte (hafter c List.mem_cons_self))
        digits after
  obtain ⟨d, digits, rfl⟩ := List.exists_cons_of_ne_nil hdigits
  have hd : isDigitByte d = true := hall d List.mem_cons_self
  have hspace : isSpaceByte d = false := by
    rw [← Bool.not_eq_true]
    intro hs
    rw [isDigitByte_of_isSpaceByte hs] at hd
    cases hd
  have hminus : d ≠ 45 := by rintro rfl; cases hd
  have hplus : d ≠ 43 := by rintro rfl; cases hd
  rw [atoi, List.append_assoc, List.dropWhile_append_of_pos hbefore, List.cons_append,
    List.dropWhile_cons_of_neg (by simp [hspace])]
  simp only [if_neg hminus, if_neg hplus]
  rw [← List.cons_append, hvalue]

/-- What a format of `sscanf` is made of: characters, where a space stands for any spaces, and `%d`. -/
inductive ScanItem
  | char (c : UInt8)
  | int

/-- `%d`: the number, and the text behind it. -/
def scanInt (text : List UInt8) : Option (ℤ × List UInt8) :=
  let digits := match text.dropWhile isSpaceByte with
    | [] => []
    | c :: rest => if c = 45 ∨ c = 43 then rest else c :: rest
  if digits.takeWhile isDigitByte = [] then none else some (atoi text, digits.dropWhile isDigitByte)

/-- `sscanf`: the numbers that are read before the text differs from the format. -/
def sscanfInts : List ScanItem → List UInt8 → List ℤ
  | [], _ => []
  | .char c :: items, text =>
    if isSpaceByte c then sscanfInts items (text.dropWhile isSpaceByte)
    else
      match text with
      | [] => []
      | d :: text => if d = c then sscanfInts items text else []
  | .int :: items, text =>
    match scanInt text with
    | none => []
    | some (value, rest) => value :: sscanfInts items rest

/-- A longer format reads at least the same numbers. -/
theorem sscanfInts_append (items more : List ScanItem) (text : List UInt8) :
    sscanfInts items text <+: sscanfInts (items ++ more) text := by
  induction items generalizing text with
  | nil => exact List.nil_prefix
  | cons item items ih =>
    cases item with
    | char c =>
      cases text with
      | nil =>
        simp only [List.cons_append, sscanfInts]
        split
        · exact ih _
        · exact List.nil_prefix
      | cons d text =>
        simp only [List.cons_append, sscanfInts]
        split
        · exact ih _
        · split
          · exact ih _
          · exact List.nil_prefix
    | int =>
      rw [List.cons_append, sscanfInts, sscanfInts]
      cases scanInt text with
      | none => exact List.nil_prefix
      | some number => exact List.prefix_cons_inj _ |>.mpr (ih _)

end DasEdge.Library
