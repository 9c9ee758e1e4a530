import DasEdge.Library.ScanFormat
import Mathlib.Algebra.Field.Rat
import Mathlib.Algebra.Order.Ring.Rat
import Mathlib.Tactic.FieldSimp
import Mathlib.Tactic.Positivity

/-!
# The numbers of `%f`

The value of an item of `%f` is built up along its automaton: digits go to the mantissa, behind the
point they are counted, and those behind the letter of the exponent make the power. So a text can be
read up to any place and on from there, and what stands behind a number that is read whole changes it
only by its digits behind a point and by its exponent.
-/

namespace DasEdge.Library

/-- A number without a sign as it is read: the digits so far, how many are behind the point, and the
exponent. -/
structure Numeral where
  mantissa : ℕ := 0
  places : ℕ := 0
  negative : Bool := false
  power : ℕ := 0
  base : ℕ := 10
  radix : ℕ := 10

/-- The value of a digit, a letter being one from ten on. -/
def digitValue (c : UInt8) : ℕ := if isDigitByte c then c.toNat - 48 else (toLower c).toNat - 87

/-- The number that digits make behind others. -/
def numberIn (base : ℕ) (number : ℕ) (digits : List UInt8) : ℕ :=
  digits.foldl (fun number c => base * number + digitValue c) number

namespace Numeral

/-- A digit more. -/
def digit (n : Numeral) (c : UInt8) : Numeral := { n with mantissa := n.base * n.mantissa + digitValue c }

/-- A digit more behind the point. -/
def place (n : Numeral) (c : UInt8) : Numeral := { n.digit c with places := n.places + 1 }

/-- A digit more of the exponent. -/
def powerDigit (n : Numeral) (c : UInt8) : Numeral := { n with power := 10 * n.power + digitValue c }

/-- Several digits more behind the point. -/
def point (n : Numeral) (k fraction : ℕ) : Numeral :=
  { n with mantissa := n.mantissa * n.base ^ k + fraction, places := n.places + k }

/-- An exponent. -/
def raise (n : Numeral) (negative : Bool) (power : ℕ) : Numeral :=
  { n with negative := negative, power := power }

/-- A character more, with the part of the number that it belongs to. -/
def take (n : Numeral) (next : FloatPart) (c : UInt8) : Numeral :=
  match next with
  | .zero | .digits | .hexDigits => n.digit c
  | .fraction | .hexFraction => if c = 46 then n else n.place c
  | .hex => { n with base := 16, radix := 2 }
  | .exponentSign => { n with negative := decide (c = 45) }
  | .exponentDigits => n.powerDigit c
  | _ => n

/-- What the exponent multiplies with. -/
def scale (n : Numeral) : ℚ := if n.negative then ((n.radix : ℚ) ^ n.power)⁻¹ else (n.radix : ℚ) ^ n.power

/-- The value of a number. -/
def value (n : Numeral) : ℚ := (n.mantissa : ℚ) / (n.base : ℚ) ^ n.places * n.scale

end Numeral

/-- A text that is read whole, as a number from a part on. -/
def numeralRun : FloatPart → Numeral → List UInt8 → Option (FloatPart × Numeral)
  | part, n, [] => some (part, n)
  | part, n, c :: text => (floatStep part c).bind fun next => numeralRun next (n.take next c) text

/-- The number that a text spells. -/
def spelledNumber (text : List UInt8) : Option ℚ :=
  (numeralRun .start {} text).bind fun r => if floatEnds r.1 then some r.2.value else none

/-- The number that a `%f` goes on to from a part on. -/
def numberFrom (part : FloatPart) (n : Numeral) (text : List UInt8) : Option ℚ :=
  (matchRun floatStep part none text).bind fun r =>
    if floatEnds r.1 then (numeralRun part n r.2.1).map (·.2.value) else none

/-- A character more of a `%f`. -/
theorem numberFrom_cons (part : FloatPart) (n : Numeral) (c : UInt8) (text : List UInt8) :
    numberFrom part n (c :: text) = (floatStep part c).elim
      (if floatEnds part then some n.value else none)
      fun next => numberFrom next (n.take next c) text := by
  cases hstep : floatStep part c with
  | none => simp [numberFrom, matchRun, hstep, numeralRun]
  | some next =>
    simp only [numberFrom, matchRun, hstep, reduceCtorEq, if_false, Option.map_none, Option.elim_some]
    cases matchRun floatStep next none text with
    | none => rfl
    | some r => simp only [Option.map_some, Option.bind_some, numeralRun, hstep]

/-- Behind a text that is read whole a `%f` goes on. -/
theorem numberFrom_append {part part' : FloatPart} {n n' : Numeral} {text : List UInt8}
    (h : numeralRun part n text = some (part', n')) (more : List UInt8) :
    numberFrom part n (text ++ more) = numberFrom part' n' more := by
  induction text generalizing part n with
  | nil =>
    cases h
    rfl
  | cons c text ih =>
    obtain ⟨next, hstep, hrun⟩ := Option.bind_eq_some_iff.mp h
    rw [List.cons_append, numberFrom_cons, hstep, Option.elim_some, ih hrun]

/-- Texts are read one after the other. -/
theorem numeralRun_append {part part' : FloatPart} {n n' : Numeral} {text : List UInt8}
    (h : numeralRun part n text = some (part', n')) (more : List UInt8) :
    numeralRun part n (text ++ more) = numeralRun part' n' more := by
  induction text generalizing part n with
  | nil =>
    cases h
    rfl
  | cons c text ih =>
    obtain ⟨next, hstep, hrun⟩ := Option.bind_eq_some_iff.mp h
    rw [List.cons_append, numeralRun, hstep, Option.bind_some, ih hrun]

/-- What an automaton has taken is read whole, up to the part where it stops. -/
theorem numeralRun_of_matchRun {part : FloatPart} {text : List UInt8}
    {r : FloatPart × List UInt8 × List UInt8} (h : matchRun floatStep part none text = some r)
    (n : Numeral) : ∃ n', numeralRun part n r.2.1 = some (r.1, n') := by
  induction text generalizing part r n with
  | nil => cases h
  | cons c text ih =>
    rw [matchRun, if_neg (by simp)] at h
    cases hstep : floatStep part c with
    | none =>
      rw [hstep] at h
      cases h
      exact ⟨n, rfl⟩
    | some next =>
      rw [hstep] at h
      obtain ⟨r', hrest, rfl⟩ := Option.map_eq_some_iff.mp h
      obtain ⟨n', hrun⟩ := ih hrest (n.take next c)
      exact ⟨n', by rw [numeralRun, hstep, Option.bind_some, hrun]⟩

/-- The number that a `%f` stores of a text that begins with a digit. -/
theorem scan_float {φ : Type*} (dest : φ) {c : UInt8} (hc : isDigitByte c = true) (text : List UInt8) :
    ((scan [Directive.float dest] (c :: text)).bind fun stored =>
      stored.head?.bind fun item => spelledNumber item.2) = numberFrom .start {} (c :: text) := by
  have hspace : skipSpace (c :: text) = some (c :: text) := by
    refine if_neg fun hspace => ?_
    rw [isDigitByte_of_isSpaceByte hspace] at hc
    cases hc
  rw [numberFrom, scan, Directive.read, hspace, Option.bind_some, readItem]
  cases hrun : matchRun floatStep .start none (c :: text) with
  | none => rfl
  | some r =>
    obtain ⟨n, hwhole⟩ := numeralRun_of_matchRun hrun {}
    cases hends : floatEnds r.1 with
    | false => simp [hends]
    | true => simp [hends, scan, Directive.dest, spelledNumber, hwhole]

/-- What an automaton takes while it stays in a part. -/
theorem numeralRun_stay {part : FloatPart} {update : Numeral → UInt8 → Numeral} {text : List UInt8}
    (h : ∀ c ∈ text, floatStep part c = some part ∧ ∀ n : Numeral, n.take part c = update n c)
    (n : Numeral) : numeralRun part n text = some (part, text.foldl update n) := by
  induction text generalizing n with
  | nil => rfl
  | cons c text ih =>
    obtain ⟨hstep, htake⟩ := h c List.mem_cons_self
    rw [numeralRun, hstep, Option.bind_some, htake, ih fun d hd => h d (List.mem_cons_of_mem c hd),
      List.foldl_cons]

/-- Digits go to the mantissa. -/
theorem foldl_digit (n : Numeral) (digits : List UInt8) :
    digits.foldl Numeral.digit n = { n with mantissa := numberIn n.base n.mantissa digits } := by
  induction digits generalizing n with
  | nil => rfl
  | cons c digits ih => rw [List.foldl_cons, ih]; rfl

/-- Digits behind the point are counted. -/
theorem foldl_place (n : Numeral) (digits : List UInt8) :
    digits.foldl Numeral.place n =
      { n with mantissa := numberIn n.base n.mantissa digits, places := n.places + digits.length } := by
  induction digits generalizing n with
  | nil => rfl
  | cons c digits ih =>
    rw [List.foldl_cons, ih, List.length_cons, Nat.add_comm digits.length, ← Nat.add_assoc]
    rfl

/-- Digits of the exponent make the power. -/
theorem foldl_powerDigit (n : Numeral) (digits : List UInt8) :
    digits.foldl Numeral.powerDigit n = { n with power := numberIn 10 n.power digits } := by
  induction digits generalizing n with
  | nil => rfl
  | cons c digits ih => rw [List.foldl_cons, ih]; rfl

/-- Digits behind others, with the place value of those. -/
theorem numberIn_eq (base number : ℕ) (digits : List UInt8) :
    numberIn base number digits = number * base ^ digits.length + numberIn base 0 digits := by
  induction digits generalizing number with
  | nil => simp [numberIn]
  | cons c digits ih =>
    have hcons (m : ℕ) : numberIn base m (c :: digits) = numberIn base (base * m + digitValue c) digits := rfl
    rw [hcons, hcons, ih, ih (base * 0 + digitValue c), List.length_cons, Nat.mul_zero, Nat.zero_add,
      Nat.add_mul, Nat.pow_succ, Nat.add_assoc, Nat.mul_comm base number, Nat.mul_assoc,
      Nat.mul_comm base (base ^ digits.length)]

/-- Digits make less than the next power of their base. -/
theorem numberIn_lt {base : ℕ} {digits : List UInt8} (h : ∀ c ∈ digits, digitValue c < base) :
    numberIn base 0 digits < base ^ digits.length := by
  induction digits with
  | nil => exact Nat.one_pos
  | cons c digits ih =>
    have hrest := ih fun d hd => h d (List.mem_cons_of_mem c hd)
    have hcons : numberIn base 0 (c :: digits) = numberIn base (base * 0 + digitValue c) digits := rfl
    rw [hcons, Nat.mul_zero, Nat.zero_add, numberIn_eq, List.length_cons, Nat.pow_succ, Nat.mul_comm _ base]
    calc digitValue c * base ^ digits.length + numberIn base 0 digits
        < digitValue c * base ^ digits.length + base ^ digits.length := Nat.add_lt_add_left hrest _
      _ = (digitValue c + 1) * base ^ digits.length := (Nat.succ_mul _ _).symm
      _ ≤ base * base ^ digits.length := Nat.mul_le_mul_right _ (h c List.mem_cons_self)

/-- Digits make zero when all of them are. -/
theorem numberIn_eq_zero {base : ℕ} (hbase : 0 < base) {digits : List UInt8} :
    numberIn base 0 digits = 0 ↔ ∀ c ∈ digits, digitValue c = 0 := by
  induction digits with
  | nil => simp [numberIn]
  | cons c digits ih =>
    have hcons : numberIn base 0 (c :: digits) = numberIn base (base * 0 + digitValue c) digits := rfl
    have hpow : base ^ digits.length ≠ 0 := Nat.pos_iff_ne_zero.mp (Nat.pow_pos hbase)
    rw [hcons, Nat.mul_zero, Nat.zero_add, numberIn_eq, Nat.add_eq_zero_iff, Nat.mul_eq_zero, ih,
      List.forall_mem_cons, or_iff_left hpow]

/-- A number and a fraction times a power are the number only without a fraction, and when the number or
the exponent is zero. -/
theorem scaled_eq_iff {number fraction unit radix power : ℕ} (hfraction : fraction < unit)
    (hradix : 2 ≤ radix) : (number * unit + fraction) * radix ^ power = number * unit ↔
      fraction = 0 ∧ (number = 0 ∨ power = 0) := by
  constructor
  · intro h
    rcases Nat.eq_zero_or_pos power with rfl | hpower
    · rw [Nat.pow_zero, Nat.mul_one] at h
      exact ⟨by omega, Or.inr rfl⟩
    · have htwo : 2 ≤ radix ^ power := hradix.trans (Nat.le_self_pow (Nat.ne_of_gt hpower) radix)
      have hle := Nat.mul_le_mul_left (number * unit + fraction) htwo
      have hzero : number * unit = 0 := by omega
      have hnumber : number = 0 := (Nat.mul_eq_zero.mp hzero).resolve_right (by omega)
      exact ⟨by omega, Or.inl hnumber⟩
  · rintro ⟨rfl, rfl | rfl⟩ <;> simp

/-- The same for a negative exponent. -/
theorem scaled_eq_iff' {number fraction unit radix power : ℕ} (hfraction : fraction < unit)
    (hradix : 2 ≤ radix) : number * unit + fraction = number * unit * radix ^ power ↔
      fraction = 0 ∧ (number = 0 ∨ power = 0) := by
  constructor
  · intro h
    rcases Nat.eq_zero_or_pos power with rfl | hpower
    · rw [Nat.pow_zero, Nat.mul_one] at h
      exact ⟨by omega, Or.inr rfl⟩
    · have htwo : 2 ≤ radix ^ power := hradix.trans (Nat.le_self_pow (Nat.ne_of_gt hpower) radix)
      have hle := Nat.mul_le_mul_left (number * unit) htwo
      rcases Nat.eq_zero_or_pos number with rfl | hnumber
      · rw [Nat.zero_mul, Nat.zero_mul, Nat.zero_add] at h
        exact ⟨h, Or.inl rfl⟩
      · have hunit := Nat.le_mul_of_pos_left unit hnumber
        omega
  · rintro ⟨rfl, rfl | rfl⟩ <;> simp

/-- Fractions with a common factor below are compared without it. -/
theorem div_mul_eq_div_iff {a b p u s : ℚ} (hp : p ≠ 0) (hu : u ≠ 0) :
    a / (p * u) * s = b / p ↔ a * s = b * u := by
  rw [div_mul_eq_mul_div, div_eq_div_iff (mul_ne_zero hp hu) hp, mul_comm p u, ← mul_assoc,
    mul_left_inj' hp]

/-- A number with digits behind a point and an exponent more has the same value only if these are
zero. -/
theorem Numeral.value_eq_iff {n : Numeral} (hbase : 0 < n.base) (hradix : 2 ≤ n.radix)
    (hnegative : n.negative = false) (hpower : n.power = 0) {k fraction : ℕ}
    (hfraction : fraction < n.base ^ k) (negative : Bool) (power : ℕ) :
    ((n.point k fraction).raise negative power).value = n.value ↔
      fraction = 0 ∧ (n.mantissa = 0 ∨ power = 0) := by
  have hplaces : (n.base : ℚ) ^ n.places ≠ 0 := pow_ne_zero _ (by positivity)
  have hunit : (n.base : ℚ) ^ k ≠ 0 := pow_ne_zero _ (by positivity)
  have hscale : (n.radix : ℚ) ^ power ≠ 0 := pow_ne_zero _ (by positivity)
  have hvalue : n.value = (n.mantissa : ℚ) / (n.base : ℚ) ^ n.places := by
    rw [value, scale, hnegative, hpower]
    simp
  rw [hvalue]
  simp only [value, point, raise]
  rw [pow_add, div_mul_eq_div_iff hplaces hunit]
  cases negative with
  | false =>
    rw [← scaled_eq_iff hfraction hradix, ← Nat.cast_inj (R := ℚ)]
    push_cast
    rfl
  | true =>
    rw [← scaled_eq_iff' hfraction hradix, ← Nat.cast_inj (R := ℚ), scale, if_pos rfl,
      mul_inv_eq_iff_eq_mul₀ hscale]
    push_cast
    rfl

/-- The digits of an exponent behind its letter. -/
def exponentDigits (text : List UInt8) : List UInt8 :=
  (if text.head? = some 43 ∨ text.head? = some 45 then text.tail else text).takeWhile isDigitByte

/-- Where an exponent begins it is complete, and it is zero or the number is. -/
def HarmlessExponent (letter : UInt8) (zero : Prop) (text : List UInt8) : Prop :=
  ∀ c rest, text = c :: rest → toLower c = letter →
    exponentDigits rest ≠ [] ∧ (zero ∨ ∀ d ∈ exponentDigits rest, d = 48)

/-- What a `%f` makes of digits in a part that they do not leave. -/
theorem numberFrom_stay {part : FloatPart} {isDigit : UInt8 → Bool} {update : Numeral → UInt8 → Numeral}
    (h : ∀ c, isDigit c = true → floatStep part c = some part ∧ ∀ n : Numeral, n.take part c = update n c)
    (n : Numeral) (text : List UInt8) : numberFrom part n text =
      numberFrom part ((text.takeWhile isDigit).foldl update n) (text.dropWhile isDigit) := by
  have hrun := numeralRun_stay
    (fun c (hc : c ∈ text.takeWhile isDigit) => h c (List.mem_takeWhile_imp hc)) n
  rw [← numberFrom_append hrun, List.takeWhile_append_dropWhile]

/-- The digits of an exponent come to an end in a text with a null character. -/
theorem numberFrom_exponentDigits {text : List UInt8} (hnull : 0 ∈ text) (n : Numeral) :
    numberFrom .exponentDigits n text =
      some (n.raise n.negative (numberIn 10 n.power (text.takeWhile isDigitByte))).value := by
  have hstay : ∀ c, isDigitByte c = true → floatStep .exponentDigits c = some .exponentDigits ∧
      ∀ n : Numeral, n.take .exponentDigits c = n.powerDigit c := fun c hc => ⟨if_pos hc, fun _ => rfl⟩
  rw [numberFrom_stay hstay, foldl_powerDigit]
  cases hrest : text.dropWhile isDigitByte with
  | nil => exact absurd (List.dropWhile_eq_nil_iff.mp hrest 0 hnull) (by decide)
  | cons c rest =>
    have hc : isDigitByte c = false := by
      have hhead := List.head?_dropWhile_not isDigitByte text
      rw [hrest] at hhead
      simpa using hhead
    rw [numberFrom_cons, floatStep, if_neg (by simp [hc])]
    rfl

/-- The digits of an exponent, of which there must be one. -/
theorem numberFrom_powerDigits {part : FloatPart} (hends : floatEnds part = false) {text : List UInt8}
    (hstep : ∀ c, text.head? = some c →
      floatStep part c = if isDigitByte c then some .exponentDigits else none)
    (hnull : 0 ∈ text) (n : Numeral) : numberFrom part n text =
      if text.takeWhile isDigitByte = [] then none
      else some (n.raise n.negative (numberIn 10 n.power (text.takeWhile isDigitByte))).value := by
  obtain ⟨c, rest, rfl⟩ := List.exists_cons_of_ne_nil (List.ne_nil_of_mem hnull)
  rw [numberFrom_cons, hstep c rfl, hends]
  by_cases hc : isDigitByte c = true
  · have hrest : 0 ∈ rest := by
      rcases List.mem_cons.mp hnull with rfl | hrest
      · exact absurd hc (by decide)
      · exact hrest
    rw [if_pos hc, Option.elim_some, List.takeWhile_cons_of_pos hc, if_neg (List.cons_ne_nil _ _),
      numberFrom_exponentDigits hrest]
    rfl
  · rw [if_neg hc, Option.elim_none, List.takeWhile_cons_of_neg hc, if_pos rfl]
    rfl

/-- Behind its letter an exponent is read. -/
theorem numberFrom_exponent {text : List UInt8} (hnull : 0 ∈ text) (n : Numeral) :
    ∃ negative, numberFrom .exponent n text =
      if exponentDigits text = [] then none
      else some (n.raise negative (numberIn 10 n.power (exponentDigits text))).value := by
  by_cases hsign : text.head? = some 43 ∨ text.head? = some 45
  · obtain ⟨c, rest, rfl⟩ := List.exists_cons_of_ne_nil (List.ne_nil_of_mem hnull)
    have hc : c = 43 ∨ c = 45 := by simpa using hsign
    have hrest : 0 ∈ rest := by
      rcases List.mem_cons.mp hnull with rfl | hrest
      · exact absurd hc (by decide)
      · exact hrest
    refine ⟨decide (c = 45), ?_⟩
    rw [numberFrom_cons, floatStep, if_pos hc, Option.elim_some, exponentDigits, if_pos hsign]
    exact numberFrom_powerDigits rfl (fun _ _ => rfl) hrest { n with negative := decide (c = 45) }
  · refine ⟨n.negative, ?_⟩
    rw [exponentDigits, if_neg hsign]
    refine numberFrom_powerDigits rfl (fun c hhead => ?_) hnull n
    rw [hhead, Option.some_inj, Option.some_inj] at hsign
    rw [floatStep, if_neg hsign]

/-- A decimal digit is zero. -/
theorem digitValue_eq_zero {c : UInt8} (hc : isDigitByte c = true) : digitValue c = 0 ↔ c = 48 := by
  have hrange : 48 ≤ c.toNat ∧ c.toNat ≤ 57 := by
    have hbounds := of_decide_eq_true hc
    exact ⟨UInt8.le_iff_toNat_le.mp hbounds.1, UInt8.le_iff_toNat_le.mp hbounds.2⟩
  have hforty : (48 : UInt8).toNat = 48 := rfl
  rw [digitValue, if_pos hc, ← UInt8.toNat_inj, hforty]
  omega

/-- Decimal digits make zero when each is the character for it. -/
theorem numberIn_digits_eq_zero {digits : List UInt8} (hdigits : ∀ c ∈ digits, isDigitByte c = true) :
    numberIn 10 0 digits = 0 ↔ ∀ c ∈ digits, c = 48 :=
  (numberIn_eq_zero (by decide)).trans
    (forall₂_congr fun c hc => digitValue_eq_zero (hdigits c hc))

/-- What stands behind the digits of a number leaves it as it is exactly when the digits behind a point
there are zero, and an exponent is complete and is zero, or is one of zero. -/
theorem numberFrom_eq_value_iff {part : FloatPart} (hends : floatEnds part = true) {letter : UInt8}
    {text : List UInt8} (hstep : ∀ c, text.head? = some c →
      floatStep part c = if toLower c = letter then some .exponent else none)
    (hnull : 0 ∈ text) {n : Numeral} (hbase : 0 < n.base) (hradix : 2 ≤ n.radix)
    (hnegative : n.negative = false) (hpower : n.power = 0) {k fraction : ℕ}
    (hfraction : fraction < n.base ^ k) :
    numberFrom part (n.point k fraction) text = some n.value ↔
      fraction = 0 ∧ HarmlessExponent letter (n.mantissa = 0) text := by
  obtain ⟨c, rest, rfl⟩ := List.exists_cons_of_ne_nil (List.ne_nil_of_mem hnull)
  rw [numberFrom_cons, hstep c rfl]
  by_cases hletter : toLower c = letter
  · have hrest : 0 ∈ rest := by
      rcases List.mem_cons.mp hnull with rfl | hrest
      · have hnone := (hstep 0 rfl).symm.trans (floatStep_null part)
        rw [if_pos hletter] at hnone
        cases hnone
      · exact hrest
    have hharmless : HarmlessExponent letter (n.mantissa = 0) (c :: rest) ↔
        exponentDigits rest ≠ [] ∧ (n.mantissa = 0 ∨ ∀ d ∈ exponentDigits rest, d = 48) := by
      refine ⟨fun h => h c rest rfl hletter, fun h c' rest' heq _ => ?_⟩
      cases heq
      exact h
    have hzeros := numberIn_digits_eq_zero fun d (hd : d ∈ exponentDigits rest) =>
      List.mem_takeWhile_imp hd
    obtain ⟨negative, hread⟩ := numberFrom_exponent hrest (n.point k fraction)
    have hraised : (n.point k fraction).power = 0 := hpower
    rw [if_pos hletter, Option.elim_some, hharmless]
    change numberFrom .exponent (n.point k fraction) rest = _ ↔ _
    rw [hread, hraised]
    by_cases hdigits : exponentDigits rest = []
    · simp [hdigits]
    · rw [if_neg hdigits, Option.some_inj, ← hzeros,
        Numeral.value_eq_iff hbase hradix hnegative hpower hfraction]
      simp [hdigits]
  · have hharmless : HarmlessExponent letter (n.mantissa = 0) (c :: rest) := by
      intro c' rest' heq hletter'
      cases heq
      exact absurd hletter' hletter
    have hraise : n.point k fraction = (n.point k fraction).raise false 0 := by
      rw [← hnegative, ← hpower]
      rfl
    rw [if_neg hletter, Option.elim_none, if_pos hends, Option.some_inj, hraise,
      Numeral.value_eq_iff hbase hradix hnegative hpower hfraction]
    simp [hharmless]

/-- A number without anything behind it. -/
theorem Numeral.point_zero (n : Numeral) : n.point 0 0 = n := by
  rw [point, Nat.pow_zero, Nat.mul_one]
  rfl

/-- The same for a number with nothing behind it but an exponent. -/
theorem numberFrom_whole_iff {part : FloatPart} (hends : floatEnds part = true) {letter : UInt8}
    {text : List UInt8} (hstep : ∀ c, text.head? = some c →
      floatStep part c = if toLower c = letter then some .exponent else none)
    (hnull : 0 ∈ text) {n : Numeral} (hbase : 0 < n.base) (hradix : 2 ≤ n.radix)
    (hnegative : n.negative = false) (hpower : n.power = 0) :
    numberFrom part n text = some n.value ↔ HarmlessExponent letter (n.mantissa = 0) text := by
  have hpoint := numberFrom_eq_value_iff hends hstep hnull hbase hradix hnegative hpower
    (k := 0) (Nat.pow_pos hbase)
  rw [Numeral.point_zero] at hpoint
  rw [hpoint, and_iff_right rfl]

/-- A digit is no point. -/
theorem ne_point_of_isDigitByte {c : UInt8} (hc : isDigitByte c = true) : c ≠ 46 := by
  rintro rfl
  cases hc

/-- A digit is no letter. -/
theorem toLower_of_isDigitByte {c : UInt8} (hc : isDigitByte c = true) : toLower c = c := by
  have hbounds := of_decide_eq_true hc
  refine if_neg fun hletter => ?_
  exact absurd (UInt8.le_trans hletter.1 hbounds.2) (by decide)

/-- A digit behind a zero. -/
theorem floatStep_zero {c : UInt8} (hc : isDigitByte c = true) : floatStep .zero c = some .digits := by
  have hletter : toLower c ≠ 120 := by
    rw [toLower_of_isDigitByte hc]
    rintro rfl
    cases hc
  rw [floatStep, if_neg hletter, floatDigits, if_pos hc]

/-- The digits of a decimal number up to its point. -/
theorem numeralRun_digits {digits : List UInt8} (hne : digits ≠ [])
    (hdigits : ∀ c ∈ digits, isDigitByte c = true) : ∃ part,
      numeralRun .start {} digits = some (part, { mantissa := numberIn 10 0 digits }) ∧
        (part = .zero ∧ digits = [48] ∨ part = .digits) := by
  obtain ⟨c, rest, rfl⟩ := List.exists_cons_of_ne_nil hne
  have hc := hdigits c List.mem_cons_self
  have hrest : ∀ d ∈ rest, isDigitByte d = true := fun d hd => hdigits d (List.mem_cons_of_mem c hd)
  have hstay : ∀ d ∈ rest, floatStep .digits d = some .digits ∧
      ∀ n : Numeral, n.take .digits d = n.digit d := fun d hd => ⟨if_pos (hrest d hd), fun _ => rfl⟩
  have hrun (n : Numeral) := numeralRun_stay hstay n
  have hsign : ¬ (c = 43 ∨ c = 45) := by
    rintro (rfl | rfl) <;> cases hc
  by_cases hzero : c = 48
  · subst hzero
    cases rest with
    | nil => exact ⟨.zero, rfl, Or.inl ⟨rfl, rfl⟩⟩
    | cons d rest =>
      have hd := floatStep_zero (hrest d List.mem_cons_self)
      have hmore := numeralRun_stay (fun e he => hstay e (List.mem_cons_of_mem d he))
        (({} : Numeral).digit 48 |>.digit d)
      refine ⟨.digits, ?_, Or.inr rfl⟩
      change (floatStep .zero d).bind _ = _
      rw [hd, Option.bind_some]
      refine hmore.trans ?_
      rw [foldl_digit]
      rfl
  · refine ⟨.digits, ?_, Or.inr rfl⟩
    rw [numeralRun, floatStep, if_neg hsign, floatBegin, if_neg hzero, if_pos hc, Option.bind_some, hrun,
      foldl_digit]
    rfl

/-- Behind the digits of a decimal number a point begins its fraction. -/
theorem numeralRun_fraction {part : FloatPart} (hpart : part = .zero ∨ part = .digits) (n : Numeral)
    {digits : List UInt8} (hdigits : ∀ c ∈ digits, isDigitByte c = true) :
    numeralRun part n (46 :: digits) = some (.fraction, digits.foldl Numeral.place n) := by
  have hstep : floatStep part 46 = some .fraction := by rcases hpart with rfl | rfl <;> rfl
  have hstay : ∀ c ∈ digits, floatStep .fraction c = some .fraction ∧
      ∀ n : Numeral, n.take .fraction c = n.place c :=
    fun c hc => ⟨if_pos (hdigits c hc), fun _ => if_neg (ne_point_of_isDigitByte (hdigits c hc))⟩
  rw [numeralRun, hstep, Option.bind_some, numeralRun_stay hstay]
  rfl

/-- A number that is read whole is what is read of a longer text when nothing behind it changes it. -/
theorem spelled_iff {lexeme following : List UInt8} {part : FloatPart} {n : Numeral}
    (hrun : numeralRun .start {} lexeme = some (part, n)) (hends : floatEnds part = true) :
    (∃ q, spelledNumber lexeme = some q ∧ numberFrom .start {} (lexeme ++ following) = some q) ↔
      numberFrom part n following = some n.value := by
  have hspelled : spelledNumber lexeme = some n.value := by
    rw [spelledNumber, hrun, Option.bind_some, if_pos hends]
  rw [hspelled, numberFrom_append hrun]
  constructor
  · rintro ⟨q, hq, hread⟩
    rw [hread, hq]
  · exact fun hread => ⟨n.value, rfl, hread⟩

/-- Only whether the number is zero counts. -/
theorem HarmlessExponent.congr {letter : UInt8} {zero zero' : Prop} (h : zero ↔ zero')
    (text : List UInt8) : HarmlessExponent letter zero text ↔ HarmlessExponent letter zero' text := by
  rw [HarmlessExponent, h]
  rfl

section Decimal

variable {digits places following : List UInt8}

/-- Among digits there is no point. -/
theorem count_point (hdigits : ∀ c ∈ digits, isDigitByte c = true) : digits.count 46 = 0 :=
  List.count_eq_zero.mpr fun hmem => ne_point_of_isDigitByte (hdigits 46 hmem) rfl

/-- Digits, and perhaps points, make zero. -/
theorem zero_iff_points (hdigits : ∀ c ∈ digits, isDigitByte c = true) :
    numberIn 10 0 digits = 0 ↔ ∀ c ∈ digits, c = 48 ∨ c = 46 := by
  rw [numberIn_digits_eq_zero hdigits]
  exact forall₂_congr fun c hc => (or_iff_left (ne_point_of_isDigitByte (hdigits c hc))).symm

/-- A number without a point. -/
theorem wholeNumber_iff (hne : digits ≠ []) (hdigits : ∀ c ∈ digits, isDigitByte c = true)
    (hbehind : ∀ c, following.head? = some c →
      isDigitByte c = false ∧ c ≠ 46 ∧ (digits = [48] → toLower c ≠ 120)) (hnull : 0 ∈ following) :
    (∃ q, spelledNumber digits = some q ∧ numberFrom .start {} (digits ++ following) = some q) ↔
      HarmlessExponent 101 (∀ c ∈ digits, c = 48 ∨ c = 46) following := by
  obtain ⟨part, hrun, hpart⟩ := numeralRun_digits hne hdigits
  have hends : floatEnds part = true := by rcases hpart with ⟨rfl, -⟩ | rfl <;> rfl
  have hstep : ∀ c, following.head? = some c →
      floatStep part c = if toLower c = 101 then some .exponent else none := by
    intro c hc
    obtain ⟨hnot, hpoint, hx⟩ := hbehind c hc
    have hrest : floatDigits isDigitByte .digits (some .fraction) 101 c =
        if toLower c = 101 then some .exponent else none := by
      rw [floatDigits, if_neg (by simp [hnot]), if_neg hpoint]
    rcases hpart with ⟨rfl, hzero⟩ | rfl
    · rw [floatStep, if_neg (hx hzero), hrest]
    · exact hrest
  rw [spelled_iff hrun hends, numberFrom_whole_iff hends hstep hnull (Nat.succ_pos 9)
    (Nat.le_add_left 2 8) rfl rfl]
  exact HarmlessExponent.congr (zero_iff_points hdigits) following

/-- A number up to the end of its fraction. -/
theorem numeralRun_point (hne : digits ≠ []) (hdigits : ∀ c ∈ digits, isDigitByte c = true)
    (hplaces : ∀ c ∈ places, isDigitByte c = true) :
    numeralRun .start {} (digits ++ 46 :: places) =
      some (.fraction, { mantissa := numberIn 10 0 (digits ++ places), places := places.length }) := by
  obtain ⟨part, hrun, hpart⟩ := numeralRun_digits hne hdigits
  rw [numeralRun_append hrun, numeralRun_fraction (hpart.imp_left And.left) _ hplaces, foldl_place]
  simp only [numberIn, List.foldl_append, Nat.zero_add]

/-- A number with a point. -/
theorem pointNumber_iff (hne : digits ≠ []) (hdigits : ∀ c ∈ digits, isDigitByte c = true)
    (hplaces : ∀ c ∈ places, isDigitByte c = true)
    (hbehind : ∀ c, following.head? = some c → isDigitByte c = false ∧ c ≠ 46) (hnull : 0 ∈ following) :
    (∃ q, spelledNumber (digits ++ 46 :: places) = some q ∧
      numberFrom .start {} (digits ++ 46 :: places ++ following) = some q) ↔
        HarmlessExponent 101 (∀ c ∈ digits ++ 46 :: places, c = 48 ∨ c = 46) following := by
  have hstep : ∀ c, following.head? = some c →
      floatStep .fraction c = if toLower c = 101 then some .exponent else none := by
    intro c hc
    obtain ⟨hnot, hpoint⟩ := hbehind c hc
    rw [floatStep, floatDigits, if_neg (by simp [hnot]), if_neg hpoint]
  have hall : ∀ c ∈ digits ++ places, isDigitByte c = true := by
    intro c hc
    exact (List.mem_append.mp hc).elim (hdigits c) (hplaces c)
  have hzero : numberIn 10 0 (digits ++ places) = 0 ↔
      ∀ c ∈ digits ++ 46 :: places, c = 48 ∨ c = 46 := by
    rw [zero_iff_points hall]
    simp only [List.forall_mem_append, List.forall_mem_cons, or_true, true_and]
  rw [spelled_iff (numeralRun_point hne hdigits hplaces) rfl,
    numberFrom_whole_iff rfl hstep hnull (Nat.succ_pos 9) (Nat.le_add_left 2 8) rfl rfl]
  exact HarmlessExponent.congr hzero following

/-- A number with two points is none. -/
theorem spelledNumber_points (hne : digits ≠ []) (hdigits : ∀ c ∈ digits, isDigitByte c = true)
    (hplaces : ∀ c ∈ places, isDigitByte c = true) (more : List UInt8) :
    spelledNumber (digits ++ 46 :: places ++ 46 :: more) = none := by
  rw [spelledNumber, numeralRun_append (numeralRun_point hne hdigits hplaces)]
  rfl

/-- The value of a decimal number is read when it has at most one point, and when what stands behind it
is no exponent or one that changes nothing. -/
theorem decimalNumber_iff {lexeme : List UInt8} (hlexeme : ∀ c ∈ lexeme, isDigitByte c = true ∨ c = 46)
    (hfirst : ∃ c rest, lexeme = c :: rest ∧ isDigitByte c = true)
    (hbehind : ∀ c, following.head? = some c →
      isDigitByte c = false ∧ c ≠ 46 ∧ (lexeme = [48] → toLower c ≠ 120)) (hnull : 0 ∈ following) :
    (∃ q, spelledNumber lexeme = some q ∧ numberFrom .start {} (lexeme ++ following) = some q) ↔
      lexeme.count 46 ≤ 1 ∧ HarmlessExponent 101 (∀ c ∈ lexeme, c = 48 ∨ c = 46) following := by
  have hpoint {text tail : List UInt8} {d : UInt8} (hsub : ∀ c ∈ text, isDigitByte c = true ∨ c = 46)
      (htail : text.dropWhile isDigitByte = d :: tail) : d = 46 := by
    have hhead := List.head?_dropWhile_not isDigitByte text
    rw [htail] at hhead
    refine (hsub d ?_).resolve_left (by simpa using hhead)
    exact (List.dropWhile_suffix isDigitByte).subset (htail ▸ List.mem_cons_self)
  have hrun (text : List UInt8) : ∀ c ∈ text.takeWhile isDigitByte, isDigitByte c = true :=
    fun c hc => List.mem_takeWhile_imp hc
  obtain ⟨c, rest, hcons, hc⟩ := hfirst
  have hne : lexeme.takeWhile isDigitByte ≠ [] := by
    rw [hcons, List.takeWhile_cons_of_pos hc]
    exact List.cons_ne_nil _ _
  have hsplit : lexeme.takeWhile isDigitByte ++ lexeme.dropWhile isDigitByte = lexeme :=
    List.takeWhile_append_dropWhile
  cases htail : lexeme.dropWhile isDigitByte with
  | nil =>
    rw [htail, List.append_nil] at hsplit
    have hdigits := hsplit ▸ hrun lexeme
    rw [wholeNumber_iff (hsplit ▸ hne) hdigits hbehind hnull, count_point hdigits]
    simp
  | cons d tail =>
    obtain rfl := hpoint hlexeme htail
    rw [htail] at hsplit
    have hsplit' : tail.takeWhile isDigitByte ++ tail.dropWhile isDigitByte = tail :=
      List.takeWhile_append_dropWhile
    cases hmore : tail.dropWhile isDigitByte with
    | nil =>
      rw [hmore, List.append_nil] at hsplit'
      have hplaces := hsplit' ▸ hrun tail
      rw [← hsplit, pointNumber_iff hne (hrun lexeme) hplaces
        (fun c hc => ⟨(hbehind c hc).1, (hbehind c hc).2.1⟩) hnull]
      simp [List.count_append, count_point (hrun lexeme), count_point hplaces]
    | cons e more =>
      have hsub : ∀ c ∈ tail, isDigitByte c = true ∨ c = 46 := by
        intro c hc
        refine hlexeme c ?_
        rw [← hsplit]
        exact List.mem_append_right _ (List.mem_cons_of_mem 46 hc)
      obtain rfl := hpoint hsub hmore
      rw [hmore] at hsplit'
      have hwhole : lexeme = lexeme.takeWhile isDigitByte ++ 46 :: tail.takeWhile isDigitByte ++ 46 :: more := by
        rw [List.append_assoc, List.cons_append, hsplit', hsplit]
      have hnone := spelledNumber_points hne (hrun lexeme) (hrun tail) more
      rw [← hwhole] at hnone
      have hcount : ¬ lexeme.count 46 ≤ 1 := by
        rw [hwhole, List.count_append, List.count_append, List.count_cons_self, List.count_cons_self]
        omega
      refine iff_of_false ?_ fun h => hcount h.1
      rintro ⟨q, hq, -⟩
      rw [hnone] at hq
      cases hq

end Decimal

/-- The digits behind a point that stands at the front of a text. -/
def hexFraction (text : List UInt8) : List UInt8 :=
  if text.head? = some 46 then text.tail.takeWhile isHexDigitByte else []

/-- What is behind them. -/
def behindHexFraction (text : List UInt8) : List UInt8 :=
  if text.head? = some 46 then text.tail.dropWhile isHexDigitByte else text

section Hexadecimal

variable {digits following : List UInt8} {x : UInt8}

/-- The value of a hexadecimal digit. -/
theorem digitValue_hex {c : UInt8} (hc : isHexDigitByte c = true) :
    digitValue c < 16 ∧ (digitValue c = 0 ↔ c = 48) := by
  by_cases hdigit : isDigitByte c = true
  · refine ⟨?_, digitValue_eq_zero hdigit⟩
    have hle := UInt8.le_iff_toNat_le.mp (of_decide_eq_true hdigit).2
    have hnine : (57 : UInt8).toNat = 57 := rfl
    rw [digitValue, if_pos hdigit]
    omega
  · have hletter : 97 ≤ toLower c ∧ toLower c ≤ 102 := by
      simpa [isHexDigitByte, hdigit] using hc
    have hlow := UInt8.le_iff_toNat_le.mp hletter.1
    have hhigh := UInt8.le_iff_toNat_le.mp hletter.2
    have hfirst : (97 : UInt8).toNat = 97 := rfl
    have hlast : (102 : UInt8).toNat = 102 := rfl
    rw [digitValue, if_neg hdigit]
    refine ⟨by omega, iff_of_false (by omega) ?_⟩
    rintro rfl
    exact hdigit rfl

/-- Hexadecimal digits make zero when each is the character for it. -/
theorem hexZero_iff (hdigits : ∀ c ∈ digits, isHexDigitByte c = true) :
    numberIn 16 0 digits = 0 ↔ ∀ c ∈ digits, c = 48 :=
  (numberIn_eq_zero (by decide)).trans (forall₂_congr fun c hc => (digitValue_hex (hdigits c hc)).2)

/-- A hexadecimal number. -/
theorem numeralRun_hex (hx : toLower x = 120) (hne : digits ≠ [])
    (hdigits : ∀ c ∈ digits, isHexDigitByte c = true) :
    numeralRun .start {} (48 :: x :: digits) =
      some (.hexDigits, { mantissa := numberIn 16 0 digits, base := 16, radix := 2 }) := by
  obtain ⟨c, rest, rfl⟩ := List.exists_cons_of_ne_nil hne
  have hstep : floatStep .zero x = some .hex := if_pos hx
  have hfirst : floatStep .hex c = some .hexDigits := if_pos (hdigits c List.mem_cons_self)
  have hstay : ∀ d ∈ rest, floatStep .hexDigits d = some .hexDigits ∧
      ∀ n : Numeral, n.take .hexDigits d = n.digit d :=
    fun d hd => ⟨if_pos (hdigits d (List.mem_cons_of_mem c hd)), fun _ => rfl⟩
  change (floatStep .zero x).bind _ = _
  rw [hstep, Option.bind_some, numeralRun, hfirst, Option.bind_some, numeralRun_stay hstay, foldl_digit]
  rfl

/-- What is read behind the digits of a hexadecimal number. -/
theorem numberFrom_hex (hbehind : ∀ c, following.head? = some c → isHexDigitByte c = false)
    (hnull : 0 ∈ following) {n : Numeral} (hbase : n.base = 16) (hradix : n.radix = 2)
    (hnegative : n.negative = false) (hpower : n.power = 0) :
    numberFrom .hexDigits n following = some n.value ↔ (∀ c ∈ hexFraction following, c = 48) ∧
      HarmlessExponent 112 (n.mantissa = 0) (behindHexFraction following) := by
  have hbase' : 0 < n.base := by omega
  have hradix' : 2 ≤ n.radix := by omega
  by_cases hpoint : following.head? = some 46
  · obtain ⟨c, rest, rfl⟩ := List.exists_cons_of_ne_nil (List.ne_nil_of_mem hnull)
    obtain rfl : c = 46 := Option.some.inj hpoint
    have hrest : 0 ∈ rest := (List.mem_cons.mp hnull).resolve_left (by decide)
    have hdigits : ∀ c ∈ rest.takeWhile isHexDigitByte, isHexDigitByte c = true :=
      fun c hc => List.mem_takeWhile_imp hc
    have hstay : ∀ c, isHexDigitByte c = true → floatStep .hexFraction c = some .hexFraction ∧
        ∀ n : Numeral, n.take .hexFraction c = n.place c := by
      intro c hc
      refine ⟨if_pos hc, fun _ => if_neg ?_⟩
      rintro rfl
      cases hc
    have hfraction : numberIn 16 0 (rest.takeWhile isHexDigitByte) <
        n.base ^ (rest.takeWhile isHexDigitByte).length := by
      rw [hbase]
      exact numberIn_lt fun c hc => (digitValue_hex (hdigits c hc)).1
    have hread : numberFrom .hexDigits n (46 :: rest) = numberFrom .hexFraction
        (n.point (rest.takeWhile isHexDigitByte).length (numberIn 16 0 (rest.takeWhile isHexDigitByte)))
        (rest.dropWhile isHexDigitByte) := by
      have hstep : floatStep .hexDigits 46 = some .hexFraction := rfl
      have htake : n.take .hexFraction 46 = n := rfl
      rw [numberFrom_cons, hstep, Option.elim_some, htake, numberFrom_stay hstay, foldl_place,
        Numeral.point, numberIn_eq, hbase]
    have hstep : ∀ c, (rest.dropWhile isHexDigitByte).head? = some c →
        floatStep .hexFraction c = if toLower c = 112 then some .exponent else none := by
      intro c hc
      have hhead := List.head?_dropWhile_not isHexDigitByte rest
      rw [hc] at hhead
      rw [floatStep, floatDigits, if_neg (by simpa using hhead)]
      split
      · next hdot => rw [hdot]; rfl
      · rfl
    have hleft : 0 ∈ rest.dropWhile isHexDigitByte := by
      rw [← List.takeWhile_append_dropWhile (p := isHexDigitByte) (l := rest)] at hrest
      refine (List.mem_append.mp hrest).resolve_left fun hmem => ?_
      exact absurd (hdigits 0 hmem) (by decide)
    rw [hread, numberFrom_eq_value_iff rfl hstep hleft hbase' hradix' hnegative hpower hfraction,
      hexZero_iff hdigits, hexFraction, if_pos hpoint, behindHexFraction, if_pos hpoint]
    rfl
  · have hstep : ∀ c, following.head? = some c →
        floatStep .hexDigits c = if toLower c = 112 then some .exponent else none := by
      intro c hc
      have hne : c ≠ 46 := fun heq => hpoint (heq ▸ hc)
      rw [floatStep, floatDigits, if_neg (by simp [hbehind c hc]), if_neg hne]
    rw [numberFrom_whole_iff rfl hstep hnull hbase' hradix' hnegative hpower, hexFraction, if_neg hpoint,
      behindHexFraction, if_neg hpoint]
    simp

/-- The value of a hexadecimal number is read when it has a digit, and when what stands behind it is
neither a fraction nor an exponent, or changes nothing. -/
theorem hexNumber_iff (hx : toLower x = 120) (hdigits : ∀ c ∈ digits, isHexDigitByte c = true)
    (hbehind : ∀ c, following.head? = some c → isHexDigitByte c = false) (hnull : 0 ∈ following) :
    (∃ q, spelledNumber (48 :: x :: digits) = some q ∧
      numberFrom .start {} (48 :: x :: digits ++ following) = some q) ↔
        digits ≠ [] ∧ (∀ c ∈ hexFraction following, c = 48) ∧
          HarmlessExponent 112 (∀ c ∈ digits, c = 48) (behindHexFraction following) := by
  by_cases hne : digits = []
  · have hnone : spelledNumber [48, x] = none := by
      have hstep : floatStep .zero x = some .hex := if_pos hx
      change ((floatStep .zero x).bind _).bind _ = _
      rw [hstep]
      rfl
    subst hne
    rw [hnone]
    simp
  · rw [spelled_iff (numeralRun_hex hx hne hdigits) rfl, numberFrom_hex hbehind hnull rfl rfl rfl rfl,
      HarmlessExponent.congr (hexZero_iff hdigits)]
    simp [hne]

end Hexadecimal

end DasEdge.Library
