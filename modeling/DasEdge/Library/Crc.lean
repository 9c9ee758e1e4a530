import Mathlib.Logic.Function.Iterate

/-!
# Cyclic redundancy checks

A register of bits takes a string byte by byte: the byte goes to the end of the register where bits
leave, and eight steps shift the register by one bit each and add the polynomial for every one that has
left. A reflected check shifts to the right, the other kind to the left. A step is linear, so that eight
steps split into those of the byte that leaves, which a table can hold, and a shift of the others.
-/

namespace DasEdge.Library

variable {w : ℕ}

/-- A step of a reflected check. -/
def crcReflectedStep (poly crc : BitVec w) : BitVec w :=
  if crc.getLsbD 0 then (crc >>> 1) ^^^ poly else crc >>> 1

/-- A step of a check with the most significant bit first. -/
def crcMsbStep (poly crc : BitVec w) : BitVec w :=
  if crc.getMsbD 0 then (crc <<< 1) ^^^ poly else crc <<< 1

/-- A byte in a reflected check. -/
def crcReflectedByte (poly crc : BitVec w) (byte : BitVec 8) : BitVec w :=
  (crcReflectedStep poly)^[8] (crc ^^^ byte.setWidth w)

/-- A byte in a check with the most significant bit first. -/
def crcMsbByte (poly crc : BitVec w) (byte : BitVec 8) : BitVec w :=
  (crcMsbStep poly)^[8] (crc ^^^ byte.setWidth w <<< (w - 8))

/-- The reflected check of a string from a register on. -/
def crcReflected (poly crc : BitVec w) (bytes : List UInt8) : BitVec w :=
  bytes.foldl (fun crc byte => crcReflectedByte poly crc byte.toBitVec) crc

/-- The check of a string from a register on, with the most significant bit first. -/
def crcMsb (poly crc : BitVec w) (bytes : List UInt8) : BitVec w :=
  bytes.foldl (fun crc byte => crcMsbByte poly crc byte.toBitVec) crc

/-- The polynomial cancels where it is added twice. -/
theorem xor_poly_cancel (a b poly : BitVec w) : (a ^^^ poly) ^^^ (b ^^^ poly) = a ^^^ b := by
  rw [BitVec.xor_assoc, ← BitVec.xor_assoc poly, BitVec.xor_comm poly, BitVec.xor_assoc, BitVec.xor_self,
    BitVec.xor_zero]

/-- A step of a reflected check is linear. -/
theorem crcReflectedStep_xor (poly a b : BitVec w) :
    crcReflectedStep poly (a ^^^ b) = crcReflectedStep poly a ^^^ crcReflectedStep poly b := by
  unfold crcReflectedStep
  rw [BitVec.getLsbD_xor, BitVec.ushiftRight_xor_distrib]
  cases a.getLsbD 0 <;> cases b.getLsbD 0
  · simp
  · simp [BitVec.xor_assoc]
  · simp [BitVec.xor_assoc, BitVec.xor_comm poly]
  · simp [xor_poly_cancel]

/-- A step with the most significant bit first is linear. -/
theorem crcMsbStep_xor (poly a b : BitVec w) :
    crcMsbStep poly (a ^^^ b) = crcMsbStep poly a ^^^ crcMsbStep poly b := by
  unfold crcMsbStep
  rw [BitVec.getMsbD_xor, BitVec.shiftLeft_xor_distrib]
  cases a.getMsbD 0 <;> cases b.getMsbD 0
  · simp
  · simp [BitVec.xor_assoc]
  · simp [BitVec.xor_assoc, BitVec.xor_comm poly]
  · simp [xor_poly_cancel]

/-- Several linear steps are linear. -/
theorem iterate_xor {step : BitVec w → BitVec w} (h : ∀ a b, step (a ^^^ b) = step a ^^^ step b) (n : ℕ)
    (a b : BitVec w) : step^[n] (a ^^^ b) = step^[n] a ^^^ step^[n] b := by
  induction n generalizing a b with
  | zero => rfl
  | succ n ih => rw [Function.iterate_succ_apply, h, ih]; rfl

/-- Zeros that leave the register of a reflected check add nothing. -/
theorem crcReflectedStep_iterate (poly : BitVec w) {n : ℕ} {crc : BitVec w}
    (h : ∀ i < n, crc.getLsbD i = false) : (crcReflectedStep poly)^[n] crc = crc >>> n := by
  induction n with
  | zero => exact (BitVec.ushiftRight_zero crc).symm
  | succ n ih =>
    rw [Function.iterate_succ_apply', ih fun i hi => h i (Nat.lt_succ_of_lt hi), crcReflectedStep,
      BitVec.getLsbD_ushiftRight, Nat.add_zero, h n (Nat.lt_succ_self n), BitVec.shiftRight_add]
    rfl

/-- Zeros that leave the register add nothing with the most significant bit first. -/
theorem crcMsbStep_iterate (poly : BitVec w) {n : ℕ} {crc : BitVec w}
    (h : ∀ i < n, crc.getMsbD i = false) : (crcMsbStep poly)^[n] crc = crc <<< n := by
  induction n with
  | zero => exact (BitVec.shiftLeft_zero crc).symm
  | succ n ih =>
    rw [Function.iterate_succ_apply', ih fun i hi => h i (Nat.lt_succ_of_lt hi), crcMsbStep,
      BitVec.getMsbD_shiftLeft, Nat.zero_add, h n (Nat.lt_succ_self n), BitVec.shiftLeft_add]
    rfl

/-- A register without its lowest byte. -/
def clearLow (crc : BitVec w) : BitVec w := crc ^^^ (crc.setWidth 8).setWidth w

/-- The lowest byte is clear. -/
theorem clearLow_getLsbD (crc : BitVec w) {i : ℕ} (hi : i < 8) : (clearLow crc).getLsbD i = false := by
  by_cases hw : i < w
  · simp [clearLow, hi, hw]
  · exact BitVec.getLsbD_of_ge _ _ (Nat.le_of_not_lt hw)

/-- The other bytes are still there. -/
theorem clearLow_shift (crc : BitVec w) : clearLow crc >>> 8 = crc >>> 8 := by
  apply BitVec.eq_of_getLsbD_eq
  intro i _
  simp [clearLow]

/-- What a byte does to a reflected check is what the byte that leaves does to an empty register, and a
shift. -/
theorem crcReflectedByte_eq (poly crc : BitVec w) (byte : BitVec 8) :
    crcReflectedByte poly crc byte =
      crcReflectedByte poly 0#w (crc.setWidth 8 ^^^ byte) ^^^ (crc >>> 8) := by
  have hsplit : crc ^^^ byte.setWidth w = (0#w ^^^ (crc.setWidth 8 ^^^ byte).setWidth w) ^^^ clearLow crc := by
    rw [clearLow, BitVec.zero_xor, BitVec.setWidth_xor, BitVec.xor_comm ((crc.setWidth 8).setWidth w),
      BitVec.xor_comm crc ((crc.setWidth 8).setWidth w), ← BitVec.xor_assoc,
      BitVec.xor_assoc (byte.setWidth w), BitVec.xor_self, BitVec.xor_zero, BitVec.xor_comm]
  rw [crcReflectedByte, hsplit, iterate_xor (crcReflectedStep_xor poly),
    crcReflectedStep_iterate poly fun i => clearLow_getLsbD crc, clearLow_shift]
  rfl

/-- An empty register stays empty. -/
theorem crcReflectedByte_zero (poly : BitVec w) : crcReflectedByte poly 0#w 0#8 = 0#w := by
  have hzero : 0#w ^^^ (0#8).setWidth w = 0#w := by simp
  rw [crcReflectedByte, hzero, crcReflectedStep_iterate poly fun _ _ => BitVec.getLsbD_zero]
  exact BitVec.zero_ushiftRight

/-- The lowest byte of the register cancels it. -/
theorem crcReflectedByte_self (poly crc : BitVec w) :
    crcReflectedByte poly crc (crc.setWidth 8) = crc >>> 8 := by
  rw [crcReflectedByte_eq, BitVec.xor_self, crcReflectedByte_zero, BitVec.zero_xor]

/-- A step of a reflected check can be taken back when the polynomial has its highest bit. -/
theorem crcReflectedStep_eq_zero {poly crc : BitVec w} (hpoly : poly.msb = true)
    (h : crcReflectedStep poly crc = 0#w) : crc = 0#w := by
  have hw : 0 < w := by
    rcases Nat.eq_zero_or_pos w with rfl | hw
    · simp [BitVec.msb, BitVec.getMsbD] at hpoly
    · exact hw
  rw [crcReflectedStep] at h
  cases hlow : crc.getLsbD 0 with
  | true =>
    rw [hlow, if_pos rfl] at h
    have hshift : crc >>> 1 = poly := BitVec.xor_eq_zero_iff.mp h
    have hmsb : (crc >>> 1).getLsbD (w - 1) = false := by
      rw [BitVec.getLsbD_ushiftRight]
      exact BitVec.getLsbD_of_ge _ _ (by omega)
    rw [hshift, ← BitVec.msb_eq_getLsbD_last, hpoly] at hmsb
    cases hmsb
  | false =>
    rw [hlow, if_neg (by simp)] at h
    apply BitVec.eq_of_getLsbD_eq
    intro i hi
    cases i with
    | zero => simpa using hlow
    | succ i =>
      have hbit := congrArg (fun v => v.getLsbD i) h
      simpa [BitVec.getLsbD_ushiftRight, Nat.add_comm] using hbit

/-- Steps of a reflected check can be taken back. -/
theorem crcReflectedStep_iterate_inj {poly a b : BitVec w} (hpoly : poly.msb = true) {n : ℕ}
    (h : (crcReflectedStep poly)^[n] a = (crcReflectedStep poly)^[n] b) : a = b := by
  have hzero : (crcReflectedStep poly)^[n] (a ^^^ b) = 0#w := by
    rw [iterate_xor (crcReflectedStep_xor poly), h, BitVec.xor_self]
  have hback : ∀ n, ∀ crc : BitVec w, (crcReflectedStep poly)^[n] crc = 0#w → crc = 0#w := by
    intro n
    induction n with
    | zero => exact fun _ hn => hn
    | succ n ih =>
      intro crc hn
      exact crcReflectedStep_eq_zero hpoly (ih _ hn)
  exact BitVec.xor_eq_zero_iff.mp (hback n _ hzero)

/-- Two bytes empty a register of 16 bits exactly when they are its lowest byte and the other one. -/
theorem crcReflectedByte_trailer {poly : BitVec 16} (hpoly : poly.msb = true) (crc : BitVec 16)
    (low high : BitVec 8) :
    crcReflectedByte poly (crcReflectedByte poly crc low) high = 0#16 ↔
      low = crc.setWidth 8 ∧ high = (crc >>> 8).setWidth 8 := by
  have hhigh : (crcReflectedStep poly)^[8] (high.setWidth 16 <<< 8) = high.setWidth 16 := by
    rw [crcReflectedStep_iterate poly fun i hi => by simp [hi]]
    apply BitVec.eq_of_getLsbD_eq
    intro i hi
    have hout : ¬ i < 8 → high.getLsbD i = false := fun hge => BitVec.getLsbD_of_ge _ _ (Nat.le_of_not_lt hge)
    by_cases hlow : i < 8
    · simp [hi, show 8 + i < 16 by omega, show ¬ 8 + i < 8 by omega]
    · simp [hout hlow, show ¬ 8 + i < 16 by omega]
  constructor
  · intro h
    have hzero : (crcReflectedStep poly)^[8] 0#16 = 0#16 := crcReflectedByte_zero poly
    have hfirst : crcReflectedByte poly crc low = high.setWidth 16 :=
      BitVec.xor_eq_zero_iff.mp (crcReflectedStep_iterate_inj hpoly (h.trans hzero.symm))
    have hregister : crc ^^^ low.setWidth 16 = high.setWidth 16 <<< 8 :=
      crcReflectedStep_iterate_inj hpoly (hfirst.trans hhigh.symm)
    have hcrc : crc = high.setWidth 16 <<< 8 ^^^ low.setWidth 16 := by
      rw [← hregister, BitVec.xor_assoc, BitVec.xor_self, BitVec.xor_zero]
    constructor
    · apply BitVec.eq_of_getLsbD_eq
      intro i hi
      simp [hcrc, hi]
    · apply BitVec.eq_of_getLsbD_eq
      intro i hi
      simp [hcrc, hi, show 8 + i < 16 by omega]
  · rintro ⟨rfl, rfl⟩
    rw [crcReflectedByte_self, crcReflectedByte_self, ← BitVec.shiftRight_add]
    exact BitVec.ushiftRight_eq_zero (by decide)

/-- A register without its highest byte. -/
def clearHigh (crc : BitVec w) : BitVec w := crc ^^^ ((crc >>> (w - 8)).setWidth 8).setWidth w <<< (w - 8)

/-- The highest byte is clear. -/
theorem clearHigh_getMsbD (hw : 8 ≤ w) (crc : BitVec w) {i : ℕ} (hi : i < 8) :
    (clearHigh crc).getMsbD i = false := by
  have hplace : w - 8 + (w - 1 - i - (w - 8)) = w - 1 - i := by omega
  simp [clearHigh, BitVec.getMsbD, show i < w by omega, show ¬ w - 1 - i < w - 8 by omega,
    show w - 1 - i < w by omega, show w - 1 - i - (w - 8) < 8 by omega, hplace]

/-- The other bytes are still there. -/
theorem clearHigh_shift (hw : 8 ≤ w) (crc : BitVec w) : clearHigh crc <<< 8 = crc <<< 8 := by
  apply BitVec.eq_of_getLsbD_eq
  intro i hi
  by_cases hlow : i < 8
  · simp [hlow]
  · simp [clearHigh, hlow, show i - 8 < w - 8 by omega]

/-- What a byte does to a check is what the byte that leaves does to an empty register, and a shift. -/
theorem crcMsbByte_eq (hw : 8 ≤ w) (poly crc : BitVec w) (byte : BitVec 8) :
    crcMsbByte poly crc byte =
      crcMsbByte poly 0#w ((crc >>> (w - 8)).setWidth 8 ^^^ byte) ^^^ (crc <<< 8) := by
  have hsplit : crc ^^^ byte.setWidth w <<< (w - 8) =
      (0#w ^^^ ((crc >>> (w - 8)).setWidth 8 ^^^ byte).setWidth w <<< (w - 8)) ^^^ clearHigh crc := by
    obtain ⟨high, hhigh⟩ : ∃ high, high = ((crc >>> (w - 8)).setWidth 8).setWidth w <<< (w - 8) := ⟨_, rfl⟩
    rw [clearHigh, BitVec.zero_xor, BitVec.setWidth_xor, BitVec.shiftLeft_xor_distrib, ← hhigh,
      BitVec.xor_comm high, BitVec.xor_comm crc high, ← BitVec.xor_assoc,
      BitVec.xor_assoc (byte.setWidth w <<< (w - 8)), BitVec.xor_self, BitVec.xor_zero, BitVec.xor_comm]
  rw [crcMsbByte, hsplit, iterate_xor (crcMsbStep_xor poly),
    crcMsbStep_iterate poly fun i => clearHigh_getMsbD hw crc, clearHigh_shift hw]
  rfl

/-- The highest byte of the register cancels it. -/
theorem crcMsbByte_self (hw : 8 ≤ w) (poly crc : BitVec w) :
    crcMsbByte poly crc ((crc >>> (w - 8)).setWidth 8) = crc <<< 8 := by
  have hzero : crcMsbByte poly 0#w 0#8 = 0#w := by
    have hregister : 0#w ^^^ (0#8).setWidth w <<< (w - 8) = 0#w := by simp
    rw [crcMsbByte, hregister, crcMsbStep_iterate poly fun _ _ => BitVec.getMsbD_zero]
    exact BitVec.zero_shiftLeft 8
  rw [crcMsbByte_eq hw, BitVec.xor_self, hzero, BitVec.zero_xor]

/-- A register of 16 bits empties itself, high byte first. -/
theorem crcMsbByte_trailer (poly crc : BitVec 16) :
    crcMsbByte poly (crcMsbByte poly crc ((crc >>> (16 - 8)).setWidth 8)) (crc.setWidth 8) = 0#16 := by
  have hlow : crc.setWidth 8 = ((crc <<< 8) >>> (16 - 8)).setWidth 8 := by
    apply BitVec.eq_of_getLsbD_eq
    intro i hi
    simp [hi, show 8 + i < 16 by omega, show i < 16 by omega]
  rw [crcMsbByte_self (by decide), hlow, crcMsbByte_self (by decide), ← BitVec.shiftLeft_add]
  exact BitVec.shiftLeft_eq_zero (by decide)

end DasEdge.Library
