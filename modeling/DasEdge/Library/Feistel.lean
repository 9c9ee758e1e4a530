import Mathlib.Data.List.Basic
import Mathlib.Data.BitVec

/-!
# Feistel networks

A round adds a function of one half, whatever that is, to the other half and exchanges the two. Such
rounds are taken back by the same rounds in the opposite order, from the exchanged halves. Besides,
the exchange of bits between two words under a mask, which is its own inverse.
-/

namespace DasEdge.Library

section Feistel

variable {α κ : Type*} (add : α → α → α) (f : κ → α → α)

/-- A round with a key. -/
def feistelRound (halves : α × α) (key : κ) : α × α := (halves.2, add halves.1 (f key halves.2))

/-- Rounds with a list of keys. -/
def feistel (keys : List κ) (halves : α × α) : α × α := keys.foldl (feistelRound add f) halves

variable {add}

/-- A round is taken back by the same round between exchanges. -/
theorem feistelRound_swap (hadd : ∀ a b, add (add a b) b = a) (halves : α × α) (key : κ) :
    feistelRound add f (feistelRound add f halves key).swap key = halves.swap := by
  obtain ⟨left, right⟩ := halves
  simp only [feistelRound, Prod.swap_prod_mk, hadd]

/-- Rounds are taken back by the same rounds in the opposite order. -/
theorem feistel_reverse_swap (hadd : ∀ a b, add (add a b) b = a) (keys : List κ) (halves : α × α) :
    feistel add f keys.reverse (feistel add f keys halves).swap = halves.swap := by
  induction keys generalizing halves with
  | nil => rfl
  | cons key keys ih =>
    have hrest := ih (feistelRound add f halves key)
    rw [feistel, feistel] at hrest
    have hsplit : feistel add f (key :: keys) halves = keys.foldl (feistelRound add f)
        (feistelRound add f halves key) := rfl
    rw [hsplit, List.reverse_cons, feistel, List.foldl_append, hrest]
    exact feistelRound_swap f hadd halves key

end Feistel

section Exchange

variable {w : ℕ}

/-- The bits of two words that are exchanged: those of the mask in the second one with those further
left in the first one. -/
def exchangeBits (mask : BitVec w) (k : ℕ) (words : BitVec w × BitVec w) : BitVec w × BitVec w :=
  let t := ((words.1 >>> k) ^^^ words.2) &&& mask
  (words.1 ^^^ (t <<< k), words.2 ^^^ t)

/-- Bits that were exchanged are exchanged back when the shift loses none of the mask. -/
theorem exchangeBits_exchangeBits {mask : BitVec w} {k : ℕ} (hmask : (mask <<< k) >>> k = mask)
    (words : BitVec w × BitVec w) : exchangeBits mask k (exchangeBits mask k words) = words := by
  obtain ⟨x, y⟩ := words
  generalize ht : ((x >>> k) ^^^ y) &&& mask = t
  have hback : (t <<< k) >>> k = t := by
    refine BitVec.eq_of_getLsbD_eq fun i hi => ?_
    have hbit := congrArg (fun m => m.getLsbD i) hmask
    simp only [BitVec.getLsbD_ushiftRight, BitVec.getLsbD_shiftLeft, Nat.add_comm k i,
      Nat.add_sub_cancel] at hbit ⊢
    rw [← ht, BitVec.getLsbD_and, ← hbit]
    by_cases hlt : i + k < w <;> simp [hlt]
  have hagain : (((x ^^^ (t <<< k)) >>> k) ^^^ (y ^^^ t)) &&& mask = t := by
    rw [BitVec.ushiftRight_xor_distrib, hback, BitVec.xor_assoc, BitVec.xor_comm y,
      ← BitVec.xor_assoc t,
      BitVec.xor_self, BitVec.zero_xor, ht]
  simp only [exchangeBits, ht, hagain, BitVec.xor_assoc, BitVec.xor_self, BitVec.xor_zero]

end Exchange

end DasEdge.Library
