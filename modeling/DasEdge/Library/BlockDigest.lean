import Mathlib.Data.List.Basic
import Mathlib.Data.Nat.Notation

/-!
# Digests of blocks

A digest takes a message up byte by byte: a block that is full goes into the state, and what is left
waits. How the message is cut when it comes does not matter, and whole blocks can go into the state
without waiting.
-/

namespace DasEdge.Library

variable {σ β : Type*} (n : ℕ) (compress : σ → List β → σ)

/-- A byte more: the state, and what waits for its block to be full. -/
def feed (s : σ × List β) (byte : β) : σ × List β :=
  if s.2.length + 1 = n then (compress s.1 (s.2 ++ [byte]), []) else (s.1, s.2 ++ [byte])

/-- A message. -/
def absorb (s : σ × List β) (message : List β) : σ × List β := message.foldl (feed n compress) s

/-- One message behind the other. -/
theorem absorb_append (s : σ × List β) (left right : List β) :
    absorb n compress s (left ++ right) = absorb n compress (absorb n compress s left) right :=
  List.foldl_append

/-- What does not fill the block waits. -/
theorem absorb_short {s : σ × List β} {message : List β} (h : s.2.length + message.length < n) :
    absorb n compress s message = (s.1, s.2 ++ message) := by
  induction message generalizing s with
  | nil => rw [List.append_nil]; rfl
  | cons byte message ih =>
    rw [List.length_cons] at h
    have hstep : feed n compress s byte = (s.1, s.2 ++ [byte]) := if_neg (by omega)
    have hlength : (s.2 ++ [byte]).length + message.length < n := by
      rw [List.length_append, List.length_singleton]
      omega
    rw [absorb, List.foldl_cons, hstep]
    refine (ih hlength).trans ?_
    rw [List.append_assoc, List.singleton_append]

/-- What fills the block goes into the state with it. -/
theorem absorb_fill {s : σ × List β} {message : List β} (hs : s.2.length < n)
    (h : s.2.length + message.length = n) :
    absorb n compress s message = (compress s.1 (s.2 ++ message), []) := by
  induction message generalizing s with
  | nil =>
    rw [List.length_nil] at h
    omega
  | cons byte message ih =>
    rw [List.length_cons] at h
    rw [absorb, List.foldl_cons, feed]
    split
    · next hfull =>
      obtain rfl : message = [] := List.length_eq_zero_iff.mp (by omega)
      rfl
    · next hfull =>
      have hlength : (s.2 ++ [byte]).length = s.2.length + 1 := by
        rw [List.length_append, List.length_singleton]
      refine (ih (by rw [hlength]; omega) (by rw [hlength]; omega)).trans ?_
      rw [List.append_assoc, List.singleton_append]

/-- A whole block goes into the state. -/
theorem absorb_block {s : σ} {block : List β} (hn : 0 < n) (h : block.length = n) (rest : List β) :
    absorb n compress (s, []) (block ++ rest) = absorb n compress (compress s block, []) rest := by
  have hfill : absorb n compress (s, []) block = (compress s ([] ++ block), []) :=
    absorb_fill n compress hn (by rw [List.length_nil, Nat.zero_add, h])
  rw [absorb_append, hfill, List.nil_append]

/-- Less than a block waits, as much as the whole blocks leave of the length. -/
theorem length_absorb {s : σ × List β} (hs : s.2.length < n) (message : List β) :
    (absorb n compress s message).2.length = (s.2.length + message.length) % n := by
  induction message generalizing s with
  | nil => exact (Nat.mod_eq_of_lt hs).symm
  | cons byte message ih =>
    rw [absorb, List.foldl_cons, List.length_cons, feed]
    split
    · next hfull =>
      refine (ih (show [].length < n from Nat.zero_lt_of_lt hs)).trans ?_
      rw [List.length_nil, Nat.zero_add, show s.2.length + (message.length + 1) = message.length +
        n by omega,
        Nat.add_mod_right]
    · next hfull =>
      have hlength : (s.2 ++ [byte]).length = s.2.length + 1 := by
        rw [List.length_append, List.length_singleton]
      refine (ih (show (s.2 ++ [byte]).length < n by rw [hlength]; omega)).trans ?_
      rw [hlength]
      congr 1
      omega

/-- Whole blocks one after the other, and what they leave. -/
def compressBlocks : ℕ → σ → List β → σ × List β
  | 0, s, rest => (s, rest)
  | fuel + 1, s, rest =>
    if n ≤ rest.length then compressBlocks fuel (compress s (rest.take n)) (rest.drop n) else (s, rest)

/-- Whole blocks that go into the state at once. -/
theorem compressBlocks_eq (hn : 0 < n) {fuel : ℕ} {s : σ} {rest : List β} (hfuel : rest.length ≤ fuel) :
    compressBlocks n compress fuel s rest = absorb n compress (s, []) rest := by
  induction fuel generalizing s rest with
  | zero =>
    obtain rfl := List.length_eq_zero_iff.mp (Nat.le_zero.mp hfuel)
    rfl
  | succ fuel ih =>
    rw [compressBlocks]
    split
    · next hle =>
      have hblock := absorb_block n compress (s := s) hn (List.length_take_of_le hle) (rest.drop n)
      rw [List.take_append_drop] at hblock
      rw [hblock]
      refine ih ?_
      rw [List.length_drop]
      omega
    · next hlt =>
      rw [absorb_short n compress (s := (s, [])) (by rw [List.length_nil]; omega), List.nil_append]

end DasEdge.Library
