import Mathlib.Algebra.Order.Ring.Nat
import Mathlib.Data.List.Basic

/-!
# Reads of a chunk

Programs that read a chunk of received items by place. A read that leaves the chunk is `none`, and
with it the whole program, so that a program with a result has read nothing but items of the chunk.
-/

namespace DasEdge.Library

variable {α : Type*}

/-- The items of a part of a chunk. -/
def readSlice (chunk : List α) (pos len : ℕ) : Option { part : List α // part.length = len } :=
  if h : pos + len ≤ chunk.length then
    some ⟨(chunk.drop pos).take len, by rw [List.length_take, List.length_drop]; omega⟩
  else none

/-- A part is read if the chunk reaches to its end. -/
theorem readSlice_isSome_iff {chunk : List α} {pos len : ℕ} :
    (readSlice chunk pos len).isSome ↔ pos + len ≤ chunk.length := by
  rw [readSlice]
  split
  · next h => exact iff_of_true rfl h
  · next h => exact iff_of_false Bool.false_ne_true h

/-- What is read of a part. -/
theorem readSlice_eq_some_iff {chunk : List α} {pos len : ℕ}
    {part : { part : List α // part.length = len }} :
    readSlice chunk pos len = some part ↔ pos + len ≤ chunk.length ∧
      part.1 = (chunk.drop pos).take len := by
  rw [readSlice]
  split
  · next h =>
    rw [Option.some.injEq, Subtype.ext_iff, eq_comm]
    exact (and_iff_right h).symm
  · next h => exact iff_of_false (Option.some_ne_none part).symm fun hpart => h hpart.1

/-- A part that lies in the chunk is read. -/
theorem readSlice_of_le {chunk : List α} {pos len : ℕ} (h : pos + len ≤ chunk.length) :
    ∃ part, readSlice chunk pos len = some part ∧ part.1 = (chunk.drop pos).take len := by
  obtain ⟨part, hpart⟩ := Option.isSome_iff_exists.mp (readSlice_isSome_iff.mpr h)
  exact ⟨part, hpart, (readSlice_eq_some_iff.mp hpart).2⟩

/-- Items between others are read as they are. -/
theorem readSlice_middle (left right : List α) {len : ℕ}
    (part : { part : List α // part.length = len }) :
    readSlice (left ++ part.1 ++ right) left.length len = some part := by
  refine readSlice_eq_some_iff.mpr ⟨?_, ?_⟩
  · rw [List.length_append, List.length_append, part.2]
    exact Nat.le_add_right _ _
  · rw [List.append_assoc, List.drop_left]
    exact (List.take_left' part.2).symm

/-- Of parts that lie one behind another each is read behind those in front of it. -/
theorem readSlice_flatten (parts : List (List α)) (tail : List α) {k len : ℕ}
    {part : { part : List α // part.length = len }}
    (h : parts[k]? = some part.1) :
    readSlice (parts.flatten ++ tail) (((parts.map List.length).take k).sum) len = some part := by
  have hsplit : parts.take k ++ part.1 :: parts.drop (k + 1) = parts := by
    obtain ⟨hlt, hpart⟩ := List.getElem?_eq_some_iff.mp h
    rw [← hpart, ← List.drop_eq_getElem_cons hlt, List.take_append_drop]
  have hplace : ((parts.map List.length).take k).sum = (parts.take k).flatten.length := by
    rw [List.length_flatten, List.map_take]
  have hbytes : parts.flatten ++ tail = (parts.take k).flatten ++ part.1 ++
      ((parts.drop (k + 1)).flatten ++ tail) := by
    conv_lhs => rw [← hsplit]
    simp only [List.flatten_append, List.flatten_cons, List.append_assoc]
  rw [hplace, hbytes]
  exact readSlice_middle _ _ part

/-- An item is read if the chunk reaches behind it. -/
theorem exists_getElem? {chunk : List α} {pos : ℕ} (h : pos < chunk.length) :
    ∃ item, chunk[pos]? = some item :=
  ⟨chunk[pos], List.getElem?_eq_getElem h⟩

/-- An item inside the chunk is read. -/
theorem getElem?_eq_some_getD {chunk : List α} {pos : ℕ} (h : pos < chunk.length) (other : α) :
    chunk[pos]? = some (chunk.getD pos other) := by
  rw [List.getD_eq_getElem?_getD, List.getElem?_eq_getElem h, Option.getD_some]

/-- Two items at the end are the last two. -/
theorem getElem?_last_two (body : List α) (last' last : α) :
    (body ++ [last', last])[(body ++ [last', last]).length - 2]? = some last' ∧
      (body ++ [last', last])[(body ++ [last', last]).length - 1]? = some last := by
  have hlength : (body ++ [last', last]).length = body.length + 2 := by simp
  rw [hlength, Nat.add_sub_cancel, show body.length + 2 - 1 = body.length + 1 by omega,
    List.getElem?_append_right (Nat.le_refl _), List.getElem?_append_right (Nat.le_add_right _ 1),
    Nat.sub_self,
    Nat.add_sub_cancel_left]
  exact ⟨rfl, rfl⟩

/-- In front of two items at the end are the others. -/
theorem take_last_two (body : List α) (last' last : α) :
    (body ++ [last', last]).take ((body ++ [last', last]).length - 2) = body := by
  rw [show (body ++ [last', last]).length - 2 = body.length by simp, List.take_left]

/-- A chunk of two items or more has a last two. -/
theorem exists_last_two {chunk : List α} (h : 2 ≤ chunk.length) :
    ∃ body last' last, chunk = body ++ [last', last] ∧ body.length = chunk.length - 2 := by
  obtain ⟨last', last, hlast⟩ :=
    List.length_eq_two.mp (show (chunk.drop (chunk.length - 2)).length = 2 by
    rw [List.length_drop]
    omega)
  refine ⟨chunk.take (chunk.length - 2), last', last, ?_, ?_⟩
  · rw [← hlast, List.take_append_drop]
  · rw [List.length_take]
    omega

end DasEdge.Library
