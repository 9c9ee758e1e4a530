import DasEdge.Library.SqlRows
import Mathlib.Data.List.MinMax

/-!
# Tables with automatic ids

A table whose ids the database assigns: the first row gets 1, and each row gets one more than the
largest id that the table has ever had. A row is its item with its id, and rows stand in the order
of their ids. As long as only rows with low ids are deleted, the table holds all but a number of the
oldest rows.
-/

namespace DasEdge.Library

variable {α : Type*}

/-- The rows of the table, and the largest id assigned so far. -/
structure AutoincTable (α : Type*) where
  rows : List (α × ℕ)
  seq : ℕ

namespace AutoincTable

/-- The table without rows. -/
def empty : AutoincTable α := ⟨[], 0⟩

/-- `INSERT INTO table (id,..) values(NULL,..)` -/
def insert (t : AutoincTable α) (item : α) : AutoincTable α :=
  ⟨t.rows ++ [(item, t.seq + 1)], t.seq + 1⟩

/-- `SELECT min(id) FROM table` -/
def minId (t : AutoincTable α) : Option ℕ := (t.rows.map Prod.snd).min?

/-- `DELETE FROM table WHERE id<bound` -/
def deleteBelow (t : AutoincTable α) (bound : ℤ) : AutoincTable α :=
  { t with rows := sqlDelete (fun row => decide ((row.2 : ℤ) < bound)) t.rows }

/-- All rows of the items that were inserted. -/
def allRows (items : List α) : List (α × ℕ) := items.zipIdx 1

/-- The table holds all but the oldest `removed` of the items that were inserted. -/
structure Holds (t : AutoincTable α) (items : List α) (removed : ℕ) : Prop where
  rows : t.rows = (allRows items).drop removed
  seq : t.seq = items.length
  le : removed ≤ items.length

/-- Rows without the oldest are the rows of the items without the oldest. -/
theorem drop_zipIdx (items : List α) (i removed : ℕ) :
    (items.zipIdx i).drop removed = (items.drop removed).zipIdx (i + removed) := by
  induction items generalizing i removed with
  | nil => simp
  | cons item items ih =>
    cases removed with
    | zero => rfl
    | succ removed =>
      rw [List.zipIdx_cons, List.drop_succ_cons, List.drop_succ_cons, ih, Nat.add_right_comm,
        Nat.add_assoc]

/-- One more item has one more row. -/
theorem allRows_concat (items : List α) (item : α) :
    allRows (items ++ [item]) = allRows items ++ [(item, items.length + 1)] := by
  rw [allRows, List.zipIdx_append, List.zipIdx_singleton, Nat.add_comm 1, allRows]

/-- Deleting low ids deletes the oldest rows. -/
theorem sqlDelete_zipIdx (items : List α) (i bound : ℕ) :
    sqlDelete (fun row => decide ((row.2 : ℤ) < bound)) (items.zipIdx i) =
      (items.zipIdx i).drop (bound - i) := by
  induction items generalizing i with
  | nil => simp [sqlDelete]
  | cons item items ih =>
    have htail := ih (i + 1)
    rw [sqlDelete] at htail
    rw [sqlDelete, List.zipIdx_cons]
    by_cases hlow : i < bound
    · obtain ⟨d, hd⟩ : ∃ d, bound - i = d + 1 := ⟨bound - i - 1, by omega⟩
      rw [List.filter_cons_of_neg (by simp [hlow]), htail, hd, List.drop_succ_cons,
        show bound - (i + 1) = d by omega]
    · have hnone : bound - i = 0 := by omega
      have hnext : bound - (i + 1) = 0 := by omega
      rw [List.filter_cons_of_pos (by simpa using hlow), htail, hnone, hnext, List.drop_zero,
        List.drop_zero]

/-- The empty table holds all of nothing. -/
theorem holds_empty : Holds (empty : AutoincTable α) [] 0 := ⟨rfl, rfl, Nat.le_refl _⟩

/-- The number of rows held. -/
theorem Holds.length {t : AutoincTable α} {items : List α} {removed : ℕ} (h : t.Holds items removed) :
    t.rows.length = items.length - removed := by
  rw [h.rows, allRows, List.length_drop, List.length_zipIdx]

/-- An insertion adds a row behind those that are held. -/
theorem Holds.insert {t : AutoincTable α} {items : List α} {removed : ℕ} (h : t.Holds items removed)
    (item : α) :
    (t.insert item).Holds (items ++ [item]) removed := by
  have hle : removed ≤ (allRows items).length := by
    rw [allRows, List.length_zipIdx]
    exact h.le
  refine ⟨?_, ?_, ?_⟩
  · rw [AutoincTable.insert, h.rows, h.seq, allRows_concat, List.drop_append_of_le_length hle]
  · rw [AutoincTable.insert, h.seq, List.length_append, List.length_singleton]
  · rw [List.length_append]
    exact h.le.trans (Nat.le_add_right _ _)

/-- The least id is that of the oldest row held. -/
theorem Holds.minId {t : AutoincTable α} {items : List α} {removed : ℕ} (h : t.Holds items removed)
    (hrow : removed < items.length) : t.minId = some (removed + 1) := by
  obtain ⟨item, rest, hrest⟩ := List.exists_cons_of_length_pos (show 0 < (items.drop removed).length by
    rw [List.length_drop]; omega)
  rw [AutoincTable.minId, h.rows, allRows, drop_zipIdx, List.zipIdx_map_snd,
    List.min?_eq_some_iff, hrest]
  refine ⟨?_, fun id hid => ?_⟩
  · simp [Nat.add_comm]
  · rw [List.mem_range'_1] at hid
    omega

/-- Deleting the ids below a bound leaves all but the oldest rows. -/
theorem Holds.deleteBelow {t : AutoincTable α} {items : List α} {removed bound : ℕ}
    (h : t.Holds items removed)
    (hle : removed ≤ bound) (hbound : bound ≤ items.length) :
    (t.deleteBelow ((bound + 1 : ℕ) : ℤ)).Holds items bound := by
  have hsum : removed + (bound + 1 - (1 + removed)) = bound := by omega
  refine ⟨?_, h.seq, hbound⟩
  rw [AutoincTable.deleteBelow, h.rows, allRows, drop_zipIdx, sqlDelete_zipIdx, ← drop_zipIdx,
    List.drop_drop, hsum]

end AutoincTable

end DasEdge.Library
