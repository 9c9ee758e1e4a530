import Mathlib.Data.Int.Notation
import Mathlib.Data.List.Basic

/-!
# Rows of a table

What a database does with the rows of a table, a list in the order of a query: `LIMIT offset,count`,
`DELETE` and `UPDATE`. A negative offset counts as none, and a negative count takes all that is
left.
-/

namespace DasEdge.Library

variable {α β : Type*}

/-- `LIMIT offset,count` -/
def sqlLimit (offset count : ℤ) (rows : List α) : List α :=
  if count < 0 then rows.drop offset.toNat else (rows.drop offset.toNat).take count.toNat

/-- No rows are left of no rows. -/
@[simp]
theorem sqlLimit_nil (offset count : ℤ) : sqlLimit offset count ([] : List α) = [] := by
  simp [sqlLimit]

/-- `DELETE FROM table WHERE` -/
def sqlDelete (selects : α → Bool) (rows : List α) : List α := rows.filter fun row => !selects row

/-- `UPDATE table SET column=? WHERE` -/
def sqlUpdate (selects : α → Bool) (set : α → α) (rows : List α) : List α :=
  rows.map fun row => if selects row then set row else row

/-- Natural numbers limit as they do on lists. -/
theorem sqlLimit_natCast (offset count : ℕ) (rows : List α) :
    sqlLimit (offset : ℤ) (count : ℤ) rows = (rows.drop offset).take count := by
  have hcount : ¬ (count : ℤ) < 0 := by omega
  rw [sqlLimit, if_neg hcount, Int.toNat_natCast, Int.toNat_natCast]

/-- The rows are those that a statement selects and those it does not. -/
theorem sqlDelete_perm (selects : α → Bool) (rows : List α) :
    (rows.filter selects ++ sqlDelete selects rows).Perm rows :=
  List.filter_append_perm selects rows

/-- An update sets the rows it selects. -/
theorem sqlUpdate_perm (selects : α → Bool) (set : α → α) (rows : List α) :
    (sqlUpdate selects set rows).Perm ((rows.filter selects).map set ++ sqlDelete selects rows) := by
  refine ((sqlDelete_perm selects rows).symm.map _).trans (List.Perm.of_eq ?_)
  rw [List.map_append]
  refine congrArg₂ _ (List.map_congr_left fun row hrow => ?_)
    ((List.map_congr_left fun row hrow => ?_).trans (List.map_id _))
  · rw [if_pos (List.mem_filter.mp hrow).2]
  · rw [if_neg (by simpa using (List.mem_filter.mp hrow).2), id]

/-- What is read of the rows is read of those that are left, when none of what is deleted is read. -/
theorem filterMap_sqlDelete (selects : α → Bool) (read : α → Option β) (rows : List α)
    (h : ∀ row ∈ rows, selects row = true → read row = none) :
    (sqlDelete selects rows).filterMap read = rows.filterMap read := by
  induction rows with
  | nil => rfl
  | cons row rows ih =>
    have htail := ih fun other hother => h other (List.mem_cons_of_mem _ hother)
    rw [sqlDelete] at htail ⊢
    cases hrow : selects row with
    | false =>
      rw [List.filter_cons_of_pos (by simp [hrow]), List.filterMap_cons, List.filterMap_cons, htail]
    | true =>
      rw [List.filter_cons_of_neg (by simp [hrow]), List.filterMap_cons,
        h row List.mem_cons_self hrow, htail]

/-- Less is read of the rows that are left, once a row is deleted that is read. -/
theorem filterMap_sqlDelete_length_lt (selects : α → Bool) (read : α → Option β)
    (rows : List α) (row : α)
    (hrow : row ∈ rows) (hselects : selects row = true) (hread : (read row).isSome = true) :
    ((sqlDelete selects rows).filterMap read).length < (rows.filterMap read).length := by
  have hle : ∀ others : List α,
      ((sqlDelete selects others).filterMap read).length ≤ (others.filterMap read).length :=
      fun others =>
    (List.filter_sublist.filterMap read).length_le
  obtain ⟨before, after, rfl⟩ := List.append_of_mem hrow
  obtain ⟨value, hvalue⟩ := Option.isSome_iff_exists.mp hread
  have hbefore := hle before
  have hafter := hle after
  simp only [sqlDelete] at hbefore hafter ⊢
  rw [List.filter_append, List.filter_cons_of_neg (by simp [hselects]), List.filterMap_append,
    List.filterMap_append, List.filterMap_cons, hvalue, List.length_append, List.length_append,
    List.length_cons]
  omega

/-- A deletion leaves what is read of the rows exactly when it selects no row that is read. -/
theorem filterMap_sqlDelete_iff (selects : α → Bool) (read : α → Option β) (rows : List α) :
    (sqlDelete selects rows).filterMap read = rows.filterMap read ↔
      ∀ row ∈ rows, selects row = true → read row = none := by
  constructor
  · intro heq row hrow hselects
    by_contra hread
    have hlt := filterMap_sqlDelete_length_lt selects read rows row hrow hselects
      (Option.isSome_iff_ne_none.mpr hread)
    rw [heq] at hlt
    exact Nat.lt_irrefl _ hlt
  · exact filterMap_sqlDelete selects read rows

end DasEdge.Library
