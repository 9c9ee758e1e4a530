import Mathlib.Data.List.Basic
import Mathlib.Logic.Function.Basic

/-!
# Files by their paths

A store of files gives for each path the content of the file there, if there is one. Reading takes
what there is from a position on, writing and unlinking change one path and leave the others.
-/

namespace DasEdge.Library

variable {π β : Type*}

/-- The content of the file at each path, if there is one. -/
abbrev FileStore (π β : Type*) := π → Option (List β)

namespace FileStore

variable [DecidableEq π] {files : FileStore π β} {path path' : π}

/-- Up to `n` elements of a file from a position on; at the end there is nothing. -/
def read (files : FileStore π β) (path : π) (pos n : ℕ) : List β :=
  (((files path).getD []).drop pos).take n

/-- A file with this content. -/
def write (files : FileStore π β) (path : π) (content : List β) : FileStore π β :=
  Function.update files path (some content)

/-- More at the end of a file. -/
def append (files : FileStore π β) (path : π) (more : List β) : FileStore π β :=
  files.write path ((files path).getD [] ++ more)

/-- No file. -/
def unlink (files : FileStore π β) (path : π) : FileStore π β := Function.update files path none

/-- Reading a file that is there. -/
theorem read_eq {content : List β} (h : files path = some content) (pos n : ℕ) :
    files.read path pos n = (content.drop pos).take n := by
  rw [read, h, Option.getD_some]

@[simp] theorem write_self (files : FileStore π β) (path : π) (content : List β) :
    files.write path content path = some content := by
  rw [write, Function.update_self]

@[simp] theorem write_of_ne (h : path' ≠ path) (content : List β) :
    files.write path content path' = files path' := by
  rw [write, Function.update_of_ne h]

@[simp] theorem write_write (files : FileStore π β) (path : π) (content content' : List β) :
    (files.write path content).write path content' = files.write path content' := by
  rw [write, write, write, Function.update_idem]

@[simp] theorem append_write (files : FileStore π β) (path : π) (content more : List β) :
    (files.write path content).append path more = files.write path (content ++ more) := by
  rw [append, write_self, Option.getD_some, write_write]

@[simp] theorem append_of_ne (h : path' ≠ path) (more : List β) :
    files.append path more path' = files path' :=
  write_of_ne h _

@[simp] theorem unlink_self (files : FileStore π β) (path : π) : files.unlink path path = none := by
  rw [unlink, Function.update_self]

@[simp] theorem unlink_of_ne (h : path' ≠ path) : files.unlink path path' = files path' := by
  rw [unlink, Function.update_of_ne h]

/-- Reading some of it first and then the rest. -/
theorem read_block (files : FileStore π β) (path : π) (pos : ℕ) {m n : ℕ} (h : m ≤ n) :
    files.read path pos n = files.read path pos m ++
      files.read path (pos + (files.read path pos m).length) (n - (files.read path pos m).length) := by
  simp only [read, ← List.drop_drop, List.length_take]
  generalize ((files path).getD []).drop pos = left
  rcases Nat.le_total m left.length with hle | hge
  · rw [Nat.min_eq_left hle, ← List.take_add, Nat.add_sub_of_le h]
  · rw [Nat.min_eq_right hge, List.drop_length, List.take_nil, List.append_nil,
      List.take_of_length_le hge,
      List.take_of_length_le (Nat.le_trans hge h)]

/-- Where nothing can be read there is nothing. -/
theorem read_eq_nil_of_block {pos m : ℕ} (hm : 0 < m) (h : (files.read path pos m).length = 0) (n : ℕ) :
    files.read path pos n = [] := by
  rw [read, List.length_take] at h
  rw [read, List.eq_nil_of_length_eq_zero (by omega : (((files path).getD []).drop pos).length = 0),
    List.take_nil]

end FileStore

end DasEdge.Library
