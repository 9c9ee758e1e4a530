import Mathlib.Data.List.Basic
import Mathlib.Data.List.Rotate
import Mathlib.Data.Nat.ModEq
import Mathlib.Logic.Function.Basic

/-!
# A queue in a ring of cells

The queue runs from its front to its rear, and one cell of the ring is always left free, so that a
full ring differs from an empty one. Seen as the list of its items a write appends and a removal
drops the first.
-/

namespace DasEdge.Library

/-- A queue in `size` cells: the place of its first item and the one behind its last. -/
structure RingQueue (α : Type*) (size : ℕ) where
  front : ℕ
  rear : ℕ
  cells : ℕ → α
  front_lt : front < size
  rear_lt : rear < size

namespace RingQueue

variable {α : Type*} {size : ℕ}

/-- The ring has cells. -/
theorem size_pos (q : RingQueue α size) : 0 < size := Nat.zero_lt_of_lt q.front_lt

variable (q : RingQueue α size)

/-- Only the free cell is left. -/
def full : Bool := (q.rear + 1) % size = q.front

/-- One more item, unless the queue is full. -/
def write (e : α) : RingQueue α size :=
  if q.full then q
  else { q with
    rear := (q.rear + 1) % size
    cells := Function.update q.cells q.rear e
    rear_lt := Nat.mod_lt _ q.size_pos }

/-- The first item is given up, unless the queue is empty. -/
def remove : RingQueue α size :=
  if q.front = q.rear then q
  else { q with
    front := (q.front + 1) % size
    front_lt := Nat.mod_lt _ q.size_pos }

/-- The item at a place, counted from the front. -/
def get (i : ℕ) : α := q.cells ((q.front + i) % size)

/-- All items are given up. -/
def clear : RingQueue α size :=
  { q with front := 0, rear := 0, front_lt := q.size_pos, rear_lt := q.size_pos }

/-- The number of items. -/
def count : ℕ := (q.rear + size - q.front) % size

/-- The items, the first one first. -/
def items : List α := (List.range q.count).map q.get

@[simp] theorem items_length : q.items.length = q.count := by
  rw [items, List.length_map, List.length_range]

/-- There is one item less than cells at most. -/
theorem count_lt : q.count < size := Nat.mod_lt _ q.size_pos

/-- A queue that was cleared has no items. -/
@[simp] theorem items_clear : q.clear.items = [] := by
  have hcount : q.clear.count = 0 := by simp [count, clear]
  rw [items, hcount, List.range_zero, List.map_nil]

/-- The rear is as many cells behind the front as there are items. -/
theorem rear_eq : q.rear = (q.front + q.count) % size := by
  have hfront := q.front_lt
  have hrear := q.rear_lt
  rw [count, Nat.add_mod_mod]
  have hsum : q.front + (q.rear + size - q.front) = q.rear + size := by omega
  rw [hsum, Nat.add_mod_right, Nat.mod_eq_of_lt hrear]

/-- The number of items is read off the places. -/
theorem count_eq_of {n : ℕ} (hn : n < size) (hrear : q.rear = (q.front + n) % size) : q.count = n := by
  have hfront := q.front_lt
  have hlt := q.rear_lt
  rw [count]
  rcases Nat.lt_or_ge (q.front + n) size with h | h
  · rw [Nat.mod_eq_of_lt h] at hrear
    rw [hrear, show q.front + n + size - q.front = n + size by omega, Nat.add_mod_right,
      Nat.mod_eq_of_lt hn]
  · rw [Nat.mod_eq_sub_mod h, Nat.mod_eq_of_lt (by omega)] at hrear
    rw [hrear, show q.front + n - size + size - q.front = n by omega, Nat.mod_eq_of_lt hn]

/-- The queue is full when it has one item less than cells. -/
theorem full_iff : q.full = true ↔ q.count + 1 = size := by
  have hcount := q.count_lt
  have hfront := q.front_lt
  rw [full, decide_eq_true_eq, q.rear_eq, Nat.mod_add_mod, Nat.add_assoc]
  constructor
  · intro h
    by_contra hne
    rcases Nat.lt_or_ge (q.front + (q.count + 1)) size with hlt | hge
    · rw [Nat.mod_eq_of_lt hlt] at h
      omega
    · rw [Nat.mod_eq_sub_mod hge, Nat.mod_eq_of_lt (by omega)] at h
      omega
  · intro h
    rw [h, Nat.add_mod_right, Nat.mod_eq_of_lt hfront]

/-- A write appends, as long as there is a cell. -/
theorem items_write {e : α} (h : q.count + 1 < size) : (q.write e).items = q.items ++ [e] := by
  have hfull : ¬ q.full = true := fun hfull => Nat.ne_of_lt h (q.full_iff.mp hfull)
  have hwrite : q.write e = { q with
      rear := (q.rear + 1) % size, cells := Function.update q.cells q.rear e,
      rear_lt := Nat.mod_lt _ q.size_pos } := if_neg hfull
  have hcount : (q.write e).count = q.count + 1 := by
    refine count_eq_of _ h ?_
    rw [hwrite]
    change (q.rear + 1) % size = (q.front + (q.count + 1)) % size
    rw [q.rear_eq, Nat.mod_add_mod, Nat.add_assoc]
  have hget : ∀ i < q.count, (q.write e).get i = q.get i := by
    intro i hi
    have hplace : (q.front + i) % size ≠ q.rear := by
      have hfront := q.front_lt
      have hlt := q.count_lt
      rw [q.rear_eq]
      intro heq
      have hmod : i % size = q.count % size := Nat.ModEq.add_left_cancel' q.front heq
      rw [Nat.mod_eq_of_lt (by omega), Nat.mod_eq_of_lt hlt] at hmod
      omega
    rw [hwrite]
    exact Function.update_of_ne hplace _ _
  have hlast : (q.write e).get q.count = e := by
    rw [hwrite]
    change Function.update q.cells q.rear e ((q.front + q.count) % size) = e
    rw [← q.rear_eq, Function.update_self]
  rw [items, hcount, List.range_succ, List.map_append, List.map_singleton, hlast, items]
  exact congrArg (· ++ [e]) (List.map_congr_left fun i hi => hget i (List.mem_range.mp hi))

/-- A removal drops the first item. -/
theorem items_remove : q.remove.items = q.items.tail := by
  by_cases hempty : q.front = q.rear
  · have hcount : q.count = 0 := by rw [count, ← hempty, Nat.add_sub_cancel_left, Nat.mod_self]
    rw [remove, if_pos hempty, items, hcount]
    rfl
  · have hremove : q.remove = { q with
        front := (q.front + 1) % size, front_lt := Nat.mod_lt _ q.size_pos } := if_neg hempty
    obtain ⟨n, hn⟩ : ∃ n, q.count = n + 1 := by
      refine Nat.exists_eq_succ_of_ne_zero fun hzero => hempty ?_
      rw [q.rear_eq, hzero, Nat.add_zero, Nat.mod_eq_of_lt q.front_lt]
    have hlt := q.count_lt
    have hcount : q.remove.count = n := by
      refine count_eq_of _ (by omega) ?_
      rw [hremove]
      change q.rear = ((q.front + 1) % size + n) % size
      rw [q.rear_eq, hn, Nat.mod_add_mod, Nat.add_assoc, Nat.add_comm n 1]
    have hget : ∀ i, q.remove.get i = q.get (i + 1) := by
      intro i
      rw [hremove]
      change q.cells (((q.front + 1) % size + i) % size) = q.cells ((q.front + (i + 1)) % size)
      rw [Nat.mod_add_mod, Nat.add_assoc, Nat.add_comm i 1]
    rw [items, hcount, items, hn, List.range_succ_eq_map, List.map_cons, List.tail_cons, List.map_map]
    exact List.map_congr_left fun i _ => hget i

end RingQueue

end DasEdge.Library

/-!
# Reading and writing a ring in two segments

A ring is a list whose positions count modulo its length, so the cells met from position
`start` on are its rotation by `start`. Reading or writing at most one revolution takes one
segment up to the end of the list and one from its beginning.
-/

namespace DasEdge.Library

variable {α : Type*}

/-- Overwrite consecutive cells from `start` on. -/
def overwrite (cells : List α) (start : ℕ) (data : List α) : List α :=
  cells.take start ++ data ++ cells.drop (start + data.length)

/-- The first `len` cells met from `start` on. -/
def ringWindow (ring : List α) (start len : ℕ) : List α := (ring.rotate start).take len

/-- Overwriting inside the list keeps its length. -/
theorem overwrite_length (cells : List α) (start : ℕ) (data : List α)
    (h : start + data.length ≤ cells.length) :
    (overwrite cells start data).length = cells.length := by
  simp only [overwrite, List.length_append, List.length_take, List.length_drop]
  omega

/-- What is written continues what stands before it. -/
theorem overwrite_take (cells : List α) (start : ℕ) (data : List α) (h : start ≤ cells.length) :
    (overwrite cells start data).take (start + data.length) = cells.take start ++ data := by
  have hlen : (cells.take start ++ data).length = start + data.length := by
    rw [List.length_append, List.length_take, Nat.min_eq_left h]
  rw [overwrite, List.take_append_of_le_length (Nat.le_of_eq hlen.symm),
    List.take_of_length_le (Nat.le_of_eq hlen)]

/-- Only the position modulo the ring's length matters. -/
theorem ringWindow_mod (ring : List α) (start len : ℕ) :
    ringWindow ring (start % ring.length) len = ringWindow ring start len := by
  rw [ringWindow, ringWindow, List.rotate_mod]

/-- Two segments read one window. -/
theorem ringWindow_segments (ring : List α) (start len : ℕ) (hstart : start ≤ ring.length)
    (hlen : len ≤ ring.length) :
    (ring.drop start).take (min len (ring.length - start)) ++
        ring.take (len - min len (ring.length - start)) = ringWindow ring start len := by
  rw [ringWindow, List.rotate_eq_drop_append_take hstart, List.take_append, List.length_drop,
    List.take_take]
  rcases Nat.le_total len (ring.length - start) with h | h
  · rw [Nat.min_eq_left h, Nat.sub_self, Nat.sub_eq_zero_of_le h, Nat.zero_min]
  · rw [Nat.min_eq_right h, List.take_of_length_le (l := ring.drop start) (by simp),
      List.take_of_length_le (l := ring.drop start) (by simpa using h),
      Nat.min_eq_left (by omega)]

/-- Dropping from a window advances its start. -/
theorem ringWindow_drop (ring : List α) (start len n : ℕ) (hn : n ≤ len) (hlen : len ≤ ring.length) :
    (ringWindow ring start len).drop n = ringWindow ring (start + n) (len - n) := by
  rw [ringWindow, ringWindow, ← List.rotate_rotate, List.drop_take,
    List.rotate_eq_drop_append_take (by rw [List.length_rotate]; omega : n ≤ (ring.rotate start).length),
    List.take_append_of_le_length (by rw [List.length_drop, List.length_rotate]; omega)]

/-- A shorter window is a prefix of a longer one. -/
theorem ringWindow_take (ring : List α) (start len n : ℕ) (hn : n ≤ len) :
    (ringWindow ring start len).take n = ringWindow ring start n := by
  rw [ringWindow, ringWindow, List.take_take, Nat.min_eq_left hn]

/-- Write data of at most one revolution in two segments. -/
def ringWrite (ring : List α) (start : ℕ) (data : List α) : List α :=
  let l := min data.length (ring.length - start)
  overwrite (overwrite ring start (data.take l)) 0 (data.drop l)

/-- A two-segment write keeps the ring's length. -/
theorem ringWrite_length (ring : List α) (start : ℕ) (data : List α) (hstart : start ≤ ring.length)
    (hdata : data.length ≤ ring.length) : (ringWrite ring start data).length = ring.length := by
  have hfirst : (overwrite ring start (data.take (min data.length (ring.length - start)))).length =
      ring.length := overwrite_length _ _ _ (by rw [List.length_take]; omega)
  rw [ringWrite, overwrite_length _ _ _ (by rw [hfirst, List.length_drop]; omega), hfirst]

/-- Seen from its start, a write replaces the first cells and leaves the others. -/
theorem ringWrite_rotate (ring : List α) (start : ℕ) (data : List α) (hstart : start ≤ ring.length)
    (hdata : data.length ≤ ring.length) :
    (ringWrite ring start data).rotate start = data ++ (ring.rotate start).drop data.length := by
  rw [List.rotate_eq_drop_append_take (by rw [ringWrite_length ring start data hstart hdata]; exact hstart),
    List.rotate_eq_drop_append_take hstart, List.drop_append, List.length_drop]
  rcases Nat.le_total data.length (ring.length - start) with h | h
  · -- the data ends before the end of the list: one segment
    have hwrite : ringWrite ring start data = overwrite ring start data := by
      simp [ringWrite, Nat.min_eq_left h, overwrite]
    have hzero : data.length - (ring.length - start) = 0 := by omega
    rw [hwrite, overwrite, hzero, List.drop_zero, List.append_assoc,
      List.drop_append_of_le_length (by simp [hstart]),
      List.take_append_of_le_length (by simp [hstart]),
      List.drop_take, Nat.sub_self, List.take_zero, List.nil_append, List.take_take, Nat.min_self,
      List.drop_drop, List.append_assoc]
  · -- the data runs past the end of the list: the rest goes to the front
    have hfirst : overwrite ring start (data.take (ring.length - start)) =
        ring.take start ++ data.take (ring.length - start) := by
      rw [overwrite, List.length_take, Nat.min_eq_left h,
        List.drop_eq_nil_of_le (by omega), List.append_nil]
    have hwrite : ringWrite ring start data =
        data.drop (ring.length - start) ++
          (ring.take start ++ data.take (ring.length - start)).drop
          (data.length - (ring.length - start)) := by
      simp only [ringWrite, Nat.min_eq_right h]
      rw [hfirst, overwrite]
      simp
    have hk : data.length - (ring.length - start) ≤ start := by omega
    have hmid : (ring.take start ++ data.take (ring.length - start)).drop
      (data.length - (ring.length - start)) =
        (ring.take start).drop (data.length - (ring.length - start)) ++
        data.take (ring.length - start) :=
      List.drop_append_of_le_length (by simp only [List.length_take]; omega)
    have hlen : (data.drop (ring.length - start) ++
        (ring.take start).drop (data.length - (ring.length - start))).length = start := by
      simp only [List.length_append, List.length_drop, List.length_take]
      omega
    rw [hwrite, hmid, ← List.append_assoc,
      List.drop_eq_nil_of_le (by simpa using h : (ring.drop start).length ≤ data.length),
      List.nil_append]
    rw [List.drop_append_of_le_length (le_of_eq hlen.symm),
      List.take_append_of_le_length (le_of_eq hlen.symm),
      List.drop_eq_nil_of_le (le_of_eq hlen), List.take_of_length_le (le_of_eq hlen), List.nil_append,
      ← List.append_assoc, List.take_append_drop]

/-- Writing right behind a window extends it by the data. -/
theorem ringWrite_window (ring : List α) (start len : ℕ) (data : List α)
    (hlen : len + data.length ≤ ring.length) :
    ringWindow (ringWrite ring ((start + len) % ring.length) data) start (len + data.length) =
      ringWindow ring start len ++ data := by
  rcases Nat.eq_zero_or_pos ring.length with hzero | hpos
  · obtain rfl : ring = [] := List.length_eq_zero_iff.mp hzero
    obtain ⟨rfl, rfl⟩ : len = 0 ∧ data = [] := by simpa using hlen
    simp [ringWindow]
  · have hstart : (start + len) % ring.length ≤ ring.length := (Nat.mod_lt _ hpos).le
    have hwl : (ringWrite ring ((start + len) % ring.length) data).length = ring.length :=
      ringWrite_length _ _ _ hstart (by omega)
    have hrot := ringWrite_rotate ring ((start + len) % ring.length) data hstart (by omega)
    have hmod := List.rotate_mod (ringWrite ring ((start + len) % ring.length) data) (start + len)
    rw [hwl] at hmod
    rw [List.rotate_mod, hmod] at hrot
    -- undo the second rotation on both sides
    have hall : (ringWrite ring ((start + len) % ring.length) data).rotate start =
        (ring.rotate start).take len ++ (data ++ (ring.rotate start).drop (len + data.length)) := by
      apply List.rotate_injective len
      have hl : ((ring.rotate start).take len).length = len := by
        rw [List.length_take, List.length_rotate]; omega
      have hshift := List.rotate_append_length_eq ((ring.rotate start).take len)
        (data ++ (ring.rotate start).drop (len + data.length))
      rw [hl] at hshift
      change ((ringWrite ring ((start + len) % ring.length) data).rotate start).rotate len =
        ((ring.rotate start).take len ++
        (data ++ (ring.rotate start).drop (len + data.length))).rotate len
      rw [List.rotate_rotate, hrot, hshift, ← List.rotate_rotate,
        List.rotate_eq_drop_append_take (by rw [List.length_rotate]; omega : len ≤ (ring.rotate start).length),
        List.drop_append_of_le_length (by rw [List.length_drop, List.length_rotate]; omega),
        List.drop_drop, List.append_assoc]
    rw [ringWindow, hall, ringWindow, ← List.append_assoc,
      List.take_append_of_le_length (by simp only [List.length_append, List.length_take, List.length_rotate]; omega),
      List.take_of_length_le (by simp only [List.length_append, List.length_take, List.length_rotate]; omega)]

end DasEdge.Library
