import Mathlib.Data.List.GetD
import Mathlib.Logic.Function.Basic

/-!
# A stream in a buffer of fixed size

Bytes that are stored one after the other in a buffer, which is begun again when it is full. The buffer
then holds the last bytes of the stream, each at its place modulo the size.
-/

namespace DasEdge.Library

variable {β : Type*}

/-- The last bytes of a stream are in the buffer, at most `size` of them. -/
def Holds (size : ℕ) (buffer : ℕ → β) (bytes : List β) : Prop :=
  ∀ j (h : j < bytes.length), bytes.length ≤ j + size → buffer (j % size) = bytes[j]

/-- Nothing is held in any buffer. -/
theorem holds_nil (size : ℕ) (buffer : ℕ → β) : Holds size buffer [] :=
  fun _ h => absurd h (Nat.not_lt_zero _)

/-- The place behind a place. -/
theorem next_place {size : ℕ} (hsize : 0 < size) (n : ℕ) :
    (if size ≤ n % size + 1 then 0 else n % size + 1) = (n + 1) % size := by
  have hlt := Nat.mod_lt n hsize
  have hdiv := Nat.div_add_mod n size
  split
  · have hn : n + 1 = size * (n / size + 1) := by
      rw [Nat.mul_add]
      omega
    rw [hn, Nat.mul_mod_right]
  · rw [← Nat.mod_add_mod n size 1, Nat.mod_eq_of_lt (by omega : n % size + 1 < size)]

/-- The next byte is stored over the oldest one. -/
theorem Holds.push {size : ℕ} {buffer : ℕ → β} {bytes : List β} (h : Holds size buffer bytes) (b : β) :
    Holds size (Function.update buffer (bytes.length % size) b) (bytes ++ [b]) := by
  intro j hj hlast
  rw [List.length_append, List.length_singleton] at hj hlast
  rcases Nat.lt_or_ge j bytes.length with hlt | hge
  · have hplace : j % size ≠ bytes.length % size := by
      intro heq
      have hdiff := Nat.sub_mod_eq_zero_of_mod_eq heq.symm
      have := Nat.le_of_dvd (by omega) (Nat.dvd_of_mod_eq_zero hdiff)
      omega
    rw [Function.update_of_ne hplace, List.getElem_append_left hlt]
    exact h j hlt (by omega)
  · obtain rfl : j = bytes.length := by omega
    rw [Function.update_self, List.getElem_append_right (Nat.le_refl _)]
    simp

/-- As long as the buffer was not filled up, a first part of the stream is held too. -/
theorem Holds.take {size : ℕ} {buffer : ℕ → β} {bytes : List β} (h : Holds size buffer bytes)
    (hfits : bytes.length ≤ size)
    (n : ℕ) : Holds size buffer (bytes.take n) := by
  intro j hj _
  rw [List.length_take] at hj
  rw [List.getElem_take]
  exact h j (by omega) (by omega)

/-- The bytes since the buffer was begun last lie at its beginning. -/
theorem Holds.front {size : ℕ} {buffer : ℕ → β} {bytes : List β} (h : Holds size buffer bytes)
    (hsize : 0 < size)
    (i : ℕ) (hi : i < bytes.length % size) :
    bytes[bytes.length - bytes.length % size + i]? = some (buffer i) := by
  have hle := Nat.mod_le bytes.length size
  have hlt := Nat.mod_lt bytes.length hsize
  have hplace : (bytes.length - bytes.length % size + i) % size = i := by
    have hdvd : size ∣ bytes.length - bytes.length % size := Nat.dvd_sub_mod bytes.length
    rw [Nat.add_mod, Nat.mod_eq_zero_of_dvd hdvd, Nat.zero_add, Nat.mod_mod,
      Nat.mod_eq_of_lt (by omega)]
  have hheld := h (bytes.length - bytes.length % size + i) (by omega) (by omega)
  rw [hplace] at hheld
  rw [hheld, List.getElem?_eq_getElem]

/-- They are the last part of the stream that has this length. -/
theorem Holds.tail {size : ℕ} {buffer : ℕ → β} {left right : List β}
    (h : Holds size buffer (left ++ right)) (hsize : 0 < size)
    (hlength : (left ++ right).length % size = right.length) (i : ℕ) (hi : i < right.length) :
    buffer i = right[i] := by
  have hindex : (left ++ right).length - (left ++ right).length % size + i = left.length + i := by
    rw [hlength, List.length_append]
    omega
  have hfront := h.front hsize i (by omega)
  rw [hindex, List.getElem?_append_right (Nat.le_add_right _ _), Nat.add_sub_cancel_left,
    List.getElem?_eq_getElem hi,
    Option.some_inj] at hfront
  exact hfront.symm

/-- The bytes before the place of the next one tell how the stream ends. -/
theorem Holds.suffix_iff {size : ℕ} {buffer : ℕ → β} {bytes : List β} (h : Holds size buffer bytes)
    (hsize : 0 < size)
    (marker : List β) (hplace : marker.length ≤ bytes.length % size) :
    (∀ i (hi : i < marker.length), buffer (bytes.length % size - marker.length + i) = marker[i]) ↔
      marker <:+ bytes := by
  have hle := Nat.mod_le bytes.length size
  have hread : ∀ i < marker.length,
      (bytes.drop (bytes.length - marker.length))[i]? =
      some (buffer (bytes.length % size - marker.length + i)) := by
    intro i hi
    rw [← h.front hsize _ (by omega), List.getElem?_drop]
    congr 1
    omega
  rw [List.suffix_iff_eq_drop]
  constructor
  · intro hall
    refine List.ext_getElem (by rw [List.length_drop]; omega) fun i hi hi' => ?_
    have hbyte := hread i hi
    rw [List.getElem?_eq_getElem hi', Option.some_inj, hall i hi] at hbyte
    exact hbyte.symm
  · intro heq i hi
    have hbyte := hread i hi
    rw [← heq, List.getElem?_eq_getElem hi, Option.some_inj] at hbyte
    exact hbyte.symm

end DasEdge.Library
