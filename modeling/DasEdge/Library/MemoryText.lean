import Mathlib.Data.Nat.Basic

/-!
# Texts in memory

Bytes at a place in memory, and a text that ends at a null character, as the memory from a pointer on
shows it.
-/

namespace DasEdge.Library

/-- Bytes lie in a memory from a place on. -/
def ShowsAt (memory : ℕ → UInt8) (place : ℕ) (bytes : List UInt8) : Prop :=
  ∀ i (h : i < bytes.length), memory (place + i) = bytes[i]

/-- Bytes behind others lie behind them. -/
theorem showsAt_append {memory : ℕ → UInt8} {place : ℕ} {left right : List UInt8} :
    ShowsAt memory place (left ++ right) ↔ ShowsAt memory place left ∧
      ShowsAt memory (place + left.length) right := by
  constructor
  · refine fun h => ⟨fun i hi => ?_, fun i hi => ?_⟩
    · rw [h i (by rw [List.length_append]; omega), List.getElem_append_left hi]
    · rw [Nat.add_assoc, h (left.length + i) (by rw [List.length_append]; omega),
        List.getElem_append_right (Nat.le_add_right _ _)]
      simp only [Nat.add_sub_cancel_left]
  · rintro ⟨hleft, hright⟩ i hi
    rw [List.length_append] at hi
    rcases Nat.lt_or_ge i left.length with hlt | hge
    · rw [hleft i hlt, List.getElem_append_left hlt]
    · have hread := hright (i - left.length) (by omega)
      rw [Nat.add_assoc, Nat.add_sub_cancel' hge] at hread
      rw [hread, List.getElem_append_right hge]

/-- A byte in front of others lies in front of them. -/
theorem showsAt_cons {memory : ℕ → UInt8} {place : ℕ} {byte : UInt8} {bytes : List UInt8} :
    ShowsAt memory place (byte :: bytes) ↔ memory place = byte ∧ ShowsAt memory (place + 1) bytes := by
  have hone : ShowsAt memory place [byte] ↔ memory place = byte := by
    refine ⟨fun h => h 0 Nat.zero_lt_one, fun h i hi => ?_⟩
    obtain rfl : i = 0 := Nat.lt_one_iff.mp hi
    exact h
  rw [← List.singleton_append, showsAt_append, hone]
  rfl

/-- The memory from a pointer on. -/
theorem showsAt_from {memory : ℕ → UInt8} {pointer place : ℕ} {bytes : List UInt8} :
    ShowsAt (fun n => memory (pointer + n)) place bytes ↔ ShowsAt memory (pointer + place) bytes := by
  simp only [ShowsAt, Nat.add_assoc]

/-- The memory that begins with bytes. -/
theorem showsAt_getD (bytes : List UInt8) (byte : UInt8) :
    ShowsAt (fun n => bytes.getD n byte) 0 bytes := by
  intro i hi
  simp only [Nat.zero_add, List.getD_eq_getElem?_getD, List.getElem?_eq_getElem hi, Option.getD_some]

/-- Later bytes lie at a later place. -/
theorem ShowsAt.drop {memory : ℕ → UInt8} {place n : ℕ} {bytes : List UInt8}
    (h : ShowsAt memory place bytes)
    (hlength : n ≤ bytes.length) : ShowsAt memory (place + n) (bytes.drop n) := by
  rw [← List.take_append_drop n bytes, showsAt_append, List.length_take, Nat.min_eq_left hlength] at h
  exact h.2

/-- Of bytes that lie somewhere the first ones are those that lie there. -/
theorem ShowsAt.prefix_iff {memory : ℕ → UInt8} {place : ℕ} {bytes part : List UInt8}
    (h : ShowsAt memory place bytes)
    (hlength : part.length ≤ bytes.length) : ShowsAt memory place part ↔ part <+: bytes := by
  rw [List.prefix_iff_eq_take]
  constructor
  · intro hpart
    refine List.ext_getElem (by rw [List.length_take]; omega) fun i hi hi' => ?_
    rw [List.getElem_take, ← hpart i hi, h i (by omega)]
  · intro heq i hi
    have hget : part[i] = bytes[i] := (List.getElem_of_eq heq hi).trans List.getElem_take
    rw [hget]
    exact h i (by omega)

/-- Bytes that lie there are read one by one. -/
theorem ShowsAt.map_range {memory : ℕ → UInt8} {place : ℕ} {bytes : List UInt8}
    (h : ShowsAt memory place bytes) :
    ((List.range bytes.length).map fun i => memory (place + i)) = bytes := by
  refine List.ext_getElem (by simp) fun i _ hi => ?_
  rw [List.getElem_map, List.getElem_range, h i hi]

/-- The text that begins at the start of a memory. -/
def TextAt (memory : ℕ → UInt8) (text : List UInt8) : Prop :=
  (∀ i (h : i < text.length), memory i = text[i]) ∧ memory text.length = 0 ∧ 0 ∉ text

/-- It ends at the first null character. -/
theorem TextAt.length_le {memory : ℕ → UInt8} {text : List UInt8} (h : TextAt memory text) {i : ℕ}
    (hzero : memory i = 0) :
    text.length ≤ i := by
  by_contra hlt
  have hread := h.1 i (by omega)
  rw [hzero] at hread
  exact h.2.2 (hread ▸ List.getElem_mem _)

/-- There is at most one such text. -/
theorem TextAt.unique {memory : ℕ → UInt8} {text text' : List UInt8} (h : TextAt memory text)
    (h' : TextAt memory text') :
    text = text' := by
  refine List.ext_getElem (Nat.le_antisymm (h.length_le h'.2.1) (h'.length_le h.2.1)) fun i hi hi' => ?_
  rw [← h.1 i hi, h'.1 i hi']

/-- It is not changed by what lies behind its end. -/
theorem TextAt.of_agree {memory memory' : ℕ → UInt8} {text : List UInt8} (h : TextAt memory text)
    (hagree : ∀ i ≤ text.length, memory i = memory' i) : TextAt memory' text := by
  refine ⟨fun i hi => ?_, ?_, h.2.2⟩
  · rw [← hagree i (by omega)]
    exact h.1 i hi
  · rw [← hagree _ (Nat.le_refl _)]
    exact h.2.1

/-- Bytes without a null character are the first part of the text. -/
theorem TextAt.goes_on {memory : ℕ → UInt8} {bytes text : List UInt8} (h : TextAt memory text)
    (hbytes : ∀ i (hi : i < bytes.length), memory i = bytes[i]) (hnone : 0 ∉ bytes) :
    ∃ rest, text = bytes ++ rest := by
  have hlong : bytes.length ≤ text.length := by
    by_contra hlt
    have hread := hbytes text.length (by omega)
    rw [h.2.1] at hread
    exact hnone (hread ▸ List.getElem_mem _)
  refine ⟨text.drop bytes.length, ?_⟩
  refine List.ext_getElem (by rw [List.length_append, List.length_drop]; omega) fun i hi hi' => ?_
  rw [List.getElem_append]
  split
  · next hlt => rw [← hbytes i hlt, h.1 i hi]
  · next hge =>
    rw [List.getElem_drop]
    congr 1
    omega

/-- The text behind such bytes completes it. -/
theorem TextAt.append {memory : ℕ → UInt8} {bytes rest : List UInt8}
    (h : TextAt (fun i => memory (bytes.length + i)) rest)
    (hbytes : ∀ i (hi : i < bytes.length), memory i = bytes[i]) (hnone : 0 ∉ bytes) :
    TextAt memory (bytes ++ rest) := by
  obtain ⟨hread, hzero, hrest⟩ := h
  refine ⟨fun i hi => ?_, ?_, fun hmem => ?_⟩
  · rw [List.length_append] at hi
    rw [List.getElem_append]
    split
    · next hlt => exact hbytes i hlt
    · next hge =>
      have htail : memory (bytes.length + (i - bytes.length)) = _ := hread (i - bytes.length) (by omega)
      rwa [Nat.add_sub_cancel' (by omega)] at htail
  · rw [List.length_append]
    exact hzero
  · rcases List.mem_append.mp hmem with hmem | hmem
    · exact hnone hmem
    · exact hrest hmem

end DasEdge.Library
