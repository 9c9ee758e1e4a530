import Mathlib.Data.List.Basic

/-!
# Tables of slots

A table is a list of slots. A slot is free or has a key, which is read off it by a function. Slots
are written in place, and new ones come behind the others, so that the place of a slot is its
identity. Keys stay distinct as long as a key is only given to a slot when no other slot has it.
-/

namespace DasEdge.Library

variable {ε κ : Type*} (key : ε → Option κ)

/-- The slot at a place has a key. -/
def SlotHas (table : List ε) (i : ℕ) (k : κ) : Prop := ∃ slot, table[i]? = some slot ∧ key slot = some k

/-- No key is in two places. -/
def SlotsDistinct (table : List ε) : Prop := ∀ i j k, SlotHas key table i k →
    SlotHas key table j k → i = j

/-- An empty table has distinct keys. -/
theorem slotsDistinct_nil : SlotsDistinct key ([] : List ε) := by
  rintro i j k ⟨slot, hslot, -⟩ -
  rw [List.getElem?_nil] at hslot
  cases hslot

variable {key}

/-- A key is in some place when one of the slots has it. -/
theorem exists_slotHas_iff {table : List ε} {k : κ} : (∃ i, SlotHas key table i k) ↔
    ∃ slot ∈ table, key slot = some k := by
  constructor
  · rintro ⟨i, slot, hslot, hkey⟩
    exact ⟨slot, List.mem_of_getElem? hslot, hkey⟩
  · rintro ⟨slot, hslot, hkey⟩
    obtain ⟨i, hi⟩ := List.getElem?_of_mem hslot
    exact ⟨i, slot, hi, hkey⟩

/-- The keys after a slot is written. -/
theorem slotHas_set {table : List ε} {i j : ℕ} {slot : ε} {k : κ} (hi : i < table.length) :
    SlotHas key (table.set i slot) j k ↔ (j = i ∧ key slot = some k) ∨
      (j ≠ i ∧ SlotHas key table j k) := by
  rcases eq_or_ne j i with rfl | hj
  · simp [SlotHas, List.getElem?_set_self hi]
  · simp [SlotHas, List.getElem?_set_ne (Ne.symm hj), hj]

/-- A slot more gets a key. -/
theorem slotHas_concat {table : List ε} {j : ℕ} {slot : ε} {k k' : κ} (hkey : key slot = some k) :
    SlotHas key (table ++ [slot]) j k' ↔ (j = table.length ∧ k' = k) ∨ SlotHas key table j k' := by
  rcases Nat.lt_trichotomy j table.length with hj | rfl | hj
  · simp [SlotHas, List.getElem?_append_left hj, Nat.ne_of_lt hj]
  · simp [SlotHas, hkey, @eq_comm κ k]
  · simp only [SlotHas, List.getElem?_append_right (Nat.le_of_lt hj),
      List.getElem?_eq_none (Nat.le_of_lt hj)]
    have hbeyond : ([slot] : List ε)[j - table.length]? = none := by
      rw [List.getElem?_eq_none_iff, List.length_singleton]
      omega
    simp [hbeyond, Nat.ne_of_gt hj]

/-- A table whose keys were in their places before has distinct keys. -/
theorem SlotsDistinct.mono {table table' : List ε} (h : SlotsDistinct key table)
    (hback : ∀ j k, SlotHas key table' j k → SlotHas key table j k) : SlotsDistinct key table' :=
  fun a b k ha hb => h a b k (hback a k ha) (hback b k hb)

/-- One place may get a key that was nowhere. -/
theorem SlotsDistinct.extend {table table' : List ε} (i : ℕ) {k : κ} (h : SlotsDistinct key table)
    (hnew : ∀ j, ¬ SlotHas key table j k)
    (hback : ∀ j k', SlotHas key table' j k' → (j = i ∧ k' = k) ∨ SlotHas key table j k') :
    SlotsDistinct key table' := by
  intro a b k' ha hb
  rcases hback a k' ha with ⟨rfl, rfl⟩ | ha
  · rcases hback b k' hb with ⟨rfl, -⟩ | hb
    · rfl
    · exact absurd hb (hnew b)
  · rcases hback b k' hb with ⟨rfl, rfl⟩ | hb
    · exact absurd ha (hnew a)
    · exact h a b k' ha hb

/-- Writing a slot that keeps its key keeps the places. -/
theorem slotHas_rewrite {table : List ε} {i j : ℕ} {slot old : ε} {k : κ} (hold : table[i]? = some old)
    (hkey : key slot = key old) : SlotHas key (table.set i slot) j k ↔ SlotHas key table j k := by
  rw [slotHas_set (List.getElem?_eq_some_iff.mp hold).1]
  rcases eq_or_ne j i with rfl | hj
  · simp [SlotHas, hold, hkey]
  · simp [hj]

/-- A free slot gets a key. -/
theorem slotHas_occupy {table : List ε} {i j : ℕ} {slot old : ε} {k k' : κ}
    (hold : table[i]? = some old)
    (hfree : key old = none) (hkey : key slot = some k) :
    SlotHas key (table.set i slot) j k' ↔ (j = i ∧ k' = k) ∨ SlotHas key table j k' := by
  rw [slotHas_set (List.getElem?_eq_some_iff.mp hold).1, hkey, Option.some_inj, @eq_comm κ k]
  rcases eq_or_ne j i with rfl | hj
  · simp [SlotHas, hold, hfree]
  · simp [hj]

/-- A slot with a key is freed. -/
theorem slotHas_release {table : List ε} {i j : ℕ} {slot : ε} {k k' : κ} (h : SlotsDistinct key table)
    (hold : SlotHas key table i k) (hkey : key slot = none) :
    SlotHas key (table.set i slot) j k' ↔ k' ≠ k ∧ SlotHas key table j k' := by
  obtain ⟨old, hget, hkold⟩ := hold
  rw [slotHas_set (List.getElem?_eq_some_iff.mp hget).1, hkey]
  constructor
  · rintro (⟨-, hnone⟩ | ⟨hj, hhas⟩)
    · cases hnone
    · refine ⟨?_, hhas⟩
      rintro rfl
      exact hj (h j i k' hhas ⟨old, hget, hkold⟩)
  · rintro ⟨hne, hhas⟩
    refine Or.inr ⟨?_, hhas⟩
    rintro rfl
    obtain ⟨slot', hslot', hk'⟩ := hhas
    rw [hget, Option.some_inj] at hslot'
    rw [← hslot', hkold, Option.some_inj] at hk'
    exact hne hk'.symm

variable (key)

/-- The slots with keys come before the free ones. -/
def SlotsInFront (table : List ε) : Prop :=
  ∀ i j k, i ≤ j → SlotHas key table j k → ∃ k', SlotHas key table i k'

/-- The first slot that is free or has a key. -/
def findSlot [DecidableEq κ] (k : κ) (table : List ε) : Option ℕ :=
  table.findIdx? fun slot => decide (key slot = none ∨ key slot = some k)

variable {key}

/-- The slots before the one that is found have other keys. -/
theorem findSlot_eq_some [DecidableEq κ] {k : κ} {table : List ε} {i : ℕ}
    (h : findSlot key k table = some i) :
    (∃ slot, table[i]? = some slot ∧ (key slot = none ∨ key slot = some k)) ∧
      ∀ j < i, ∃ k', k' ≠ k ∧ SlotHas key table j k' := by
  obtain ⟨hi, hfound, hbefore⟩ := List.findIdx?_eq_some_iff_getElem.mp h
  refine ⟨⟨_, List.getElem?_eq_getElem hi, of_decide_eq_true hfound⟩, fun j hj => ?_⟩
  have hother := hbefore j hj
  rw [decide_eq_true_eq, not_or] at hother
  obtain ⟨k', hk'⟩ := Option.ne_none_iff_exists'.mp hother.1
  refine ⟨k', ?_, _, List.getElem?_eq_getElem (Nat.lt_trans hj hi), hk'⟩
  rintro rfl
  exact hother.2 hk'

/-- When none is found all slots have other keys. -/
theorem findSlot_eq_none [DecidableEq κ] {k : κ} {table : List ε} (h : findSlot key k table = none) :
    ∀ slot ∈ table, key slot ≠ none := by
  intro slot hmem hfree
  have hpass := List.findIdx?_eq_none_iff.mp h slot hmem
  rw [decide_eq_false_iff_not] at hpass
  exact hpass (Or.inl hfree)

/-- When a free slot is found the key is nowhere. -/
theorem findSlot_free [DecidableEq κ] {k : κ} {table : List ε} {i : ℕ} {old : ε}
    (h : findSlot key k table = some i) (hfront : SlotsInFront key table) (hold : table[i]? = some old)
    (hfree : key old = none) (j : ℕ) : ¬ SlotHas key table j k := by
  intro hhas
  rcases Nat.lt_or_ge j i with hlt | hge
  · obtain ⟨k', hne, slot, hslot, hk'⟩ := (findSlot_eq_some h).2 j hlt
    obtain ⟨slot', hslot', hk⟩ := hhas
    rw [hslot, Option.some_inj] at hslot'
    rw [← hslot', hk', Option.some_inj] at hk
    exact hne hk
  · obtain ⟨k', slot, hslot, hk'⟩ := hfront i j k hge hhas
    rw [hold, Option.some_inj] at hslot
    rw [← hslot, hfree] at hk'
    cases hk'

/-- The free slot that is found gets the key: the slots with keys are still in front. -/
theorem SlotsInFront.occupy [DecidableEq κ] {k : κ} {table : List ε} {i : ℕ} {slot old : ε}
    (hfront : SlotsInFront key table) (h : findSlot key k table = some i) (hold : table[i]? = some old)
    (hfree : key old = none) (hkey : key slot = some k) : SlotsInFront key (table.set i slot) := by
  intro a b k' hab hhas
  rcases (slotHas_occupy hold hfree hkey).mp hhas with ⟨rfl, -⟩ | hhas
  · rcases Nat.lt_or_eq_of_le hab with hlt | rfl
    · obtain ⟨k'', -, hbefore⟩ := (findSlot_eq_some h).2 a hlt
      exact ⟨k'', (slotHas_occupy hold hfree hkey).mpr (Or.inr hbefore)⟩
    · exact ⟨k, (slotHas_occupy hold hfree hkey).mpr (Or.inl ⟨rfl, rfl⟩)⟩
  · obtain ⟨k'', hbefore⟩ := hfront a b k' hab hhas
    exact ⟨k'', (slotHas_occupy hold hfree hkey).mpr (Or.inr hbefore)⟩

end DasEdge.Library
