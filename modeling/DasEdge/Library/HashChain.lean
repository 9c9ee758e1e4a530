import Mathlib.Data.List.Nodup
import Mathlib.Logic.Function.Basic

/-!
# Chained hash tables

A table with a chain of entries in each bucket. An entry is put in front of its chain, and the first
entry of a chain that has the key is found or taken out, so an entry hides older ones with its key.
As long as no key that is in the table is put in again, the table is a map.
-/

namespace DasEdge.Library

variable {κ ν : Type*} [DecidableEq κ]

/-- The chains of the buckets. -/
abbrev ChainTable (κ ν : Type*) := ℕ → List (κ × ν)

namespace ChainTable

/-- Puts an entry in front of a chain. -/
def insert (t : ChainTable κ ν) (pos : ℕ) (key : κ) (value : ν) : ChainTable κ ν :=
  Function.update t pos ((key, value) :: t pos)

/-- Puts an entry in front of a chain when there is a value for it. -/
def insertSome (t : ChainTable κ ν) (pos : ℕ) (key : κ) : Option ν → ChainTable κ ν
  | some value => t.insert pos key value
  | none => t

/-- The first entry of a chain with the key. -/
def lookup (t : ChainTable κ ν) (pos : ℕ) (key : κ) : Option ν :=
  ((t pos).find? fun entry => entry.1 = key).map Prod.snd

/-- Takes it out. -/
def erase (t : ChainTable κ ν) (pos : ℕ) (key : κ) : ChainTable κ ν :=
  Function.update t pos ((t pos).eraseP fun entry => entry.1 = key)

/-- The table holds the entries of a map, each once and in the bucket of its key. -/
structure Represents (hash : κ → ℕ) (t : ChainTable κ ν) (m : κ → Option ν) : Prop where
  nodup : ∀ pos, ((t pos).map Prod.fst).Nodup
  mem_iff : ∀ pos key value, (key, value) ∈ t pos ↔ pos = hash key ∧ m key = some value

variable {hash : κ → ℕ} {t : ChainTable κ ν} {m : κ → Option ν}

omit [DecidableEq κ] in
/-- The empty table. -/
theorem represents_empty (hash : κ → ℕ) :
    Represents hash (fun _ => ([] : List (κ × ν))) fun _ => none where
  nodup _ := List.nodup_nil
  mem_iff _ _ _ := ⟨fun h => absurd h List.not_mem_nil, fun h => nomatch h.2⟩

/-- The map is what is looked up. -/
theorem Represents.lookup_eq (h : Represents hash t m) (key : κ) : t.lookup (hash key) key = m key := by
  unfold lookup
  cases hfind : (t (hash key)).find? fun entry => entry.1 = key with
  | none =>
    have hnone := List.find?_eq_none.mp hfind
    cases hm : m key with
    | none => rfl
    | some value =>
      exact absurd (decide_eq_true rfl) (hnone (key, value) ((h.mem_iff _ _ _).mpr ⟨rfl, hm⟩))
  | some entry =>
    obtain ⟨other, value⟩ := entry
    obtain rfl : other = key :=
      of_decide_eq_true (List.find?_some (p := fun entry : κ × ν => decide (entry.1 = key)) hfind)
    exact ((h.mem_iff _ _ _).mp (List.mem_of_find?_eq_some hfind)).2.symm

omit [DecidableEq κ] in
/-- A key that is not in the map is in no bucket. -/
theorem Represents.not_mem (h : Represents hash t m) {key : κ} (hnone : m key = none) (pos : ℕ) :
    key ∉ (t pos).map Prod.fst := by
  intro hmem
  obtain ⟨⟨other, value⟩, hentry, rfl⟩ := List.mem_map.mp hmem
  have hsome := ((h.mem_iff _ _ _).mp hentry).2
  rw [hnone] at hsome
  cases hsome

/-- A new key is put in. -/
theorem Represents.insert (h : Represents hash t m) {key : κ} (hnone : m key = none) (value : ν) :
    Represents hash (t.insert (hash key) key value) (Function.update m key (some value)) := by
  refine ⟨fun pos => ?_, fun pos other found => ?_⟩
  · unfold ChainTable.insert
    by_cases hpos : pos = hash key
    · rw [hpos, Function.update_self, List.map_cons]
      exact List.nodup_cons.mpr ⟨h.not_mem hnone _, h.nodup _⟩
    · rw [Function.update_of_ne hpos]
      exact h.nodup pos
  · unfold ChainTable.insert
    by_cases hkey : other = key
    · subst hkey
      rw [Function.update_self]
      by_cases hpos : pos = hash other
      · rw [hpos, Function.update_self, List.mem_cons]
        have hold : (other, found) ∉ t (hash other) := fun hmem =>
          h.not_mem hnone _ (List.mem_map_of_mem (f := Prod.fst) hmem)
        simp [hold, eq_comm]
      · rw [Function.update_of_ne hpos]
        have hold : (other, found) ∉ t pos := fun hmem => hpos ((h.mem_iff _ _ _).mp hmem).1
        simp [hold, hpos]
    · rw [Function.update_of_ne hkey, ← h.mem_iff]
      by_cases hpos : pos = hash key
      · rw [hpos, Function.update_self, List.mem_cons]
        simp [hkey]
      · rw [Function.update_of_ne hpos]

/-- A new key is put in when there is a value for it. -/
theorem Represents.insertSome (h : Represents hash t m) {key : κ} (value : Option ν)
    (hfree : value.isSome → m key = none) :
    Represents hash (t.insertSome (hash key) key value) (Function.update m key (value.or (m key))) := by
  cases value with
  | none =>
    rw [Option.none_or, Function.update_eq_self]
    exact h
  | some value => exact h.insert (hfree rfl) value

/-- In a chain without a key twice, the key is gone when its entry is taken out. -/
theorem not_mem_eraseP {chain : List (κ × ν)} (h : (chain.map Prod.fst).Nodup) (key : κ) :
    key ∉ (chain.eraseP fun entry => entry.1 = key).map Prod.fst := by
  induction chain with
  | nil => exact List.not_mem_nil
  | cons entry chain ih =>
    rw [List.map_cons, List.nodup_cons] at h
    by_cases hkey : entry.1 = key
    · rw [List.eraseP_cons_of_pos (by exact decide_eq_true hkey), ← hkey]
      exact h.1
    · rw [List.eraseP_cons_of_neg (by simpa using hkey), List.map_cons, List.mem_cons]
      rintro (heq | hmem)
      · exact hkey heq.symm
      · exact ih h.2 hmem

/-- A key is taken out. -/
theorem Represents.erase (h : Represents hash t m) (key : κ) :
    Represents hash (t.erase (hash key) key) (Function.update m key none) := by
  refine ⟨fun pos => ?_, fun pos other found => ?_⟩
  · unfold ChainTable.erase
    by_cases hpos : pos = hash key
    · rw [hpos, Function.update_self]
      exact (h.nodup _).sublist (List.eraseP_sublist.map _)
    · rw [Function.update_of_ne hpos]
      exact h.nodup pos
  · unfold ChainTable.erase
    by_cases hkey : other = key
    · subst hkey
      rw [Function.update_self]
      refine ⟨fun hmem => ?_, fun hnone => nomatch hnone.2⟩
      by_cases hpos : pos = hash other
      · rw [hpos, Function.update_self] at hmem
        exact absurd (List.mem_map_of_mem (f := Prod.fst) hmem) (not_mem_eraseP (h.nodup _) other)
      · rw [Function.update_of_ne hpos] at hmem
        exact absurd ((h.mem_iff _ _ _).mp hmem).1 hpos
    · rw [Function.update_of_ne hkey, ← h.mem_iff]
      by_cases hpos : pos = hash key
      · rw [hpos, Function.update_self, List.mem_eraseP_of_neg (by simpa using hkey)]
      · rw [Function.update_of_ne hpos]

end ChainTable

end DasEdge.Library
