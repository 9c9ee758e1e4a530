import Mathlib.Data.List.Nodup
import Mathlib.Data.List.Perm.Basic

/-!
# Groups by a key

The members of a list are put into groups, one group for each key. When the keys are distinct and
every member has one of them, the groups hold every member as often as the list does. The distinct
keys may be found by deleting repeated ones in place.
-/

namespace DasEdge.Library

variable {α κ : Type*}

/-- Deleting an element that is also in another place keeps the elements of a list. -/
theorem mem_eraseIdx_repeat {l : List α} {i j : ℕ} (hij : i ≠ j) (hrepeat : l[j]? = l[i]?) (x : α) :
    x ∈ l.eraseIdx j ↔ x ∈ l := by
  rw [List.mem_eraseIdx_iff_getElem?]
  constructor
  · rintro ⟨k, -, hk⟩
    exact List.mem_of_getElem? hk
  · intro hx
    obtain ⟨k, hk⟩ := List.getElem?_of_mem hx
    by_cases hkj : k = j
    · exact ⟨i, hij, by rw [← hrepeat, ← hkj, hk]⟩
    · exact ⟨k, hkj, hk⟩

variable [DecidableEq κ] (key : α → κ)

/-- One of distinct keys selects a member exactly once. -/
theorem flatMap_ite_key {keys : List κ} {k : κ} (hnodup : keys.Nodup) (hk : k ∈ keys) (a : α) :
    (keys.flatMap fun k' => if k = k' then [a] else []) = [a] := by
  induction keys with
  | nil => cases hk
  | cons k' keys ih =>
    have hfresh : k' ∉ keys := (List.nodup_cons.mp hnodup).1
    rw [List.flatMap_cons]
    by_cases hsame : k = k'
    · have hrest : (keys.flatMap fun k' => if k = k' then [a] else []) = [] := by
        rw [List.flatMap_eq_nil_iff]
        intro k'' hk''
        apply if_neg
        intro heq
        rw [← heq, hsame] at hk''
        exact hfresh hk''
      rw [if_pos hsame, hrest, List.append_nil]
    · rw [if_neg hsame, List.nil_append,
        ih (List.nodup_cons.mp hnodup).2 ((List.mem_cons.mp hk).resolve_left hsame)]

/-- The groups of distinct keys that every member has one of hold the members of the list. -/
theorem keyGroups_perm {keys : List κ} {l : List α} (hnodup : keys.Nodup)
    (hcover : ∀ a ∈ l, key a ∈ keys) :
    (keys.flatMap fun k => l.filter fun a => key a = k).Perm l := by
  induction l with
  | nil => simp
  | cons a l ih =>
    have hsplit : (fun k => (a :: l).filter fun a => key a = k) =
        fun k => (if key a = k then [a] else []) ++ l.filter fun a => key a = k := by
      funext k
      by_cases hsame : key a = k
      · simp [hsame]
      · simp [hsame]
    rw [hsplit]
    calc
      (keys.flatMap fun k => (if key a = k then [a] else []) ++ l.filter fun a => key a = k).Perm
          ((keys.flatMap fun k => if key a = k then [a] else []) ++ keys.flatMap fun k =>
            l.filter fun a => key a = k) :=
        (List.flatMap_append_perm keys _ _).symm
      _ = a :: keys.flatMap fun k => l.filter fun a => key a = k := by
        rw [flatMap_ite_key hnodup (hcover a List.mem_cons_self), List.singleton_append]
      List.Perm _ (a :: l) := (ih fun b hb => hcover b (List.mem_cons_of_mem a hb)).cons a

end DasEdge.Library
