import DasEdge.Library.GuardedRun
import Mathlib.Data.List.Basic
import Mathlib.Data.List.Induction
import Mathlib.Data.List.Nodup

/-!
# Slots for keys

A table that gives a key the first slot whose key fits it, and a new slot when none does. When fitting
is not equality, keys may come to share a slot. Each key has a slot of its own exactly when no key
fits one that comes for the first time behind it.
-/

namespace DasEdge.Library

variable {κ : Type*}

/-- The slot of a key, and the keys of the slots. -/
def internStep (fits : κ → κ → Bool) (slots : List κ) (k : κ) : ℕ × List κ :=
  match slots.findIdx? fun s => fits s k with
  | some i => (i, slots)
  | none => (slots.length, slots ++ [k])

/-- No key fits one that comes for the first time behind it. -/
def FreshUnfit (fits : κ → κ → Bool) (keys : List κ) : Prop :=
  ∀ pre k suf, keys = pre ++ k :: suf → k ∉ pre → ∀ b ∈ pre, fits b k = false

/-- Keys have the same slot exactly when they are the same. -/
def SlotsOwn (keys : List κ) (outs : List ℕ) : Prop :=
  ∀ (i j : ℕ) (k l : κ) (m n : ℕ), keys[i]? = some k → keys[j]? = some l → outs[i]? = some m →
    outs[j]? = some n → (m = n ↔ k = l)

/-- One more key. -/
theorem freshUnfit_append_singleton {fits : κ → κ → Bool} {keys : List κ} {k : κ} :
    FreshUnfit fits (keys ++ [k]) ↔
      FreshUnfit fits keys ∧ (k ∉ keys → ∀ b ∈ keys, fits b k = false) := by
  constructor
  · intro h
    refine ⟨fun pre l suf heq => h pre l (suf ++ [k]) (by simp [heq]), fun hnew => h keys k [] rfl hnew⟩
  · rintro ⟨h, hlast⟩ pre l suf heq hnew
    rcases List.eq_nil_or_concat suf with rfl | ⟨suf, last, rfl⟩
    · obtain ⟨rfl, hk⟩ := List.append_inj' heq rfl
      obtain rfl := (List.cons_eq_cons.mp hk).1
      exact hlast hnew
    · rw [List.concat_eq_append, ← List.cons_append, ← List.append_assoc] at heq
      exact h pre l suf (List.append_inj' heq rfl).1 hnew

variable [DecidableEq κ]

/-- Each key that has come has a slot of its own, which is the first that fits it. -/
structure Interned (fits : κ → κ → Bool) (keys : List κ) (outs : List ℕ) (slots : List κ) : Prop where
  nodup : slots.Nodup
  mem_iff : ∀ k, k ∈ slots ↔ k ∈ keys
  unfit : slots.Pairwise fun a b => fits a b = false
  outs : outs = keys.map fun k => slots.idxOf k

section

variable {fits : κ → κ → Bool} {keys : List κ} {outs : List ℕ} {slots : List κ} {k : κ}

/-- The first slot that fits a key that has one is its own. -/
theorem Interned.findIdx? (h : Interned fits keys outs slots) (hrefl : ∀ k, fits k k = true)
    (hk : k ∈ keys) : (slots.findIdx? fun s => fits s k) = some (slots.idxOf k) := by
  have hmem := (h.mem_iff k).mpr hk
  have hlt := List.idxOf_lt_length_of_mem hmem
  refine List.findIdx?_eq_some_iff_getElem.mpr ⟨hlt, ?_, fun j hj => ?_⟩
  · rw [List.getElem_idxOf]
    exact hrefl k
  · have hfits := List.pairwise_iff_getElem.mp h.unfit j (slots.idxOf k) (by omega) hlt hj
    rw [List.getElem_idxOf] at hfits
    rw [hfits]
    exact Bool.false_ne_true

/-- One more key, which none fits when it is new. -/
theorem Interned.step (h : Interned fits keys outs slots) (hrefl : ∀ k, fits k k = true)
    (hk : k ∉ keys → ∀ b ∈ keys, fits b k = false) :
    Interned fits (keys ++ [k]) (outs ++ [(internStep fits slots k).1]) (internStep fits slots k).2 := by
  by_cases hmem : k ∈ keys
  · rw [internStep, h.findIdx? hrefl hmem]
    refine ⟨h.nodup, fun l => ?_, h.unfit, ?_⟩
    · rw [h.mem_iff, List.mem_append, List.mem_singleton]
      exact ⟨.inl, fun hl => hl.elim id fun heq => heq ▸ hmem⟩
    · rw [List.map_append, ← h.outs]
      rfl
  · have hunfit := hk hmem
    have hnew : k ∉ slots := fun hslot => hmem ((h.mem_iff k).mp hslot)
    have hnone : (slots.findIdx? fun s => fits s k) = none :=
      List.findIdx?_eq_none_iff.mpr fun s hs => hunfit s ((h.mem_iff s).mp hs)
    rw [internStep, hnone]
    refine ⟨?_, fun l => ?_, ?_, ?_⟩
    · exact List.nodup_append.mpr ⟨h.nodup, List.nodup_singleton k,
        fun a ha b hb heq => hnew (by rwa [← List.mem_singleton.mp hb, ← heq])⟩
    · rw [List.mem_append, h.mem_iff, List.mem_append]
    · refine List.pairwise_append.mpr ⟨h.unfit, List.pairwise_singleton _ _, fun a ha b hb => ?_⟩
      rw [List.mem_singleton.mp hb]
      exact hunfit a ((h.mem_iff a).mp ha)
    · have hold : (keys.map fun l => (slots ++ [k]).idxOf l) = keys.map fun l => slots.idxOf l :=
        List.map_congr_left fun l hl => List.idxOf_append_of_mem ((h.mem_iff l).mpr hl)
      rw [List.map_append, hold, ← h.outs, List.map_singleton, List.idxOf_append_of_notMem hnew]
      simp

/-- The slot of a key holds the key. -/
theorem Interned.getElem?_out (h : Interned fits keys outs slots) {i n : ℕ} (hk : keys[i]? = some k)
    (hn : outs[i]? = some n) : slots[n]? = some k := by
  rw [h.outs, List.getElem?_map, hk] at hn
  obtain rfl := Option.some.inj hn
  have hmem := (h.mem_iff k).mpr (List.mem_of_getElem? hk)
  rw [List.getElem?_eq_getElem (List.idxOf_lt_length_of_mem hmem), List.getElem_idxOf]

/-- Then each key has a slot of its own. -/
theorem Interned.slotsOwn (h : Interned fits keys outs slots) : SlotsOwn keys outs := by
  intro i j k l m n hk hl hm hn
  rw [h.outs, List.getElem?_map, hk] at hm
  rw [h.outs, List.getElem?_map, hl] at hn
  obtain rfl := Option.some.inj hm
  obtain rfl := Option.some.inj hn
  exact List.idxOf_inj ((h.mem_iff k).mpr (List.mem_of_getElem? hk))

/-- A new key that one fits shares a slot. -/
theorem Interned.shares (h : Interned fits keys outs slots) (hnew : k ∉ keys)
    (hfits : ∃ b ∈ keys, fits b k = true) :
    ¬ SlotsOwn (keys ++ [k]) (outs ++ [(internStep fits slots k).1]) := by
  obtain ⟨b, hb, hfits⟩ := hfits
  have hlength : outs.length = keys.length := by rw [h.outs, List.length_map]
  cases hfind : slots.findIdx? fun s => fits s k with
  | none =>
    have hnone := List.findIdx?_eq_none_iff.mp hfind b ((h.mem_iff b).mpr hb)
    rw [hfits] at hnone
    cases hnone
  | some n =>
    intro howned
    obtain ⟨hn, -, -⟩ := List.findIdx?_eq_some_iff_getElem.mp hfind
    obtain ⟨i, hi⟩ := List.getElem?_of_mem ((h.mem_iff slots[n]).mp (List.getElem_mem hn))
    have hlt := (List.getElem?_eq_some_iff.mp hi).1
    have hout : outs[i]? = some n := by
      rw [h.outs, List.getElem?_map, hi, Option.map_some, h.nodup.idxOf_getElem n hn]
    have hsame := howned i keys.length slots[n] k n n
      (by rw [List.getElem?_append_left hlt, hi]) (by simp)
      (by rw [List.getElem?_append_left (hlength ▸ hlt), hout])
      (by rw [List.getElem?_append_right (Nat.le_of_eq hlength), hlength, internStep, hfind]; simp)
    exact hnew (hsame.mp rfl ▸ List.mem_of_getElem? hi)

end

omit [DecidableEq κ] in
/-- The first keys of a run have the slots that they have alone. -/
theorem slotsOwn_of_append {keys rest : List κ} {outs more : List ℕ}
    (hlength : outs.length = keys.length) (h : SlotsOwn (keys ++ rest) (outs ++ more)) :
    SlotsOwn keys outs := by
  intro i j k l m n hk hl hm hn
  have hi := (List.getElem?_eq_some_iff.mp hk).1
  have hj := (List.getElem?_eq_some_iff.mp hl).1
  exact h i j k l m n (by rw [List.getElem?_append_left hi, hk])
    (by rw [List.getElem?_append_left hj, hl]) (by rw [List.getElem?_append_left (hlength ▸ hi), hm])
    (by rw [List.getElem?_append_left (hlength ▸ hj), hn])

/-- In a run from the empty table each key has a slot of its own exactly when no key fits one that
comes for the first time behind it; then the table is in order. -/
theorem intern_iff (fits : κ → κ → Bool) (hrefl : ∀ k, fits k k = true) (keys : List κ) :
    (SlotsOwn keys (runTotal (internStep fits) [] keys).1 ↔ FreshUnfit fits keys) ∧
      (FreshUnfit fits keys → Interned fits keys (runTotal (internStep fits) [] keys).1
        (runTotal (internStep fits) [] keys).2) := by
  induction keys using List.reverseRecOn with
  | nil =>
    refine ⟨iff_of_true (fun i j k l m n hk => by cases hk) (fun pre k suf heq => ?_), fun _ => ?_⟩
    · cases pre <;> cases heq
    · exact ⟨List.nodup_nil, fun _ => Iff.rfl, List.Pairwise.nil, rfl⟩
  | append_singleton keys k ih =>
    obtain ⟨howned, hinterned⟩ := ih
    rw [runTotal_append, freshUnfit_append_singleton]
    refine ⟨⟨fun h => ?_, fun h => ((hinterned h.1).step hrefl h.2).slotsOwn⟩,
      fun h => (hinterned h.1).step hrefl h.2⟩
    have hlength := runTotal_length (internStep fits) [] keys
    have hfresh := howned.mp (slotsOwn_of_append hlength h)
    refine ⟨hfresh, fun hnew b hb => ?_⟩
    by_contra hfits
    exact (hinterned hfresh).shares hnew ⟨b, hb, by simpa using hfits⟩ h

end DasEdge.Library
