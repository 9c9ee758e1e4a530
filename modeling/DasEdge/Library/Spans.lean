import Mathlib.Algebra.Order.BigOperators.Group.List
import Mathlib.Algebra.Order.Group.Nat
import Mathlib.Algebra.Order.Ring.Nat

/-!
# Spans of addresses

A span is a run of addresses, which may be empty. Spans that are laid one right behind the other
from a base on are apart, and they fit between two bounds when their sum does. A base that no older
span passes is one behind which they do not meet an older one, and only such a base is.
-/

namespace DasEdge.Library

/-- The addresses from `start` on, `size` of them. -/
structure Span where
  start : ℕ
  size : ℕ
  deriving DecidableEq

namespace Span

/-- The address behind the last one. -/
def stop (s : Span) : ℕ := s.start + s.size

/-- The span holds the address `r`. -/
def Has (s : Span) (r : ℕ) : Prop := s.start ≤ r ∧ r < s.stop

/-- No address is in both spans. -/
def Apart (a b : Span) : Prop := ∀ r, ¬ (a.Has r ∧ b.Has r)

/-- Every address of the span is at least `lo` and below `hi`. -/
def Within (lo hi : ℕ) (s : Span) : Prop := ∀ r, s.Has r → lo ≤ r ∧ r < hi

theorem Apart.symm {a b : Span} (h : a.Apart b) : b.Apart a := fun r hr => h r hr.symm

/-- A span that ends before another begins is apart from it. -/
theorem apart_of_stop_le {a b : Span} (h : a.stop ≤ b.start) : a.Apart b := by
  rintro r ⟨ha, hb⟩
  exact absurd (h.trans hb.1) (Nat.not_le.mpr ha.2)

/-- Of two spans that are apart, the one that does not start later ends before the other, unless
that one is empty. -/
theorem Apart.stop_le {a b : Span} (h : a.Apart b) (hstart : a.start ≤ b.start) (hb : 0 < b.size) :
    a.stop ≤ b.start := by
  by_contra hlt
  exact h b.start ⟨⟨hstart, Nat.not_le.mp hlt⟩, le_rfl, Nat.lt_add_of_pos_right hb⟩

/-- A span with an address is within two bounds when its ends are. -/
theorem within_iff {lo hi : ℕ} {s : Span} (hs : 0 < s.size) : s.Within lo hi ↔ lo ≤ s.start ∧
    s.stop ≤ hi := by
  constructor
  · intro h
    refine ⟨(h s.start ⟨le_rfl, Nat.lt_add_of_pos_right hs⟩).1, ?_⟩
    have hlast := (h (s.start + (s.size - 1)) ⟨Nat.le_add_right _ _, by rw [stop]; omega⟩).2
    rw [stop]
    omega
  · rintro ⟨hlo, hhi⟩ r hr
    exact ⟨hlo.trans hr.1, hr.2.trans_le hhi⟩

end Span

/-- The spans `new` are within the bounds, apart from the older ones and apart from each other. -/
structure Placed (lo hi : ℕ) (old new : List Span) : Prop where
  within : ∀ s ∈ new, s.Within lo hi
  apart : ∀ s ∈ new, ∀ o ∈ old, s.Apart o
  pairwise : new.Pairwise Span.Apart

/-- Spans of the given sizes, each right behind the one before it. -/
def consecutive : ℕ → List ℕ → List Span
  | _, [] => []
  | base, size :: sizes => ⟨base, size⟩ :: consecutive (base + size) sizes

/-- Consecutive spans start at the base at the earliest and end with their sum at the latest. -/
theorem consecutive_bounds {base : ℕ} {sizes : List ℕ} {s : Span} (hs : s ∈ consecutive base sizes) :
    base ≤ s.start ∧ s.stop ≤ base + sizes.sum := by
  induction sizes generalizing base with
  | nil => cases hs
  | cons size sizes ih =>
    rw [List.sum_cons]
    rcases List.mem_cons.mp hs with rfl | htail
    · exact ⟨le_rfl, by simp only [Span.stop]; omega⟩
    · have := ih htail
      omega

/-- Consecutive spans are apart from each other. -/
theorem consecutive_pairwise (base : ℕ) (sizes : List ℕ) :
    (consecutive base sizes).Pairwise Span.Apart := by
  induction sizes generalizing base with
  | nil => exact List.Pairwise.nil
  | cons size sizes ih =>
    refine List.pairwise_cons.mpr ⟨fun s hs => Span.apart_of_stop_le ?_, ih _⟩
    exact (consecutive_bounds hs).1

/-- Consecutive spans with addresses are within two bounds when the base and their sum are. -/
theorem consecutive_within_iff {lo hi base : ℕ} {sizes : List ℕ} (hne : sizes ≠ [])
    (hpos : ∀ n ∈ sizes, 0 < n) :
    (∀ s ∈ consecutive base sizes, s.Within lo hi) ↔ lo ≤ base ∧ base + sizes.sum ≤ hi := by
  constructor
  · intro h
    induction sizes generalizing base with
    | nil => exact absurd rfl hne
    | cons size sizes ih =>
      obtain ⟨hsize, hsizes⟩ := List.forall_mem_cons.mp hpos
      obtain ⟨hhead, htail⟩ := List.forall_mem_cons.mp h
      obtain ⟨hlo, hhi⟩ := (Span.within_iff hsize).mp hhead
      refine ⟨hlo, ?_⟩
      rw [List.sum_cons]
      by_cases hnil : sizes = []
      · subst hnil
        exact hhi
      · rw [← Nat.add_assoc]
        exact (ih hnil hsizes htail).2
  · rintro ⟨hlo, hhi⟩ s hs r hr
    have hbounds := consecutive_bounds hs
    exact ⟨hlo.trans (hbounds.1.trans hr.1), hr.2.trans_le (hbounds.2.trans hhi)⟩

/-- Each span starts where the one before it ended, from the base on, for as long as none has passed
`hi`. -/
def ChainedUpTo (hi : ℕ) : ℕ → List Span → Prop
  | _, [] => True
  | base, s :: rest => s.start = base ∧ (s.stop ≤ hi → ChainedUpTo hi s.stop rest)

/-- Chained spans are consecutive when none of them passes `hi`. -/
theorem ChainedUpTo.eq_consecutive {hi base : ℕ} {spans : List Span} (h : ChainedUpTo hi base spans)
    (hstop : ∀ s ∈ spans, s.stop ≤ hi) : spans = consecutive base (spans.map Span.size) := by
  induction spans generalizing base with
  | nil => rfl
  | cons s rest ih =>
    obtain ⟨rfl, htail⟩ := h
    obtain ⟨hs, hrest⟩ := List.forall_mem_cons.mp hstop
    rw [List.map_cons, consecutive]
    exact congrArg (s :: ·) (ih (htail hs) hrest)

/-- None of the chained spans passes `hi` when there is room for their sum. -/
theorem ChainedUpTo.stop_le {hi base : ℕ} {spans : List Span} (h : ChainedUpTo hi base spans)
    (hsum : base + (spans.map Span.size).sum ≤ hi) : ∀ s ∈ spans, s.stop ≤ hi := by
  induction spans generalizing base with
  | nil => exact fun s hs => nomatch hs
  | cons s rest ih =>
    obtain ⟨rfl, htail⟩ := h
    rw [List.map_cons, List.sum_cons, ← Nat.add_assoc] at hsum
    have hs : s.stop ≤ hi := (Nat.le_add_right _ _).trans hsum
    exact List.forall_mem_cons.mpr ⟨hs, ih (htail hs) hsum⟩

/-- Behind older spans that all start at the base at the latest, chained spans are placed exactly
when no older one passes the base and there is room for their sum. -/
theorem ChainedUpTo.placed_iff {lo hi base : ℕ} {old new : List Span} (h : ChainedUpTo hi base new)
    (hne : new ≠ [])
    (hpos : ∀ s ∈ new, 0 < s.size) (hold : ∀ o ∈ old, o.start ≤ base) :
    Placed lo hi old new ↔
      (∀ o ∈ old, o.stop ≤ base) ∧ lo ≤ base ∧ base + (new.map Span.size).sum ≤ hi := by
  have hsizes : new.map Span.size ≠ [] := by simpa using hne
  have hsizespos : ∀ n ∈ new.map Span.size, 0 < n := by
    intro n hn
    obtain ⟨s, hs, rfl⟩ := List.mem_map.mp hn
    exact hpos s hs
  constructor
  · intro hplaced
    have heq := h.eq_consecutive fun s hs => ((Span.within_iff (hpos s hs)).mp (hplaced.within s hs)).2
    refine ⟨fun o ho => ?_, (consecutive_within_iff hsizes hsizespos).mp (heq ▸ hplaced.within)⟩
    cases new with
    | nil => exact absurd rfl hne
    | cons s rest =>
      have hstop := (hplaced.apart s List.mem_cons_self o ho).symm.stop_le
        ((hold o ho).trans (Nat.le_of_eq h.1.symm)) (hpos s List.mem_cons_self)
      exact hstop.trans (Nat.le_of_eq h.1)
  · rintro ⟨hstop, hlo, hsum⟩
    rw [h.eq_consecutive (h.stop_le hsum)]
    refine ⟨(consecutive_within_iff hsizes hsizespos).mpr ⟨hlo, hsum⟩, fun s hs o ho => ?_,
      consecutive_pairwise _ _⟩
    exact (Span.apart_of_stop_le ((hstop o ho).trans (consecutive_bounds hs).1)).symm

end DasEdge.Library
